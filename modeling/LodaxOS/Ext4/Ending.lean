/-
# Which disks the ext4 readers come to an end on

Most loops of the two readers end on every disk: the sectors of an inode, the
blocks and extents of a file, the records of a directory, which either move on
or stop the scan. The way through an extent tree does not. Neither reader
keeps count of the depth that an index block gives, so an index block that is
below itself is entered again and again.

For each run over a tree there is an exact condition, and it is about the
blocks of the disk. The loader's recursion over all index blocks ends if no
node that it comes to comes back to itself; it comes to a child when
everything before that child can be had. The way to one logical block, which
the loader takes where the recursion met a bad node, ends if the way does not
come back. So does the driver's way down the first children.

`readers_end_iff` puts the conditions together for the loader and the three
functions of the driver, and `readers_end_loop` is a disk with an index block
that is its own child.
-/
import LodaxOS.Ext4.Driver

namespace LodaxOS.Ext4.Checked

open Bytes Fuel Except

/-! ### Loops that end -/

variable {r : SectorReader}

lemma inodeStep_lt {sector byteInSector readSize : ℕ} (hbyte : byteInSector < 512)
    {b c : ℕ × ℕ × (ℕ → UInt8)} (h : Next (inodeStep r sector byteInSector readSize) b c) :
    readSize - c.1 < readSize - b.1 := by
  obtain ⟨offset, currentSector, raw⟩ := b
  simp only [Next, inodeStep] at h
  split at h
  case isFalse => cases h
  case isTrue hlt =>
    obtain ⟨buf, -, h⟩ := bind_eq_ok h
    obtain rfl := Sum.inr.inj (ok.inj h)
    -- a turn copies at least one byte
    have hsrc : (if currentSector = sector then byteInSector else 0) < 512 := by
      split
      · exact hbyte
      · decide
    simp only
    omega

lemma ends_readInode (r : SectorReader) (sb : Superblock) (descs : List BlockGroupDesc) (ino : ℕ) :
    Ends (readInode r sb descs ino) := by
  refine (avoids_andThen (o := none) (mono_readInodeRaw r sb descs ino) _).mpr ⟨?_, fun raw _ => ?_⟩
  · unfold readInodeRaw
    split
    · exact ⟨_, 0, rfl⟩
    split
    · exact ⟨_, 0, rfl⟩
    split
    · exact ⟨_, 0, rfl⟩
    apply ends_chase_of_lt fun s => sb.inodeSize - s.1
    exact fun b c h => inodeStep_lt (Nat.mod_lt _ (by decide)) h
  · split
    · exact ⟨_, 0, rfl⟩
    · exact ⟨_, 0, rfl⟩

variable {data : ℕ → UInt8} {filename : List UInt8}

/-- A scan goes on only past a record with a length, and only inside of the
directory. -/
lemma dirStep_lt {size : ℕ} {b c : ℕ} (h : Next (dirStep data size filename) b c) : size - c < size - b := by
  simp only [Next, dirStep] at h
  split at h
  · cases h
  split at h
  · cases h
  split at h
  · cases h
  obtain rfl := Sum.inr.inj (ok.inj h)
  omega

lemma dirStep_ne_error (data : ℕ → UInt8) (size : ℕ) (filename : List UInt8) (off : ℕ) (e : Halt) :
    dirStep data size filename off ≠ .error e := by
  unfold dirStep
  split
  · simp
  split
  · simp
  split
  · simp
  · simp

lemma avoids_scanDirectory {size : ℕ} : ∀ {o : Option Halt}, Avoids o (scanDirectory data size filename)
  | none => ends_chase_of_lt (fun off => size - off) (fun _ _ h => dirStep_lt h) 0
  | some e => by
    intro h
    obtain ⟨off, -, herr⟩ := gives_chase_error_iff.mp h
    exact dirStep_ne_error data size filename off _ herr

lemma walkStep_lt {dirSz : ℕ} {name : List UInt8} {b c : ℕ}
    (h : Next (Fs.walkStep data dirSz name) b c) : dirSz - c < dirSz - b := by
  simp only [Next, Fs.walkStep] at h
  split at h
  · cases h
  split at h
  · cases h
  split at h
  · obtain rfl := Sum.inr.inj (ok.inj h)
    omega
  split at h
  · cases h
  split at h
  · cases h
  obtain rfl := Sum.inr.inj (ok.inj h)
  omega

/-! ### Extent trees -/

/-- The root and the blocks that an index entry can name. -/
def nodes : Set (Option ℕ) := insert none (some '' {block | block < 2 ^ 48})

lemma nodes_finite : nodes.Finite := ((Set.finite_lt_nat _).image _).insert _

lemma eiLeaf_lt (raw : ℕ → UInt8) (off : ℕ) : eiLeaf raw off < 2 ^ 48 := by
  have hhi := le16_lt raw (off + 8)
  have hlo := le32_lt raw (off + 4)
  rw [eiLeaf]
  omega

lemma eiLeaf_mem_nodes (raw : ℕ → UInt8) (off : ℕ) : some (eiLeaf raw off) ∈ nodes :=
  Set.mem_insert_of_mem _ ⟨_, eiLeaf_lt raw off, rfl⟩

variable {bs : List (Option ℕ)}

lemma extentNode_child {raw : ℕ → UInt8} {room : ℕ} (h : extentNode raw room = .ok (.inr bs)) :
    ∀ c ∈ bs, ∃ block, c = some block ∧ c ∈ nodes := by
  unfold extentNode at h
  split at h
  · cases h
  split at h
  · cases h
  obtain rfl := Sum.inr.inj (ok.inj h)
  intro c hc
  obtain ⟨off, -, rfl⟩ := List.mem_map.mp hc
  exact ⟨_, rfl, eiLeaf_mem_nodes raw off⟩

lemma treeNode_child {sb : Superblock} {inode : Inode} {b : Option ℕ}
    (h : treeNode r sb inode b = .ok (.inr bs)) : ∀ c ∈ bs, ∃ block, c = some block ∧ c ∈ nodes := by
  cases b with
  | none => exact extentNode_child h
  | some =>
    obtain ⟨raw, -, h⟩ := bind_eq_ok h
    exact extentNode_child h

lemma ends_parseExtents {sb : Superblock} {inode : Inode} :
    Ends (parseExtents r sb inode) ↔ NoReturn (Calls (treeNode r sb inode)) none := by
  apply ends_gather
  apply finite_reach nodes_finite (Set.mem_insert ..)
  rintro c - d ⟨before, after, hc, -⟩
  obtain ⟨block, -, hd⟩ := treeNode_child hc d (List.mem_append_right _ (List.mem_cons_self ..))
  exact hd

lemma resolveInIndex_mem {data : ℕ → UInt8} {room entries k child : ℕ} : ∀ {offs : List ℕ},
    resolveInIndex data room entries k offs = .ok child → some child ∈ nodes
  | [], h => nomatch h
  | off :: offs, h => by
    rw [resolveInIndex] at h
    split at h
    · exact ok.inj h ▸ eiLeaf_mem_nodes data off
    · exact resolveInIndex_mem h

lemma resolveIn_mem {room k : ℕ} {c : Option ℕ} (h : resolveIn data room k = .ok (.inr c)) : c ∈ nodes := by
  unfold resolveIn at h
  split at h
  · cases h
  split at h
  · obtain ⟨block, -, h⟩ := bind_eq_ok h
    cases h
  · obtain ⟨child, hchild, h⟩ := bind_eq_ok h
    exact Sum.inr.inj (ok.inj h) ▸ resolveInIndex_mem hchild

lemma resolveNode_mem {sb : Superblock} {inode : Inode} {k : ℕ} {b c : Option ℕ}
    (h : Next (resolveNode r sb inode k) b c) : c ∈ nodes := by
  cases b with
  | none => exact resolveIn_mem h
  | some =>
    obtain ⟨data, -, h⟩ := bind_eq_ok h
    exact resolveIn_mem h

/-! ### Files -/

section Files

variable {r : SectorReader} {sb : Superblock} {inode : Inode}

/-- The way to logical block `k` of the file does not come back to a node. -/
def WayEnds (r : SectorReader) (sb : Superblock) (inode : Inode) (k : ℕ) : Prop :=
  inode.usesExtents = true → le16 inode.iBlock 0 = 0xF30A → NoReturn (Next (resolveNode r sb inode k)) none

lemma ends_resolveBlock {k : ℕ} : Ends (resolveBlock r sb inode k) ↔ WayEnds r sb inode k := by
  unfold resolveBlock WayEnds
  split
  case isFalse h => exact ⟨fun _ h' => absurd h' h, fun _ => ends_const _⟩
  case isTrue h =>
    split
    case isTrue hm => exact ⟨fun _ _ h' => absurd h' hm, fun _ => ⟨_, 0, rfl⟩⟩
    case isFalse hm =>
      have hfin : {c | Relation.ReflTransGen (Next (resolveNode r sb inode k)) none c}.Finite :=
        finite_reach nodes_finite (Set.mem_insert ..) fun _ _ _ hc => resolveNode_mem hc
      rw [ends_chase hfin]
      exact ⟨fun hw _ _ => hw, fun hw => hw h (not_not.mp hm)⟩

/-- Logical block `k` of the file can be read: it is a hole, or it is on the
disk. -/
def BlockRead (r : SectorReader) (sb : Superblock) (inode : Inode) (size k : ℕ) : Prop :=
  ∃ block, Gives (resolveBlock r sb inode k) (.ok block) ∧ (block = 0 ∨
    ∃ buf, readSlice r (block * (sb.blockSize / 512)) (min ((k + 1) * sb.blockSize) size - min (k * sb.blockSize) size) =
      .ok buf)

lemma offset_succ (k bs size : ℕ) : min (min (k * bs) size + bs) size = min ((k + 1) * bs) size := by
  rw [Nat.succ_mul]
  omega

lemma readDataBlock_ok_iff (block offset len : ℕ) (data : ℕ → UInt8) :
    (∃ data', readDataBlock r sb block offset len data = .ok data') ↔
      block = 0 ∨ ∃ buf, readSlice r (block * (sb.blockSize / 512)) len = .ok buf := by
  unfold readDataBlock
  split
  case isTrue h => exact ⟨fun _ => .inl h, fun _ => ⟨data, rfl⟩⟩
  case isFalse h =>
    cases hread : readSlice r (block * (sb.blockSize / 512)) len with
    | error =>
      constructor
      · rintro ⟨_, h'⟩
        cases h'
      · rintro (h0 | ⟨_, h'⟩)
        · exact absurd h0 h
        · cases h'
    | ok buf => exact ⟨fun _ => .inr ⟨buf, rfl⟩, fun _ => ⟨_, rfl⟩⟩

lemma readDataBlock_error_iff {block offset len : ℕ} {data : ℕ → UInt8} {e : Halt} :
    readDataBlock r sb block offset len data = .error e ↔ block ≠ 0 ∧ readSlice r (block * (sb.blockSize / 512)) len = .error e := by
  unfold readDataBlock
  split
  case isTrue h => exact iff_of_false nofun fun h' => h'.1 h
  case isFalse h =>
    rw [and_iff_right h]
    cases readSlice r (block * (sb.blockSize / 512)) len with
    | error => exact ⟨fun h' => congrArg error (error.inj h'), fun h' => congrArg error (error.inj h')⟩
    | ok => exact iff_of_false nofun nofun

/-- The way to logical block `k` and the read of its data do not come out as `o`. -/
def BlockAvoids (o : Option Halt) (r : SectorReader) (sb : Superblock) (inode : Inode) (size k : ℕ) : Prop :=
  Avoids o (resolveBlock r sb inode k) ∧ ∀ block, Gives (resolveBlock r sb inode k) (.ok block) → ∀ e, o = some e → block ≠ 0 →
    readSlice r (block * (sb.blockSize / 512)) (min ((k + 1) * sb.blockSize) size - min (k * sb.blockSize) size) ≠ .error e

/-- The loop over the blocks comes out as one of the blocks that it comes to
does. -/
lemma avoids_readBlockwise {size : ℕ} {o : Option Halt} : ∀ (left k offset : ℕ) (data : ℕ → UInt8),
    offset = min (k * sb.blockSize) size → (Avoids o (fun n => readBlockwise r sb inode size n left k offset data) ↔
      ∀ j < left, (∀ i < j, BlockRead r sb inode size (k + i)) → BlockAvoids o r sb inode size (k + j))
  | 0, _, _, _, _ => ⟨fun _ j hj => absurd hj (Nat.not_lt_zero j), fun _ => avoids_pure⟩
  | left + 1, k, offset, data, hoff => by
    have hnext : min (offset + sb.blockSize) size = min ((k + 1) * sb.blockSize) size := by
      rw [hoff, offset_succ]
    have ih := fun data' => avoids_readBlockwise (o := o) left (k + 1) (min (offset + sb.blockSize) size) data' hnext
    -- what follows once the block is known
    have hrest : ∀ block, Avoids o (fun n => lift (readDataBlock r sb block offset (min (offset + sb.blockSize) size - offset) data) >>=
        readBlockwise r sb inode size n left (k + 1) (min (offset + sb.blockSize) size)) ↔
        (∀ e, o = some e → block ≠ 0 → readSlice r (block * (sb.blockSize / 512))
          (min ((k + 1) * sb.blockSize) size - min (k * sb.blockSize) size) ≠ .error e) ∧
        ((block = 0 ∨ ∃ buf, readSlice r (block * (sb.blockSize / 512))
          (min ((k + 1) * sb.blockSize) size - min (k * sb.blockSize) size) = .ok buf) →
          ∀ j < left, (∀ i < j, BlockRead r sb inode size (k + 1 + i)) → BlockAvoids o r sb inode size (k + 1 + j)) := by
      intro block
      rw [avoids_lift_bind fun _ => mono_readBlockwise r sb inode size left _ _ _, ← hnext, ← hoff,
        ← readDataBlock_ok_iff block offset _ data]
      simp only [ne_eq, readDataBlock_error_iff, not_and, ih, forall_exists_index]
    refine (avoids_bind (mono_resolveBlock r sb inode k) fun block =>
      (mono_const _).bind fun _ => mono_readBlockwise r sb inode size left _ _ _).trans ?_
    have hshift : ∀ i, k + 1 + i = k + (i + 1) := fun i => by omega
    constructor
    · rintro ⟨hway, hafter⟩ j hj hread
      cases j with
      | zero => exact ⟨hway, fun block hgive => ((hrest block).mp (hafter block hgive)).1⟩
      | succ j =>
        obtain ⟨block, hgive, hb⟩ := hread 0 (Nat.succ_pos j)
        rw [← hshift]
        refine ((hrest block).mp (hafter block hgive)).2 hb j (Nat.lt_of_succ_lt_succ hj) fun i hi => ?_
        rw [hshift]
        exact hread (i + 1) (Nat.succ_lt_succ hi)
    · intro h
      have hfirst := h 0 (Nat.succ_pos left) fun i hi => absurd hi (Nat.not_lt_zero i)
      refine ⟨hfirst.1, fun block hgive => (hrest block).mpr ⟨hfirst.2 block hgive, fun hb j hj hread => ?_⟩⟩
      rw [hshift]
      refine h (j + 1) (Nat.succ_lt_succ hj) fun i hi => ?_
      cases i with
      | zero => exact ⟨block, hgive, hb⟩
      | succ i =>
        have hi' := hread i (Nat.lt_of_succ_lt_succ hi)
        rwa [hshift] at hi'

lemma blockAvoids_none {size k : ℕ} : BlockAvoids none r sb inode size k ↔ WayEnds r sb inode k :=
  (and_iff_left fun _ _ _ h => nomatch h).trans ends_resolveBlock

lemma ends_readBlocks : Ends (readBlocks r sb inode) ↔ (sb.blockSize ≠ 0 → inode.size + sb.blockSize < 2 ^ 64 →
    ∀ k < blocksNeeded sb inode.size, (∀ j < k, BlockRead r sb inode inode.size j) → WayEnds r sb inode k) := by
  unfold readBlocks
  split
  case isTrue h =>
    refine ⟨fun _ hbs hsize => ?_, fun _ => ⟨_, 0, rfl⟩⟩
    rcases h with h | h
    · exact absurd h hbs
    · omega
  case isFalse h =>
    rw [not_or, not_le] at h
    refine (avoids_readBlockwise (o := none) _ 0 0 _ (by simp)).trans ?_
    simp only [zero_add, blockAvoids_none]
    exact ⟨fun hw _ _ => hw, fun hw => hw h.1 h.2⟩

/-- The recursion over the index blocks of the file comes to a node that is
none, or that cannot be read. -/
def BadNode (r : SectorReader) (sb : Superblock) (inode : Inode) : Prop :=
  ∃ b, Relation.ReflTransGen (Calls (treeNode r sb inode)) none b ∧ treeNode r sb inode b = .error .none

lemma gives_parseExtents_none : Gives (parseExtents r sb inode) (.error .none) ↔ BadNode r sb inode :=
  gives_gather_error_iff

/-- No index block that the loader comes to in reading the file is below
itself. A file of 2^63 bytes or more is not read at all. -/
structure FileEnds (r : SectorReader) (sb : Superblock) (inode : Inode) : Prop where
  tree : inode.size < 2 ^ 63 → inode.usesExtents = true → NoReturn (Calls (treeNode r sb inode)) none
  ways : inode.size < 2 ^ 63 → (inode.usesExtents = true → BadNode r sb inode) → sb.blockSize ≠ 0 →
    inode.size + sb.blockSize < 2 ^ 64 → ∀ k < blocksNeeded sb inode.size,
      (∀ j < k, BlockRead r sb inode inode.size j) → WayEnds r sb inode k

lemma ends_readFileInto : Ends (readFileInto r sb inode) ↔ FileEnds r sb inode := by
  unfold readFileInto
  split
  case isTrue h =>
    exact ⟨fun _ => ⟨fun h' => absurd h' (not_lt.mpr h), fun h' => absurd h' (not_lt.mpr h)⟩, fun _ => ⟨_, 0, rfl⟩⟩
  case isFalse h =>
    have hsize := not_le.mp h
    split
    case isFalse hext =>
      rw [ends_readBlocks]
      exact ⟨fun hw => ⟨fun _ h' => absurd h' hext, fun _ _ => hw⟩, fun hw => hw.ways hsize fun h' => absurd h' hext⟩
    case isTrue hext =>
      refine (avoids_bind (o := none) (mono_parseExtents r sb inode).attempt fun p => mono_afterParse r sb inode p).trans ?_
      rw [avoids_attempt, imp_iff_right rfl, ends_parseExtents]
      constructor
      · rintro ⟨htree, hafter⟩
        refine ⟨fun _ _ => htree, fun _ hbad => ?_⟩
        have hnone := gives_attempt.mpr (gives_parseExtents_none.mpr (hbad hext))
        exact ends_readBlocks.mp (hafter (.error .none) hnone)
      · intro hw
        refine ⟨hw.tree hsize hext, fun p hp => ?_⟩
        rcases p with (_ | _) | extents
        · have hbad := gives_parseExtents_none.mp (gives_attempt.mp hp)
          exact ends_readBlocks.mpr (hw.ways hsize fun _ => hbad)
        · exact ⟨_, 0, rfl⟩
        · exact ends_const _

end Files

/-! ### The loader -/

section Loader

variable {r : SectorReader} {sb : Superblock} {descs : List BlockGroupDesc} {filename : List UInt8}

/-- The directory has the name for that inode, as far as it can be read. -/
def Named (r : SectorReader) (sb : Superblock) (dir : Inode) (filename : List UInt8) (ino : ℕ) : Prop :=
  ino ≠ 0 ∧ ∃ data, Gives (readFileInto r sb dir) (.ok data) ∧ Gives (scanDirectory data dir.size filename) (.ok ino)

/-- The two files that the loader reads: the root directory and the named one. -/
inductive Opens (r : SectorReader) (sb : Superblock) (descs : List BlockGroupDesc) (filename : List UInt8) : Inode → Prop
  | root {inode : Inode} (h : Gives (readInode r sb descs 2) (.ok inode)) : Opens r sb descs filename inode
  | file {dir inode : Inode} {ino : ℕ} (hd : Gives (readInode r sb descs 2) (.ok dir))
      (hn : Named r sb dir filename ino) (h : Gives (readInode r sb descs ino) (.ok inode)) :
      Opens r sb descs filename inode

/-- The two inodes that the loader looks up. -/
inductive LooksUp (r : SectorReader) (sb : Superblock) (descs : List BlockGroupDesc) (filename : List UInt8) : ℕ → Prop
  | root : LooksUp r sb descs filename 2
  | file {dir : Inode} {ino : ℕ} (hd : Gives (readInode r sb descs 2) (.ok dir)) (hn : Named r sb dir filename ino) :
      LooksUp r sb descs filename ino

lemma avoids_loadNamed {ino : ℕ} {o : Option Halt} (ho : o ≠ some .none) : Avoids o (loadNamed r sb descs ino) ↔
    (ino ≠ 0 → Avoids o (readInode r sb descs ino) ∧
      ∀ inode, Gives (readInode r sb descs ino) (.ok inode) → Avoids o (readFileInto r sb inode)) := by
  unfold loadNamed
  split
  case isTrue h => exact iff_of_true (avoids_throw.mpr ho) fun h' => absurd h h'
  case isFalse h =>
    rw [imp_iff_right h, avoids_bind (mono_readInode r sb descs ino) fun inode => (mono_readFileInto r sb inode).andThen _]
    simp only [avoids_map (mono_readFileInto r sb _)]

/-- The load comes out as one of its inodes or files does. -/
lemma avoids_loadFrom {o : Option Halt} (ho : o ≠ some .none) : Avoids o (loadFrom r sb descs filename) ↔
    (∀ ino, LooksUp r sb descs filename ino → Avoids o (readInode r sb descs ino)) ∧
      ∀ inode, Opens r sb descs filename inode → Avoids o (readFileInto r sb inode) := by
  have hroot : ∀ root : Inode, Avoids o (fun n => readFileInto r sb root n >>= fun data =>
      scanDirectory data root.size filename n >>= fun ino => loadNamed r sb descs ino n) ↔
        Avoids o (readFileInto r sb root) ∧ ∀ ino, Named r sb root filename ino → Avoids o (readInode r sb descs ino) ∧
          ∀ inode, Gives (readInode r sb descs ino) (.ok inode) → Avoids o (readFileInto r sb inode) := by
    intro root
    rw [avoids_bind (mono_readFileInto r sb root) fun data =>
      (mono_scanDirectory data root.size filename).bind fun ino => mono_loadNamed r sb descs ino]
    refine and_congr_right fun _ => ?_
    have hscan : ∀ data, _ ↔ _ := fun data => avoids_bind (o := o) (mono_scanDirectory data root.size filename)
      fun ino => mono_loadNamed r sb descs ino
    constructor
    · rintro h ino ⟨hne, data, hdata, hino⟩
      exact (avoids_loadNamed ho).mp (((hscan data).mp (h data hdata)).2 ino hino) hne
    · intro h data hdata
      refine (hscan data).mpr ⟨avoids_scanDirectory, fun ino hino => ?_⟩
      exact (avoids_loadNamed ho).mpr fun hne => h ino ⟨hne, data, hdata, hino⟩
  refine (avoids_bind (mono_readInode r sb descs 2) fun root => mono_loadFrom_rest r sb descs filename root).trans ?_
  simp only [hroot]
  constructor
  · rintro ⟨hino, hfile⟩
    refine ⟨fun ino hl => ?_, fun inode hopen => ?_⟩
    · cases hl with
      | root => exact hino
      | file hd hn => exact ((hfile _ hd).2 ino hn).1
    · cases hopen with
      | root hd => exact (hfile inode hd).1
      | file hd hn hi => exact ((hfile _ hd).2 _ hn).2 inode hi
  · rintro ⟨hino, hfile⟩
    refine ⟨hino 2 .root, fun root hd => ⟨hfile root (.root hd), fun ino hn => ?_⟩⟩
    exact ⟨hino ino (.file hd hn), fun inode hi => hfile inode (.file hd hn hi)⟩

lemma ends_loadFrom : Ends (loadFrom r sb descs filename) ↔ ∀ inode, Opens r sb descs filename inode → FileEnds r sb inode := by
  refine (avoids_loadFrom (o := none) (by decide)).trans ((and_iff_right fun ino _ => ends_readInode r sb descs ino).trans ?_)
  exact forall_congr' fun inode => forall_congr' fun _ => ends_readFileInto

/-- No index block that the loader comes to, in the root directory or in the
file, is below itself. -/
def LoadEnds (handles : List Device) (filename : List UInt8) : Prop :=
  ∀ partition, findExt4Partition handles = .ok partition → ∀ volume, openVolume ⟨partition.1, partition.2⟩ = .ok volume →
    ∀ inode, Opens ⟨partition.1, partition.2⟩ volume.1 volume.2 filename inode →
      FileEnds ⟨partition.1, partition.2⟩ volume.1 inode

lemma ends_loadFileFromExt4 {handles : List Device} :
    Ends (loadFileFromExt4 handles filename) ↔ LoadEnds handles filename := by
  have hmono : ∀ partition : Device × ℕ, Mono fun n => loadFile ⟨partition.1, partition.2⟩ filename n :=
    fun partition => mono_loadFile ⟨partition.1, partition.2⟩ filename
  have hpart := ends_lift_bind (x := findExt4Partition handles) hmono
  refine hpart.trans (forall_congr' fun partition => forall_congr' fun _ => ?_)
  have hvol := ends_lift_bind (x := openVolume ⟨partition.1, partition.2⟩) fun volume =>
    mono_loadFrom ⟨partition.1, partition.2⟩ volume.1 volume.2 filename
  exact hvol.trans (forall_congr' fun volume => forall_congr' fun _ => ends_loadFrom)

end Loader

/-! ### The driver -/

section Driver

variable {fs : Fs} {dev : Device}

/-- The buffers that the way down the first children can fill: the part that
is no block's stays as it was. -/
def buffers (fs : Fs) (dev : Device) (ext : ℕ → UInt8) : Set (ℕ → UInt8) :=
  insert ext ((fun block => blit ext 0 (fs.secPerBlk * 512) ((fs.readBlk dev block).toOption.getD fun _ => 0)) ''
    {block | block < 2 ^ 48})

lemma blit_blit (dst src src' : ℕ → UInt8) (off len : ℕ) : blit (blit dst off len src) off len src' = blit dst off len src' := by
  funext i
  by_cases h : off ≤ i ∧ i < off + len
  · rw [blit_of_mem h.1 h.2, blit_of_mem h.1 h.2]
  · rw [blit_of_not_mem h, blit_of_not_mem h, blit_of_not_mem h]

lemma treeStep_mem {sz : ℕ} {file ext c d : ℕ → UInt8} (hc : c ∈ buffers fs dev ext)
    (h : Next (fs.treeStep dev sz file) c d) : d ∈ buffers fs dev ext := by
  simp only [Next, Fs.treeStep] at h
  split at h
  · cases h
  split at h
  · obtain ⟨file', -, h⟩ := bind_eq_ok h
    cases h
  · obtain ⟨buf, hread, h⟩ := bind_eq_ok h
    obtain rfl := Sum.inr.inj (ok.inj h)
    refine .inr ⟨2 ^ 32 * r16 c 20 + r32 c 16, ?_, ?_⟩
    · have hhi : r16 c 20 < 2 ^ 16 := le16_lt _ _
      have hlo : r32 c 16 < 2 ^ 32 := le32_lt _ _
      change _ < 2 ^ 48
      omega
    · simp only [hread, Except.toOption, Option.getD_some]
      rcases hc with rfl | ⟨block, -, rfl⟩
      · rfl
      · exact (blit_blit ..).symm

/-- The way down the first children of the file's extent tree does not come
back to a buffer that it had. -/
def DescentEnds (fs : Fs) (dev : Device) (ino : ℕ) (ext file : ℕ → UInt8) : Prop :=
  ∀ inode, fs.readInode dev ino = .ok inode → 2 ^ 32 * r32 inode 108 + r32 inode 4 ≠ 0 →
    (r32 inode 32).testBit 19 = true →
      NoReturn (Next (fs.treeStep dev (2 ^ 32 * r32 inode 108 + r32 inode 4) file)) (blit ext 0 60 fun i => inode (40 + i))

lemma ends_fsReadFile {ino : ℕ} {ext file : ℕ → UInt8} :
    Ends (fs.readFile dev ino ext file) ↔ DescentEnds fs dev ino ext file := by
  refine (ends_lift_bind fun inode => mono_fsReadFile_rest fs dev ext file inode).trans ?_
  refine forall_congr' fun inode => forall_congr' fun _ => ?_
  split
  case isTrue h => exact ⟨fun _ h' => absurd h h', fun _ => ⟨_, 0, rfl⟩⟩
  case isFalse h =>
    split
    case isTrue hb =>
      refine ⟨fun _ _ h' => ?_, fun _ => ⟨_, 0, rfl⟩⟩
      cases hb.symm.trans h'
    case isFalse hb =>
      have hfin := finite_reach (R := Next (fs.treeStep dev (2 ^ 32 * r32 inode 108 + r32 inode 4) file))
        (((Set.finite_lt_nat (2 ^ 48)).image _).insert _)
        (Set.mem_insert (blit ext 0 60 fun i => inode (40 + i)) _) fun c hc d hd => treeStep_mem hc hd
      refine ((avoids_map (o := none) (mono_chase _) _).trans (ends_chase hfin)).trans ?_
      exact ⟨fun hw _ _ => hw, fun hw => hw h (Bool.eq_true_of_not_eq_false hb)⟩

lemma ends_fsScan (data : ℕ → UInt8) (dirSz : ℕ) (name : List UInt8) : Ends (Fs.scan data dirSz name) := by
  unfold Fs.scan
  split
  · exact ⟨_, 0, rfl⟩
  refine (avoids_andThen (o := none) (mono_chase 0) _).mpr ⟨?_, fun found _ => ?_⟩
  · exact ends_chase_of_lt (fun off => dirSz - off) (fun _ _ h => walkStep_lt h) 0
  · cases found with
    | none => exact ⟨_, 0, rfl⟩
    | some => exact ⟨_, 0, rfl⟩

lemma ends_fsFindInDir {ino : ℕ} {name : List UInt8} {ext scratch : ℕ → UInt8} :
    Ends (fs.findInDir dev ino name ext scratch) ↔ DescentEnds fs dev ino ext scratch := by
  have hrun := avoids_bind (o := none) (f := fun n dir => Fs.scan dir.2 dir.1 name n) (mono_fsReadFile fs dev ino ext scratch)
    fun dir => mono_fsScan dir.2 dir.1 name
  exact (hrun.trans (and_iff_left fun dir _ => ends_fsScan dir.2 dir.1 name)).trans ends_fsReadFile

end Driver

/-! ### Both readers -/

/-- Where the loader's `load_file_from_ext4` and the driver's `read_file` and
`find_in_dir` come to an end, on any disk; `read_inode` always does. -/
theorem readers_end_iff (handles : List Device) (filename : List UInt8) (fs : Fs) (dev : Device) (ino : ℕ)
    (name : List UInt8) (ext file : ℕ → UInt8) :
    (Ends (loadFileFromExt4 handles filename) ↔ LoadEnds handles filename) ∧
      (Ends fun _ => lift (fs.readInode dev ino)) ∧
      (Ends (fs.readFile dev ino ext file) ↔ DescentEnds fs dev ino ext file) ∧
      (Ends (fs.findInDir dev ino name ext file) ↔ DescentEnds fs dev ino ext file) :=
  ⟨ends_loadFileFromExt4, ends_const _, ends_fsReadFile, ends_fsFindInDir⟩

namespace Loop

/-- A volume whose root directory has an index block, block 6, with itself as
its only child. -/
def volume : List (ℕ × List UInt8) :=
  [(1024 + 4, [16]), (1024 + 20, [1]), (1024 + 32, [0, 0x20]), (1024 + 40, [16]),
    (1024 + 56, [0x53, 0xEF]), (1024 + 76, [1]), (1024 + 88, [128]), (2048 + 8, [4]),
    (4224 + 4, [0, 4]), (4224 + 32, [0, 0, 8, 0]), (4224 + 40, [0x0A, 0xF3, 1, 0, 4, 0, 1]), (4224 + 56, [6]),
    (6144, [0x0A, 0xF3, 1, 0, 4, 0, 1]), (6144 + 16, [6])]

/-- A disk that answers every read. -/
def disk : Device where
  sectors := 2 ^ 64
  byte := Sample.place (Sample.table ++ volume.map fun w => (2048 * 512 + w.1, w.2))

def reader : SectorReader := ⟨disk, 2048⟩

lemma find_eq : findExt4Partition [disk] = .ok (disk, 2048) := by
  have h : tryHandleForExt4 disk = .ok 2048 := by decide +kernel
  rw [findExt4Partition, h]

def sb : Superblock := ⟨16, 0, 8192, 16, 0xEF53, 1, 128, 0⟩

set_option maxRecDepth 2000 in
lemma openVolume_eq : openVolume reader = .ok (sb, [⟨4⟩]) := by rfl

/-- The inode of the root directory. -/
def root : Inode := Inode.parse (blit (fun _ => 0) 0 128 fun i => disk.byte ((2048 + 8) * 512 + (128 + i)))

set_option maxRecDepth 2000 in
lemma readInode_root : Gives (readInode reader sb [⟨4⟩] 2) (.ok root) := ⟨2, by rfl⟩

/-- The root and block 6 both have block 6 as their child. -/
lemma calls_six (b : Option ℕ) (h : b = none ∨ b = some 6) : Calls (treeNode reader sb root) b (some 6) := by
  refine ⟨[], [], ?_, fun _ hd => nomatch hd⟩
  rcases h with rfl | rfl
  · rfl
  · rfl

lemma not_fileEnds : ¬ FileEnds reader sb root := by
  intro h
  have hback := h.tree (by decide +kernel) (by decide +kernel) (some 6) (.single (calls_six none (.inl rfl)))
  exact hback (.single (calls_six (some 6) (.inr rfl)))

/-- What the driver makes of the disk. -/
def fs : Fs := ⟨2048, 1024, 2, 16, 128, 2⟩

set_option maxRecDepth 2000 in
lemma mount_eq : Fs.mount disk = .ok fs := by rfl

def inode : ℕ → UInt8 :=
  blit (fun i => disk.byte ((2048 + 8) * 512 + i)) 0 128 fun i => disk.byte ((2048 + 8) * 512 + (128 + i))

/-- The node of the root directory in the driver's buffer. -/
def ext : ℕ → UInt8 := blit (fun _ => 0) 0 60 fun i => inode (40 + i)

/-- The driver's buffer with block 6. -/
def six : ℕ → UInt8 := blit ext 0 1024 fun i => disk.byte ((2048 + 12) * 512 + i)

lemma next_six (c : ℕ → UInt8) (h : c = ext ∨ c = six) : Next (fs.treeStep disk 1024 fun _ => 0) c six := by
  rcases h with rfl | rfl
  · rfl
  · have hstep : fs.treeStep disk 1024 (fun _ => 0) six = .ok (.inr (blit six 0 1024 fun i => disk.byte ((2048 + 12) * 512 + i))) := by
      rfl
    rw [Next, hstep, six, blit_blit]

lemma not_descentEnds : ¬ DescentEnds fs disk 2 (fun _ => 0) fun _ => 0 := by
  intro h
  have hback := h inode (by rfl) (by decide +kernel) (by decide +kernel) six (.single (next_six ext (.inl rfl)))
  exact hback (.single (next_six six (.inr rfl)))

end Loop

/-- A disk that answers every read, on which neither reader comes to an end. -/
theorem readers_end_loop : (∀ lba n, lba * 512 + n ≤ 2 ^ 64 * 512 → ∃ buf, Loop.disk.readBlocks lba n = .ok buf) ∧
      (∀ filename, ¬ Ends (loadFileFromExt4 [Loop.disk] filename)) ∧ Fs.mount Loop.disk = .ok Loop.fs ∧
      ¬ Ends (Loop.fs.readFile Loop.disk 2 (fun _ => 0) fun _ => 0) := by
  refine ⟨fun lba n h => ⟨_, if_pos h⟩, fun filename h => ?_, Loop.mount_eq, fun h => ?_⟩
  · have hends := ends_loadFileFromExt4.mp h (Loop.disk, 2048) Loop.find_eq (Loop.sb, [⟨4⟩]) Loop.openVolume_eq
    exact Loop.not_fileEnds (hends Loop.root (.root Loop.readInode_root))
  · exact Loop.not_descentEnds (ends_fsReadFile.mp h)

end LodaxOS.Ext4.Checked
