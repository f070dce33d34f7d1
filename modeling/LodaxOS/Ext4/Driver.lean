/-
# The ext4 driver, and where it agrees with the boot loader

`drivers/src/bin/ext4.rs` reads the same volume a second time, from a partition
that starts at sector 2048. A buffer is a function from offsets to bytes; what
was in it before stays where nothing is written. Fields are read through
pointers to words, so an offset is rounded down to the word.

The two readers differ in more than one place. The driver

* takes the descriptor of group `g` from the start of block
  `bg_blk + g * sec_per_blk`, which is right for the first group only;
* takes the high half of the inode table's block from byte 24 of the
  descriptor, where the checksums of the bitmaps are;
* takes the inode size from the superblock of revision 0 too;
* follows the first child of an index node only, and puts the blocks of the
  extents one after the other, whatever their logical blocks are;
* steps over an unused directory record by 8 bytes.

`Direct`, `Straight` and `Packed` say that a volume, a file or a directory
keeps clear of these.
-/
import LodaxOS.Ext4.Loading

namespace LodaxOS.Ext4

open Bytes Fuel Volume ExtentEntry List

/-! ### The driver -/

structure Fs where
  partLba : ℕ
  blockSize : ℕ
  secPerBlk : ℕ
  inodesPerG : ℕ
  inodeSize : ℕ
  bgBlk : ℕ

/-- The word at `o` of a buffer. -/
def r16 (p : ℕ → UInt8) (o : ℕ) : ℕ := le16 p (o / 2 * 2)

/-- The double word at `o` of a buffer. -/
def r32 (p : ℕ → UInt8) (o : ℕ) : ℕ := le32 p (o / 4 * 4)

namespace Fs

/-- `mount`, once the block driver answers. -/
def mount (dev : Device) : Read Fs := do
  let sb ← dev.readBlocks (2048 + 2) (2 * 512)
  if r16 sb 56 ≠ 0xEF53 then .error .none
  else if 64 ≤ r32 sb 24 then .error .panic
  else
    let bs := 1024 * 2 ^ r32 sb 24 % 2 ^ 64
    .ok { partLba := 2048, blockSize := bs, secPerBlk := bs / 512, inodesPerG := r32 sb 40,
          inodeSize := r16 sb 88, bgBlk := if 1024 < bs then 1 else 2 }

variable (fs : Fs) (dev : Device)

def readBlk (block : ℕ) : Read (ℕ → UInt8) :=
  if 2 ^ 64 ≤ fs.partLba + block * fs.secPerBlk then .error .panic
  else dev.readBlocks (fs.partLba + block * fs.secPerBlk) (fs.secPerBlk * 512)

/-- The buffer of one block with the inode at its start. The copy to the start
is `copy_nonoverlapping`, which checks that the two runs are apart. -/
def readInode (ino : ℕ) : Read (ℕ → UInt8) :=
  if ino = 0 ∨ fs.inodesPerG = 0 then .error .panic
  else do
    let g := (ino - 1) / fs.inodesPerG
    let idx := (ino - 1) % fs.inodesPerG
    let bg ← fs.readBlk dev (fs.bgBlk + g * fs.secPerBlk)
    if fs.blockSize = 0 then .error .panic
    else do
      let tbl := r32 bg 8 + 2 ^ 32 * r32 bg 24
      let off := idx * fs.inodeSize
      let dst ← fs.readBlk dev (tbl + off / fs.blockSize)
      let inBlk := off % fs.blockSize
      let copyEnd := min fs.inodeSize (fs.blockSize - inBlk)
      if inBlk = 0 then .ok dst
      else if inBlk < copyEnd then .error .panic
      else .ok (blit dst 0 copyEnd fun i => dst (inBlk + i))

/-- The loop over the blocks of an extent, `left` of them from `block` on; it
ends early, with `true`, when the file is complete. -/
def readRun (sz : ℕ) : ℕ → ℕ → ℕ → (ℕ → UInt8) → Read (Bool × ℕ × (ℕ → UInt8))
  | 0, _, dst, file => .ok (false, dst, file)
  | left + 1, block, dst, file =>
    let copy := min fs.blockSize (sz - dst)
    if copy = 0 then .ok (true, dst, file)
    else do
      let dat ← fs.readBlk dev block
      readRun sz left (block + 1) (dst + copy) (blit file dst copy dat)

/-- The loop over the entries of a leaf. -/
def readLeaf (sz : ℕ) (ext : ℕ → UInt8) : List ℕ → ℕ → (ℕ → UInt8) → Read (ℕ → UInt8)
  | [], _, file => .ok file
  | eo :: eos, dst, file => do
    let elen := r16 ext (eo + 4) % 2 ^ 15
    let start := 2 ^ 32 * r16 ext (eo + 6) + r32 ext (eo + 8)
    let (done, dst, file) ← fs.readRun dev sz elen start dst file
    if done then .ok file else readLeaf sz ext eos dst file

/-- A turn of the loop down the tree, which goes to the first child of each
index node, with the buffer of the node. -/
def treeStep (sz : ℕ) (file ext : ℕ → UInt8) : Read ((ℕ → UInt8) ⊕ (ℕ → UInt8)) :=
  if r16 ext 0 ≠ 0xF30A then .error .none
  else if r16 ext 6 = 0 then do
    let file ← fs.readLeaf dev sz ext ((List.range (r16 ext 2)).map fun e => 12 + e * 12) 0 file
    .ok (.inl file)
  else do
    let buf ← fs.readBlk dev (2 ^ 32 * r16 ext 20 + r32 ext 16)
    .ok (.inr (blit ext 0 (fs.secPerBlk * 512) buf))

/-- The size of the file and the file buffer; `ext` and `file` are what the
buffers for the tree and for the file hold before. -/
def readFile (ino : ℕ) (ext file : ℕ → UInt8) (fuel : ℕ) : Load (ℕ × (ℕ → UInt8)) := do
  let inode ← lift (fs.readInode dev ino)
  let sz := 2 ^ 32 * r32 inode 108 + r32 inode 4
  if sz = 0 then pure (0, file)
  else if (r32 inode 32).testBit 19 = false then throw .none
  else do
    let file ← chase (fs.treeStep dev sz file) fuel (blit ext 0 60 fun i => inode (40 + i))
    pure (sz, file)

/-- A turn of the walk over the records of a directory of `dirSz` bytes. -/
def walkStep (data : ℕ → UInt8) (dirSz : ℕ) (name : List UInt8) (off : ℕ) : Read (Option ℕ ⊕ ℕ) :=
  if 2 ^ 64 ≤ off + 8 then .error .panic
  else if dirSz < off + 8 then .ok (.inl none)
  else if r32 data off = 0 then .ok (.inr (off + 8))
  else if r16 data (off + 4) < 8 then .ok (.inl none)
  else if Volume.nameAt data off = name then .ok (.inl (some (r32 data off)))
  else .ok (.inr (off + r16 data (off + 4)))

/-- The search of a directory that has been read. -/
def scan (data : ℕ → UInt8) (dirSz : ℕ) (name : List UInt8) (fuel : ℕ) : Load ℕ :=
  if dirSz = 0 then throw .none
  else do
    let found ← chase (walkStep data dirSz name) fuel 0
    match found with
    | none => throw .none
    | some ino => pure ino

def findInDir (dirIno : ℕ) (name : List UInt8) (ext scratch : ℕ → UInt8) (fuel : ℕ) : Load ℕ := do
  let dir ← fs.readFile dev dirIno ext scratch fuel
  scan dir.2 dir.1 name fuel

end Fs

/-- The loader's walk of a directory: `loadFrom` does this for the root. -/
def SectorReader.lookup (r : SectorReader) (sb : Superblock) (descs : List BlockGroupDesc) (d : ℕ) (name : List UInt8)
    (fuel : ℕ) : Load ℕ := do
  let inode ← readInode r sb descs d fuel
  let data ← readFileInto r sb inode fuel
  let ino ← scanDirectory data inode.size name fuel
  if ino = 0 then throw .none else pure ino

/-! ### More calls -/

section Mono

variable (fs : Fs) (dev : Device)

/-- What follows the inode in `Fs::read_file`. -/
lemma mono_fsReadFile_rest (ext file inode : ℕ → UInt8) : Mono fun n =>
    if 2 ^ 32 * r32 inode 108 + r32 inode 4 = 0 then (pure (0, file) : Load (ℕ × (ℕ → UInt8)))
    else if (r32 inode 32).testBit 19 = false then throw .none
    else chase (fs.treeStep dev (2 ^ 32 * r32 inode 108 + r32 inode 4) file) n (blit ext 0 60 fun i => inode (40 + i)) >>=
      fun file => pure (2 ^ 32 * r32 inode 108 + r32 inode 4, file) := by
  split
  · exact mono_const _
  split
  · exact mono_const _
  · exact (mono_chase _).andThen _

lemma mono_fsReadFile (ino : ℕ) (ext file : ℕ → UInt8) : Mono (fs.readFile dev ino ext file) :=
  (mono_const _).bind fun inode => mono_fsReadFile_rest fs dev ext file inode

lemma mono_fsScan (data : ℕ → UInt8) (dirSz : ℕ) (name : List UInt8) : Mono (Fs.scan data dirSz name) := by
  unfold Fs.scan
  split
  · exact mono_const _
  · exact (mono_chase 0).andThen _

end Mono

/-! ### Where the driver reads what is there -/

namespace Volume

variable (v : Volume)

/-- What `mount` makes of the volume. -/
def fs : Fs where
  partLba := 2048
  blockSize := v.blockSize
  secPerBlk := v.blockSize / 512
  inodesPerG := v.inodesPerGroup
  inodeSize := le16 v (1024 + 88)
  bgBlk := v.descBlock

@[simp]
lemma fs_inodesPerG : v.fs.inodesPerG = v.inodesPerGroup := rfl

@[simp]
lemma fs_inodeSize : v.fs.inodeSize = le16 v (1024 + 88) := rfl

@[simp]
lemma fs_blockSize : v.fs.blockSize = v.blockSize := rfl

@[simp]
lemma fs_bgBlk : v.fs.bgBlk = v.descBlock := rfl

/-- The inode is in the first group, the words that the driver adds to its
table's block number are zero, the table is in the first 2^32 blocks, and the
superblock has the size of an inode. -/
structure Direct (ino : ℕ) : Prop where
  first : v.groupOf ino = 0
  high : le32 v (v.descAt 0 + 24) = 0
  low : v.inodeTable 0 < 2 ^ 32
  inodeSize : le16 v (1024 + 88) = v.inodeSize
  counted : 0 < numGroups v.superblock

/-- The extents in the leftmost leaf below the node at byte `a`. -/
def firstLeaf : ℕ → ℕ → List Extent
  | 0, a => v.extentsOf 0 a
  | depth + 1, a => firstLeaf depth (v.child (entryAt a 0) * v.blockSize)

end Volume

/-- The extents follow each other from logical block `n` on, until they reach
the end of a file of `size` bytes. -/
def Consecutive (bs size : ℕ) : ℕ → List ExtentEntry → Prop
  | n, [] => size ≤ n * bs
  | n, x :: xs => size ≤ n * bs ∨ x.eeBlock = n ∧ Consecutive bs size (n + x.eeLen) xs

/-- The leftmost leaf has all blocks of the file, in order and without holes. -/
def Volume.Straight (v : Volume) (ino : ℕ) : Prop :=
  Consecutive v.blockSize (v.fileSize ino) 0
    ((v.firstLeaf (v.depth ino) (v.inodeAt ino + 40)).map Extent.entry)

/-- The unused records of the directory that come before the name are 8 bytes
long, and the walk does not meet a length of 65536. -/
structure Volume.Packed (v : Volume) (d : ℕ) (name : List UInt8) : Prop extends v.Walked d name where
  unused : ∀ off, v.IsRecord (v.fileByte d) (v.fileSize d) off → le32 (v.fileByte d) off = 0 →
    v.Before d name off → v.recLen (v.fileByte d) off = 8

lemma Volume.firstLeaf_subset {v : Volume} : ∀ {depth a room : ℕ}, v.NodeOk depth a room →
    ∀ e ∈ v.firstLeaf depth a, e ∈ v.extentsOf depth a
  | 0, _, _, _, _, he => he
  | _ + 1, _, _, hnode, e, he => by
    obtain ⟨-, -, -, hentries, hchild⟩ := hnode
    exact mem_flatMap.mpr
      ⟨0, mem_range.mpr hentries, firstLeaf_subset (hchild 0 hentries).2 e he⟩

lemma Consecutive.of_le {bs size n : ℕ} (h : size ≤ n * bs) : ∀ xs : List ExtentEntry, Consecutive bs size n xs
  | [] => h
  | _ :: _ => .inl h

variable {ino : ℕ} {name : List UInt8}

section Blocks

variable {r : SectorReader} (h : r.volume.WellFormed) (hr : r.Holds)
  (hpart : r.partitionOffset = 2048)

include h hr hpart

lemma Fs.mount_eq : Fs.mount r.dev = .ok r.volume.fs := by
  have hroom : r.partitionOffset * 512 + r.volume.blocks * r.volume.blockSize ≤ r.dev.sectors * 512 := hr
  have hsize : 2 * (512 * 2) ≤ r.volume.blocks * r.volume.blockSize := by
    obtain ⟨k, hk, hk2⟩ := r.volume.blockSize_eq
    have hone : 1 ≤ r.volume.descBlock := Nat.le_add_left _ _
    exact Nat.mul_le_mul (lt_of_le_of_lt hone h.descBlock_lt) (by omega)
  rw [hpart] at hroom
  have hin : (2048 + 2) * 512 + 2 * 512 ≤ r.dev.sectors * 512 := by omega
  -- The buffer is the volume from byte 1024 on.
  have hbuf : ∀ i, r.dev.byte ((2048 + 2) * 512 + i) = r.volume (1024 + i) := fun i => by
    rw [SectorReader.volume, hpart, ← add_assoc]
  have h16 : ∀ o, le16 (fun i => r.dev.byte ((2048 + 2) * 512 + i)) o = le16 r.volume (1024 + o) :=
    fun o => le16_congr fun i _ => by rw [hbuf, add_assoc]
  have h32 : ∀ o, le32 (fun i => r.dev.byte ((2048 + 2) * 512 + i)) o = le32 r.volume (1024 + o) :=
    fun o => le32_congr fun i _ => by rw [hbuf, add_assoc]
  have hlog := h.logBlockSize
  have hbs : 1024 * 2 ^ le32 r.volume (1024 + 24) % 2 ^ 64 = r.volume.blockSize :=
    h.superblock_blockSize
  have hdesc : (if 1024 < r.volume.blockSize then 1 else 2) = r.volume.descBlock := by
    obtain ⟨k, hk, hk2⟩ := r.volume.blockSize_eq
    rw [descBlock]
    split
    · rw [Nat.div_eq_of_lt ‹_›]
    · rw [show r.volume.blockSize = 1024 by omega]
  rw [Fs.mount, Device.readBlocks, if_pos hin]
  simp only [bind, Except.bind, r16, r32, h16, h32, Nat.reduceDiv, Nat.reduceMul]
  rw [if_neg (not_not.mpr h.magic), if_neg (by omega)]
  simp only [hbs, hdesc]
  rfl

lemma Fs.readBlk_eq {block : ℕ} (hb : block < r.volume.blocks) (hsmall : block < 2 ^ 49) :
    ∃ buf, r.volume.fs.readBlk r.dev block = .ok buf ∧
      ∀ i < r.volume.blockSize, buf i = r.volume (block * r.volume.blockSize + i) := by
  obtain ⟨k, hk, -⟩ := r.volume.blockSize_eq
  have hsec : r.volume.fs.secPerBlk = k := by
    change r.volume.blockSize / 512 = k
    rw [hk, Nat.mul_div_cancel_left _ (by decide)]
  have hend : (2048 + block * k) * 512 + k * 512 ≤ r.partitionOffset * 512 + r.volume.blocks * r.volume.blockSize :=
    calc (2048 + block * k) * 512 + k * 512
        = 2048 * 512 + (block + 1) * (512 * k) := by ring
      _ ≤ r.partitionOffset * 512 + r.volume.blocks * r.volume.blockSize := by
          rw [hpart, hk]
          exact Nat.add_le_add_left (Nat.mul_le_mul_right _ hb) _
  refine ⟨fun i => r.dev.byte ((2048 + block * k) * 512 + i), ?_, fun i _ => ?_⟩
  · have haddr : ¬2 ^ 64 ≤ r.volume.fs.partLba + block * k := by
      change ¬2 ^ 64 ≤ 2048 + block * k
      have hbs := h.blockSize_le
      have hle : block * k ≤ 2 ^ 49 * 2 ^ 7 := Nat.mul_le_mul hsmall.le (by omega)
      omega
    rw [Fs.readBlk, hsec, if_neg haddr, Device.readBlocks]
    exact if_pos (le_trans hend hr)
  · have hat : (2048 + block * k) * 512 + i = 2048 * 512 + (block * (512 * k) + i) := by ring
    simp only [hat, SectorReader.volume, hpart, hk]

omit h hr hpart in
/-- The block of the inode table, as the driver takes it from the descriptor. -/
lemma Volume.Direct.table_eq (hd : r.volume.Direct ino) {bg : ℕ → UInt8}
    (hbytes : ∀ i < r.volume.blockSize, bg i = r.volume (r.volume.descBlock * r.volume.blockSize + i)) :
    r32 bg 8 + 2 ^ 32 * r32 bg 24 = r.volume.inodeTable 0 := by
  obtain ⟨k, hk, hk2⟩ := r.volume.blockSize_eq
  have hdesc : ∀ o, o + 4 ≤ 32 → le32 bg o = le32 r.volume (r.volume.descAt 0 + o) := fun o ho =>
    le32_congr fun i hi => by
      rw [hbytes _ (by omega), descAt, zero_mul, add_zero, add_assoc]
  have hlow := hd.low
  have hhigh := hd.high
  simp only [r32, Nat.reduceDiv, Nat.reduceMul, hdesc 8 (by decide), hdesc 24 (by decide), hhigh]
  rw [inodeTable] at hlow ⊢
  split
  · rw [if_pos ‹_›] at hlow
    omega
  · rfl

/-- The driver finds the inode where the format says. -/
lemma Fs.readInode_eq (hino : 1 ≤ ino) (hg : r.volume.groupOf ino < r.volume.groups) (hd : r.volume.Direct ino) :
    ∃ buf, r.volume.fs.readInode r.dev ino = .ok buf ∧
      ∀ i < r.volume.inodeSize, buf i = r.volume (r.volume.inodeAt ino + i) := by
  obtain ⟨bg, hbg, hbytes⟩ := Fs.readBlk_eq h hr hpart h.descBlock_lt (lt_of_le_of_lt r.volume.descBlock_le (by decide))
  have hpos := r.volume.blockSize_pos
  have htable := hd.table_eq hbytes
  -- The inode is in one block: its offset and the block size are multiples of its size.
  have hroom := h.inode_room hg
  obtain ⟨hmin, hdvd⟩ := h.inodeSize
  rw [inodeAt, hd.first] at hroom ⊢
  set off := (ino - 1) % r.volume.inodesPerGroup * r.volume.inodeSize with hoff
  have hmod := Nat.div_add_mod' off r.volume.blockSize
  have hmem : r.volume.inodeSize ∣ off % r.volume.blockSize :=
    (Nat.dvd_mod_iff hdvd).mpr (hoff ▸ dvd_mul_left _ _)
  have hin : off % r.volume.blockSize + r.volume.inodeSize ≤ r.volume.blockSize :=
    Nat.le_of_lt_add_of_dvd (Nat.add_lt_add_right (Nat.mod_lt off hpos) _) (Nat.dvd_add hmem (Nat.dvd_refl _)) hdvd
  have hat : (r.volume.inodeTable 0 + off / r.volume.blockSize) * r.volume.blockSize +
      off % r.volume.blockSize = r.volume.inodeTable 0 * r.volume.blockSize + off := by
    rw [add_mul, add_assoc, hmod]
  have hblk : r.volume.inodeTable 0 + off / r.volume.blockSize < r.volume.blocks :=
    Nat.lt_of_mul_lt_mul_right (a := r.volume.blockSize) (by omega)
  have hsmall : r.volume.inodeTable 0 + off / r.volume.blockSize < 2 ^ 49 := by
    have hlow := hd.low
    have hsz : r.volume.inodeSize ≤ 2 ^ 16 := hd.inodeSize ▸ (le16_lt _ _).le
    have hidx : (ino - 1) % r.volume.inodesPerGroup ≤ 2 ^ 32 :=
      (Nat.mod_lt _ h.inodesPerGroup).le.trans (le32_lt _ _).le
    have hle : off ≤ 2 ^ 32 * 2 ^ 16 := hoff ▸ Nat.mul_le_mul hidx hsz
    have hdiv := Nat.div_le_self off r.volume.blockSize
    omega
  obtain ⟨dst, hdst, hdstBytes⟩ := Fs.readBlk_eq h hr hpart hblk hsmall
  have hvalid : ¬(ino = 0 ∨ r.volume.inodesPerGroup = 0) := by
    have := h.inodesPerGroup
    omega
  have hgroup : (ino - 1) / r.volume.inodesPerGroup = 0 := hd.first
  simp only [Fs.readInode, if_neg hvalid, fs_inodesPerG, hgroup, zero_mul, add_zero,
    fs_bgBlk, hbg, htable, fs_inodeSize, hd.inodeSize, fs_blockSize, if_neg hpos.ne', ← hoff,
    hdst, bind, Except.bind]
  by_cases h0 : off % r.volume.blockSize = 0
  · rw [if_pos h0]
    exact ⟨dst, rfl, fun i hi => by rw [hdstBytes i (by omega), ← hat, h0, add_zero]⟩
  · have hle : r.volume.inodeSize ≤ off % r.volume.blockSize :=
      Nat.le_of_dvd (pos_of_ne_zero h0) hmem
    rw [if_neg h0, if_neg (by omega)]
    refine ⟨_, rfl, fun i hi => ?_⟩
    rw [blit_of_mem (Nat.zero_le i) (by omega), hdstBytes _ (by omega), ← hat]
    simp only [Nat.sub_zero, add_assoc]

/-- The loop over the blocks of an extent. `n` blocks of the file are in place
before, so the next goes to byte `n * bs`, or to the end of the file. -/
lemma Fs.readRun_eq (sz : ℕ) : ∀ (left block n : ℕ) (file : ℕ → UInt8), block + left ≤ r.volume.blocks → block + left ≤ 2 ^ 49 →
    ∃ done file', r.volume.fs.readRun r.dev sz left block (min (n * r.volume.blockSize) sz) file =
        .ok (done, min ((n + left) * r.volume.blockSize) sz, file') ∧
      (done = true → sz ≤ (n + left) * r.volume.blockSize) ∧
      ∀ i < sz, file' i =
        if n * r.volume.blockSize ≤ i ∧ i < (n + left) * r.volume.blockSize then r.volume.mapped block n i else file i
  | 0, block, n, file, _, _ => ⟨false, file, rfl, (nomatch ·), fun i _ =>
      (if_neg (by rw [add_zero]; omega)).symm⟩
  | left + 1, block, n, file, hb, hsmall => by
    have hpos := r.volume.blockSize_pos
    have hstep : (n + (left + 1)) * r.volume.blockSize =
        n * r.volume.blockSize + r.volume.blockSize + left * r.volume.blockSize := by ring
    rw [Fs.readRun]
    by_cases hfull : sz ≤ n * r.volume.blockSize
    · have h0 : min r.volume.fs.blockSize (sz - min (n * r.volume.blockSize) sz) = 0 := by omega
      refine ⟨true, file, ?_, fun _ => by omega, fun i hi => (if_neg (by omega)).symm⟩
      simp only [h0, if_true]
      congr 3
      omega
    · obtain ⟨dat, hdat, hbytes⟩ := Fs.readBlk_eq h hr hpart (show block < r.volume.blocks by omega) (by omega)
      have hdst : min (n * r.volume.blockSize) sz = n * r.volume.blockSize := by omega
      have hsucc : (n + 1) * r.volume.blockSize = n * r.volume.blockSize + r.volume.blockSize := by ring
      rw [hdst, fs_blockSize]
      generalize hcopy : min r.volume.blockSize (sz - n * r.volume.blockSize) = copy
      have hnext : n * r.volume.blockSize + copy = min ((n + 1) * r.volume.blockSize) sz := by omega
      obtain ⟨done, file', hrun, hdone, hfile⟩ := Fs.readRun_eq sz left (block + 1) (n + 1)
        (blit file (n * r.volume.blockSize) copy dat) (by omega) (by omega)
      rw [add_right_comm] at hrun hdone hfile
      refine ⟨done, file', ?_, hdone, fun i hi => ?_⟩
      · rw [if_neg (show ¬copy = 0 by omega), hdat, hnext]
        exact hrun
      · rw [hfile i hi]
        by_cases hlater : (n + 1) * r.volume.blockSize ≤ i
        · have hdiv : n + 1 ≤ i / r.volume.blockSize := (Nat.le_div_iff_mul_le hpos).mpr hlater
          by_cases hend : i < (n + left + 1) * r.volume.blockSize
          · rw [if_pos ⟨hlater, hend⟩, if_pos ⟨by omega, hend⟩, mapped, mapped,
              show block + 1 + (i / r.volume.blockSize - (n + 1)) = block + (i / r.volume.blockSize - n) by omega]
          · rw [if_neg (fun hc => hend hc.2), if_neg (fun hc => hend hc.2), blit_of_not_mem (by omega)]
        · rw [if_neg (fun hc => hlater hc.1)]
          by_cases hl : n * r.volume.blockSize ≤ i
          · have hdiv : i / r.volume.blockSize = n := Nat.div_eq_of_lt_le hl (by omega)
            have hmod := Nat.div_add_mod' i r.volume.blockSize
            rw [hdiv] at hmod
            rw [if_pos ⟨hl, by omega⟩, blit_of_mem hl (by omega), hbytes _ (by omega), mapped, hdiv,
              Nat.sub_self, add_zero, show i - n * r.volume.blockSize = i % r.volume.blockSize by omega]
          · rw [if_neg (fun hc => hl hc.1), blit_of_not_mem (fun hc => hl hc.1)]

/-- The loop over the entries of a leaf, whose extents are consecutive from
block `n` on: the rest of the file comes from the extents. -/
lemma Fs.readLeaf_eq (sz : ℕ) (ext : ℕ → UInt8) (entry : ℕ → ExtentEntry) : ∀ (eos : List ℕ) (n : ℕ) (file : ℕ → UInt8),
    (∀ eo ∈ eos, r16 ext (eo + 4) % 2 ^ 15 = (entry eo).eeLen ∧
      2 ^ 32 * r16 ext (eo + 6) + r32 ext (eo + 8) = (entry eo).eeStart ∧
      (entry eo).eeStart + (entry eo).eeLen ≤ r.volume.blocks) →
    Consecutive r.volume.blockSize sz n (eos.map entry) →
    ∃ file', r.volume.fs.readLeaf r.dev sz ext eos (min (n * r.volume.blockSize) sz) file = .ok file' ∧
      ∀ i < sz, (i < n * r.volume.blockSize → file' i = file i) ∧
        (n * r.volume.blockSize ≤ i → ∃ x ∈ eos.map entry, x.Covers (i / r.volume.blockSize) ∧
          file' i = r.volume.mapped x.eeStart x.eeBlock i)
  | [], n, file, _, hcons => ⟨file, rfl, fun i hi => ⟨fun _ => rfl, fun hle => by
      have : sz ≤ n * r.volume.blockSize := hcons
      omega⟩⟩
  | eo :: eos, n, file, hext, hcons => by
    obtain ⟨hlen, hstart, hroom⟩ := hext eo mem_cons_self
    have hpos := r.volume.blockSize_pos
    have hsmall : (entry eo).eeStart + (entry eo).eeLen ≤ 2 ^ 49 := by
      have hhi : r16 ext (eo + 6) < 2 ^ 16 := le16_lt _ _
      have hlo : r32 ext (eo + 8) < 2 ^ 32 := le32_lt _ _
      omega
    obtain ⟨done, file1, hrun, hdone, hfile1⟩ := Fs.readRun_eq h hr hpart sz (entry eo).eeLen
      (entry eo).eeStart n file hroom hsmall
    have hsum : (n + (entry eo).eeLen) * r.volume.blockSize =
        n * r.volume.blockSize + (entry eo).eeLen * r.volume.blockSize := by ring
    have hbefore : ∀ i < sz, i < n * r.volume.blockSize → file1 i = file i := fun i hi hlt => by
      rw [hfile1 i hi, if_neg (by omega)]
    -- A byte of the run is covered by the extent, which starts at block `n`.
    have hhere : ∀ i < sz, n * r.volume.blockSize ≤ i → i < (n + (entry eo).eeLen) * r.volume.blockSize →
        (entry eo).Covers (i / r.volume.blockSize) ∧
          file1 i = r.volume.mapped (entry eo).eeStart (entry eo).eeBlock i := fun i hi hl hu => by
      obtain ⟨hn, -⟩ := hcons.resolve_left (by omega)
      rw [hfile1 i hi, if_pos ⟨hl, hu⟩, hn]
      exact ⟨(covers_iff hpos).mpr ⟨by rw [hn]; exact hl, by rw [hn]; omega⟩, rfl⟩
    simp only [Fs.readLeaf, hlen, hstart, hrun, bind, Except.bind]
    cases done with
    | true =>
      have hfull := hdone rfl
      refine ⟨file1, rfl, fun i hi => ⟨hbefore i hi, fun hl => ?_⟩⟩
      exact ⟨entry eo, mem_cons_self, hhere i hi hl (by omega)⟩
    | false =>
      have hrest : Consecutive r.volume.blockSize sz (n + (entry eo).eeLen) (eos.map entry) := by
        rcases hcons with hle | ⟨-, hrest⟩
        · exact .of_le (by omega) _
        · exact hrest
      obtain ⟨file', hleaf, hfile'⟩ := Fs.readLeaf_eq sz ext entry eos _ file1
        (fun eo' heo' => hext eo' (mem_cons_of_mem eo heo')) hrest
      refine ⟨file', hleaf, fun i hi => ⟨fun hlt => ?_, fun hl => ?_⟩⟩
      · rw [(hfile' i hi).1 (by omega), hbefore i hi hlt]
      · by_cases hu : i < (n + (entry eo).eeLen) * r.volume.blockSize
        · rw [(hfile' i hi).1 hu]
          exact ⟨entry eo, mem_cons_self, hhere i hi hl hu⟩
        · obtain ⟨x, hx, hc, heq⟩ := (hfile' i hi).2 (by omega)
          exact ⟨x, mem_cons_of_mem _ hx, hc, heq⟩

/-- In a leaf the loop ends with the bytes of the extents. -/
lemma Fs.treeStep_leaf (sz : ℕ) (file : ℕ → UInt8) {a room : ℕ} {ext : ℕ → UInt8} (hnode : r.volume.NodeOk 0 a room)
    (hraw : ∀ i < 12 + 12 * le16 r.volume (a + 2), ext i = r.volume (a + i))
    (hplaced : ∀ e ∈ r.volume.firstLeaf 0 a, e.start + e.len ≤ r.volume.blocks)
    (hcons : Consecutive r.volume.blockSize sz 0 ((r.volume.firstLeaf 0 a).map Extent.entry)) :
    ∃ file', r.volume.fs.treeStep r.dev sz file ext = .ok (.inl file') ∧
      ∀ i < sz, ∃ e ∈ r.volume.firstLeaf 0 a, e.entry.Covers (i / r.volume.blockSize) ∧
        file' i = r.volume.mapped e.start e.block i := by
  obtain ⟨hmagic, hdepth, -⟩ := hnode
  -- The entries in the buffer are the extents of the leaf.
  have hmap : ((List.range (le16 r.volume (a + 2))).map fun e => 12 + e * 12).map
      (parse ext) = (r.volume.firstLeaf 0 a).map Extent.entry := by
    rw [firstLeaf, extentsOf, map_map, map_map]
    exact map_congr_left fun e he =>
      parse_eq (node_entry hraw (mem_range.mp he))
  have hext : ∀ eo ∈ (List.range (le16 r.volume (a + 2))).map fun e => 12 + e * 12,
      r16 ext (eo + 4) % 2 ^ 15 = (parse ext eo).eeLen ∧
      2 ^ 32 * r16 ext (eo + 6) + r32 ext (eo + 8) = (parse ext eo).eeStart ∧
      (parse ext eo).eeStart + (parse ext eo).eeLen ≤ r.volume.blocks := fun eo heo => by
    have hin : parse ext eo ∈ (r.volume.firstLeaf 0 a).map Extent.entry :=
      hmap ▸ mem_map_of_mem heo
    obtain ⟨e, he, heq⟩ := mem_map.mp hin
    obtain ⟨i, -, rfl⟩ := mem_map.mp heo
    refine ⟨?_, ?_, ?_⟩
    · rw [r16, show (12 + i * 12 + 4) / 2 * 2 = 12 + i * 12 + 4 by omega]
      rfl
    · rw [r16, r32, show (12 + i * 12 + 6) / 2 * 2 = 12 + i * 12 + 6 by omega,
        show (12 + i * 12 + 8) / 4 * 4 = 12 + i * 12 + 8 by omega]
      rfl
    · rw [← heq]
      exact le_trans (Nat.add_le_add_left e.entry_len_le _) (hplaced e he)
  obtain ⟨file', hleaf, hfile'⟩ := Fs.readLeaf_eq h hr hpart sz ext (parse ext) _ 0 file
    hext (hmap ▸ hcons)
  refine ⟨file', ?_, fun i hi => ?_⟩
  · have hmagic' : r16 ext 0 = 0xF30A := (node_le16 hraw (by decide)).trans hmagic
    have hdepth' : r16 ext 6 = 0 := (node_le16 hraw (by decide)).trans hdepth
    have hcount : r16 ext 2 = le16 r.volume (a + 2) := node_le16 hraw (by decide)
    rw [zero_mul, Nat.zero_min] at hleaf
    rw [Fs.treeStep, if_neg (not_not.mpr hmagic'), if_pos hdepth', hcount, hleaf]
    rfl
  · obtain ⟨x, hx, hc, heq⟩ := (hfile' i hi).2 (by rw [zero_mul]; exact Nat.zero_le i)
    rw [hmap] at hx
    obtain ⟨e, he, rfl⟩ := mem_map.mp hx
    exact ⟨e, he, hc, heq⟩

/-- The loop down the tree ends in the leftmost leaf. -/
lemma Fs.treeStep_gives (sz : ℕ) (file : ℕ → UInt8) : ∀ (depth a room : ℕ) (ext : ℕ → UInt8),
    r.volume.NodeOk depth a room →
    (∀ i < 12 + 12 * le16 r.volume (a + 2), ext i = r.volume (a + i)) →
    (∀ e ∈ r.volume.firstLeaf depth a, e.start + e.len ≤ r.volume.blocks) →
    Consecutive r.volume.blockSize sz 0 ((r.volume.firstLeaf depth a).map Extent.entry) →
    ∃ file', Gives (fun n => chase (r.volume.fs.treeStep r.dev sz file) n ext) (.ok file') ∧
      ∀ i < sz, ∃ e ∈ r.volume.firstLeaf depth a, e.entry.Covers (i / r.volume.blockSize) ∧
        file' i = r.volume.mapped e.start e.block i
  | 0, _, _, _, hnode, hraw, hplaced, hcons => by
    obtain ⟨file', hstep, hfile'⟩ := Fs.treeStep_leaf h hr hpart sz file hnode hraw hplaced hcons
    exact ⟨file', (gives_chase_stop hstep).mpr rfl, hfile'⟩
  | depth + 1, a, room, ext, hnode, hraw, hplaced, hcons => by
    obtain ⟨hmagic, hdepth, -, hentries, hchild⟩ := hnode
    obtain ⟨hblock, hbelow⟩ := hchild 0 hentries
    have hleaf : 2 ^ 32 * r16 ext 20 + r32 ext 16 = r.volume.child (entryAt a 0) :=
      eiLeaf_eq (node_entry hraw hentries)
    have hsmall : r.volume.child (entryAt a 0) < 2 ^ 49 := by
      have hhi : r16 ext 20 < 2 ^ 16 := le16_lt _ _
      have hlo : r32 ext 16 < 2 ^ 32 := le32_lt _ _
      omega
    obtain ⟨buf, hbuf, hbytes⟩ := Fs.readBlk_eq h hr hpart hblock hsmall
    have hsec : r.volume.fs.secPerBlk * 512 = r.volume.blockSize := by
      obtain ⟨k, hk, -⟩ := r.volume.blockSize_eq
      change r.volume.blockSize / 512 * 512 = _
      rw [hk, Nat.mul_div_cancel_left _ (by decide), mul_comm]
    have hroom := WellFormed.room_of_nodeOk hbelow
    obtain ⟨file', htree, hfile'⟩ := Fs.treeStep_gives sz file depth _ _
      (blit ext 0 r.volume.blockSize buf) hbelow
      (fun i hi => by rw [blit_of_mem (Nat.zero_le i) (by omega), hbytes _ (by omega)]; rfl)
      hplaced hcons
    have hdepth' : r16 ext 6 ≠ 0 := by
      change le16 ext 6 ≠ 0
      rw [node_le16 hraw (by decide), hdepth]
      exact Nat.succ_ne_zero depth
    have hmagic' : r16 ext 0 = 0xF30A := (node_le16 hraw (by decide)).trans hmagic
    have hstep : Next (r.volume.fs.treeStep r.dev sz file) ext (blit ext 0 r.volume.blockSize buf) := by
      rw [Next, Fs.treeStep, if_neg (not_not.mpr hmagic'), if_neg hdepth', hleaf, hbuf, hsec]
      rfl
    exact ⟨file', (gives_chase_next hstep).mpr htree, hfile'⟩

/-- The file buffer after `read_file`: each byte comes from an extent that
covers it. -/
lemma Fs.readFile_gives (hfile : r.volume.FileOk ino)
    (hd : r.volume.Direct ino) (hs : r.volume.Straight ino) (ext file : ℕ → UInt8) :
    ∃ file', Gives (r.volume.fs.readFile r.dev ino ext file) (.ok (r.volume.fileSize ino, file')) ∧
      ∀ i < r.volume.fileSize ino, ∃ e ∈ r.volume.extents ino, e.entry.Covers (i / r.volume.blockSize) ∧
        file' i = r.volume.mapped e.start e.block i := by
  obtain ⟨inode, hinode, hbytes⟩ := Fs.readInode_eq h hr hpart hfile.number hfile.group hd
  have hmin := h.inodeSize.1
  have h32 : ∀ o, o + 4 ≤ 128 → le32 inode o = le32 r.volume (r.volume.inodeAt ino + o) :=
    fun o ho => le32_congr fun i hi => by rw [hbytes _ (by omega), add_assoc]
  have hsz : 2 ^ 32 * r32 inode 108 + r32 inode 4 = r.volume.fileSize ino := by
    change 2 ^ 32 * le32 inode 108 + le32 inode 4 = _
    rw [h32 108 (by decide), h32 4 (by decide), fileSize, add_comm]
  have hflags : ¬(r32 inode 32).testBit 19 = false := by
    change ¬(le32 inode 32).testBit 19 = false
    rw [h32 32 (by decide), hfile.flags]
    decide
  unfold Fs.readFile
  simp only [gives_lift_bind hinode, hsz]
  by_cases h0 : r.volume.fileSize ino = 0
  · simp only [h0]
    exact ⟨file, ⟨0, rfl⟩, fun i hi => absurd hi (Nat.not_lt_zero i)⟩
  · have hnode := hfile.node
    have hroom := WellFormed.room_of_nodeOk hnode
    obtain ⟨file', htree, hfile'⟩ := Fs.treeStep_gives h hr hpart (r.volume.fileSize ino) file
      (r.volume.depth ino) _ _ (blit ext 0 60 fun i => inode (40 + i)) hnode
      (fun i hi => by
        rw [blit_of_mem (Nat.zero_le i) (by omega), hbytes _ (by omega), Nat.sub_zero, add_assoc])
      (fun e he => (hfile.placed e (firstLeaf_subset hnode e he)).2.2) hs
    simp only [if_neg h0, if_neg hflags]
    refine ⟨file', htree.andThen (mono_chase _) rfl, fun i hi => ?_⟩
    obtain ⟨e, he, hc, heq⟩ := hfile' i hi
    exact ⟨e, firstLeaf_subset hnode e he, hc, heq⟩

end Blocks

/-! ### Directories -/

namespace Volume.DirOk

variable {v : Volume} {d : ℕ} (h : v.DirOk d)

include h

lemma record_aligned {off : ℕ} (hoff : v.IsRecord (v.fileByte d) (v.fileSize d) off) : 4 ∣ off := by
  induction hoff with
  | first k =>
    obtain ⟨m, hm, -⟩ := v.blockSize_eq
    exact Dvd.dvd.mul_left ⟨128 * m, by omega⟩ k
  | next hoff _ ih => exact Nat.dvd_add ih (h.record _ hoff).2.2

section Walk

variable (hp : v.Packed d name) (hsize : v.fileSize d ≤ 2 ^ 48) {data : ℕ → UInt8}
  (hdata : ∀ i < v.fileSize d, data i = v.fileByte d i)

include hp hsize hdata

omit hp in
/-- One turn of the driver's walk, at a record. -/
lemma walkStep_record (name : List UInt8) {off : ℕ} (hoff : v.IsRecord (v.fileByte d) (v.fileSize d) off) :
    Fs.walkStep data (v.fileSize d) name off =
      if le32 (v.fileByte d) off = 0 then .ok (.inr (off + 8))
      else if le16 (v.fileByte d) (off + 4) < 8 then .ok (.inl none)
      else if nameAt (v.fileByte d) off = name then .ok (.inl (some (le32 (v.fileByte d) off)))
      else .ok (.inr (off + le16 (v.fileByte d) (off + 4))) := by
  have hend := h.record_end hoff (h.record_lt hoff)
  have hname := (h.record off hoff).1
  obtain ⟨hle16, hle32, -, hnameAt⟩ := h.record_fields hdata hoff
  obtain ⟨m, rfl⟩ := h.record_aligned hoff
  have h32 : r32 data (4 * m) = le32 (v.fileByte d) (4 * m) := by
    rw [r32, show 4 * m / 4 * 4 = 4 * m by omega, hle32]
  have h16 : r16 data (4 * m + 4) = le16 (v.fileByte d) (4 * m + 4) := by
    rw [r16, show (4 * m + 4) / 2 * 2 = 4 * m + 4 by omega, hle16]
  rw [Fs.walkStep, if_neg (by omega), if_neg (by omega), h32, h16, hnameAt]

lemma walkStep_walks : v.Walks d name (Fs.walkStep data (v.fileSize d) name) none some := by
  have hnone : ∀ {off'}, off' ≤ v.fileSize d + 65535 → v.fileSize d < off' + 8 →
      Fs.walkStep data (v.fileSize d) name off' = .ok (.inl none) := fun hsmall hlt => by
    rw [Fs.walkStep, if_neg (by omega), if_pos hlt]
  refine ⟨fun off hoff hlive hname => ?_, fun off hoff hbefore hmore => ?_, fun off hoff hbefore hend => ?_,
    hnone (by omega) (by omega)⟩
  all_goals
    have hlen := (h.record off hoff).1
    have hstep := h.walkStep_record hsize hdata name hoff
  · have hraw : ¬le16 (v.fileByte d) (off + 4) < 8 := by
      have := hp.named off hoff hlive hname
      rcases v.recLen_cases (v.fileByte d) off with hraw | ⟨-, hraw⟩ <;> omega
    rw [hstep, if_neg hlive, if_neg hraw, if_pos hname]
  · by_cases h0 : le32 (v.fileByte d) off = 0
    · rw [if_pos h0, ← hp.unused off hoff h0 hbefore] at hstep
      exact hstep
    · have hraw := (v.recLen_cases _ off).resolve_right fun hc => hp.before off hoff hbefore hmore hc.1
      rw [if_neg h0, if_neg (by omega), if_neg fun hname => hbefore.not_named hoff ⟨h0, hname⟩, hraw] at hstep
      exact hstep
  · have hlt := h.record_lt hoff
    have := le16_lt (v.fileByte d) (off + 4)
    by_cases h0 : le32 (v.fileByte d) off = 0
    · have h8 := hp.unused off hoff h0 hbefore
      rw [if_pos h0] at hstep
      exact (gives_chase_next hstep).mpr ((gives_chase_stop (hnone (by omega) (by omega))).mpr rfl)
    by_cases hshort : le16 (v.fileByte d) (off + 4) < 8
    · rw [if_neg h0, if_pos hshort] at hstep
      exact (gives_chase_stop hstep).mpr rfl
    · rw [if_neg h0, if_neg hshort, if_neg fun hname => hbefore.not_named hoff ⟨h0, hname⟩] at hstep
      refine (gives_chase_next hstep).mpr ((gives_chase_stop (hnone (by omega) ?_)).mpr rfl)
      rcases v.recLen_cases (v.fileByte d) off with hraw | ⟨hraw, hc⟩ <;> omega

end Walk

end Volume.DirOk

/-! ### The two readers -/

section Agreement

variable {r : SectorReader} (h : r.volume.WellFormed) (hr : r.Holds) (hpart : r.partitionOffset = 2048)

include h hpart

lemma reaches_descs : r.Reaches (r.volume.descBlock * r.volume.blockSize) := by
  have hle := Nat.mul_le_mul r.volume.descBlock_le h.blockSize_le
  unfold SectorReader.Reaches
  omega

/-- The driver's `Direct` is enough for the loader too. -/
lemma Volume.Direct.found (hd : r.volume.Direct ino) : r.Found ino where
  counted := by rw [hd.first]; exact hd.counted
  aligned := .inl hd.first
  low := by rw [hd.first]; exact hd.low
  reached i hi := by
    have hbs := h.blockSize_le
    have hsz : r.volume.inodeSize ≤ 2 ^ 16 := hd.inodeSize ▸ (le16_lt _ _).le
    have hidx : (ino - 1) % r.volume.inodesPerGroup ≤ 2 ^ 32 :=
      (Nat.mod_lt _ h.inodesPerGroup).le.trans (le32_lt _ _).le
    have htable := Nat.mul_le_mul hd.low.le hbs
    have hoff := Nat.mul_le_mul hidx hsz
    unfold SectorReader.Reaches
    rw [inodeAt, hd.first]
    omega

variable {descs : List BlockGroupDesc} (hdescs : readDescs r r.volume.superblock = .ok descs)

include hr hdescs

/-- The same size and contents. -/
lemma readFile_agree (hfile : r.volume.FileOk ino) (hd : r.volume.Direct ino) (hable : r.Readable ino)
    (hs : r.volume.Straight ino) (ext file : ℕ → UInt8) :
    ∃ inode data file', Gives (readInode r r.volume.superblock descs ino) (.ok inode) ∧
      Gives (readFileInto r r.volume.superblock inode) (.ok data) ∧
      Gives (r.volume.fs.readFile r.dev ino ext file) (.ok (inode.size, file')) ∧
      inode.size = r.volume.fileSize ino ∧ r.volume.IsInode ino inode ∧
      ∀ i < inode.size, file' i = data i := by
  obtain ⟨inode, hinode, his⟩ :=
    h.readInode_gives hr (reaches_descs h hpart) hdescs hfile.number hfile.group (hd.found h hpart)
  obtain ⟨data, hdata, hbytes⟩ := h.readFileInto_entries hr hfile hable his
  obtain ⟨file', hfile', hbytes'⟩ := Fs.readFile_gives h hr hpart hfile hd hs ext file
  refine ⟨inode, data, file', hinode, hdata, his.size ▸ hfile', his.size, his, fun i hi => ?_⟩
  rw [his.size] at hi
  obtain ⟨e, he, hc, heq⟩ := hbytes' i hi
  rw [heq, (hbytes i hi).1 e he hc]

/-- The same inode number, or none. -/
lemma findInDir_agree {d : ℕ} (hdir : r.volume.DirOk d) (hd : r.volume.Direct d) (hplain : r.Plain d)
    (hs : r.volume.Straight d) (hp : r.volume.Packed d name) (ext scratch : ℕ → UInt8) :
    ∃ x, Gives (r.volume.fs.findInDir r.dev d name ext scratch) x ∧ Gives (r.lookup r.volume.superblock descs d name) x := by
  obtain ⟨inode, data, file', hinode, hread, hfile', hsize, his, hagree⟩ :=
    readFile_agree h hr hpart hdescs hdir.toFileOk hd hplain.toReadable hs ext scratch
  obtain ⟨data2, hread2, hbytes⟩ := h.readFileInto_gives hr hdir.toFileOk hplain his
  obtain rfl : data = data2 := Except.ok.inj (hread.unique (mono_readFileInto _ _ _) hread2)
  have hbytes' : ∀ i < r.volume.fileSize d, file' i = r.volume.fileByte d i := fun i hi =>
    (hagree i (hsize ▸ hi)).trans (hbytes i hi)
  rw [hsize] at hfile'
  -- what the loader finds, and what the driver finds
  obtain ⟨ino, hscan, hnamed, habsent⟩ := hdir.scanDirectory_gives hbytes hp.toWalked
  have hlookup : Gives (r.lookup r.volume.superblock descs d name) (if ino = 0 then .error .none else .ok ino) := by
    refine Gives.bind (mono_readInode _ _ _ _) (fun inode => (mono_readFileInto _ _ inode).bind fun data =>
      (mono_scanDirectory data _ name).andThen _) hinode ?_
    refine Gives.bind (mono_readFileInto _ _ _) (fun data => (mono_scanDirectory data _ name).andThen _) hread ?_
    rw [hsize]
    refine hscan.andThen (mono_scanDirectory _ _ _) ?_
    split <;> rfl
  refine ⟨_, ?_, hlookup⟩
  refine Gives.bind (f := fun n dir => Fs.scan dir.2 dir.1 name n) (mono_fsReadFile _ _ _ _ _)
    (fun dir => mono_fsScan dir.2 dir.1 name) hfile' ?_
  unfold Fs.scan
  by_cases h0 : r.volume.fileSize d = 0
  · have hino : ino = 0 := by
      by_contra hne
      obtain ⟨off, hoff, -⟩ := hnamed hne
      have := hdir.record_lt hoff
      omega
    simp only [if_pos h0, if_pos hino]
    exact ⟨0, rfl⟩
  · have hsize48 : r.volume.fileSize d ≤ 2 ^ 48 := hdir.size.trans (Nat.mul_le_mul_left _ h.blockSize_le)
    obtain ⟨found, hwalk, hfound⟩ := hdir.walks_gives (hdir.walkStep_walks hp hsize48 hbytes')
    simp only [if_neg h0]
    refine hwalk.andThen (mono_chase 0) ?_
    obtain ⟨ino', hname, rfl⟩ | ⟨rfl, hno⟩ := hfound
    · have hne : ino ≠ 0 := fun h0 => habsent h0 ino' hname
      rw [if_neg hne, hdir.unique name _ _ (hnamed hne) hname]
      rfl
    · have hino : ino = 0 := by
        by_contra hne
        exact hno ino (hnamed hne)
      rw [if_pos hino]
      rfl

end Agreement

/-- The driver and the loader read the same inodes, find the same names and
read the same files. -/
theorem readers_agree {r : SectorReader} (hwf : r.volume.WellFormed) (hpart : r.partitionOffset = 2048)
    (hroom : r.Holds) :
    ∃ fs descs, Fs.mount r.dev = .ok fs ∧ readDescs r r.volume.superblock = .ok descs ∧
      (∀ ino, 1 ≤ ino → r.volume.groupOf ino < r.volume.groups → r.volume.Direct ino →
        ∃ raw buf, Gives (readInodeRaw r r.volume.superblock descs ino) (.ok raw) ∧
          fs.readInode r.dev ino = .ok buf ∧ ∀ i < r.volume.inodeSize, buf i = raw i) ∧
      (∀ d name ext scratch, r.volume.DirOk d → r.volume.Direct d → r.Plain d →
        r.volume.Straight d → r.volume.Packed d name → ∃ x, Gives (fs.findInDir r.dev d name ext scratch) x ∧
          Gives (r.lookup r.volume.superblock descs d name) x) ∧
      (∀ ino ext file, r.volume.FileOk ino → r.volume.Direct ino → r.Readable ino → r.volume.Straight ino →
        ∃ inode data file', Gives (readInode r r.volume.superblock descs ino) (.ok inode) ∧
          Gives (readFileInto r r.volume.superblock inode) (.ok data) ∧
          Gives (fs.readFile r.dev ino ext file) (.ok (inode.size, file')) ∧
          ∀ i < inode.size, file' i = data i) := by
  obtain ⟨descs, hdescs, -⟩ := hwf.readDescs_eq hroom (reaches_descs hwf hpart)
  refine ⟨r.volume.fs, descs, Fs.mount_eq hwf hroom hpart, hdescs, ?_, ?_, ?_⟩
  · intro ino hino hg hd
    obtain ⟨raw, hraw, hbytes⟩ :=
      hwf.readInodeRaw_gives hroom (reaches_descs hwf hpart) hdescs hino hg (hd.found hwf hpart)
    obtain ⟨buf, hbuf, hbytes'⟩ := Fs.readInode_eq hwf hroom hpart hino hg hd
    exact ⟨raw, buf, hraw, hbuf, fun i hi => (hbytes' i hi).trans (hbytes i hi).symm⟩
  · intro d name ext scratch hdir hd hplain hs hp
    exact findInDir_agree hwf hroom hpart hdescs hdir hd hplain hs hp ext scratch
  · intro ino ext file hfile hd hable hs
    obtain ⟨inode, data, file', hinode, hread, hfile', -, -, hagree⟩ :=
      readFile_agree hwf hroom hpart hdescs hfile hd hable hs ext file
    exact ⟨inode, data, file', hinode, hread, hfile', hagree⟩

namespace Sample

lemma direct (k : Kind) (h : (vol k).groupOf ino = 0) : (vol k).Direct ino where
  first := h
  high := (holds k).high
  low := by rw [(holds k).table]; decide
  inodeSize := (holds k).inodeSize.2.trans (holds k).inodeSize.1.symm
  counted := by rw [(holds k).counted]; decide

/-- A file whose only extent starts at block 0 and has all its bytes. -/
lemma straight_leaf {v : Volume} {e : Extent} (hdepth : v.depth ino = 0)
    (hes : v.extents ino = [e]) (hblock : e.block = 0)
    (hsize : v.fileSize ino ≤ (0 + e.entry.eeLen) * v.blockSize) : v.Straight ino := by
  rw [extents, hdepth] at hes
  rw [Volume.Straight, hdepth, firstLeaf, hes]
  exact .inr ⟨hblock, hsize⟩

lemma packed (k : Kind) (name : List UInt8) : (vol k).Packed 2 name where
  unused off hoff h0 := by
    rw [((holds k).records off (record_cases k hoff)).2.2.2] at h0
    split at h0 <;> omega
  toWalked := walked k name

end Sample

/-- On the disk with a written extent the readers agree about inode 12, about
the name `f` and about the file. -/
theorem readers_agree_sample : ∃ fs descs, Fs.mount (Sample.disk .written) = .ok fs ∧
    (∃ raw buf, Gives (readInodeRaw (Sample.reader .written) (Sample.vol .written).superblock descs 12) (.ok raw) ∧
      fs.readInode (Sample.disk .written) 12 = .ok buf ∧ ∀ i < 128, buf i = raw i) ∧
    (∃ x, Gives (fs.findInDir (Sample.disk .written) 2 [0x66] (fun _ => 0) (fun _ => 0)) x ∧
      Gives ((Sample.reader .written).lookup (Sample.vol .written).superblock descs 2 [0x66]) x) ∧
    ∃ inode data file', Gives (readInode (Sample.reader .written) (Sample.vol .written).superblock descs 12) (.ok inode) ∧
      Gives (readFileInto (Sample.reader .written) (Sample.vol .written).superblock inode) (.ok data) ∧
      Gives (fs.readFile (Sample.disk .written) 12 (fun _ => 0) (fun _ => 0xFF)) (.ok (inode.size, file')) ∧
      ∀ i < inode.size, file' i = data i := by
  have hdisk := Sample.holds .written
  obtain ⟨hgroup2, hdepth2, -⟩ := hdisk.inodes 2 (by decide)
  obtain ⟨hgroup12, hdepth12, -⟩ := hdisk.inodes 12 (by decide)
  have hdirect2 : (Sample.vol .written).Direct 2 := Sample.direct _ hgroup2
  have hdirect12 : (Sample.vol .written).Direct 12 := Sample.direct _ hgroup12
  obtain ⟨fs, descs, hmount, -, hinode, hdir, hfile⟩ :=
    readers_agree (r := Sample.reader .written) (Sample.wellFormed .written) rfl (Sample.room .written)
  refine ⟨fs, descs, hmount, ?_, ?_, ?_⟩
  · obtain ⟨raw, buf, hraw, hbuf, hagree⟩ := hinode 12 (by decide) (by rw [hgroup12, hdisk.groups]; decide) hdirect12
    exact ⟨raw, buf, hraw, hbuf, fun i hi => hagree i (lt_of_lt_of_le hi hdisk.inodeSize.1.ge)⟩
  · exact hdir 2 _ _ _ (Sample.dirOk_root .written) hdirect2 (Sample.supported .written).plain
      (Sample.straight_leaf hdepth2 hdisk.root rfl (by rw [hdisk.rootSize, hdisk.blockSize]; decide)) (Sample.packed .written _)
  · exact hfile 12 _ _ (Sample.fileOk_file .written) hdirect12
      (Sample.readable_leaf .written hdepth12 hdisk.file (by decide))
      (Sample.straight_leaf hdepth12 hdisk.file rfl (by rw [hdisk.fileSize, hdisk.blockSize]; decide))

/-- A file with a hole of one block at its start: the loader has zeros there,
and the driver the block of the extent. -/
theorem readers_differ : ∃ (r : SectorReader) (ino : ℕ) (fs : Fs) (descs : List BlockGroupDesc) (inode : Inode)
      (data file' : ℕ → UInt8), r.volume.WellFormed ∧ r.partitionOffset = 2048 ∧ r.Holds ∧
      r.volume.FileOk ino ∧ Fs.mount r.dev = .ok fs ∧
      readDescs r r.volume.superblock = .ok descs ∧
      Gives (readInode r r.volume.superblock descs ino) (.ok inode) ∧
      Gives (readFileInto r r.volume.superblock inode) (.ok data) ∧
      Gives (fs.readFile r.dev ino (fun _ => 0) (fun _ => 0)) (.ok (inode.size, file')) ∧
      0 < inode.size ∧ file' 0 ≠ data 0 := by
  have hdriver : (Fs.mount (Sample.disk .hole) >>= fun fs => (.ok ((fs.readFile (Sample.disk .hole) 12 (fun _ => 0)
      (fun _ => 0) 2).out.map fun x => x.map fun p => (p.1, p.2 0)) : Read (Option (Read (ℕ × UInt8))))) =
        .ok (some (.ok (1025, 0x55))) := by
    decide +kernel
  have hloader : (readDescs (Sample.reader .hole) (Sample.vol .hole).superblock >>= fun descs =>
      (.ok ((readInode (Sample.reader .hole) (Sample.vol .hole).superblock descs 12 3 >>= fun inode =>
        readFileInto (Sample.reader .hole) (Sample.vol .hole).superblock inode 3 >>= fun data =>
          (pure (inode.size, data 0) : Load (ℕ × UInt8))).out) : Read (Option (Read (ℕ × UInt8))))) =
        .ok (some (.ok (1025, 0))) := by
    decide +kernel
  obtain ⟨fs, hmount, hdriver⟩ := bind_eq_ok hdriver
  obtain ⟨descs, hdescs, hloader⟩ := bind_eq_ok hloader
  obtain ⟨y, hfile', hy⟩ := Option.map_eq_some_iff.mp (Except.ok.inj hdriver)
  obtain ⟨⟨sz, file'⟩, rfl, hbyte'⟩ : ∃ p, y = .ok p ∧ (p.1, p.2 0) = (1025, (0x55 : UInt8)) := by
    cases y with
    | error => cases hy
    | ok p => exact ⟨p, rfl, Except.ok.inj hy⟩
  rcases out_bind.mp (Except.ok.inj hloader) with ⟨e, -, he⟩ | ⟨inode, hinode, hrest⟩
  · cases he
  rcases out_bind.mp hrest with ⟨e, -, he⟩ | ⟨data, hdata, hlast⟩
  · cases he
  simp only [out_pure, Option.some.injEq, Except.ok.injEq, Prod.mk.injEq] at hbyte' hlast
  obtain ⟨rfl, hbyte'⟩ := hbyte'
  obtain ⟨hsize, hbyte⟩ := hlast
  refine ⟨Sample.reader .hole, 12, fs, descs, inode, data, file', Sample.wellFormed .hole, rfl,
    Sample.room .hole, Sample.fileOk_file .hole, hmount, hdescs, ⟨3, hinode⟩, ⟨3, hdata⟩, ⟨2, ?_⟩, by omega, ?_⟩
  · rw [hsize]
    exact hfile'
  · rw [hbyte', hbyte]
    decide

end LodaxOS.Ext4
