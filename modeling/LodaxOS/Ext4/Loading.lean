/-
# Loading a file by name

The walk of a directory finds exactly the names that the format gives it,
except where it comes to a record that takes a whole block of 64 KiB, whose
length the loader does not recognise. With the readers of inodes and files this
gives `loadFileFromExt4`: the file of every name of the root directory, and
`None` for every other name, on a volume that is `Supported`. A small disk shows
the lemma at work, and what an unwritten extent does to it.
-/
import LodaxOS.Ext4.Reading

namespace LodaxOS.Ext4

open Bytes Fuel

variable {off ino : ℕ} {e : Extent}

/-- The condition on the volume as a whole: the block with the descriptors has
an address, and the root directory can be read. -/
structure SectorReader.Supported (r : SectorReader) : Prop where
  descs : r.Reaches (r.volume.descBlock * r.volume.blockSize)
  found : r.Found 2
  plain : r.Plain 2

namespace Volume

variable (v : Volume) (d : ℕ) (name : List UInt8)

/-- The byte comes before every record in use that has the name. -/
def Before (off : ℕ) : Prop :=
  ∀ off', v.IsRecord (v.fileByte d) (v.fileSize d) off' → le32 (v.fileByte d) off' ≠ 0 →
    nameAt (v.fileByte d) off' = name → off < off'

/-- The walk for the name is not led astray by a record of 65536 bytes: before
the name only the last record of the directory is so long, and the length in
the record of the name does not read as 0. -/
structure Walked : Prop where
  before : ∀ off, v.IsRecord (v.fileByte d) (v.fileSize d) off → v.Before d name off →
    off + v.recLen (v.fileByte d) off < v.fileSize d → v.recLen (v.fileByte d) off ≠ 65536
  named : ∀ off, v.IsRecord (v.fileByte d) (v.fileSize d) off → le32 (v.fileByte d) off ≠ 0 →
    nameAt (v.fileByte d) off = name → le16 (v.fileByte d) (off + 4) ≠ 0

/-- A length as it is in the record. -/
lemma recLen_cases (dir : ℕ → UInt8) (off : ℕ) : le16 dir (off + 4) = v.recLen dir off ∨
    v.recLen dir off = 65536 ∧ (le16 dir (off + 4) = 65535 ∨ le16 dir (off + 4) = 0) := by
  rw [recLen]
  split
  · next h => exact .inr ⟨rfl, h.2⟩
  · exact .inl rfl

/-- Where the name was not met so far and is not here, it comes later. -/
lemma before_of_not_named (hle : ∀ off', v.IsRecord (v.fileByte d) (v.fileSize d) off' →
      le32 (v.fileByte d) off' ≠ 0 → nameAt (v.fileByte d) off' = name → off ≤ off')
    (hnot : ¬(le32 (v.fileByte d) off ≠ 0 ∧ nameAt (v.fileByte d) off = name)) : v.Before d name off := by
  intro off' hoff' hlive hname
  refine lt_of_le_of_ne (hle off' hoff' hlive hname) fun heq => hnot ?_
  rw [heq]
  exact ⟨hlive, hname⟩

variable {v d name} in
lemma Before.not_named (hbefore : v.Before d name off) (hoff : v.IsRecord (v.fileByte d) (v.fileSize d) off) :
    ¬(le32 (v.fileByte d) off ≠ 0 ∧ nameAt (v.fileByte d) off = name) :=
  fun hfound => lt_irrefl _ (hbefore off hoff hfound.1 hfound.2)

end Volume

/-! ### The root directory -/

lemma Volume.isRecord_zero {v : Volume} {dir : ℕ → UInt8} {size : ℕ} (h : 0 < size) : v.IsRecord dir size 0 := by
  have hfirst : v.IsRecord dir size (0 * v.blockSize) := .first 0 (by rwa [zero_mul])
  rwa [zero_mul] at hfirst

/-- A walk over the records of a directory: it stops at the name, goes on from
other records by their lengths, and ends with nothing after the last one. -/
structure Volume.Walks (v : Volume) (d : ℕ) (name : List UInt8) {ω : Type} (step : ℕ → Read (ω ⊕ ℕ)) (nothing : ω)
    (found : ℕ → ω) : Prop where
  hit : ∀ off, v.IsRecord (v.fileByte d) (v.fileSize d) off → le32 (v.fileByte d) off ≠ 0 →
    nameAt (v.fileByte d) off = name → step off = .ok (.inl (found (le32 (v.fileByte d) off)))
  next : ∀ off, v.IsRecord (v.fileByte d) (v.fileSize d) off → v.Before d name off →
    off + v.recLen (v.fileByte d) off < v.fileSize d → Next step off (off + v.recLen (v.fileByte d) off)
  last : ∀ off, v.IsRecord (v.fileByte d) (v.fileSize d) off → v.Before d name off →
    v.fileSize d ≤ off + v.recLen (v.fileByte d) off → Gives (fun n => chase step n off) (.ok nothing)
  done : step (v.fileSize d) = .ok (.inl nothing)

namespace Volume.DirOk

variable {v : Volume} {d : ℕ} (h : v.DirOk d)

include h

section

variable (hoff : v.IsRecord (v.fileByte d) (v.fileSize d) off)

include hoff

lemma record_end (hlt : off < v.fileSize d) : off + v.recLen (v.fileByte d) off ≤ v.fileSize d := by
  obtain ⟨m, hm⟩ := h.whole
  have hin := (h.record off hoff).2.1
  have hdiv := Nat.div_add_mod off v.blockSize
  rw [hm] at hlt ⊢
  have hblock : off / v.blockSize + 1 ≤ m := Nat.div_lt_of_lt_mul hlt
  calc off + v.recLen (v.fileByte d) off
      ≤ v.blockSize * (off / v.blockSize) + v.blockSize := by omega
    _ = v.blockSize * (off / v.blockSize + 1) := by ring
    _ ≤ v.blockSize * m := Nat.mul_le_mul_left _ hblock

lemma record_lt : off < v.fileSize d := by
  induction hoff with
  | first k hk => exact hk
  | next hoff hmod ih =>
    refine lt_of_le_of_ne (h.record_end hoff ih) fun heq => hmod ?_
    rw [heq]
    exact Nat.mod_eq_zero_of_dvd h.whole

lemma record_next : off + v.recLen (v.fileByte d) off = v.fileSize d ∨
      v.IsRecord (v.fileByte d) (v.fileSize d) (off + v.recLen (v.fileByte d) off) := by
  by_cases hmod : (off + v.recLen (v.fileByte d) off) % v.blockSize = 0
  · rcases (h.record_end hoff (h.record_lt hoff)).eq_or_lt with heq | hlt
    · exact .inl heq
    · right
      obtain ⟨k, hk⟩ := Nat.dvd_of_mod_eq_zero hmod
      rw [hk, mul_comm] at hlt ⊢
      exact .first k hlt
  · exact .inr (.next hoff hmod)

end

/-- No record starts inside another one. -/
lemma record_apart {a b : ℕ} (ha : v.IsRecord (v.fileByte d) (v.fileSize d) a)
    (hb : v.IsRecord (v.fileByte d) (v.fileSize d) b) (hab : a < b) :
    a + v.recLen (v.fileByte d) a ≤ b := by
  induction b using Nat.strong_induction_on generalizing a with
  | _ b ih =>
    cases hb with
    | first k =>
      have hin := (h.record a ha).2.1
      have hdiv := Nat.div_add_mod a v.blockSize
      rw [mul_comm] at hab
      have hblock : a / v.blockSize + 1 ≤ k := Nat.div_lt_of_lt_mul hab
      calc a + v.recLen (v.fileByte d) a
          ≤ v.blockSize * (a / v.blockSize) + v.blockSize := by omega
        _ = (a / v.blockSize + 1) * v.blockSize := by ring
        _ ≤ k * v.blockSize := Nat.mul_le_mul_right _ hblock
    | @next c hc =>
      have hlen := (h.record c hc).1
      rcases lt_trichotomy a c with hac | rfl | hca
      · have := ih c (by omega) ha hc hac
        omega
      · exact le_rfl
      · have := ih a hab hc ha hca
        omega

section Walks

variable {ω : Type} {step : ℕ → Read (ω ⊕ ℕ)} {nothing : ω} {found : ℕ → ω} {name : List UInt8}

/-- The walk from a record on, before which the name was not met. -/
lemma walks_from (hs : v.Walks d name step nothing found) : ∀ (turns off : ℕ), v.fileSize d ≤ off + turns →
    off = v.fileSize d ∨ v.IsRecord (v.fileByte d) (v.fileSize d) off →
    (∀ off', v.IsRecord (v.fileByte d) (v.fileSize d) off' → le32 (v.fileByte d) off' ≠ 0 →
      nameAt (v.fileByte d) off' = name → off ≤ off') →
    ∃ w, Gives (fun n => chase step n off) (.ok w) ∧
      ((∃ ino, v.Names d name ino ∧ w = found ino) ∨ (w = nothing ∧ ∀ ino, ¬v.Names d name ino))
  | turns, off, hturns, hoff, hle => by
    rcases hoff with rfl | hoff
    · refine ⟨nothing, (gives_chase_stop hs.done).mpr rfl, .inr ⟨rfl, ?_⟩⟩
      rintro ino ⟨off', hoff', rfl, hlive, hname⟩
      have := h.record_lt hoff'
      have := hle off' hoff' hlive hname
      omega
    by_cases hfound : le32 (v.fileByte d) off ≠ 0 ∧ nameAt (v.fileByte d) off = name
    · exact ⟨_, (gives_chase_stop (hs.hit off hoff hfound.1 hfound.2)).mpr rfl, .inl ⟨_, ⟨off, hoff, rfl, hfound⟩, rfl⟩⟩
    have hbefore := v.before_of_not_named d name hle hfound
    have hlen := (h.record off hoff).1
    by_cases hmore : off + v.recLen (v.fileByte d) off < v.fileSize d
    · cases turns with
      | zero => omega
      | succ turns =>
        simp only [gives_chase_next (hs.next off hoff hbefore hmore)]
        refine walks_from hs turns _ (by omega) (h.record_next hoff) fun off' hoff' hlive hname => ?_
        exact h.record_apart hoff hoff' (hbefore off' hoff' hlive hname)
    · refine ⟨nothing, hs.last off hoff hbefore (by omega), .inr ⟨rfl, ?_⟩⟩
      rintro ino ⟨off', hoff', rfl, hlive, hname⟩
      have := h.record_apart hoff hoff' (hbefore off' hoff' hlive hname)
      have := h.record_lt hoff'
      omega

/-- What the walk finds is a name of the directory, and when it finds nothing
the name is not there. -/
lemma walks_gives (hs : v.Walks d name step nothing found) : ∃ w, Gives (fun n => chase step n 0) (.ok w) ∧
    ((∃ ino, v.Names d name ino ∧ w = found ino) ∨ (w = nothing ∧ ∀ ino, ¬v.Names d name ino)) := by
  refine h.walks_from hs (v.fileSize d) 0 (by omega) ?_ fun off' _ _ _ => Nat.zero_le off'
  rcases Nat.eq_zero_or_pos (v.fileSize d) with h0 | hpos
  · exact .inl h0.symm
  · exact .inr (isRecord_zero hpos)

end Walks

section Walk

variable {data : ℕ → UInt8} (hdata : ∀ i < v.fileSize d, data i = v.fileByte d i)

include hdata

/-- The fields of a record, from a buffer with the directory. -/
lemma record_fields (hoff : v.IsRecord (v.fileByte d) (v.fileSize d) off) :
    le16 data (off + 4) = le16 (v.fileByte d) (off + 4) ∧ le32 data off = le32 (v.fileByte d) off ∧
      data (off + 6) = v.fileByte d (off + 6) ∧
      nameAt data off = nameAt (v.fileByte d) off := by
  have hend := h.record_end hoff (h.record_lt hoff)
  have hname := (h.record off hoff).1
  have hlen : data (off + 6) = v.fileByte d (off + 6) := hdata _ (by omega)
  refine ⟨le16_congr fun i hi => hdata _ (by omega), le32_congr fun i hi => hdata _ (by omega), hlen, ?_⟩
  rw [nameAt, nameAt, hlen]
  refine List.map_congr_left fun i hi => hdata _ ?_
  have := List.mem_range.mp hi
  omega

/-- One turn of the walk, at a record. -/
lemma dirStep_record (name : List UInt8) (hoff : v.IsRecord (v.fileByte d) (v.fileSize d) off) :
    dirStep data (v.fileSize d) name off =
      if le16 (v.fileByte d) (off + 4) = 0 then .ok (.inl 0)
      else if le32 (v.fileByte d) off ≠ 0 ∧ nameAt (v.fileByte d) off = name then .ok (.inl (le32 (v.fileByte d) off))
      else .ok (.inr (off + le16 (v.fileByte d) (off + 4))) := by
  have hend := h.record_end hoff (h.record_lt hoff)
  have hname := (h.record off hoff).1
  obtain ⟨hle16, hle32, hlen, hnameAt⟩ := h.record_fields hdata hoff
  rw [dirStep, if_neg (by omega), hle16, hle32, hlen, hnameAt]
  have hroom : off + 8 + (v.fileByte d (off + 6)).toNat ≤ v.fileSize d := by omega
  simp only [hroom, true_and]

lemma dirStep_walks {name : List UInt8} (hw : v.Walked d name) :
    v.Walks d name (dirStep data (v.fileSize d) name) 0 fun ino => ino where
  hit off hoff hlive hname := by
    rw [h.dirStep_record hdata name hoff, if_neg (hw.named off hoff hlive hname), if_pos ⟨hlive, hname⟩]
  next off hoff hbefore hmore := by
    have hlen := (h.record off hoff).1
    have hraw := (v.recLen_cases _ off).resolve_right fun hc => hw.before off hoff hbefore hmore hc.1
    rw [Next, h.dirStep_record hdata name hoff, if_neg (by omega), if_neg (hbefore.not_named hoff), hraw]
  last off hoff hbefore hend := by
    have hlen := (h.record off hoff).1
    have hstep := h.dirStep_record hdata name hoff
    -- the last record: its length reads as 0, or leads to the end
    by_cases h0 : le16 (v.fileByte d) (off + 4) = 0
    · rw [if_pos h0] at hstep
      exact (gives_chase_stop hstep).mpr rfl
    · rw [if_neg h0, if_neg (hbefore.not_named hoff)] at hstep
      have hdone : dirStep data (v.fileSize d) name (off + le16 (v.fileByte d) (off + 4)) = .ok (.inl 0) := if_pos (by
        rcases v.recLen_cases (v.fileByte d) off with hraw | ⟨hraw, hc⟩ <;> omega)
      exact (gives_chase_next hstep).mpr ((gives_chase_stop hdone).mpr rfl)
  done := if_pos (by omega)

lemma scanDirectory_gives {name : List UInt8} (hw : v.Walked d name) :
    ∃ ino, Gives (scanDirectory data (v.fileSize d) name) (.ok ino) ∧
      (ino ≠ 0 → v.Names d name ino) ∧ (ino = 0 → ∀ ino', ¬v.Names d name ino') := by
  obtain ⟨ino, hg, ⟨_, hn, rfl⟩ | ⟨rfl, hno⟩⟩ := h.walks_gives (h.dirStep_walks hdata hw)
  · refine ⟨ino, hg, fun _ => hn, fun h0 => ?_⟩
    obtain ⟨off, -, -, hlive, -⟩ := hn
    exact absurd h0 hlive
  · exact ⟨0, hg, fun h0 => absurd rfl h0, fun _ => hno⟩

end Walk

end Volume.DirOk

/-! ### Loading a file -/

section Load

variable {r : SectorReader} (h : r.volume.WellFormed) (hr : r.Holds)

include h hr

/-- What is common to every name: the loader reads the root directory as the
format says, and goes on with what the walk finds. -/
lemma loadFile_gives (hsup : r.Supported) {name : List UInt8} (hw : r.volume.Walked 2 name) :
    ∃ descs ino, readDescs r r.volume.superblock = .ok descs ∧
      (ino ≠ 0 → r.volume.Names 2 name ino) ∧ (ino = 0 → ∀ ino', ¬r.volume.Names 2 name ino') ∧
      ∀ x, Gives (loadNamed r r.volume.superblock descs ino) x → Gives (loadFile r name) x := by
  obtain ⟨k, hk, hk2⟩ := r.volume.blockSize_eq
  have hone : 1 ≤ r.volume.descBlock := Nat.le_add_left _ _
  have hsb : 2 * 512 + 512 ≤ r.volume.blocks * r.volume.blockSize := by
    calc 2 * 512 + 512 ≤ 2 * (512 * 2) := by decide
      _ ≤ r.volume.blocks * r.volume.blockSize :=
          Nat.mul_le_mul (lt_of_le_of_lt hone h.descBlock_lt) (by omega)
  have hsbAt : r.Reaches (2 * 512) := by
    have hle : 2 * 512 ≤ r.volume.descBlock * r.volume.blockSize :=
      (show 2 * 512 ≤ 1 * r.volume.blockSize by omega).trans (Nat.mul_le_mul_right _ hone)
    exact lt_of_le_of_lt (Nat.add_le_add_left hle _) hsup.descs
  obtain ⟨sbRaw, hsbRaw, hsbBytes⟩ := readExt4Sectors_eq hr hsb hsbAt
  have hparse : Superblock.parse sbRaw = r.volume.superblock := Superblock.parse_congr hsbBytes
  obtain ⟨descs, hdescs, -⟩ := h.readDescs_eq hr hsup.descs
  obtain ⟨inode, hread, hinode⟩ := h.readInode_gives hr hsup.descs hdescs h.root.number h.root.group hsup.found
  obtain ⟨data, hfile, hdata⟩ := h.readFileInto_gives hr h.root.toFileOk hsup.plain hinode
  obtain ⟨ino, hscan, hnames⟩ := h.root.scanDirectory_gives hdata hw
  refine ⟨descs, ino, hdescs, hnames.1, hnames.2, fun x hx => ?_⟩
  have hmagic : ¬r.volume.superblock.sMagic ≠ 0xEF53 := not_not.mpr h.magic
  have hlog : ¬(64 ≤ r.volume.superblock.sLogBlockSize ∨ r.volume.superblock.sBlocksPerGroup = 0) := by
    have h1 : r.volume.superblock.sLogBlockSize ≤ 6 := h.logBlockSize
    have h2 : 0 < r.volume.superblock.sBlocksPerGroup := h.blocksPerGroup
    omega
  have hopen : openVolume r = .ok (r.volume.superblock, descs) := by
    simp only [openVolume, bind, Except.bind, hsbRaw, hparse, if_neg hmagic, if_neg hlog, hdescs]
  refine (gives_lift_bind hopen).mpr ?_
  refine Gives.bind (mono_readInode _ _ _ _) (fun root => mono_loadFrom_rest _ _ _ name root) hread ?_
  refine Gives.bind (mono_readFileInto _ _ _)
    (fun data => (mono_scanDirectory data _ name).bind fun ino => mono_loadNamed _ _ _ ino) hfile ?_
  rw [hinode.size]
  exact Gives.bind (mono_scanDirectory _ _ _) (fun ino => mono_loadNamed _ _ _ ino) hscan hx

end Load

/-- The loader gives the file of every name of the root directory, and `None`
for every other name. -/
theorem loadFileFromExt4_contents {handles : List Device} {r : SectorReader}
    (hfind : findExt4Partition handles = .ok (r.dev, r.partitionOffset))
    (hwf : r.volume.WellFormed) (hroom : r.Holds) (hsup : r.Supported) :
    (∀ name ino, r.volume.Names 2 name ino → r.volume.Walked 2 name → r.volume.FileOk ino → r.Found ino →
      r.Plain ino → Gives (loadFileFromExt4 handles name) (.ok (r.volume.contents ino))) ∧
    (∀ name, (∀ ino, ¬r.volume.Names 2 name ino) → r.volume.Walked 2 name →
      Gives (loadFileFromExt4 handles name) (.error .none)) := by
  constructor
  · intro name ino hname hw hfile hfound hplain
    obtain ⟨descs, ino', hdescs, hnamed, hnone, hload⟩ := loadFile_gives hwf hroom hsup hw
    have hne : ino' ≠ 0 := fun h0 => hnone h0 ino hname
    obtain rfl := hwf.root.unique name _ _ hname (hnamed hne)
    obtain ⟨inode, hread, hinode⟩ := hwf.readInode_gives hroom hsup.descs hdescs hfile.number hfile.group hfound
    obtain ⟨data, hdata, hbytes⟩ := hwf.readFileInto_gives hroom hfile hplain hinode
    refine (gives_lift_bind hfind).mpr (hload _ ?_)
    unfold loadNamed
    simp only [if_neg hne]
    refine Gives.bind (mono_readInode _ _ _ _) (fun inode => (mono_readFileInto _ _ inode).andThen _) hread ?_
    refine hdata.andThen (mono_readFileInto _ _ _) (congrArg (some ∘ Except.ok) ?_)
    rw [hinode.size]
    exact List.map_congr_left fun i hi => hbytes i (List.mem_range.mp hi)
  · intro name hname hw
    obtain ⟨descs, ino, -, hnamed, -, hload⟩ := loadFile_gives hwf hroom hsup hw
    obtain rfl : ino = 0 := by
      by_contra hne
      exact hname ino (hnamed hne)
    exact (gives_lift_bind hfind).mpr (hload _ ⟨0, rfl⟩)

/-! ### A small disk -/

namespace Sample

/-- The bytes of a disk, given run by run. -/
def place (runs : List (ℕ × List UInt8)) (i : ℕ) : UInt8 :=
  match runs.find? fun w => w.1 ≤ i ∧ i < w.1 + w.2.length with
  | none => 0
  | some w => w.2.getD (i - w.1) 0

/-- A partition table with one Linux partition, which starts at sector 2048. -/
def table : List (ℕ × List UInt8) :=
  [(512, [0x45, 0x46, 0x49, 0x20, 0x50, 0x41, 0x52, 0x54]), (512 + 72, [2]), (512 + 80, [1]), (512 + 84, [128]),
    (1024, [0xAF, 0x3D, 0xC6, 0x0F, 0x83, 0x84, 0x72, 0x47, 0x8E, 0x79, 0x3D, 0x69, 0xD8, 0x47,
      0x7D, 0xE4]), (1024 + 32, [0, 8])]

/-- How the extent of the file is: written from block 0 on, unwritten, or
written after a hole of one block. -/
inductive Kind
  | written
  | unwritten
  | hole
deriving DecidableEq

/-- The size of the file and its only extent, one block at block 7. -/
def Kind.file : Kind → List UInt8 × List UInt8
  | written => ([1, 0], [0, 0, 0, 0, 1, 0, 0, 0, 7])
  | unwritten => ([1, 0], [0, 0, 0, 0, 1, 0x80, 0, 0, 7])
  | hole => ([1, 4], [1, 0, 0, 0, 1, 0, 0, 0, 7])

/-- An inode with one extent. -/
def inode (size extent : List UInt8) : List (ℕ × List UInt8) :=
  [(4, size), (32, [0, 0, 8, 0]), (40, [0x0A, 0xF3, 1, 0, 4]), (52, extent)]

/-- A volume of 16 blocks of 1 KiB with one group and the file `f` in the root
directory. -/
def volume (k : Kind) : List (ℕ × List UInt8) :=
  [(1024 + 4, [16]), (1024 + 20, [1]), (1024 + 32, [0, 0x20]), (1024 + 40, [16]),
    (1024 + 56, [0x53, 0xEF]), (1024 + 76, [1]), (1024 + 88, [128]), (1024 + 96, [0x42]),
    (2048 + 8, [4])] ++
  (inode [0, 4] [0, 0, 0, 0, 1, 0, 0, 0, 6]).map (fun w => (4224 + w.1, w.2)) ++
  (inode k.file.1 k.file.2).map (fun w => (5504 + w.1, w.2)) ++
  [(6144, [2, 0, 0, 0, 12, 0, 1, 2, 0x2E, 0, 0, 0]), (6156, [2, 0, 0, 0, 12, 0, 2, 2, 0x2E, 0x2E, 0, 0]),
    (6168, [12, 0, 0, 0, 0xE8, 3, 1, 1, 0x66, 0, 0, 0]), (7168, [0x55])]

def disk (k : Kind) : Device where
  sectors := 4096
  byte := place (table ++ (volume k).map fun w => (2048 * 512 + w.1, w.2))

def reader (k : Kind) : SectorReader := ⟨disk k, 2048⟩

/-- The volume of the disk with that extent. -/
abbrev vol (k : Kind) : Volume := (reader k).volume

/-- What is on the disk: the fields of the superblock and of the descriptor, the
inodes of the root directory and of the file, and the records of the directory. -/
@[mk_iff]
structure Holds (k : Kind) : Prop where
  handle : tryHandleForExt4 (disk k) = .ok 2048
  blockSize : (vol k).blockSize = 1024
  blocks : (vol k).blocks = 16
  groups : (vol k).groups = 1
  counted : numGroups (vol k).superblock = 1
  table : (vol k).inodeTable 0 = 4
  high : le32 (vol k) ((vol k).descAt 0 + 24) = 0
  inodeSize : (vol k).inodeSize = 128 ∧ le16 (vol k) (1024 + 88) = 128
  inodes : ∀ ino ∈ [2, 12], (vol k).groupOf ino = 0 ∧ (vol k).depth ino = 0 ∧
    (le32 (vol k) ((vol k).inodeAt ino + 32)).testBit 19 = true ∧ (vol k).fileSize ino ≤ 2 ^ 32 * (vol k).blockSize ∧
    le16 (vol k) ((vol k).inodeAt ino + 40) = 0xF30A ∧ 12 + 12 * le16 (vol k) ((vol k).inodeAt ino + 40 + 2) ≤ 60
  root : (vol k).extents 2 = [⟨0, 1, 6, true⟩]
  file : (vol k).extents 12 = [⟨if k = .hole then 1 else 0, 1, 7, k ≠ .unwritten⟩]
  rootSize : (vol k).fileSize 2 = 1024
  fileSize : (vol k).fileSize 12 = if k = .hole then 1025 else 1
  recLen : (vol k).recLen ((vol k).fileByte 2) 0 = 12 ∧ (vol k).recLen ((vol k).fileByte 2) 12 = 12 ∧
    (vol k).recLen ((vol k).fileByte 2) 24 = 1000
  last : Volume.nameAt ((vol k).fileByte 2) 24 = [0x66]
  records : ∀ off ∈ [0, 12, 24], (8 + ((vol k).fileByte 2 (off + 6)).toNat ≤ (vol k).recLen ((vol k).fileByte 2) off ∧
      off % (vol k).blockSize + (vol k).recLen ((vol k).fileByte 2) off ≤ (vol k).blockSize ∧
      4 ∣ (vol k).recLen ((vol k).fileByte 2) off) ∧
    (vol k).recLen ((vol k).fileByte 2) off ≠ 65536 ∧ Volume.nameAt ((vol k).fileByte 2) off ≠ [0x67] ∧
    le32 ((vol k).fileByte 2) off = if Volume.nameAt ((vol k).fileByte 2) off = [0x66] then 12 else 2

lemma holds (k : Kind) : Holds k := by
  rw [holds_iff]
  cases k <;> decide +kernel

lemma find_eq (k : Kind) : findExt4Partition [disk k] = .ok (disk k, 2048) := by
  rw [findExt4Partition, (holds k).handle]

/-- A file whose only node is the one in its inode. -/
lemma fileOk_leaf {v : Volume} (hnumber : 1 ≤ ino)
    (hgroup : v.groupOf ino < v.groups) (hflags : (le32 v (v.inodeAt ino + 32)).testBit 19 = true)
    (hsize : v.fileSize ino ≤ 2 ^ 32 * v.blockSize) (hdepth : v.depth ino = 0) (hmagic : le16 v (v.inodeAt ino + 40) = 0xF30A)
    (hentries : 12 + 12 * le16 v (v.inodeAt ino + 40 + 2) ≤ 60) (hes : v.extents ino = [e])
    (hplaced : 0 < e.len ∧ 0 < e.start ∧ e.start + e.len ≤ v.blocks) : v.FileOk ino where
  number := hnumber
  group := hgroup
  flags := hflags
  size := hsize
  depth_le := hdepth.trans_le (by decide)
  node := hdepth.symm ▸ ⟨hmagic, hdepth, hentries⟩
  sorted := hes.symm ▸ List.pairwise_singleton _ _
  placed := hes.symm ▸ fun _ hf => List.mem_singleton.mp hf ▸ hplaced

lemma fileOk (k : Kind) (hino : ino ∈ [2, 12]) (hes : (vol k).extents ino = [e])
    (he : 0 < e.len ∧ 0 < e.start ∧ e.start + e.len ≤ 16) : (vol k).FileOk ino := by
  obtain ⟨hgroup, hdepth, hflags, hsize, hmagic, hentries⟩ := (holds k).inodes ino hino
  have hall : ∀ i ∈ [2, 12], 1 ≤ i := by decide
  refine fileOk_leaf (hall ino hino) ?_ hflags hsize hdepth hmagic hentries hes (by rwa [(holds k).blocks])
  rw [hgroup, (holds k).groups]
  decide

lemma fileOk_file (k : Kind) : (vol k).FileOk 12 := fileOk k (by decide) (holds k).file (by cases k <;> decide)

/-- The root directory has three records. -/
lemma record_cases (k : Kind)
    (h : (vol k).IsRecord ((vol k).fileByte 2) ((vol k).fileSize 2) off) : off ∈ [0, 12, 24] := by
  obtain ⟨h0, h12, h24⟩ := (holds k).recLen
  simp only [List.mem_cons, List.not_mem_nil, or_false]
  induction h with
  | first n hn =>
    rw [(holds k).blockSize, (holds k).rootSize] at hn
    rw [(holds k).blockSize]
    omega
  | next _ hmod ih =>
    rw [(holds k).blockSize] at hmod
    rcases ih with rfl | rfl | rfl
    · omega
    · omega
    · omega

lemma dirOk_root (k : Kind) : (vol k).DirOk 2 where
  toFileOk := fileOk k (by decide) (holds k).root (by decide)
  whole := ⟨1, by rw [(holds k).blockSize, (holds k).rootSize]⟩
  record off hoff := ((holds k).records off (record_cases k hoff)).1
  unique := by
    rintro name ino ino' ⟨off, hoff, rfl, -, rfl⟩ ⟨off', hoff', rfl, -, hname⟩
    -- the name says which inode it is
    rw [((holds k).records off (record_cases k hoff)).2.2.2, ((holds k).records off' (record_cases k hoff')).2.2.2, hname]

instance decidableDirOkRoot (k : Kind) : Decidable ((vol k).DirOk 2) := isTrue (dirOk_root k)

lemma wellFormed (k : Kind) : (vol k).WellFormed := by
  rw [Volume.wellFormed_iff]
  cases k <;> decide +kernel

lemma room (k : Kind) : (reader k).Holds := by
  change 2048 * 512 + (vol k).blocks * (vol k).blockSize ≤ 4096 * 512
  rw [(holds k).blocks, (holds k).blockSize]
  decide

lemma reaches (k : Kind) {a : ℕ} (h : a < (vol k).blocks * (vol k).blockSize) : (reader k).Reaches a := by
  rw [(holds k).blocks, (holds k).blockSize] at h
  change 2048 * 512 + a < 2 ^ 64
  omega

lemma found (k : Kind) (h : (vol k).groupOf ino = 0) : (reader k).Found ino where
  counted := by rw [h, (holds k).counted]; decide
  aligned := .inl h
  low := by rw [h, (holds k).table]; decide
  reached i hi := by
    have hin := (wellFormed k).inode_room (show (vol k).groupOf ino < _ by rw [h, (holds k).groups]; decide)
    exact reaches k (lt_of_lt_of_le (Nat.add_lt_add_left hi _) hin)

/-- A file whose extents are in its inode. -/
lemma readable_leaf (k : Kind) (hdepth : (vol k).depth ino = 0) (hes : (vol k).extents ino = [e])
    (he : e.start < 16) : (reader k).Readable ino where
  nodes := by
    rw [hdepth]
    exact True.intro
  reached f hf _ := by
    rw [hes] at hf
    obtain rfl := List.mem_singleton.mp hf
    exact reaches k (Nat.mul_lt_mul_of_pos_right ((holds k).blocks ▸ he) (by rw [(holds k).blockSize]; decide))

lemma plain_leaf (k : Kind) (hdepth : (vol k).depth ino = 0) (hes : (vol k).extents ino = [e])
    (he : e.written = true ∧ e.len < 32768) (hstart : e.start < 16) : (reader k).Plain ino where
  toReadable := readable_leaf k hdepth hes hstart
  extents := hes.symm ▸ fun _ hf _ => List.mem_singleton.mp hf ▸ he

lemma supported (k : Kind) : (reader k).Supported where
  descs := reaches k (Nat.mul_lt_mul_of_pos_right (wellFormed k).descBlock_lt (by rw [(holds k).blockSize]; decide))
  found := found k ((holds k).inodes 2 (by decide)).1
  plain := plain_leaf k ((holds k).inodes 2 (by decide)).2.1 (holds k).root (by decide) (by decide)

lemma walked (k : Kind) (name : List UInt8) : (vol k).Walked 2 name where
  before off hoff _ _ := ((holds k).records off (record_cases k hoff)).2.1
  named off hoff _ _ h0 := by
    obtain ⟨⟨hlen, -⟩, hne, -⟩ := (holds k).records off (record_cases k hoff)
    have hraw := ((vol k).recLen_cases _ off).resolve_right fun hc => hne hc.1
    omega

lemma names_file (k : Kind) : (vol k).Names 2 [0x66] 12 := by
  obtain ⟨h0, h12, -⟩ := (holds k).recLen
  have hrec0 : (vol k).IsRecord ((vol k).fileByte 2) ((vol k).fileSize 2) 0 :=
    Volume.isRecord_zero (by rw [(holds k).rootSize]; decide)
  have hrec12 := hrec0.next (by rw [h0, (holds k).blockSize]; decide)
  rw [h0, zero_add] at hrec12
  have hrec24 := hrec12.next (by rw [h12, (holds k).blockSize]; decide)
  rw [h12] at hrec24
  have hino := ((holds k).records 24 (by decide)).2.2.2
  rw [(holds k).last] at hino
  exact ⟨24, hrec24, hino, by decide, (holds k).last⟩

lemma not_names (k : Kind) (ino : ℕ) : ¬(vol k).Names 2 [0x67] ino := by
  rintro ⟨off, hoff, -, -, hname⟩
  exact ((holds k).records off (record_cases k hoff)).2.2.1 hname

end Sample

/-- On the disk with a written extent the file is its byte, and there is no
file `g`. -/
theorem loadFileFromExt4_contents_sample : Gives (loadFileFromExt4 [Sample.disk .written] [0x66]) (.ok [0x55]) ∧
      Gives (loadFileFromExt4 [Sample.disk .written] [0x67]) (.error .none) := by
  obtain ⟨hfile, hnone⟩ := loadFileFromExt4_contents (r := Sample.reader .written)
    (Sample.find_eq .written) (Sample.wellFormed .written) (Sample.room .written) (Sample.supported .written)
  have hdisk := Sample.holds .written
  have hcontents : (Sample.vol .written).contents 12 = [0x55] := by decide +kernel
  have hload := hfile _ _ (Sample.names_file .written) (Sample.walked .written _) (Sample.fileOk_file .written)
    (Sample.found .written (hdisk.inodes 12 (by decide)).1)
    (Sample.plain_leaf .written (hdisk.inodes 12 (by decide)).2.1 hdisk.file (by decide) (by decide))
  rw [hcontents] at hload
  exact ⟨hload, hnone _ (Sample.not_names .written) (Sample.walked .written _)⟩

/-- An unwritten extent reads as zeros, and the loader returns the byte that
is in its block on the disk. -/
theorem loadFileFromExt4_unwritten : ∃ (handles : List Device) (r : SectorReader) (name : List UInt8) (ino : ℕ),
      findExt4Partition handles = .ok (r.dev, r.partitionOffset) ∧ r.volume.WellFormed ∧ r.Holds ∧
      r.volume.Names 2 name ino ∧ r.volume.FileOk ino ∧ r.volume.contents ino = [0] ∧
      Gives (loadFileFromExt4 handles name) (.ok [0x55]) :=
  ⟨[Sample.disk .unwritten], Sample.reader .unwritten, [0x66], 12, Sample.find_eq .unwritten,
    Sample.wellFormed .unwritten, Sample.room .unwritten, Sample.names_file .unwritten, Sample.fileOk_file .unwritten,
    by decide +kernel, 4, by decide +kernel⟩

end LodaxOS.Ext4
