/-
# The boot loader reads files as the format says

For a well-formed volume on a disk that holds it, the loader finds an inode
and reads its file as the format says, where the volume keeps clear of what
the loader gets wrong:

* the size of a group descriptor is taken from bit 7 of the read-only
  compatible features, while the format announces it in the incompatible
  ones, so the descriptors of the groups after the first can be misread;
* the high half of an inode table's block number is dropped, as is that of the
  number of blocks;
* the length of an extent is its raw length without bit 15, so an initialised
  extent of 32768 blocks has length 0 and an unwritten extent is read from
  the disk like a written one;
* only the first 4096 bytes of a node of an extent tree are read;
* a sector whose first byte has no 64-bit address on the disk stops the machine.

`Found` and `Plain` say that none of these is met, for an inode and for its
file.
-/
import LodaxOS.Ext4.Loader
import Mathlib.Data.List.TakeWhile
import Mathlib.Tactic.Ring

namespace LodaxOS.Ext4

open Bytes Fuel List Volume ExtentEntry Extent
open Nat (add_assoc add_le_add_left add_mul mul_le_mul_right mul_left_comm)

/-! ### What the loader gets right -/

/-- The volume in the partition of a reader. -/
def SectorReader.volume (r : SectorReader) : Volume := fun i =>
  r.dev.byte (r.partitionOffset * 512 + i)

/-- The superblock as the loader reads it. -/
def Volume.superblock (v : Volume) : Superblock := Superblock.parse fun i => v (1024 + i)

/-- The byte of the volume has a 64-bit address on the disk. -/
def SectorReader.Reaches (r : SectorReader) (a : ℕ) : Prop := r.partitionOffset * 512 + a < 2 ^ 64

/-- The blocks with the nodes below the one at byte `a` are such. -/
def Volume.Below (v : Volume) (P : ℕ → Prop) : ℕ → ℕ → Prop
  | 0, _ => True
  | depth + 1, a => ∀ i < le16 v (a + 2), P (v.child (entryAt a i)) ∧ Below v P depth (v.child (entryAt a i) * v.blockSize)

namespace SectorReader

variable (r : SectorReader)

/-- The descriptor of the inode's group is where the loader looks for it: the
group is among those counted from the low half of the number of blocks, it is
the first one or the descriptors have the size that the loader takes from the
read-only compatible features, and its inode table is in the first 2^32
blocks. The bytes of the inode have addresses. -/
structure Found (ino : ℕ) : Prop where
  counted : r.volume.groupOf ino < numGroups r.volume.superblock
  aligned : r.volume.groupOf ino = 0 ∨ bgdtEntrySize r.volume.superblock = r.volume.descSize
  low : r.volume.inodeTable (r.volume.groupOf ino) < 2 ^ 32
  reached : ∀ i < r.volume.inodeSize, r.Reaches (r.volume.inodeAt ino + i)

/-- The loader can read the extents: the entries of each node are in its first
4096 bytes, and the nodes and the extents with a byte of the file have
addresses. -/
structure Readable (ino : ℕ) : Prop where
  nodes : r.volume.Below (fun block => 12 + 12 * le16 r.volume (block * r.volume.blockSize + 2) ≤ 4096 ∧
    r.Reaches (block * r.volume.blockSize)) (r.volume.depth ino) (r.volume.inodeAt ino + 40)
  reached : ∀ e ∈ r.volume.extents ino, e.block * r.volume.blockSize < r.volume.fileSize ino →
    r.Reaches (e.start * r.volume.blockSize)

/-- Every extent with a byte of the file is written and has fewer than 32768
blocks. -/
structure Plain (ino : ℕ) : Prop extends r.Readable ino where
  extents : ∀ e ∈ r.volume.extents ino, e.block * r.volume.blockSize < r.volume.fileSize ino →
    e.written = true ∧ e.len < 32768

/-- The disk has all blocks of the volume. -/
def Holds : Prop := r.partitionOffset * 512 + r.volume.blocks * r.volume.blockSize ≤ r.dev.sectors * 512

end SectorReader

/-! ### Sectors -/

section Sectors

variable {r : SectorReader}

lemma Volume.blockSize_eq (v : Volume) : ∃ k, v.blockSize = 512 * k ∧ 2 ≤ k :=
  ⟨2 * 2 ^ le32 v (1024 + 24), by rw [blockSize]; ring, by have := Nat.one_le_two_pow (n := le32 v (1024 + 24)); omega⟩

lemma Volume.blockSize_pos (v : Volume) : 0 < v.blockSize := by
  obtain ⟨k, hk, hk2⟩ := v.blockSize_eq
  omega

/-- A read inside the volume gives the volume's bytes. -/
lemma readExt4Sectors_eq (h : r.Holds) {sector len : ℕ}
    (hlen : sector * 512 + len ≤ r.volume.blocks * r.volume.blockSize) (hreach : r.Reaches (sector * 512)) :
    ∃ buf, readExt4Sectors r sector len = .ok buf ∧ ∀ i < len, buf i = r.volume (sector * 512 + i) := by
  obtain ⟨k, hk, -⟩ := r.volume.blockSize_eq
  unfold SectorReader.Holds at h
  unfold SectorReader.Reaches at hreach
  rw [hk, mul_left_comm] at hlen h
  generalize r.volume.blocks * k = total at hlen h
  by_cases h0 : len = 0
  · exact ⟨_, if_pos h0, fun i hi => absurd hi (by omega)⟩
  · have hround : sector + (len + 511) / 512 ≤ total := by omega
    have hin : (r.partitionOffset + sector) * 512 + (len + 511) / 512 * 512 ≤ r.dev.sectors * 512 :=
      calc (r.partitionOffset + sector) * 512 + (len + 511) / 512 * 512
          = r.partitionOffset * 512 + 512 * (sector + (len + 511) / 512) := by ring
        _ ≤ r.partitionOffset * 512 + 512 * total :=
          add_le_add_left (Nat.mul_le_mul_left 512 hround) _
        _ ≤ r.dev.sectors * 512 := h
    have hsmall : ¬2 ^ 64 ≤ (r.partitionOffset + sector) * 512 := by omega
    refine ⟨fun i => r.dev.byte ((r.partitionOffset + sector) * 512 + i), ?_, ?_⟩
    · rw [readExt4Sectors, if_neg h0, if_neg hsmall, Nat.mul_div_cancel _ (by decide), Device.readBlocks, if_pos hin]
    · intro i _
      change r.dev.byte _ = r.dev.byte _
      rw [add_mul, add_assoc]

/-- The loop of `read_inode`: with `offset` bytes in place and the next one at
the current position, it puts the rest in place. -/
lemma inodeStep_gives (h : r.Holds) {sector byteInSector readSize : ℕ} (hb : byteInSector < 512)
    (hin : sector * 512 + byteInSector + readSize ≤ r.volume.blocks * r.volume.blockSize)
    (hreach : ∀ i < readSize, r.Reaches (sector * 512 + byteInSector + i)) :
    ∀ (turns offset cur : ℕ) (raw : ℕ → UInt8), readSize ≤ offset + turns → (offset < readSize → sector ≤ cur ∧
        cur * 512 + (if cur = sector then byteInSector else 0) = sector * 512 + byteInSector + offset) →
      (∀ i < offset, raw i = r.volume (sector * 512 + byteInSector + i)) →
      ∃ raw', Gives (fun n => chase (inodeStep r sector byteInSector readSize) n (offset, cur, raw)) (.ok raw') ∧
        ∀ i < readSize, raw' i = r.volume (sector * 512 + byteInSector + i)
  | 0, offset, cur, raw, hturns, _, hraw => by
    have hstop : inodeStep r sector byteInSector readSize (offset, cur, raw) = .ok (.inl raw) :=
      if_neg (show ¬offset < readSize by omega)
    exact ⟨raw, (gives_chase_stop hstop).mpr rfl, fun i hi => hraw i (by omega)⟩
  | turns + 1, offset, cur, raw, hturns, hpos, hraw => by
    by_cases hlt : offset < readSize
    · obtain ⟨hcur, hpos⟩ := hpos hlt
      have hsrc : (if cur = sector then byteInSector else 0) < 512 := by split <;> omega
      generalize hs : (if cur = sector then byteInSector else 0) = srcStart at hpos hsrc
      -- The sector with the next byte is in the volume, a whole number of sectors.
      have hsector : cur * 512 + 512 ≤ r.volume.blocks * r.volume.blockSize := by
        obtain ⟨k, hk, -⟩ := r.volume.blockSize_eq
        rw [hk, mul_left_comm] at hin ⊢
        have hlt : cur < r.volume.blocks * k := by omega
        calc cur * 512 + 512 = 512 * (cur + 1) := by ring
          _ ≤ 512 * (r.volume.blocks * k) := Nat.mul_le_mul_left 512 hlt
      have hbefore : cur * 512 ≤ sector * 512 + byteInSector + offset := hpos ▸ Nat.le_add_right _ _
      have hat : r.Reaches (cur * 512) := lt_of_le_of_lt (Nat.add_le_add_left hbefore _) (hreach offset hlt)
      obtain ⟨buf, hbuf, hbytes⟩ := readExt4Sectors_eq h hsector hat
      have hstep : Next (inodeStep r sector byteInSector readSize) (offset, cur, raw)
          (offset + min (512 - srcStart) (readSize - offset), cur + 1,
            blit raw offset (min (512 - srcStart) (readSize - offset)) fun i => buf (srcStart + i)) := by
        simp only [Next, inodeStep, if_pos hlt, hbuf, hs]
        rfl
      simp only [gives_chase_next hstep]
      refine inodeStep_gives h hb hin hreach turns _ _ _ (by omega) (fun hmore => ?_) (fun i hi => ?_)
      · rw [if_neg (by omega)]
        omega
      · by_cases hold : i < offset
        · rw [blit_of_not_mem (by omega)]
          exact hraw i hold
        · rw [blit_of_mem (by omega) hi, hbytes _ (by omega), ← Nat.add_assoc, hpos, Nat.add_assoc,
            Nat.add_sub_cancel' (by omega)]
    · have hstop : inodeStep r sector byteInSector readSize (offset, cur, raw) = .ok (.inl raw) := if_neg hlt
      exact ⟨raw, (gives_chase_stop hstop).mpr rfl, fun i hi => hraw i (by omega)⟩

end Sectors

/-! ### Superblock and descriptors -/

lemma Superblock.parse_congr {f g : ℕ → UInt8} (h : ∀ i < 512, f i = g i) :
    Superblock.parse f = Superblock.parse g := by
  have h16 : ∀ o, o + 2 ≤ 512 → le16 f o = le16 g o := fun o ho =>
    le16_congr fun i hi => h _ (by omega)
  have h32 : ∀ o, o + 4 ≤ 512 → le32 f o = le32 g o := fun o ho =>
    le32_congr fun i hi => h _ (by omega)
  simp only [Superblock.parse, h16 56 (by decide), h16 88 (by decide), h32 4 (by decide),
    h32 24 (by decide), h32 32 (by decide), h32 40 (by decide), h32 76 (by decide),
    h32 100 (by decide)]

variable {ino n : ℕ} {inode : Inode}

namespace Volume

variable {v : Volume} {r : SectorReader}

@[simp]
lemma superblock_inodesPerGroup : v.superblock.sInodesPerGroup = v.inodesPerGroup := rfl

lemma WellFormed.superblock_blockSize (h : v.WellFormed) : v.superblock.blockSize = v.blockSize := by
  have hlog : 2 ^ le32 v (1024 + 24) ≤ 2 ^ 6 := Nat.pow_le_pow_right (by decide) h.logBlockSize
  change 1024 * 2 ^ le32 v (1024 + 24) % 2 ^ 64 = _
  rw [Nat.mod_eq_of_lt (by omega), blockSize]

lemma WellFormed.blockSize_le (h : v.WellFormed) : v.blockSize ≤ 2 ^ 16 := by
  have hlog : 2 ^ le32 v (1024 + 24) ≤ 2 ^ 6 := Nat.pow_le_pow_right (by decide) h.logBlockSize
  rw [blockSize]
  omega

lemma WellFormed.superblock_inodeSize (h : v.WellFormed) : v.superblock.inodeSize = v.inodeSize := by
  change (if 1 ≤ v.revLevel ∧ (if 1 ≤ v.revLevel then le16 v (1024 + 88) else 128) ≠ 0 then
    (if 1 ≤ v.revLevel then le16 v (1024 + 88) else 128) else 128) = v.inodeSize
  have hsize := h.inodeSize.1
  rw [Volume.inodeSize] at hsize ⊢
  by_cases hrev : v.revLevel = 0
  · rw [if_pos hrev, if_neg (by omega)]
  · rw [if_neg hrev] at hsize ⊢
    rw [if_pos (show 1 ≤ v.revLevel by omega), if_pos (by omega)]

/-- The block with the descriptors. -/
lemma descBlock_eq : (if v.superblock.sLogBlockSize = 0 then 2 else 1) = v.descBlock := by
  change (if le32 v (1024 + 24) = 0 then 2 else 1) = _
  rw [descBlock, blockSize]
  by_cases h0 : le32 v (1024 + 24) = 0
  · have hone : 1024 / (1024 * 2 ^ le32 v (1024 + 24)) = 1 := by simp [h0]
    rw [if_pos h0, hone]
  · have hpow : 2 ≤ 2 ^ le32 v (1024 + 24) := by
      calc 2 = 2 ^ 1 := rfl
        _ ≤ 2 ^ le32 v (1024 + 24) := Nat.pow_le_pow_right (by decide) (by omega)
    rw [if_neg h0, Nat.div_eq_of_lt (by omega)]

lemma descBlock_le : v.descBlock ≤ 2 := by
  rw [← descBlock_eq]
  split <;> omega

lemma bgdtEntrySize_cases (sb : Superblock) : bgdtEntrySize sb = 64 ∨ bgdtEntrySize sb = 32 := by
  rw [bgdtEntrySize]
  split
  · exact .inl rfl
  · exact .inr rfl

lemma WellFormed.numGroups_le (h : v.WellFormed) : numGroups v.superblock ≤ v.blocks := by
  have hpos : 0 < v.superblock.sBlocksPerGroup := h.blocksPerGroup
  have hlo : v.superblock.sBlocksCountLo ≤ v.blocks := Nat.le_add_right _ _
  rw [numGroups]
  generalize v.superblock.sBlocksCountLo = lo at hlo
  generalize v.superblock.sBlocksPerGroup = b at hpos
  rcases lo with - | l
  · rw [Nat.div_eq_of_lt (by omega)]
    exact Nat.zero_le _
  · refine le_trans (Nat.div_le_of_le_mul ?_) hlo
    have hl : l ≤ b * l := Nat.le_mul_of_pos_left l hpos
    rw [Nat.mul_succ]
    omega

lemma WellFormed.descBlock_lt (h : v.WellFormed) : v.descBlock < v.blocks := by
  have htables := h.tables _ h.root.group
  have hsize : 0 < v.inodesPerGroup * v.inodeSize :=
    mul_pos h.inodesPerGroup (by have := h.inodeSize.1; omega)
  have hdesc : v.descBlock * v.blockSize ≤ v.descAt v.groups := Nat.le_add_right _ _
  exact Nat.lt_of_mul_lt_mul_right (a := v.blockSize) (by omega)

/-- The descriptors, as many and as large as the loader takes them to be, end
in the volume. -/
lemma WellFormed.descs_room (h : v.WellFormed) {k : ℕ} (hk2 : 2 ≤ k) :
    v.descBlock * k + (numGroups v.superblock * bgdtEntrySize v.superblock + 511) / 512 ≤ v.blocks * k := by
  have hlt := h.descBlock_lt
  have hn := h.numGroups_le
  have h2 := v.descBlock_le
  generalize numGroups v.superblock = n at hn ⊢
  have hsize : n * bgdtEntrySize v.superblock ≤ n * 64 := by
    apply Nat.mul_le_mul_left
    rcases bgdtEntrySize_cases v.superblock with he | he <;> omega
  by_cases hsmall : n ≤ 16
  · calc v.descBlock * k + (n * bgdtEntrySize v.superblock + 511) / 512
        ≤ v.descBlock * k + k := by omega
      _ = (v.descBlock + 1) * k := by ring
      _ ≤ v.blocks * k := mul_le_mul_right k hlt
  · obtain ⟨m, rfl⟩ : ∃ m, n = m + 2 := ⟨n - 2, by omega⟩
    have hdesc : v.descBlock * k ≤ 2 * k := mul_le_mul_right k h2
    have hm : m * 2 ≤ m * k := Nat.mul_le_mul_left m hk2
    calc v.descBlock * k + ((m + 2) * bgdtEntrySize v.superblock + 511) / 512
        ≤ 2 * k + m * k := by omega
      _ = (m + 2) * k := by ring
      _ ≤ v.blocks * k := mul_le_mul_right k hn

/-- A descriptor keeps the low half of the inode table's block. -/
lemma descParse_eq (raw : ℕ → UInt8) (entrySize off : ℕ) :
    (BlockGroupDesc.parse raw entrySize off).bgInodeTableLo = le32 raw (off + 8) := by
  have hlt := le32_lt raw (off + 8)
  simp only [BlockGroupDesc.parse]
  split <;> omega

lemma WellFormed.readDescs_eq (h : r.volume.WellFormed) (hr : r.Holds)
    (hreach : r.Reaches (r.volume.descBlock * r.volume.blockSize)) :
    ∃ descs, readDescs r r.volume.superblock = .ok descs ∧
      ∀ g < numGroups r.volume.superblock, ∃ desc, descs[g]? = some desc ∧
        desc.bgInodeTableLo = le32 r.volume (r.volume.descBlock * r.volume.blockSize +
          g * bgdtEntrySize r.volume.superblock + 8) := by
  obtain ⟨k, hk, hk2⟩ := r.volume.blockSize_eq
  have hroom := h.descs_room hk2
  rw [readDescs, descBlock_eq, h.superblock_blockSize]
  generalize he : bgdtEntrySize r.volume.superblock = e at hroom ⊢
  generalize numGroups r.volume.superblock = n at hroom ⊢
  have hsector : r.volume.descBlock * r.volume.blockSize / 512 = r.volume.descBlock * k := by
    rw [hk, mul_left_comm, Nat.mul_div_cancel_left _ (by decide)]
  have hin : r.volume.descBlock * k * 512 + (n * e + 511) / 512 * 512 ≤ r.volume.blocks * r.volume.blockSize :=
    calc r.volume.descBlock * k * 512 + (n * e + 511) / 512 * 512
        = 512 * (r.volume.descBlock * k + (n * e + 511) / 512) := by ring
      _ ≤ 512 * (r.volume.blocks * k) := Nat.mul_le_mul_left 512 hroom
      _ = r.volume.blocks * r.volume.blockSize := by rw [hk]; ring
  have hat : r.volume.descBlock * k * 512 = r.volume.descBlock * r.volume.blockSize := by rw [hk]; ring
  obtain ⟨raw, hraw, hbytes⟩ := readExt4Sectors_eq hr hin (hat ▸ hreach)
  simp only [hsector, hraw, bind, Except.bind]
  refine ⟨_, rfl, fun g hg => ⟨_, by rw [List.getElem?_map, List.getElem?_range hg]; rfl, ?_⟩⟩
  rw [descParse_eq]
  apply le32_congr
  intro i hi
  have hge : (g + 1) * e ≤ n * e := mul_le_mul_right e hg
  rw [add_mul] at hge
  have he32 : 32 ≤ e := by
    rcases bgdtEntrySize_cases r.volume.superblock with h' | h' <;> omega
  rw [hbytes _ (by omega), hk, mul_left_comm, mul_comm 512, add_assoc, add_assoc, add_assoc]

/-! ### Inodes -/

/-- The group's inode table, as the loader takes it from the descriptors. -/
lemma table_eq {g : ℕ} (haligned : g = 0 ∨ bgdtEntrySize v.superblock = v.descSize) (hlow : v.inodeTable g < 2 ^ 32) :
    le32 v (v.descBlock * v.blockSize + g * bgdtEntrySize v.superblock + 8) = v.inodeTable g := by
  have hdesc : v.descBlock * v.blockSize + g * bgdtEntrySize v.superblock = v.descAt g := by
    rw [descAt]
    rcases haligned with h0 | he
    · rw [h0, zero_mul, zero_mul]
    · rw [he]
  rw [hdesc]
  rw [inodeTable] at hlow ⊢
  split
  · rw [if_pos ‹_›] at hlow
    omega
  · rfl

/-- An inode of the volume is in it as a whole. -/
lemma WellFormed.inode_room (h : v.WellFormed) (hg : v.groupOf ino < v.groups) :
    v.inodeAt ino + v.inodeSize ≤ v.blocks * v.blockSize := by
  have htable := (h.tables _ hg).2
  have hidx : (ino - 1) % v.inodesPerGroup + 1 ≤ v.inodesPerGroup := Nat.mod_lt _ h.inodesPerGroup
  calc v.inodeAt ino + v.inodeSize
      = v.inodeTable (v.groupOf ino) * v.blockSize +
          ((ino - 1) % v.inodesPerGroup + 1) * v.inodeSize := by rw [inodeAt]; ring
    _ ≤ v.inodeTable (v.groupOf ino) * v.blockSize + v.inodesPerGroup * v.inodeSize :=
        add_le_add_left (mul_le_mul_right _ hidx) _
    _ ≤ v.blocks * v.blockSize := htable

/-- What the loader keeps of an inode is what the volume has there. -/
structure IsInode (v : Volume) (ino : ℕ) (inode : Inode) : Prop where
  size : inode.size = v.fileSize ino
  flags : inode.iFlags = le32 v (v.inodeAt ino + 32)
  block : ∀ i < 60, inode.iBlock i = v (v.inodeAt ino + 40 + i)

lemma isInode_parse {raw : ℕ → UInt8} (h : ∀ i < 128, raw i = v (v.inodeAt ino + i)) :
    v.IsInode ino (Inode.parse raw) := by
  have h32 : ∀ o, o + 4 ≤ 128 → le32 raw o = le32 v (v.inodeAt ino + o) := fun o ho =>
    le32_congr fun i hi => by rw [h _ (by omega), add_assoc]
  refine ⟨?_, h32 32 (by decide), fun i hi => ?_⟩
  · change 2 ^ 32 * le32 raw 108 + le32 raw 4 = _
    rw [h32 108 (by decide), h32 4 (by decide), fileSize, add_comm]
  · change raw (40 + i) = _
    rw [h _ (by omega), add_assoc]

variable {descs : List BlockGroupDesc}

lemma WellFormed.readInodeRaw_gives (h : r.volume.WellFormed) (hr : r.Holds)
    (hreach : r.Reaches (r.volume.descBlock * r.volume.blockSize))
    (hdescs : readDescs r r.volume.superblock = .ok descs)
    (hino : 1 ≤ ino) (hg : r.volume.groupOf ino < r.volume.groups) (hf : r.Found ino) :
    ∃ raw, Gives (readInodeRaw r r.volume.superblock descs ino) (.ok raw) ∧
      ∀ i < r.volume.inodeSize, raw i = r.volume (r.volume.inodeAt ino + i) := by
  obtain ⟨descs', hdescs', hget⟩ := h.readDescs_eq hr hreach
  obtain rfl : descs = descs' := Except.ok.inj (hdescs.symm.trans hdescs')
  obtain ⟨desc, hdesc, htable⟩ := hget _ hf.counted
  rw [table_eq hf.aligned hf.low] at htable
  obtain ⟨k, hk, -⟩ := r.volume.blockSize_eq
  have hroom := h.inode_room hg
  have hvalid : ¬(ino = 0 ∨ r.volume.inodesPerGroup = 0) := by
    have := h.inodesPerGroup
    omega
  have hsmall : ¬2 ^ 64 ≤ r.volume.inodeTable (r.volume.groupOf ino) * r.volume.blockSize := by
    have := Nat.mul_le_mul hf.low.le h.blockSize_le
    have hlow := hf.low
    have hpos := r.volume.blockSize_pos
    have := Nat.mul_lt_mul_of_pos_right hlow hpos
    omega
  rw [groupOf] at hdesc
  unfold readInodeRaw
  simp only [superblock_inodesPerGroup, if_neg hvalid, inodeSector, inodeOffset, h.superblock_inodeSize,
    h.superblock_blockSize, hdesc, htable, if_neg hsmall]
  -- The sector and the byte in it are those of the inode.
  have hsector : r.volume.inodeTable (r.volume.groupOf ino) * r.volume.blockSize / 512 =
      r.volume.inodeTable (r.volume.groupOf ino) * k := by
    rw [hk, mul_left_comm, Nat.mul_div_cancel_left _ (by decide)]
  have hat : (r.volume.inodeTable (r.volume.groupOf ino) * k +
      (ino - 1) % r.volume.inodesPerGroup * r.volume.inodeSize / 512) * 512 +
      (ino - 1) % r.volume.inodesPerGroup * r.volume.inodeSize % 512 = r.volume.inodeAt ino := by
    rw [inodeAt, hk, add_mul, add_assoc, Nat.div_add_mod']
    ring
  rw [hsector]
  obtain ⟨raw, hraw, hbytes⟩ := inodeStep_gives hr (Nat.mod_lt _ (by decide)) (hat ▸ hroom) (hat ▸ hf.reached)
    r.volume.inodeSize 0 _ (fun _ => 0) (by omega)
    (fun _ => ⟨le_rfl, by rw [if_pos rfl, add_zero]⟩) (fun i hi => absurd hi (by omega))
  exact ⟨raw, hraw, fun i hi => by rw [hbytes i hi, hat]⟩

lemma WellFormed.readInode_gives (h : r.volume.WellFormed) (hr : r.Holds)
    (hreach : r.Reaches (r.volume.descBlock * r.volume.blockSize))
    (hdescs : readDescs r r.volume.superblock = .ok descs)
    (hino : 1 ≤ ino) (hg : r.volume.groupOf ino < r.volume.groups) (hf : r.Found ino) :
    ∃ inode, Gives (readInode r r.volume.superblock descs ino) (.ok inode) ∧ r.volume.IsInode ino inode := by
  obtain ⟨raw, hraw, hbytes⟩ := h.readInodeRaw_gives hr hreach hdescs hino hg hf
  have hsize := h.inodeSize.1
  refine ⟨Inode.parse raw, ?_, isInode_parse fun i hi => hbytes i (by omega)⟩
  refine hraw.andThen (mono_readInodeRaw _ _ _ _) ?_
  rw [h.superblock_inodeSize, if_neg (by omega)]
  rfl

end Volume

/-! ### Extent trees -/

/-- An extent as the loader keeps it. -/
def Extent.entry (e : Extent) : ExtentEntry where
  eeBlock := e.block
  eeLen := if e.written ∧ e.len = 32768 then 0 else e.len
  eeStart := e.start

/-- Logical block `n` is one of the extent's, as the loader has it. -/
def ExtentEntry.Covers (x : ExtentEntry) (n : ℕ) : Prop :=
  x.eeBlock ≤ n ∧ n < x.eeBlock + x.eeLen

/-- Byte `i` of a file whose block `n` is block `start` of the volume. -/
def Volume.mapped (v : Volume) (start n i : ℕ) : UInt8 :=
  v ((start + (i / v.blockSize - n)) * v.blockSize + i % v.blockSize)

/-- The bytes of an extent's blocks. -/
lemma ExtentEntry.covers_iff {x : ExtentEntry} {bs i : ℕ} (hbs : 0 < bs) :
    x.Covers (i / bs) ↔ x.eeBlock * bs ≤ i ∧ i < x.eeBlock * bs + x.eeLen * bs := by
  rw [ExtentEntry.Covers, Nat.le_div_iff_mul_le hbs, Nat.div_lt_iff_lt_mul hbs, add_mul]

lemma Extent.entry_len_le (e : Extent) : e.entry.eeLen ≤ e.len := by
  simp only [entry]
  split <;> omega

/-- What the loader has of an extent is covered by the extent. -/
lemma Extent.covers_of_entry {e : Extent} (h : e.entry.Covers n) : e.Covers n :=
  ⟨h.1, lt_of_lt_of_le h.2 (add_le_add_left e.entry_len_le _)⟩

section Trees

variable {v : Volume} {raw : ℕ → UInt8} {off a : ℕ}

lemma ExtentEntry.parse_eq (h : ∀ i < 12, raw (off + i) = v (a + i)) : parse raw off = (v.extent a).entry := by
  have hblock : le32 raw off = le32 v a := le32_congr fun i hi => h i (by omega)
  have hlen : le16 raw (off + 4) = le16 v (a + 4) := le16_congr fun i hi => by
    rw [add_assoc, h _ (by omega), add_assoc]
  have hhi : le16 raw (off + 6) = le16 v (a + 6) := le16_congr fun i hi => by
    rw [add_assoc, h _ (by omega), add_assoc]
  have hlo : le32 raw (off + 8) = le32 v (a + 8) := le32_congr fun i hi => by
    rw [add_assoc, h _ (by omega), add_assoc]
  simp only [parse, entry, extent, hblock, hlen, hhi, hlo, mk.injEq, true_and, decide_eq_true_eq]
  have hlt := le16_lt v (a + 4)
  refine ⟨?_, add_comm _ _⟩
  by_cases hw : le16 v (a + 4) ≤ 32768
  · simp only [hw, if_true, true_and]
    split <;> omega
  · simp only [hw, if_false, false_and]
    omega

lemma eiLeaf_eq (h : ∀ i < 12, raw (off + i) = v (a + i)) : eiLeaf raw off = v.child a := by
  have hlo : le32 raw (off + 4) = le32 v (a + 4) := le32_congr fun i hi => by
    rw [add_assoc, h _ (by omega), add_assoc]
  have hhi : le16 raw (off + 8) = le16 v (a + 8) := le16_congr fun i hi => by
    rw [add_assoc, h _ (by omega), add_assoc]
  rw [eiLeaf, child, hlo, hhi, add_comm]

/-- When the entries are in the buffer the loop goes over all of them. -/
lemma entryOffsets_eq {room : ℕ} (h : 12 + 12 * n ≤ room) :
    entryOffsets n room = (List.range n).map fun i => 12 + i * 12 := by
  rw [entryOffsets, takeWhile_eq_self_iff]
  intro off hoff
  obtain ⟨i, hi, rfl⟩ := mem_map.mp hoff
  have := mem_range.mp hi
  simp only [decide_eq_true_eq]
  omega

/-- The header of a node, and its entries, from a buffer that holds them. -/
lemma node_le16 {o : ℕ} (h : ∀ i < 12 + 12 * n, raw i = v (a + i)) (ho : o < 11) : le16 raw o = le16 v (a + o) :=
  le16_congr fun i hi => by rw [h _ (by omega), add_assoc]

lemma node_entry {i : ℕ} (h : ∀ i < 12 + 12 * n, raw i = v (a + i)) (hi : i < n) :
    ∀ j < 12, raw (12 + i * 12 + j) = v (entryAt a i + j) := fun j hj => by
  rw [h _ (by omega), entryAt]
  congr 1
  omega

/-- A leaf that is in the buffer is read as the format says. -/
lemma extentNode_leaf {room room' : ℕ} (hnode : v.NodeOk 0 a room') (hroom : 12 + 12 * le16 v (a + 2) ≤ room)
    (hraw : ∀ i < 12 + 12 * le16 v (a + 2), raw i = v (a + i)) :
    extentNode raw room = .ok (.inl ((v.extentsOf 0 a).map entry)) := by
  obtain ⟨hmagic, hdepth, -⟩ := hnode
  have hmagic' : le16 raw 0 = 0xF30A := (node_le16 hraw (by decide)).trans hmagic
  rw [extentNode, if_neg (not_not.mpr hmagic'), node_le16 hraw (by decide), node_le16 hraw (by decide), if_pos hdepth,
    entryOffsets_eq hroom, extentsOf, map_map, map_map]
  refine congrArg (Except.ok ∘ Sum.inl) (map_congr_left fun i hi => ?_)
  exact parse_eq (node_entry hraw (mem_range.mp hi))

/-- So is an index node, up to its children. -/
lemma extentNode_index {room room' d : ℕ} (hnode : v.NodeOk (d + 1) a room')
    (hroom : 12 + 12 * le16 v (a + 2) ≤ room) (hraw : ∀ i < 12 + 12 * le16 v (a + 2), raw i = v (a + i)) :
    extentNode raw room = .ok (.inr ((List.range (le16 v (a + 2))).map fun i => some (v.child (entryAt a i)))) := by
  obtain ⟨hmagic, hdepth, -⟩ := hnode
  have hmagic' : le16 raw 0 = 0xF30A := (node_le16 hraw (by decide)).trans hmagic
  rw [extentNode, if_neg (not_not.mpr hmagic'), node_le16 hraw (by decide), node_le16 hraw (by decide), if_neg (by omega),
    entryOffsets_eq hroom, map_map]
  refine congrArg (Except.ok ∘ Sum.inr) (map_congr_left fun i hi => ?_)
  exact congrArg some (eiLeaf_eq (node_entry hraw (mem_range.mp hi)))

/-- An extent of a file is an entry of the volume. -/
lemma mem_extentsOf {e : Extent} : ∀ {depth a : ℕ}, e ∈ v.extentsOf depth a → ∃ b, v.extent b = e
  | 0, _, he => by
    obtain ⟨i, -, hi⟩ := mem_map.mp he
    exact ⟨_, hi⟩
  | depth + 1, _, he => by
    obtain ⟨i, -, hi⟩ := mem_flatMap.mp he
    exact mem_extentsOf hi

lemma entry_bounds {e : Extent} (h : ∃ b, v.extent b = e) : e.entry.eeBlock < 2 ^ 32 ∧ e.entry.eeLen < 2 ^ 15 := by
  obtain ⟨b, rfl⟩ := h
  have hblock := le32_lt v b
  have hlen := le16_lt v (b + 4)
  refine ⟨hblock, ?_⟩
  simp only [entry, extent, decide_eq_true_eq]
  split_ifs <;> omega

end Trees

namespace Volume.WellFormed

variable {r : SectorReader} (h : r.volume.WellFormed) (hr : r.Holds)

include h hr

lemma readExtentBlock_eq {block : ℕ} (hb : block < r.volume.blocks) (hreach : r.Reaches (block * r.volume.blockSize)) :
    ∃ raw, readExtentBlock r r.volume.superblock block = .ok raw ∧ ∀ i, i < r.volume.blockSize → i < 4096 →
        raw i = r.volume (block * r.volume.blockSize + i) := by
  obtain ⟨k, hk, -⟩ := r.volume.blockSize_eq
  have hat : block * k * 512 = block * r.volume.blockSize := by rw [hk]; ring
  have hin : block * k * 512 + min r.volume.blockSize 4096 ≤ r.volume.blocks * r.volume.blockSize :=
    calc block * k * 512 + min r.volume.blockSize 4096
        ≤ block * r.volume.blockSize + r.volume.blockSize := by
          rw [hat]
          exact add_le_add_left (min_le_left _ _) _
      _ = (block + 1) * r.volume.blockSize := by ring
      _ ≤ r.volume.blocks * r.volume.blockSize := mul_le_mul_right _ hb
  obtain ⟨buf, hbuf, hbytes⟩ := readExt4Sectors_eq hr hin (hat ▸ hreach)
  refine ⟨blit (fun _ => 0) 0 (min r.volume.blockSize 4096) buf, ?_, fun i hi hi' => ?_⟩
  · rw [readExtentBlock, h.superblock_blockSize,
      show r.volume.blockSize / 512 = k by rw [hk, Nat.mul_div_cancel_left _ (by decide)], hbuf]
    rfl
  · rw [blit_of_mem (Nat.zero_le i) (by omega), hbytes _ (by omega), hat]
    rfl

omit h hr in
lemma room_of_nodeOk {v : Volume} {depth a room : ℕ} (hnode : v.NodeOk depth a room) : 12 + 12 * le16 v (a + 2) ≤ room := by
  cases depth with
  | zero => exact hnode.2.2
  | succ => exact hnode.2.2.1

/-- The walk below a node that is in a buffer. -/
lemma gather_gives : ∀ (depth a room' : ℕ) (b : Option ℕ), r.volume.NodeOk depth a room' →
    r.volume.Below (fun block => 12 + 12 * le16 r.volume (block * r.volume.blockSize + 2) ≤ 4096 ∧
      r.Reaches (block * r.volume.blockSize)) depth a →
    (∃ raw room, treeNode r r.volume.superblock inode b = extentNode raw room ∧
      12 + 12 * le16 r.volume (a + 2) ≤ room ∧ ∀ i < 12 + 12 * le16 r.volume (a + 2), raw i = r.volume (a + i)) →
    Gives (fun n => gather (treeNode r r.volume.superblock inode) n b) (.ok ((r.volume.extentsOf depth a).map entry))
  | 0, a, room', b, hnode, _, ⟨raw, room, hread, hroom, hraw⟩ =>
    (gives_gather_leaf (hread.trans (extentNode_leaf hnode hroom hraw))).mpr rfl
  | depth + 1, a, room', b, hnode, hbelow, ⟨raw, room, hread, hroom, hraw⟩ => by
    rw [gives_gather_index (hread.trans (extentNode_index hnode hroom hraw)), extentsOf, map_flatMap]
    refine gives_gatherAll_map fun i hi => ?_
    obtain ⟨hchild, hok⟩ := hnode.2.2.2.2 i (mem_range.mp hi)
    obtain ⟨⟨hshort, hreach⟩, hdeep⟩ := hbelow i (mem_range.mp hi)
    have hfits := room_of_nodeOk hok
    obtain ⟨raw', hraw', hbytes⟩ := h.readExtentBlock_eq hr hchild hreach
    refine gather_gives depth _ _ _ hok hdeep ⟨raw', 4096, ?_, hshort, fun i hi => hbytes i (by omega) (by omega)⟩
    rw [treeNode, hraw']
    rfl

/-- The extents of a file, from the root of its tree in the inode. -/
lemma parseExtents_gives (hfile : r.volume.FileOk ino) (hread : r.Readable ino) (hinode : r.volume.IsInode ino inode) :
    Gives (parseExtents r r.volume.superblock inode) (.ok ((r.volume.extents ino).map entry)) := by
  have hroom := room_of_nodeOk hfile.node
  refine h.gather_gives hr _ _ _ none hfile.node hread.nodes ⟨inode.iBlock, 60, rfl, hroom, fun i hi => ?_⟩
  exact hinode.block i (by omega)

/-! ### Files -/

/-- A turn of the loop over the extents, for one that starts in the file: it puts
the bytes of the extent's blocks in place. -/
lemma readExtents_cons {size : ℕ} (hsize : size ≤ 2 ^ 48) {x : ExtentEntry} (hstart : 0 < x.eeStart)
    (hroom : x.eeStart + x.eeLen ≤ r.volume.blocks) (hbound : x.eeBlock < 2 ^ 32 ∧ x.eeLen < 2 ^ 15)
    (hend : x.eeBlock * r.volume.blockSize < size) (hreach : r.Reaches (x.eeStart * r.volume.blockSize))
    (xs : List ExtentEntry) (data : ℕ → UInt8) :
    ∃ data', readExtents r r.volume.blockSize size (x :: xs) data = readExtents r r.volume.blockSize size xs data' ∧
      ∀ i < size, (x.Covers (i / r.volume.blockSize) → data' i = r.volume.mapped x.eeStart x.eeBlock i) ∧
        (¬x.Covers (i / r.volume.blockSize) → data' i = data i) := by
  obtain ⟨k, hk, -⟩ := r.volume.blockSize_eq
  have hpos := r.volume.blockSize_pos
  have hsmall := h.blockSize_le
  generalize hcopy : min (x.eeLen * r.volume.blockSize) (size - x.eeBlock * r.volume.blockSize) = copyLen
  have hat : x.eeStart * k * 512 = x.eeStart * r.volume.blockSize := by rw [hk]; ring
  have hin : x.eeStart * k * 512 + copyLen ≤ r.volume.blocks * r.volume.blockSize :=
    calc x.eeStart * k * 512 + copyLen
        ≤ x.eeStart * r.volume.blockSize + x.eeLen * r.volume.blockSize := by omega
      _ = (x.eeStart + x.eeLen) * r.volume.blockSize := by ring
      _ ≤ r.volume.blocks * r.volume.blockSize := mul_le_mul_right _ hroom
  obtain ⟨buf, hbuf, hbytes⟩ := readExt4Sectors_eq hr hin (hat ▸ hreach)
  refine ⟨blit data (x.eeBlock * r.volume.blockSize) copyLen buf, ?_, fun i hi => ⟨fun hc => ?_, fun hc => ?_⟩⟩
  · have hlen : ¬2 ^ 64 ≤ x.eeLen * r.volume.blockSize := by
      have := Nat.mul_le_mul hbound.2.le hsmall
      omega
    have hsec : ¬2 ^ 64 ≤ x.eeStart * k := by
      unfold SectorReader.Reaches at hreach
      omega
    rw [readExtents, if_neg (by omega), if_neg (not_le.mpr hend), if_neg hlen, if_neg hstart.ne',
      show r.volume.blockSize / 512 = k by rw [hk, Nat.mul_div_cancel_left _ (by decide)], if_neg hsec]
    simp only [hcopy, readSlice, if_neg (show ¬2 ^ 63 ≤ (copyLen + 511) / 512 * 512 by omega), hbuf, bind, Except.bind]
  · obtain ⟨hl, hu⟩ := (covers_iff hpos).mp hc
    rw [blit_of_mem hl (by omega), hbytes _ (by omega), hat, mapped]
    have hmod := Nat.div_add_mod' i r.volume.blockSize
    have hle := mul_le_mul_right r.volume.blockSize hc.1
    rw [add_mul, Nat.sub_mul]
    congr 1
    omega
  · rw [blit_of_not_mem]
    rintro ⟨hl, hu⟩
    exact hc ((covers_iff hpos).mpr ⟨hl, by omega⟩)

/-- The loop over the extents: a byte of the file that an extent covers comes
from the extent's blocks, the others stay as they are. -/
lemma readExtents_eq {size : ℕ} (hsize : size ≤ 2 ^ 48) : ∀ (xs : List ExtentEntry) (data : ℕ → UInt8),
    xs.Pairwise (fun x y => x.eeBlock + x.eeLen ≤ y.eeBlock) →
    (∀ x ∈ xs, 0 < x.eeStart ∧ x.eeStart + x.eeLen ≤ r.volume.blocks) →
    (∀ x ∈ xs, x.eeBlock < 2 ^ 32 ∧ x.eeLen < 2 ^ 15) →
    (∀ x ∈ xs, x.eeBlock * r.volume.blockSize < size → r.Reaches (x.eeStart * r.volume.blockSize)) →
    ∃ data', readExtents r r.volume.blockSize size xs data = .ok data' ∧
      ∀ i < size, (∀ x ∈ xs, x.Covers (i / r.volume.blockSize) → data' i = r.volume.mapped x.eeStart x.eeBlock i) ∧
        ((∀ x ∈ xs, ¬x.Covers (i / r.volume.blockSize)) → data' i = data i)
  | [], data, _, _, _, _ => ⟨data, rfl, fun i _ => ⟨fun _ hx => (nomatch hx), fun _ => rfl⟩⟩
  | x :: xs, data, hsorted, hplaced, hbound, hreach => by
    obtain ⟨hfirst, hsorted⟩ := pairwise_cons.mp hsorted
    obtain ⟨hpx, hplaced⟩ := forall_mem_cons.mp hplaced
    obtain ⟨hbx, hbound⟩ := forall_mem_cons.mp hbound
    obtain ⟨hrx, hreach⟩ := forall_mem_cons.mp hreach
    by_cases hend : x.eeBlock * r.volume.blockSize < size
    · obtain ⟨data₁, hturn, hdata₁⟩ := h.readExtents_cons hr hsize hpx.1 hpx.2 hbx hend (hrx hend) xs data
      obtain ⟨data', hread, hdata⟩ := readExtents_eq hsize xs data₁ hsorted hplaced hbound hreach
      refine ⟨data', hturn.trans hread, fun i hi => ⟨fun y hy hc => ?_, fun hnone => ?_⟩⟩
      · rcases mem_cons.mp hy with rfl | hy
        · -- No later extent covers the byte: it stays as this one leaves it.
          rw [(hdata i hi).2 fun z hz hcz => ?_, (hdata₁ i hi).1 hc]
          have := hfirst z hz
          have := hc.2
          have := hcz.1
          omega
        · exact (hdata i hi).1 y hy hc
      · rw [(hdata i hi).2 fun y hy => hnone y (mem_cons_of_mem x hy), (hdata₁ i hi).2 (hnone x mem_cons_self)]
    · -- The extents from here on are past the end of the file.
      have hover := Nat.mul_lt_mul'' hbx.1 (lt_of_le_of_lt h.blockSize_le (show 2 ^ 16 < 2 ^ 32 by decide))
      refine ⟨data, by rw [readExtents, if_neg (by omega), if_pos (not_lt.mp hend)], fun i hi => ⟨fun y hy hc => ?_, fun _ => rfl⟩⟩
      have hlt : i / r.volume.blockSize < x.eeBlock :=
        (Nat.div_lt_iff_lt_mul r.volume.blockSize_pos).mpr (lt_of_lt_of_le hi (not_lt.mp hend))
      have hle : x.eeBlock ≤ y.eeBlock := by
        rcases mem_cons.mp hy with rfl | hy
        · exact le_rfl
        · have := hfirst y hy
          omega
      exact absurd hc.1 (by omega)

/-- A file that uses extents is read through the extents as the loader has
them, over zeros. -/
lemma readFileInto_entries (hfile : r.volume.FileOk ino) (hable : r.Readable ino) (hinode : r.volume.IsInode ino inode) :
    ∃ data, Gives (readFileInto r r.volume.superblock inode) (.ok data) ∧ ∀ i < r.volume.fileSize ino,
        (∀ e ∈ r.volume.extents ino, e.entry.Covers (i / r.volume.blockSize) →
          data i = r.volume.mapped e.start e.block i) ∧
        ((∀ e ∈ r.volume.extents ino, ¬e.entry.Covers (i / r.volume.blockSize)) → data i = 0) := by
  have hext : inode.usesExtents = true := by
    rw [Inode.usesExtents, hinode.flags]
    exact hfile.flags
  have hsize : r.volume.fileSize ino ≤ 2 ^ 48 := hfile.size.trans (Nat.mul_le_mul_left _ h.blockSize_le)
  have hsorted : ((r.volume.extents ino).map entry).Pairwise
      (fun x y => x.eeBlock + x.eeLen ≤ y.eeBlock) := by
    refine pairwise_map.mpr (hfile.sorted.imp fun {e f} hef => ?_)
    exact le_trans (add_le_add_left e.entry_len_le _) hef
  have hplaced : ∀ x ∈ (r.volume.extents ino).map entry, 0 < x.eeStart ∧ x.eeStart + x.eeLen ≤ r.volume.blocks := by
    intro x hx
    obtain ⟨e, he, rfl⟩ := mem_map.mp hx
    obtain ⟨-, hstart, hroom⟩ := hfile.placed e he
    exact ⟨hstart, le_trans (add_le_add_left e.entry_len_le _) hroom⟩
  have hbound : ∀ x ∈ (r.volume.extents ino).map entry, x.eeBlock < 2 ^ 32 ∧ x.eeLen < 2 ^ 15 := by
    intro x hx
    obtain ⟨e, he, rfl⟩ := mem_map.mp hx
    exact entry_bounds (mem_extentsOf he)
  have hreach : ∀ x ∈ (r.volume.extents ino).map entry, x.eeBlock * r.volume.blockSize < r.volume.fileSize ino →
      r.Reaches (x.eeStart * r.volume.blockSize) := by
    intro x hx
    obtain ⟨e, he, rfl⟩ := mem_map.mp hx
    exact hable.reached e he
  obtain ⟨data, hread, hdata⟩ := h.readExtents_eq hr hsize _ (fun _ => 0) hsorted hplaced hbound hreach
  refine ⟨data, ?_, fun i hi => ⟨fun e he hc => ?_, fun hnone => (hdata i hi).2 fun x hx => ?_⟩⟩
  · unfold readFileInto
    rw [hinode.size]
    simp only [if_neg (show ¬2 ^ 63 ≤ r.volume.fileSize ino by omega), hext, if_true]
    refine Gives.bind (mono_parseExtents _ _ _).attempt (fun p => mono_afterParse _ _ _ p)
      (gives_attempt.mpr (h.parseExtents_gives hr hfile hable hinode)) ?_
    simp only [afterParse, hinode.size, h.superblock_blockSize, hread]
    exact ⟨0, rfl⟩
  · exact (hdata i hi).1 e.entry (mem_map_of_mem he) hc
  · obtain ⟨e, he, rfl⟩ := mem_map.mp hx
    exact hnone e he

/-- A plain file is read as the format says. -/
lemma readFileInto_gives (hfile : r.volume.FileOk ino) (hplain : r.Plain ino) (hinode : r.volume.IsInode ino inode) :
    ∃ data, Gives (readFileInto r r.volume.superblock inode) (.ok data) ∧
      ∀ i < r.volume.fileSize ino, data i = r.volume.fileByte ino i := by
  obtain ⟨data, hread, hdata⟩ := h.readFileInto_entries hr hfile hplain.toReadable hinode
  have hpos := r.volume.blockSize_pos
  refine ⟨data, hread, fun i hi => ?_⟩
  rw [fileByte, byteOf]
  split
  · next hfind =>
    refine (hdata i hi).2 fun e he hc => ?_
    exact absurd (covers_of_entry hc) (by simpa using List.find?_eq_none.mp hfind e he)
  · next e hfind =>
    have hmem := mem_of_find?_eq_some hfind
    have hc : e.Covers (i / r.volume.blockSize) := by simpa using List.find?_some hfind
    -- The extent has a byte of the file, so it is a written one.
    have hbefore : e.block * r.volume.blockSize < r.volume.fileSize ino :=
      lt_of_le_of_lt ((Nat.le_div_iff_mul_le hpos).mp hc.1) hi
    obtain ⟨hwritten, hshort⟩ := hplain.extents e hmem hbefore
    have hlen : e.entry.eeLen = e.len := if_neg (by omega)
    rw [if_pos hwritten]
    exact (hdata i hi).1 e hmem ⟨hc.1, by rw [hlen]; exact hc.2⟩

end Volume.WellFormed

end LodaxOS.Ext4
