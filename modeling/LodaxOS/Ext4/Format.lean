/-
# The ext4 format: what a volume says

A volume is the bytes of its partition. The superblock at byte 1024 gives the
block size, the size of a group descriptor and the shape of the groups; the
descriptors, in the block after the superblock's, give where each group's
inode table starts; an inode gives the size of its file and the root of its
extent tree; the leaves of the tree, in order, give where the file's blocks
are. An extent is written when its raw length is at most 32768, and then its
blocks hold the file's data; the blocks of an unwritten extent and of a hole
read as zeros. A directory is a file whose blocks are chains of records.

`Volume.contents` is the file that an inode stands for, `Volume.Names` the
names of a directory, and `Volume.WellFormed` what a volume must satisfy for
these to be defined. Nothing here is how a reader computes it.
-/
import LodaxOS.Lib.Bytes

namespace LodaxOS.Ext4

open Bytes

/-- The bytes of a partition, from its first one on. -/
abbrev Volume := ℕ → UInt8

/-- A run of blocks of a file: `len` blocks from logical block `block` on are
the blocks from `start` on of the volume. -/
structure Extent where
  block : ℕ
  len : ℕ
  start : ℕ
  written : Bool
deriving DecidableEq, Repr

/-- Logical block `n` is one of the extent's. -/
def Extent.Covers (e : Extent) (n : ℕ) : Prop := e.block ≤ n ∧ n < e.block + e.len

instance (e : Extent) (n : ℕ) : Decidable (e.Covers n) :=
  inferInstanceAs (Decidable (_ ∧ _))

namespace Volume

variable (v : Volume)

/-! ### Superblock and group descriptors -/

def blockSize : ℕ := 1024 * 2 ^ le32 v (1024 + 24)

def blocksPerGroup : ℕ := le32 v (1024 + 32)

def inodesPerGroup : ℕ := le32 v (1024 + 40)

def revLevel : ℕ := le32 v (1024 + 76)

/-- INCOMPAT_64BIT: bit 7 of the incompatible features. -/
def is64 : Bool := decide (1 ≤ v.revLevel) && (le32 v (1024 + 96)).testBit 7

def blocks : ℕ := le32 v (1024 + 4) + if v.is64 then 2 ^ 32 * le32 v (1024 + 336) else 0

def inodeSize : ℕ := if v.revLevel = 0 then 128 else le16 v (1024 + 88)

def descSize : ℕ := if v.is64 then le16 v (1024 + 254) else 32

/-- The number of block groups: the blocks from the first data block on, in
groups of `blocksPerGroup`. -/
def groups : ℕ :=
  (v.blocks - le32 v (1024 + 20) + v.blocksPerGroup - 1) / v.blocksPerGroup

/-- The descriptors start in the block after the one with the superblock. -/
def descBlock : ℕ := 1024 / v.blockSize + 1

def descAt (g : ℕ) : ℕ := v.descBlock * v.blockSize + g * v.descSize

/-- The block where the inode table of group `g` starts. -/
def inodeTable (g : ℕ) : ℕ :=
  le32 v (v.descAt g + 8) + if v.is64 then 2 ^ 32 * le32 v (v.descAt g + 40) else 0

/-! ### Inodes and files -/

def groupOf (ino : ℕ) : ℕ := (ino - 1) / v.inodesPerGroup

/-- The byte where inode `ino` starts. -/
def inodeAt (ino : ℕ) : ℕ :=
  v.inodeTable (v.groupOf ino) * v.blockSize + (ino - 1) % v.inodesPerGroup * v.inodeSize

def fileSize (ino : ℕ) : ℕ :=
  le32 v (v.inodeAt ino + 4) + 2 ^ 32 * le32 v (v.inodeAt ino + 108)

/-- The leaf entry at byte `a`. -/
def extent (a : ℕ) : Extent where
  block := le32 v a
  len := if le16 v (a + 4) ≤ 32768 then le16 v (a + 4) else le16 v (a + 4) - 32768
  start := le32 v (a + 8) + 2 ^ 32 * le16 v (a + 6)
  written := le16 v (a + 4) ≤ 32768

/-- The block that the index entry at byte `a` points to. -/
def child (a : ℕ) : ℕ := le32 v (a + 4) + 2 ^ 32 * le16 v (a + 8)

/-- Where entry `i` of the node at byte `a` is. -/
def entryAt (a i : ℕ) : ℕ := a + 12 + 12 * i

/-- The extents under the node at byte `a`, which is `depth` levels above the
leaves, in order. -/
def extentsOf : ℕ → ℕ → List Extent
  | 0, a => (List.range (le16 v (a + 2))).map fun i => v.extent (entryAt a i)
  | depth + 1, a => (List.range (le16 v (a + 2))).flatMap fun i =>
      extentsOf depth (v.child (entryAt a i) * v.blockSize)

/-- The node at byte `a` is the root of a tree of that depth: its header is
right, its entries fit in its `room` bytes, and above the leaves it has
children, which are in blocks of the volume and are nodes of a depth less by
one. -/
def NodeOk : ℕ → ℕ → ℕ → Prop
  | 0, a, room => le16 v a = 0xF30A ∧ le16 v (a + 6) = 0 ∧ 12 + 12 * le16 v (a + 2) ≤ room
  | depth + 1, a, room =>
      le16 v a = 0xF30A ∧ le16 v (a + 6) = depth + 1 ∧ 12 + 12 * le16 v (a + 2) ≤ room ∧
        0 < le16 v (a + 2) ∧ ∀ i < le16 v (a + 2), v.child (entryAt a i) < v.blocks ∧
          NodeOk depth (v.child (entryAt a i) * v.blockSize) v.blockSize

/-- The depth of the inode's extent tree, whose root is in the inode. -/
def depth (ino : ℕ) : ℕ := le16 v (v.inodeAt ino + 40 + 6)

def extents (ino : ℕ) : List Extent := v.extentsOf (v.depth ino) (v.inodeAt ino + 40)

/-- Byte `i` of a file with the extents `es`. -/
def byteOf (es : List Extent) (i : ℕ) : UInt8 :=
  match es.find? fun e => e.Covers (i / v.blockSize) with
  | none => 0
  | some e =>
    if e.written then v ((e.start + (i / v.blockSize - e.block)) * v.blockSize + i % v.blockSize)
    else 0

/-- Byte `i` of the file of inode `ino`. -/
def fileByte (ino i : ℕ) : UInt8 := v.byteOf (v.extents ino) i

/-- The file of inode `ino`. -/
def contents (ino : ℕ) : List UInt8 := (List.range (v.fileSize ino)).map (v.fileByte ino)

/-- Inode `ino` is a file that uses extents. -/
structure FileOk (ino : ℕ) : Prop where
  number : 1 ≤ ino
  group : v.groupOf ino < v.groups
  flags : (le32 v (v.inodeAt ino + 32)).testBit 19 = true
  /-- The number of a logical block has 32 bits. -/
  size : v.fileSize ino ≤ 2 ^ 32 * v.blockSize
  depth_le : v.depth ino ≤ 5
  node : v.NodeOk (v.depth ino) (v.inodeAt ino + 40) 60
  sorted : (v.extents ino).Pairwise fun e f => e.block + e.len ≤ f.block
  placed : ∀ e ∈ v.extents ino, 0 < e.len ∧ 0 < e.start ∧ e.start + e.len ≤ v.blocks

/-! ### Directories -/

/-- The length of the record at `off` of a directory. A record of 65536 bytes
is the only one of its block, and is written as 65535 or 0. -/
def recLen (dir : ℕ → UInt8) (off : ℕ) : ℕ :=
  if v.blockSize = 65536 ∧ (le16 dir (off + 4) = 65535 ∨ le16 dir (off + 4) = 0) then 65536
  else le16 dir (off + 4)

/-- The records of a directory of `size` bytes: each block is a chain that
starts at its first byte. -/
inductive IsRecord (dir : ℕ → UInt8) (size : ℕ) : ℕ → Prop
  | first (k : ℕ) : k * v.blockSize < size → IsRecord dir size (k * v.blockSize)
  | next {off : ℕ} : IsRecord dir size off → (off + v.recLen dir off) % v.blockSize ≠ 0 →
      IsRecord dir size (off + v.recLen dir off)

/-- The name in the record at `off`. -/
def nameAt (dir : ℕ → UInt8) (off : ℕ) : List UInt8 :=
  (List.range (dir (off + 6)).toNat).map fun i => dir (off + 8 + i)

/-- The directory `d` has the name for inode `ino`. -/
def Names (d : ℕ) (name : List UInt8) (ino : ℕ) : Prop :=
  ∃ off, v.IsRecord (v.fileByte d) (v.fileSize d) off ∧ le32 (v.fileByte d) off = ino ∧ ino ≠ 0 ∧
    nameAt (v.fileByte d) off = name

/-- Inode `d` is a directory: whole blocks, every record has room for its
name, stays in its block and is a number of words long, and no name is there
twice. -/
structure DirOk (d : ℕ) : Prop extends v.FileOk d where
  whole : v.blockSize ∣ v.fileSize d
  record : ∀ off, v.IsRecord (v.fileByte d) (v.fileSize d) off →
    8 + (v.fileByte d (off + 6)).toNat ≤ v.recLen (v.fileByte d) off ∧
      off % v.blockSize + v.recLen (v.fileByte d) off ≤ v.blockSize ∧
      4 ∣ v.recLen (v.fileByte d) off
  unique : ∀ name ino ino', v.Names d name ino → v.Names d name ino' → ino = ino'

/-! ### Volumes -/

@[mk_iff]
structure WellFormed : Prop where
  magic : le16 v (1024 + 56) = 0xEF53
  logBlockSize : le32 v (1024 + 24) ≤ 6
  blocksPerGroup : 0 < v.blocksPerGroup
  inodesPerGroup : 0 < v.inodesPerGroup
  inodeSize : 128 ≤ v.inodeSize ∧ v.inodeSize ∣ v.blockSize
  descSize : 32 ≤ v.descSize ∧ (v.is64 → 64 ≤ v.descSize)
  /-- META_BG, which puts the descriptors elsewhere, is not used. -/
  metaBg : 1 ≤ v.revLevel → (le32 v (1024 + 96)).testBit 4 = false
  /-- The inode tables lie after the descriptors and in the volume. -/
  tables : ∀ g < v.groups, v.descAt v.groups ≤ v.inodeTable g * v.blockSize ∧
    v.inodeTable g * v.blockSize + v.inodesPerGroup * v.inodeSize ≤ v.blocks * v.blockSize
  root : v.DirOk 2

end Volume

end LodaxOS.Ext4
