/-
# The boot loader's ext4 reader

`boot/src/load_kernel.rs` from the partition table on: `findExt4Partition`
looks for a Linux partition on the disks, and `loadFileFromExt4` reads the
superblock and the group descriptors, walks the root directory and reads the
file. A disk has sectors of 512 bytes and answers no read past its last one.

A step can fail (`Halt.none`, the source's `None`, handed on by `?`) or stop
the machine (`Halt.panic`): a sum, product, shift or division that has no
result, an index out of a slice, a vector of 2^63 bytes or more. Sums and
products that the words of a disk cannot bring to 64 bits are not tested.

Where a loop or a recursion has no bound of its own the reader is a run of
`Fuel`: `none` says that the calls so far were not enough, and is neither a
failure nor a panic. The sectors of an inode, the records of a directory and
the index blocks on the way to a logical block are `Fuel.chase`, with what one
turn does as the step; the recursion over all index blocks is `Fuel.gather`. A
node of an extent tree is `none` for the root, which is in the inode, or the
block that it is in. Every run is `Fuel.Mono`: what it does once it is over is
not changed by more calls.
-/
import LodaxOS.Ext4.Format
import LodaxOS.Lib.Fuel

namespace LodaxOS.Ext4

open Bytes Fuel

/-- How a step of the loader ends without a value. -/
inductive Halt
  | none
  | panic
deriving DecidableEq, Repr

/-- A step that always comes to an end. -/
abbrev Read := Except Halt

abbrev Load := Fuel.Run Halt

lemma bind_eq_ok {α β : Type} {x : Read α} {f : α → Read β} {b : β} (h : (x >>= f) = .ok b) :
    ∃ a, x = .ok a ∧ f a = .ok b := by
  cases x with
  | error => cases h
  | ok a => exact ⟨a, rfl, h⟩

/-! ### Disks -/

/-- A disk of 512-byte sectors. -/
structure Device where
  sectors : ℕ
  byte : ℕ → UInt8

/-- `read_blocks` of `n` bytes, a multiple of the sector size. -/
def Device.readBlocks (dev : Device) (lba n : ℕ) : Read (ℕ → UInt8) :=
  if lba * 512 + n ≤ dev.sectors * 512 then .ok fun i => dev.byte (lba * 512 + i)
  else .error .none

def readSectorRaw (dev : Device) (sector : ℕ) : Read (ℕ → UInt8) :=
  if 2 ^ 64 ≤ sector * 512 then .error .panic
  else dev.readBlocks sector 512

/-! ### The partition table -/

/-- The partition type of a Linux file system, as eight words. -/
def ext4Guid : List ℕ := [0x3DAF, 0x0FC6, 0x8483, 0x4772, 0x798E, 0x693D, 0x47D8, 0xE47D]

/-- The loop over the sectors of the partition entries; `left` of them are
still to be read. -/
def scanEntries (dev : Device) (entriesLba entrySize entriesPerSector : ℕ) : ℕ → ℕ → Read ℕ
  | 0, _ => .error .none
  | left + 1, s =>
    if 2 ^ 64 ≤ entriesLba + s then .error .panic
    else do
      let buf ← readSectorRaw dev (entriesLba + s)
      match (List.range entriesPerSector).find? fun i =>
        (List.range 8).map (fun j => le16 buf (i * entrySize + 2 * j)) = ext4Guid with
      | none =>
        -- The type of every entry has been read, 16 bytes of it.
        if 512 < (entriesPerSector - 1) * entrySize + 16 then .error .panic
        else scanEntries dev entriesLba entrySize entriesPerSector left (s + 1)
      | some i =>
        -- The first and last sector of the entry are read from the buffer.
        if 512 < i * entrySize + 48 then .error .panic
        else .ok (le64 buf (i * entrySize + 32))

def tryHandleForExt4 (dev : Device) : Read ℕ := do
  let _ ← readSectorRaw dev 0
  let buf ← readSectorRaw dev 1
  if (List.range 8).map buf ≠ [0x45, 0x46, 0x49, 0x20, 0x50, 0x41, 0x52, 0x54] then .error .none
  else if le32 buf 84 = 0 ∨ 512 / le32 buf 84 = 0 then .error .panic
  else
    let entriesPerSector := 512 / le32 buf 84
    scanEntries dev (le64 buf 72) (le32 buf 84) entriesPerSector
      ((le32 buf 80 + entriesPerSector - 1) / entriesPerSector) 0

/-- The first disk with an ext4 partition, and the partition's first sector. -/
def findExt4Partition : List Device → Read (Device × ℕ)
  | [] => .error .none
  | dev :: devs =>
    match tryHandleForExt4 dev with
    | .ok lba => .ok (dev, lba)
    | .error .none => findExt4Partition devs
    | .error .panic => .error .panic

/-! ### Sectors of the partition -/

structure SectorReader where
  dev : Device
  partitionOffset : ℕ

/-- The bytes that `read_ext4_sectors` puts in a buffer of `len` bytes. -/
def readExt4Sectors (r : SectorReader) (sector len : ℕ) : Read (ℕ → UInt8) :=
  if len = 0 then .ok fun _ => 0
  else if 2 ^ 64 ≤ (r.partitionOffset + sector) * 512 then .error .panic
  else r.dev.readBlocks ((r.partitionOffset + sector) * 512 / 512) ((len + 511) / 512 * 512)

/-- `read_ext4_sectors` for a buffer of any length: the aligned copy that it
makes is a vector. -/
def readSlice (r : SectorReader) (sector len : ℕ) : Read (ℕ → UInt8) :=
  if 2 ^ 63 ≤ (len + 511) / 512 * 512 then .error .panic else readExt4Sectors r sector len

/-! ### Superblock and inodes -/

structure Superblock where
  sBlocksCountLo : ℕ
  sLogBlockSize : ℕ
  sBlocksPerGroup : ℕ
  sInodesPerGroup : ℕ
  sMagic : ℕ
  sRevLevel : ℕ
  sInodeSize : ℕ
  sFeatureRoCompat : ℕ

/-- The superblock from its first sector. -/
def Superblock.parse (raw : ℕ → UInt8) : Superblock where
  sBlocksCountLo := le32 raw 4
  sLogBlockSize := le32 raw 24
  sBlocksPerGroup := le32 raw 32
  sInodesPerGroup := le32 raw 40
  sMagic := le16 raw 56
  sRevLevel := le32 raw 76
  sInodeSize := if 1 ≤ le32 raw 76 then le16 raw 88 else 128
  sFeatureRoCompat := if 1 ≤ le32 raw 76 then le32 raw 100 else 0

/-- `1024u64 << s_log_block_size`. -/
def Superblock.blockSize (sb : Superblock) : ℕ := 1024 * 2 ^ sb.sLogBlockSize % 2 ^ 64

structure BlockGroupDesc where
  bgInodeTableLo : ℕ
deriving Inhabited

/-- What the loader keeps of an inode; `iBlock` is its 60 bytes of block map. -/
structure Inode where
  iSizeLo : ℕ
  iFlags : ℕ
  iBlock : ℕ → UInt8
  iSizeHigh : ℕ

/-- A turn of the loop of `read_inode`, with the bytes so far, the sector and
the buffer. -/
def inodeStep (r : SectorReader) (sector byteInSector readSize : ℕ) :
    ℕ × ℕ × (ℕ → UInt8) → Read ((ℕ → UInt8) ⊕ ℕ × ℕ × (ℕ → UInt8))
  | (offset, currentSector, raw) =>
    if offset < readSize then do
      let buf ← readExt4Sectors r currentSector 512
      let srcStart := if currentSector = sector then byteInSector else 0
      let copyLen := min (512 - srcStart) (readSize - offset)
      .ok (.inr (offset + copyLen, currentSector + 1, blit raw offset copyLen fun i => buf (srcStart + i)))
    else .ok (.inl raw)

def Inode.parse (raw : ℕ → UInt8) : Inode where
  iSizeLo := le32 raw 4
  iFlags := le32 raw 32
  iBlock := fun i => raw (40 + i)
  iSizeHigh := le32 raw 108

def Superblock.inodeSize (sb : Superblock) : ℕ :=
  if 1 ≤ sb.sRevLevel ∧ sb.sInodeSize ≠ 0 then sb.sInodeSize else 128

def inodeOffset (sb : Superblock) (inodeNum : ℕ) : ℕ := (inodeNum - 1) % sb.sInodesPerGroup * sb.inodeSize

/-- The sector where the inode starts. -/
def inodeSector (sb : Superblock) (desc : BlockGroupDesc) (inodeNum : ℕ) : ℕ :=
  desc.bgInodeTableLo * sb.blockSize / 512 + inodeOffset sb inodeNum / 512

variable (r : SectorReader) (sb : Superblock) (descs : List BlockGroupDesc) (filename : List UInt8) (inode : Inode)

/-- The bytes of the inode, from its group's inode table. -/
def readInodeRaw (inodeNum fuel : ℕ) : Load (ℕ → UInt8) :=
  if inodeNum = 0 ∨ sb.sInodesPerGroup = 0 then throw .none
  else
    match descs[(inodeNum - 1) / sb.sInodesPerGroup]? with
    | none => throw .none
    | some desc =>
      if 2 ^ 64 ≤ desc.bgInodeTableLo * sb.blockSize then throw .panic
      else
        let sector := inodeSector sb desc inodeNum
        chase (inodeStep r sector (inodeOffset sb inodeNum % 512) sb.inodeSize) fuel (0, sector, fun _ => 0)

def readInode (inodeNum fuel : ℕ) : Load Inode := do
  let raw ← readInodeRaw r sb descs inodeNum fuel
  -- the last field taken from the buffer is at 108
  if sb.inodeSize < 112 then throw .panic else pure (Inode.parse raw)

def Inode.size (inode : Inode) : ℕ := 2 ^ 32 * inode.iSizeHigh + inode.iSizeLo

def Inode.usesExtents (inode : Inode) : Bool := inode.iFlags.testBit 19

/-! ### Extent trees -/

structure ExtentEntry where
  eeBlock : ℕ
  eeLen : ℕ
  eeStart : ℕ
deriving DecidableEq, Repr

/-- The leaf entry at `off` of a node; the length is `raw_len & 0x7FFF`. -/
def ExtentEntry.parse (raw : ℕ → UInt8) (off : ℕ) : ExtentEntry where
  eeBlock := le32 raw off
  eeLen := le16 raw (off + 4) % 2 ^ 15
  eeStart := 2 ^ 32 * le16 raw (off + 6) + le32 raw (off + 8)

/-- The child block in the index entry at `off` of a node. -/
def eiLeaf (raw : ℕ → UInt8) (off : ℕ) : ℕ := 2 ^ 32 * le16 raw (off + 8) + le32 raw (off + 4)

/-- The offsets of the entries of a node in a buffer of `room` bytes: the loop
over the entries breaks at the first one that is not in the buffer. -/
def entryOffsets (entries room : ℕ) : List ℕ :=
  ((List.range entries).map fun i => 12 + i * 12).takeWhile fun off => off + 12 ≤ room

/-- The node in `raw`: its extents, or the blocks of its children. -/
def extentNode (raw : ℕ → UInt8) (room : ℕ) : Read (List ExtentEntry ⊕ List (Option ℕ)) :=
  if le16 raw 0 ≠ 0xF30A then .error .none
  else if le16 raw 6 = 0 then .ok (.inl ((entryOffsets (le16 raw 2) room).map (ExtentEntry.parse raw)))
  else .ok (.inr ((entryOffsets (le16 raw 2) room).map fun off => some (eiLeaf raw off)))

/-- At most 4096 bytes of the block; the rest of the buffer stays zero. -/
def readExtentBlock (block : ℕ) : Read (ℕ → UInt8) := do
  let byteCount := min sb.blockSize 4096
  let buf ← readExt4Sectors r (block * (sb.blockSize / 512)) byteCount
  .ok (blit (fun _ => 0) 0 byteCount buf)

/-- What `parse_extents` does with the root and `collect_leaf_extents` with a
block, up to the calls for the children. -/
def treeNode : Option ℕ → Read (List ExtentEntry ⊕ List (Option ℕ))
  | none => extentNode inode.iBlock 60
  | some block => do
    let raw ← readExtentBlock r sb block
    extentNode raw 4096

def parseExtents (fuel : ℕ) : Load (List ExtentEntry) := gather (treeNode r sb inode) fuel none

/-! ### One block at a time -/

/-- The leaf entry of the node in `data` that has the logical block. -/
def resolveInLeaf (data : ℕ → UInt8) (logicalBlock : ℕ) : List ℕ → Read ℕ
  | [] => .error .none
  | off :: offs =>
    let e := ExtentEntry.parse data off
    if e.eeBlock ≤ logicalBlock ∧ 2 ^ 32 ≤ e.eeBlock + e.eeLen then .error .panic
    else if e.eeBlock ≤ logicalBlock ∧ logicalBlock < e.eeBlock + e.eeLen then
      .ok ((e.eeStart + (logicalBlock - e.eeBlock)) % 2 ^ 32)
    else resolveInLeaf data logicalBlock offs

/-- The child block of the node in `data` whose range has the logical block:
up to the next entry's first block, where there is a next one in the buffer. -/
def resolveInIndex (data : ℕ → UInt8) (room entries logicalBlock : ℕ) : List ℕ → Read ℕ
  | [] => .error .none
  | off :: offs =>
    if le32 data off ≤ logicalBlock ∧
      (off + 12 < 12 + entries * 12 ∧ off + 16 ≤ room → logicalBlock < le32 data (off + 12)) then
      .ok (eiLeaf data off)
    else resolveInIndex data room entries logicalBlock offs

/-- The node in `data` on the way to a logical block: the block that it is at,
or the child to go on with. -/
def resolveIn (data : ℕ → UInt8) (room logicalBlock : ℕ) : Read (ℕ ⊕ Option ℕ) :=
  if room < 8 then .error .panic
  else if le16 data 6 = 0 then do
    let block ← resolveInLeaf data logicalBlock (entryOffsets (le16 data 2) room)
    .ok (.inl block)
  else do
    let child ← resolveInIndex data room (le16 data 2) logicalBlock (entryOffsets (le16 data 2) room)
    .ok (.inr (some child))

/-- `resolve_extent_in_block` up to the call for the child. -/
def resolveNode (logicalBlock : ℕ) : Option ℕ → Read (ℕ ⊕ Option ℕ)
  | none => resolveIn inode.iBlock 60 logicalBlock
  | some block => do
    let data ← readSlice r (block * (sb.blockSize / 512)) sb.blockSize
    resolveIn data sb.blockSize logicalBlock

/-- The block map of an inode without extents. -/
def mappedBlock (logicalBlock : ℕ) : Read ℕ :=
  if logicalBlock < 12 then .ok (le32 inode.iBlock (logicalBlock * 4))
  else if logicalBlock - 12 < sb.blockSize / 4 ∧ le32 inode.iBlock 48 ≠ 0 then do
    let buf ← readSlice r (le32 inode.iBlock 48 * (sb.blockSize / 512)) sb.blockSize
    .ok (le32 buf ((logicalBlock - 12) * 4))
  else .error .none

def resolveBlock (logicalBlock fuel : ℕ) : Load ℕ :=
  if inode.usesExtents then
    if le16 inode.iBlock 0 ≠ 0xF30A then throw .none
    else chase (resolveNode r sb inode logicalBlock) fuel none
  else lift (mappedBlock r sb inode logicalBlock)

/-! ### Files -/

/-- `read_data_block` into the `len` bytes from `offset` on. -/
def readDataBlock (block offset len : ℕ) (data : ℕ → UInt8) : Read (ℕ → UInt8) :=
  if block = 0 then .ok data
  else do
    let buf ← readSlice r (block * (sb.blockSize / 512)) len
    .ok (blit data offset len buf)

/-- The loop over the blocks of a file of `size` bytes; `left` blocks from
`logicalBlock` on are still to be read. -/
def readBlockwise (size fuel : ℕ) : ℕ → ℕ → ℕ → (ℕ → UInt8) → Load (ℕ → UInt8)
  | 0, _, _, data => pure data
  | left + 1, logicalBlock, offset, data => do
    let block ← resolveBlock r sb inode logicalBlock fuel
    let next := min (offset + sb.blockSize) size
    let data ← lift (readDataBlock r sb block offset (next - offset) data)
    readBlockwise size fuel left (logicalBlock + 1) next data

/-- `blocks_needed as u32`. -/
def blocksNeeded (sb : Superblock) (size : ℕ) : ℕ := (size + sb.blockSize - 1) / sb.blockSize % 2 ^ 32

/-- The second half of `read_file_into`. -/
def readBlocks (fuel : ℕ) : Load (ℕ → UInt8) :=
  if sb.blockSize = 0 ∨ 2 ^ 64 ≤ inode.size + sb.blockSize then throw .panic
  else readBlockwise r sb inode inode.size fuel (blocksNeeded sb inode.size) 0 0 fun _ => 0

/-- The loop over the extents of a file of `size` bytes. -/
def readExtents (blockSize size : ℕ) : List ExtentEntry → (ℕ → UInt8) → Read (ℕ → UInt8)
  | [], data => .ok data
  | ext :: exts, data =>
    if 2 ^ 64 ≤ ext.eeBlock * blockSize then .error .panic
    else if size ≤ ext.eeBlock * blockSize then .ok data
    else if 2 ^ 64 ≤ ext.eeLen * blockSize then .error .panic
    else if ext.eeStart = 0 then readExtents blockSize size exts data
    else if 2 ^ 64 ≤ ext.eeStart * (blockSize / 512) then .error .panic
    else do
      let copyLen := min (ext.eeLen * blockSize) (size - ext.eeBlock * blockSize)
      let buf ← readSlice r (ext.eeStart * (blockSize / 512)) copyLen
      readExtents blockSize size exts (blit data (ext.eeBlock * blockSize) copyLen buf)

/-- What `read_file_into` does with the outcome of `parse_extents`. -/
def afterParse (fuel : ℕ) : Except Halt (List ExtentEntry) → Load (ℕ → UInt8)
  | .ok extents => lift (readExtents r sb.blockSize inode.size extents fun _ => 0)
  | .error .none => readBlocks r sb inode fuel
  | .error .panic => throw .panic

/-- The bytes that `read_file_into` leaves in its caller's vector of zeros,
which has the size of the file. -/
def readFileInto (fuel : ℕ) : Load (ℕ → UInt8) :=
  if 2 ^ 63 ≤ inode.size then throw .panic
  else if inode.usesExtents then attempt (parseExtents r sb inode fuel) >>= afterParse r sb inode fuel
  else readBlocks r sb inode fuel

/-! ### The root directory -/

/-- A turn of the walk over the records of a directory; it ends with the inode
of the name, or 0. -/
def dirStep (data : ℕ → UInt8) (size : ℕ) (filename : List UInt8) (dirOff : ℕ) : Read (ℕ ⊕ ℕ) :=
  if size < dirOff + 8 then .ok (.inl 0)
  else if le16 data (dirOff + 4) = 0 then .ok (.inl 0)
  else if le32 data dirOff ≠ 0 ∧ dirOff + 8 + (data (dirOff + 6)).toNat ≤ size ∧
    Volume.nameAt data dirOff = filename then .ok (.inl (le32 data dirOff))
  else .ok (.inr (dirOff + le16 data (dirOff + 4)))

def scanDirectory (data : ℕ → UInt8) (size : ℕ) (filename : List UInt8) (fuel : ℕ) : Load ℕ :=
  chase (dirStep data size filename) fuel 0

/-! ### Group descriptors -/

/-- The size of a descriptor as the loader takes it: by bit 7 of the
read-only compatible features. -/
def bgdtEntrySize (sb : Superblock) : ℕ := if sb.sFeatureRoCompat.testBit 7 then 64 else 32

def numGroups (sb : Superblock) : ℕ :=
  (sb.sBlocksCountLo + sb.sBlocksPerGroup - 1) / sb.sBlocksPerGroup

/-- The inode table in the descriptor at `off`: the high half of the 64-bit
form is put in and cut off again. -/
def BlockGroupDesc.parse (raw : ℕ → UInt8) (entrySize off : ℕ) : BlockGroupDesc where
  bgInodeTableLo :=
    ((if entrySize = 64 then 2 ^ 32 * le32 raw (off + 40) else 0) + le32 raw (off + 8)) % 2 ^ 32

def readDescs : Read (List BlockGroupDesc) := do
  let bgdtBlock := if sb.sLogBlockSize = 0 then 2 else 1
  let bytes := (numGroups sb * bgdtEntrySize sb + 511) / 512 * 512
  let raw ← readExt4Sectors r (bgdtBlock * sb.blockSize / 512) bytes
  .ok ((List.range (numGroups sb)).map fun i =>
    BlockGroupDesc.parse raw (bgdtEntrySize sb) (i * bgdtEntrySize sb))

/-! ### Loading -/

/-- The last part of `load_file_from_ext4`, for the inode that the scan found. -/
def loadNamed (ino fuel : ℕ) : Load (List UInt8) :=
  if ino = 0 then throw .none
  else do
    let fileInode ← readInode r sb descs ino fuel
    let data ← readFileInto r sb fileInode fuel
    pure ((List.range fileInode.size).map data)

/-- The part of `load_file_from_ext4` from the group descriptors on. -/
def loadFrom (fuel : ℕ) : Load (List UInt8) := do
  let rootInode ← readInode r sb descs 2 fuel
  let rootData ← readFileInto r sb rootInode fuel
  let fileInodeNum ← scanDirectory rootData rootInode.size filename fuel
  loadNamed r sb descs fileInodeNum fuel

/-- The superblock and the group descriptors, checked as far as the source
checks them. -/
def openVolume : Read (Superblock × List BlockGroupDesc) := do
  let sbRaw ← readExt4Sectors r 2 512
  let sb := Superblock.parse sbRaw
  if sb.sMagic ≠ 0xEF53 then .error .none
  else if 64 ≤ sb.sLogBlockSize ∨ sb.sBlocksPerGroup = 0 then .error .panic
  else do
    let descs ← readDescs r sb
    .ok (sb, descs)

def loadFile (fuel : ℕ) : Load (List UInt8) := do
  let volume ← lift (openVolume r)
  loadFrom r volume.1 volume.2 filename fuel

def loadFileFromExt4 (handles : List Device) (filename : List UInt8) (fuel : ℕ) : Load (List UInt8) := do
  let partition ← lift (findExt4Partition handles)
  loadFile ⟨partition.1, partition.2⟩ filename fuel

/-! ### More calls -/

lemma mono_readInodeRaw (ino : ℕ) : Mono (readInodeRaw r sb descs ino) := by
  unfold readInodeRaw
  split
  · exact mono_const _
  split
  · exact mono_const _
  split
  · exact mono_const _
  exact mono_chase _

lemma mono_readInode (ino : ℕ) : Mono (readInode r sb descs ino) :=
  (mono_readInodeRaw r sb descs ino).andThen _

lemma mono_parseExtents : Mono (parseExtents r sb inode) := mono_gather none

lemma mono_resolveBlock (k : ℕ) : Mono (resolveBlock r sb inode k) := by
  unfold resolveBlock
  split
  · split
    · exact mono_const _
    · exact mono_chase none
  · exact mono_const _

lemma mono_readBlockwise (size : ℕ) : ∀ (left k offset : ℕ) (data : ℕ → UInt8),
    Mono fun n => readBlockwise r sb inode size n left k offset data
  | 0, _, _, _ => mono_const _
  | left + 1, k, offset, data => by
    refine (mono_resolveBlock r sb inode k).bind fun block => ?_
    exact (mono_const _).bind fun _ => mono_readBlockwise size left _ _ _

lemma mono_readBlocks : Mono (readBlocks r sb inode) := by
  unfold readBlocks
  split
  · exact mono_const _
  · exact mono_readBlockwise r sb inode inode.size _ _ _ _

lemma mono_afterParse : ∀ p, Mono fun n => afterParse r sb inode n p
  | .ok _ => mono_const _
  | .error .none => mono_readBlocks r sb inode
  | .error .panic => mono_const _

lemma mono_readFileInto : Mono (readFileInto r sb inode) := by
  unfold readFileInto
  split
  · exact mono_const _
  split
  · exact (mono_parseExtents r sb inode).attempt.bind fun p => mono_afterParse r sb inode p
  · exact mono_readBlocks r sb inode

lemma mono_scanDirectory (data : ℕ → UInt8) (size : ℕ) (filename : List UInt8) :
    Mono (scanDirectory data size filename) := mono_chase 0

lemma mono_loadNamed (ino : ℕ) : Mono (loadNamed r sb descs ino) := by
  unfold loadNamed
  split
  · exact mono_const _
  · exact (mono_readInode r sb descs ino).bind fun inode => (mono_readFileInto r sb inode).andThen _

/-- The part of the loader that comes after the root inode. -/
lemma mono_loadFrom_rest (root : Inode) : Mono fun n => readFileInto r sb root n >>= fun data =>
      scanDirectory data root.size filename n >>= fun ino => loadNamed r sb descs ino n :=
  (mono_readFileInto r sb root).bind fun data =>
    (mono_scanDirectory data root.size filename).bind fun ino => mono_loadNamed r sb descs ino

lemma mono_loadFrom : Mono (loadFrom r sb descs filename) :=
  (mono_readInode r sb descs 2).bind fun root => mono_loadFrom_rest r sb descs filename root

lemma mono_loadFile : Mono (loadFile r filename) :=
  (mono_const _).bind fun volume => mono_loadFrom r volume.1 volume.2 filename

end LodaxOS.Ext4
