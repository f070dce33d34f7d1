/-
# Page tables (`kernel/src/mm/virt.rs`)

The functions on 4-level page tables, as one processor runs them. A table is
a page of 512 words; `Machine.mem` gives the words of the page at a physical
address. The kernel reaches tables through the direct map at `HIGHER_HALF`, so
a pointer that `phys_to_virtual` returns is represented by the physical page
it reaches. A panic (no memory, or an address outside the direct map) is
`none`; flushes of the TLB have no effect here.
-/
import LodaxOS.Lib.Radix
import LodaxOS.Phys.Model

namespace LodaxOS.Virt

open Phys (pageSize)
open Radix

def present : ℕ := 1 <<< 0

def writable : ℕ := 1 <<< 1

def user : ℕ := 1 <<< 2

def cacheDisable : ℕ := 1 <<< 4

/-- The huge-page bit of a PDP or PD entry. -/
def pageSizeBit : ℕ := 1 <<< 7

def cow : ℕ := 1 <<< 11

def noExecute : ℕ := 1 <<< 63

def data : ℕ := present ||| writable ||| noExecute

def code : ℕ := present ||| writable

def physAddrMask : ℕ := 0x000FFFFFFFFFF000

def entryFlagMask : ℕ := noExecute ||| 0xFFF

def directMapSize : ℕ := 0x0000800000000000

def higherHalf : ℕ := 0xFFFF800000000000

def userImageBase : ℕ := 0x20000000

/-- 2 MB. -/
def hugeSize : ℕ := 0x200000

structure Machine where
  phys : Phys.State
  mem : Mem ℕ ℕ
  ptInitialized : Bool
  kernelPml4 : ℕ
  cr3 : ℕ

/-- A function of the kernel: it returns, or panics. -/
abbrev Op := StateT Machine Option

/-! ### Memory and the allocator -/

/-- The page that the returned pointer reaches. -/
def physToVirtual (addr : ℕ) : Option ℕ :=
  if addr ≥ higherHalf then some (addr - higherHalf)
  else
    let phys := addr &&& physAddrMask
    if phys ≥ directMapSize then none else some phys

def readEntry (t i : ℕ) : Op ℕ := fun m => some (m.mem t i, m)

def writeEntry (t i e : ℕ) : Op Unit := fun m => some ((), { m with mem := m.mem.write t i e })

/-- The whole table written. -/
def writeTable (t : ℕ) (ws : ℕ → ℕ) : Op Unit := fun m => some ((), { m with mem := m.mem.fill t ws })

/-- `PageTable::new_zeroed`. -/
def newZeroed : ℕ → ℕ := fun _ => 0

/-- `phys::alloc_page()`. -/
def tryAllocPage : Op (Option ℕ) := fun m =>
  let r := Phys.allocPage.run m.phys
  some (r.1, { m with phys := r.2 })

/-- `phys::alloc_page().expect(..)`. -/
def allocPage : Op ℕ := do
  match ← tryAllocPage with
  | some page => pure page
  | none => failure

def freePage (addr : ℕ) : Op Unit := fun m =>
  some ((), { m with phys := ((Phys.freePage addr).run m.phys).2 })

def refPage (pn : ℕ) : Op Unit := fun m =>
  some ((), { m with phys := ((Phys.refPage pn).run m.phys).2 })

def toVirtual (addr : ℕ) : Op ℕ := fun m => (physToVirtual addr).map fun t => (t, m)

def indexForAddr (virt level : ℕ) : ℕ := (virt >>> (12 + level * 9)) &&& 0x1FF

/-! ### Tables on the way to an entry -/

/-- The flags that the parts of a huge entry keep: all but `PRESENT` and the
huge-page bit. -/
def origFlags (entry : ℕ) : ℕ :=
  (entry &&& noExecute) ||| ((entry &&& 0xFFF) &&& (0xFFF - (present ||| pageSizeBit)))

/-- The 2 MB parts of an entry. -/
def splitPd (entry childFlags i : ℕ) : ℕ :=
  ((entry &&& 0x000FFFC000000000) + i * hugeSize) ||| origFlags entry ||| childFlags ||| pageSizeBit

/-- The 4 KB parts of an entry. -/
def splitPt (entry childFlags i : ℕ) : ℕ :=
  ((entry &&& 0x000FFFFFFE000000) + i * pageSize) ||| origFlags entry ||| childFlags

/-- The table a huge entry is split into; `childFlags` is what the caller adds
to the flags of the entry. -/
def splitWords (entry level childFlags : ℕ) : Option (ℕ → ℕ) :=
  match level with
  | 2 => some (splitPd entry childFlags)
  | 1 | 0 => some (splitPt entry childFlags)
  | _ => none

/-- An entry that is not present gets an empty table. `reach` is how the new
page is addressed. -/
def linkTable (reach : ℕ → Op ℕ) (t i flags : ℕ) : Op Unit := do
  let cur ← readEntry t i
  if cur &&& present = 0 then do
    let page ← allocPage
    let pt ← reach page
    writeTable pt newZeroed
    writeEntry t i (page ||| flags ||| present)
  else pure ()

/-- A huge entry gets a table of its parts. -/
def splitTable (reach : ℕ → Op ℕ) (childFlags : ℕ → ℕ) (t i flags level : ℕ) : Op Unit := do
  let entry ← readEntry t i
  if entry &&& pageSizeBit ≠ 0 then do
    let newPage ← allocPage
    let newTable ← reach newPage
    match splitWords entry level (childFlags entry) with
    | none => failure
    | some ws => do
      writeTable newTable ws
      writeEntry t i (newPage ||| flags ||| present)
  else pure ()

/-- The table that an entry points to. -/
def tableOf (t i : ℕ) : Op ℕ := do
  let entry ← readEntry t i
  pure (entry &&& physAddrMask)

/-- `USER` for the parts of an entry, if it had it. -/
def childFlags (flags entry : ℕ) : ℕ := if entry &&& user ≠ 0 then flags &&& user else 0

/-- `ensure_table` for the entry `i` of table `t`; one processor loses no
race. The parts of a split entry are not present. -/
def ensureTable (t i flags level : ℕ) : Op ℕ := do
  linkTable toVirtual t i flags
  splitTable toVirtual (childFlags flags) t i flags level
  tableOf t i

/-- `id_ensure_table`: before CR3 is switched, tables are reached at their
physical address. The parts of a split entry stay present. -/
def idEnsureTable (t i flags level : ℕ) : Op ℕ := do
  linkTable pure t i flags
  splitTable pure (fun _ => present) t i flags level
  tableOf t i

/-! ### Mapping -/

def idMapPage (pml4 virt phys flags : ℕ) : Op Unit := do
  let pdp ← idEnsureTable pml4 (indexForAddr virt 3) writable 2
  let pd ← idEnsureTable pdp (indexForAddr virt 2) writable 1
  let pt ← idEnsureTable pd (indexForAddr virt 1) writable 0
  writeEntry pt (indexForAddr virt 0) (phys ||| flags)

def idMapHuge2mb (pml4 virt phys flags : ℕ) : Op Unit := do
  let pdp ← idEnsureTable pml4 (indexForAddr virt 3) writable 2
  let pd ← idEnsureTable pdp (indexForAddr virt 2) writable 1
  writeEntry pd (indexForAddr virt 1) (phys ||| flags ||| pageSizeBit)

/-- `(*t).0[i] |= flags & USER`. -/
def addUser (t i flags : ℕ) : Op Unit := do
  let entry ← readEntry t i
  writeEntry t i (entry ||| (flags &&& user))

/-- The page table for `virt`: the three calls of `ensure_table` that
`map_page` and `map_contiguous` begin with. -/
def ensurePt (pml4 virt flags : ℕ) : Op ℕ := do
  let tableFlags := writable ||| (flags &&& user)
  let pdpPhys ← ensureTable pml4 (indexForAddr virt 3) tableFlags 2
  addUser pml4 (indexForAddr virt 3) flags
  let pdp ← toVirtual pdpPhys
  let pdPhys ← ensureTable pdp (indexForAddr virt 2) tableFlags 1
  addUser pdp (indexForAddr virt 2) flags
  let pd ← toVirtual pdPhys
  let ptPhys ← ensureTable pd (indexForAddr virt 1) tableFlags 0
  addUser pd (indexForAddr virt 1) flags
  toVirtual ptPhys

def mapPage (pml4 virt phys flags : ℕ) : Op Unit := do
  let pt ← ensurePt pml4 virt flags
  writeEntry pt (indexForAddr virt 0) (phys ||| flags)

/-- The entries `ptIdx + i` for `i < batch`. -/
def writeBatch (pt ptIdx phys flags : ℕ) : List ℕ → Op Unit
  | [] => pure ()
  | i :: rest => do
    writeEntry pt (ptIdx + i) ((phys + i * pageSize) ||| flags)
    writeBatch pt ptIdx phys flags rest

/-- The loop of `map_contiguous`, a page table at a time. -/
def mapBatches (pml4 flags : ℕ) : ℕ → ℕ → ℕ → ℕ → Op Unit
  | 0, _, _, _ => pure ()
  | fuel + 1, remaining, virt, phys =>
    if remaining > 0 then do
      let ptIdx := indexForAddr virt 0
      let batch := min (512 - ptIdx) remaining
      let pt ← ensurePt pml4 virt flags
      writeBatch pt ptIdx phys flags (List.range batch)
      -- the cursors are checked sums
      if virt + batch * pageSize < 2 ^ 64 ∧ phys + batch * pageSize < 2 ^ 64 then
        mapBatches pml4 flags fuel (remaining - batch) (virt + batch * pageSize) (phys + batch * pageSize)
      else failure
    else pure ()

def mapContiguous (pml4Phys virtStart physStart numPages flags : ℕ) : Op Unit :=
  if numPages = 0 then pure ()
  else if numPages * pageSize ≥ 2 ^ 64 then failure
  else if virtStart + (numPages * pageSize - pageSize) ≥ 2 ^ 64 then failure
  else if physStart + (numPages * pageSize - pageSize) ≥ 2 ^ 64 then failure
  else do
    let pml4 ← toVirtual pml4Phys
    mapBatches pml4 flags numPages numPages virtStart physStart

/-- The pages of a physical range in the higher half; sums are checked. -/
def mapRegionPages (pml4 physStart flags : ℕ) : List ℕ → Op Unit
  | [] => pure ()
  | p :: rest =>
    if higherHalf + (physStart + p * pageSize) ≥ 2 ^ 64 then failure
    else do
      mapPage pml4 (higherHalf + (physStart + p * pageSize)) (physStart + p * pageSize) flags
      mapRegionPages pml4 physStart flags rest

def mapRegionHigherHalf (pml4Phys physStart size flags : ℕ) : Op Unit := do
  let pml4 ← toVirtual pml4Phys
  if size + pageSize ≥ 2 ^ 64 then failure
  else mapRegionPages pml4 physStart flags (List.range ((size + pageSize - 1) / pageSize))

/-! ### Boot -/

/-- 4 KB pages from `addr` up to `bound`. -/
def idMapPages (pml4 flags bound : ℕ) : ℕ → ℕ → Op ℕ
  | 0, addr => pure addr
  | fuel + 1, addr =>
    if addr < bound then do
      idMapPage pml4 (higherHalf + addr) addr flags
      idMapPages pml4 flags bound fuel (addr + pageSize)
    else pure addr

/-- 2 MB pages from `addr` on, as long as they fit. -/
def idMapHuges (pml4 flags regionEnd : ℕ) : ℕ → ℕ → Op ℕ
  | 0, addr => pure addr
  | fuel + 1, addr =>
    if addr + hugeSize ≤ regionEnd then do
      idMapHuge2mb pml4 (higherHalf + addr) addr flags
      idMapHuges pml4 flags regionEnd fuel (addr + hugeSize)
    else pure addr

/-- A region in the higher half: leading 4 KB pages, 2 MB pages, trailing
4 KB pages. -/
def mapHigherHalf (pml4 flags start size : ℕ) : Op Unit := do
  let regionEnd := start + size
  let aligned := (start + 0x1FFFFF) &&& (2 ^ 64 - hugeSize)
  let addr ← idMapPages pml4 flags (min aligned regionEnd) (size / pageSize + 1) start
  let addr ← idMapHuges pml4 flags regionEnd (size / hugeSize) addr
  let _ ← idMapPages pml4 flags regionEnd (size / pageSize + 1) addr
  pure ()

def mapRegions (pml4 : ℕ) : List (ℕ × ℕ) → Op Unit
  | [] => pure ()
  | (start, size) :: rest => do
    mapHigherHalf pml4 data start size
    mapRegions pml4 rest

/-- The entries of the PD that identity-maps the GB `pdpIdx`. -/
def identityWords (pdpIdx entry : ℕ) : ℕ :=
  let phys := pdpIdx * 0x40000000 + entry * hugeSize
  let flags := if phys ≤ 0xFEE00000 ∧ 0xFEE00000 < phys + hugeSize then
      writable ||| present ||| pageSizeBit ||| cacheDisable
    else writable ||| present ||| pageSizeBit
  phys ||| flags

def identityPds (pdp : ℕ) : List ℕ → Op Unit
  | [] => pure ()
  | pdpIdx :: rest => do
    let pd ← allocPage
    writeTable pd (identityWords pdpIdx)
    writeEntry pdp pdpIdx (pd ||| writable ||| present)
    identityPds pdp rest

def mapFramebuffer (pml4 fbBase : ℕ) : List ℕ → Op Unit
  | [] => pure ()
  | p :: rest => do
    idMapPage pml4 (higherHalf + (fbBase + p * pageSize)) (fbBase + p * pageSize) data
    mapFramebuffer pml4 fbBase rest

/-- 4 GB identity-mapped with 2 MB pages. -/
def mapIdentity (pml4 : ℕ) : Op Unit := do
  let pdp ← allocPage
  writeTable pdp newZeroed
  identityPds pdp (List.range 4)
  writeEntry pml4 0 (pdp ||| writable ||| present)

def mapKernelImage (pml4 : ℕ) : Option (ℕ × ℕ) → Op Unit
  | some (kstart, ksize) => mapHigherHalf pml4 code kstart ksize
  | none => pure ()

def mapFb (pml4 : ℕ) : Option (ℕ × ℕ) → Op Unit
  | some (fbBase, fbSize) => mapFramebuffer pml4 fbBase (List.range ((fbSize + pageSize - 1) / pageSize))
  | none => pure ()

/-- Everything that `init` maps, under a fresh PML4. -/
def buildTables (regions : List (ℕ × ℕ)) (fbPhys kernelPhys : Option (ℕ × ℕ)) : Op ℕ := do
  let pml4 ← allocPage
  writeTable pml4 newZeroed
  mapRegions pml4 regions
  mapKernelImage pml4 kernelPhys
  mapIdentity pml4
  mapFb pml4 fbPhys
  pure pml4

def init (regions : List (ℕ × ℕ)) (fbPhys kernelPhys : Option (ℕ × ℕ)) : Op Unit := do
  if (← get).ptInitialized then pure ()
  else do
    let pml4 ← buildTables regions fbPhys kernelPhys
    modify fun m => { m with cr3 := pml4, kernelPml4 := pml4, ptInitialized := true }

/-! ### Copies -/

/-- Run `f` on each index, until it answers `false` (no memory). -/
def forIndices (f : ℕ → Op Bool) : List ℕ → Op Bool
  | [] => pure true
  | i :: rest => do
    if ← f i then forIndices f rest else pure false

/-- A leaf copied for `copy_table_recursive`: with `cow`, a writable user page
becomes read-only and its count goes up. -/
def copyLeaf (cowFlag : Bool) (new i entry : ℕ) : Op Bool :=
  if cowFlag && (entry &&& writable ≠ 0) && (entry &&& user ≠ 0) then do
    refPage ((entry &&& physAddrMask) / pageSize)
    writeEntry new i ((entry &&& (2 ^ 64 - 1 - writable)) ||| cow)
    pure true
  else do
    writeEntry new i entry
    pure true

/-- The copy of entry `i`; `copyChild` copies a table of the level below. -/
def copyEntry (isPt : Bool) (copyChild : ℕ → Op (Option ℕ)) (cowFlag : Bool) (src new i : ℕ) : Op Bool := do
  let entry ← readEntry src i
  if entry &&& present = 0 then pure true
  else if isPt || (entry &&& pageSizeBit ≠ 0) then copyLeaf cowFlag new i entry
  else do
    match ← copyChild (entry &&& physAddrMask) with
    | none => pure false
    | some child => do
      writeEntry new i (child ||| (entry &&& entryFlagMask))
      pure true

/-- A fresh, empty table if there is memory: its page, and where it is reached. -/
def newTable : Op (Option (ℕ × ℕ)) := do
  match ← tryAllocPage with
  | none => pure none
  | some page => do
    let t ← toVirtual page
    writeTable t newZeroed
    pure (some (page, t))

/-- The copy, if the memory lasted. -/
def finishCopy (new : ℕ) (done : Bool) : Op (Option ℕ) := pure (if done then some new else none)

def copyTableRecursive (cowFlag : Bool) : ℕ → ℕ → Op (Option ℕ)
  | 0, srcPhys => do
    let src ← toVirtual srcPhys
    match ← newTable with
    | none => pure none
    | some (newPhys, new) => do
      let done ← forIndices (copyEntry true (fun _ => pure none) cowFlag src new) (List.range 512)
      finishCopy newPhys done
  | level + 1, srcPhys => do
    let src ← toVirtual srcPhys
    match ← newTable with
    | none => pure none
    | some (newPhys, new) => do
      let done ← forIndices (copyEntry false (copyTableRecursive cowFlag level) cowFlag src new) (List.range 512)
      finishCopy newPhys done

/-- An entry of the kernel's first PD: a page table is copied, the rest is
taken as it is. -/
def copyLowEntry (srcPd newPd i : ℕ) : Op Bool := do
  let entry ← readEntry srcPd i
  if (entry &&& present ≠ 0) && (entry &&& pageSizeBit = 0) then do
    match ← copyTableRecursive false 0 (entry &&& physAddrMask) with
    | none => pure false
    | some child => do
      writeEntry newPd i (child ||| (entry &&& entryFlagMask))
      pure true
  else do
    writeEntry newPd i entry
    pure true

/-- The new PDP and PD are filled and linked. -/
def fillLowIdentity (dst pml4Entry pdpEntry newPdpPhys newPdPhys : ℕ) : Op Bool := do
  let newPdp ← toVirtual newPdpPhys
  let newPd ← toVirtual newPdPhys
  writeTable newPdp newZeroed
  writeTable newPd newZeroed
  let srcPd ← toVirtual (pdpEntry &&& physAddrMask)
  if ← forIndices (copyLowEntry srcPd newPd) (List.range (userImageBase >>> 21)) then do
    writeEntry newPdp 0 (newPdPhys ||| (pdpEntry &&& entryFlagMask))
    writeEntry dst 0 (newPdpPhys ||| (pml4Entry &&& entryFlagMask))
    pure true
  else pure false

def copyKernelLowIdentity (src dst : ℕ) : Op Bool := do
  let pml4Entry ← readEntry src 0
  if (pml4Entry &&& present = 0) || (pml4Entry &&& pageSizeBit ≠ 0) then pure true
  else do
    let srcPdp ← toVirtual (pml4Entry &&& physAddrMask)
    let pdpEntry ← readEntry srcPdp 0
    if (pdpEntry &&& present = 0) || (pdpEntry &&& pageSizeBit ≠ 0) then pure true
    else do
      match ← tryAllocPage with
      | none => pure false
      | some newPdpPhys => do
        match ← tryAllocPage with
        | none => do
          freePage newPdpPhys
          pure false
        | some newPdPhys => fillLowIdentity dst pml4Entry pdpEntry newPdpPhys newPdPhys

/-- An entry of the PML4: the kernel half is shared, a user table copied. -/
def forkEntry (fromKernel : Bool) (src new i : ℕ) : Op Bool :=
  if fromKernel && i < 256 then pure true
  else do
    let entry ← readEntry src i
    if entry &&& present = 0 then pure true
    else if (i ≥ 256) || (entry &&& pageSizeBit ≠ 0) then do
      writeEntry new i entry
      pure true
    else do
      match ← copyTableRecursive true 2 (entry &&& physAddrMask) with
      | none => pure false
      | some child => do
        writeEntry new i (child ||| (entry &&& entryFlagMask))
        pure true

/-- The lower half of the kernel's own PML4. -/
def forkLow (fromKernel : Bool) (src new : ℕ) : Op Bool :=
  if fromKernel then copyKernelLowIdentity src new else pure true

def forkPml4 (srcPhys : ℕ) : Op (Option ℕ) := do
  let src ← toVirtual srcPhys
  match ← newTable with
  | none => pure none
  | some (newPhys, new) => do
    let m ← get
    let fromKernel := decide (srcPhys = m.kernelPml4)
    if ← forkLow fromKernel src new then do
      let done ← forIndices (forkEntry fromKernel src new) (List.range 512)
      finishCopy newPhys done
    else pure none

/-! ### Freeing an address space -/

def forEach (f : ℕ → Op Unit) : List ℕ → Op Unit
  | [] => pure ()
  | i :: rest => do
    f i
    forEach f rest

/-- An entry of a table that is freed: the table it names goes too. -/
def freeEntry (freeChild : ℕ → Op Unit) (table i : ℕ) : Op Unit := do
  let entry ← readEntry table i
  if (entry &&& present ≠ 0) && (entry &&& pageSizeBit = 0) then freeChild (entry &&& physAddrMask) else pure ()

def freeTableRecursive : ℕ → ℕ → Op Unit
  | 0, tablePhys => do
    -- the entries are leaves
    let _ ← toVirtual tablePhys
    freePage tablePhys
  | level + 1, tablePhys => do
    let table ← toVirtual tablePhys
    forEach (freeEntry (freeTableRecursive level) table) (List.range 512)
    freePage tablePhys

def freePml4 (pml4Phys : ℕ) : Op Unit := do
  let table ← toVirtual pml4Phys
  forEach (freeEntry (freeTableRecursive 2) table) (List.range 256)
  freePage pml4Phys

/-! ### Unmapping -/

def isTableEmpty (m : Machine) (t : ℕ) : Bool := (List.range 512).all fun i => m.mem t i = 0

def freeTable (t : ℕ) : Op Unit := if t ≠ 0 then freePage t else pure ()

def freeTables : List ℕ → Op Unit
  | [] => pure ()
  | t :: rest => do
    freeTable t
    freeTables rest

/-- An empty table is taken out of its parent. Whether it was, so that the
parent is looked at next. -/
def dropEmpty (t parent i : ℕ) : Op Bool := do
  if isTableEmpty (← get) t then do
    writeEntry parent i 0
    pure true
  else pure false

/-- The tables that a cleared entry left empty, lowest first, taken out of
the tree. -/
def dropEmpties (pml4 pdpEntry pdEntry ptEntry pdp pd pt virt : ℕ) : Op (List ℕ) := do
  if ← dropEmpty pt pd (indexForAddr virt 1) then
    if ← dropEmpty pd pdp (indexForAddr virt 2) then
      if ← dropEmpty pdp pml4 (indexForAddr virt 3) then
        pure [ptEntry &&& physAddrMask, pdEntry &&& physAddrMask, pdpEntry &&& physAddrMask]
      else pure [ptEntry &&& physAddrMask, pdEntry &&& physAddrMask]
    else pure [ptEntry &&& physAddrMask]
  else pure []

/-- The 4 KB page of `virt` is cleared, and the tables it leaves empty are
freed after the flush. -/
def unmapPage (pml4 pdpEntry pdEntry ptEntry pdp pd virt : ℕ) : Op Unit := do
  let pt ← toVirtual (ptEntry &&& physAddrMask)
  writeEntry pt (indexForAddr virt 0) 0
  let toFree ← dropEmpties pml4 pdpEntry pdEntry ptEntry pdp pd pt virt
  freeTables toFree

def unmap (virt : ℕ) : Op Unit := do
  let m ← get
  if !m.ptInitialized then pure ()
  else do
    let pml4 ← toVirtual (m.cr3 &&& physAddrMask)
    let pdpEntry ← readEntry pml4 (indexForAddr virt 3)
    if pdpEntry &&& present = 0 then pure ()
    else if pdpEntry &&& pageSizeBit ≠ 0 then writeEntry pml4 (indexForAddr virt 3) 0
    else do
      let pdp ← toVirtual (pdpEntry &&& physAddrMask)
      let pdEntry ← readEntry pdp (indexForAddr virt 2)
      if pdEntry &&& present = 0 then pure ()
      else if pdEntry &&& pageSizeBit ≠ 0 then writeEntry pdp (indexForAddr virt 2) 0
      else do
        let pd ← toVirtual (pdEntry &&& physAddrMask)
        let ptEntry ← readEntry pd (indexForAddr virt 1)
        if ptEntry &&& present = 0 then pure ()
        else unmapPage pml4 pdpEntry pdEntry ptEntry pdp pd virt

/-! ### Walks -/

/-- The entry `i` of the table at a physical address. -/
def Machine.entry (m : Machine) (addr i : ℕ) : Option ℕ := (physToVirtual addr).map fun t => m.mem t i

/-- `is_nx`; `none` is a panic. -/
def isNx (m : Machine) (pml4 virt : ℕ) : Option Bool := do
  let e4 ← m.entry (pml4 &&& physAddrMask) (indexForAddr virt 3)
  if e4 &&& present = 0 then return true
  if e4 &&& pageSizeBit ≠ 0 then return e4 &&& noExecute ≠ 0
  let e3 ← m.entry (e4 &&& physAddrMask) (indexForAddr virt 2)
  if e3 &&& present = 0 then return true
  if e3 &&& pageSizeBit ≠ 0 then return e3 &&& noExecute ≠ 0
  let e2 ← m.entry (e3 &&& physAddrMask) (indexForAddr virt 1)
  if e2 &&& present = 0 then return true
  if e2 &&& pageSizeBit ≠ 0 then return e2 &&& noExecute ≠ 0
  let e1 ← m.entry (e2 &&& physAddrMask) (indexForAddr virt 0)
  if e1 &&& present = 0 then return true
  return e1 &&& noExecute ≠ 0

/-- `translate` under the loaded PML4; `none` is a panic. -/
def translate (m : Machine) (virt : ℕ) : Option (Option ℕ) := do
  if !m.ptInitialized then return none
  let pdpEntry ← m.entry (m.cr3 &&& physAddrMask) (indexForAddr virt 3)
  if pdpEntry &&& present = 0 then return none
  if pdpEntry &&& pageSizeBit ≠ 0 then
    return some ((pdpEntry &&& 0x000FFFC000000000) ||| (virt &&& 0x3FFFFFFF))
  let pdEntry ← m.entry (pdpEntry &&& physAddrMask) (indexForAddr virt 2)
  if pdEntry &&& present = 0 then return none
  if pdEntry &&& pageSizeBit ≠ 0 then
    return some ((pdEntry &&& 0x000FFFFFFE000000) ||| (virt &&& 0x1FFFFF))
  let ptPhys ← m.entry (pdEntry &&& physAddrMask) (indexForAddr virt 1)
  if ptPhys &&& present = 0 then return none
  let pageEntry ← m.entry (ptPhys &&& physAddrMask) (indexForAddr virt 0)
  if pageEntry &&& present = 0 then return none
  return some ((pageEntry &&& physAddrMask) ||| (virt &&& 0xFFF))

/-- `read_pte`; `none` is a panic. -/
def readPte (m : Machine) (pml4Phys virt : ℕ) : Option (Option ℕ) := do
  let pdpEntry ← m.entry (pml4Phys &&& physAddrMask) (indexForAddr virt 3)
  if pdpEntry &&& present = 0 then return none
  if pdpEntry &&& pageSizeBit ≠ 0 then return none
  let pdEntry ← m.entry (pdpEntry &&& physAddrMask) (indexForAddr virt 2)
  if pdEntry &&& present = 0 then return none
  if pdEntry &&& pageSizeBit ≠ 0 then return none
  let ptPhys ← m.entry (pdEntry &&& physAddrMask) (indexForAddr virt 1)
  if ptPhys &&& present = 0 then return none
  let pte ← m.entry (ptPhys &&& physAddrMask) (indexForAddr virt 0)
  return some pte

/-- The walk of `read_pte`; the PTE is written instead. Whether it was. -/
def writePte (pml4Phys virt newPte : ℕ) : Op Bool := do
  let pml4 ← toVirtual (pml4Phys &&& physAddrMask)
  let pdpEntry ← readEntry pml4 (indexForAddr virt 3)
  if (pdpEntry &&& present = 0) || (pdpEntry &&& pageSizeBit ≠ 0) then pure false
  else do
    let pdp ← toVirtual (pdpEntry &&& physAddrMask)
    let pdEntry ← readEntry pdp (indexForAddr virt 2)
    if (pdEntry &&& present = 0) || (pdEntry &&& pageSizeBit ≠ 0) then pure false
    else do
      let pd ← toVirtual (pdEntry &&& physAddrMask)
      let ptPhys ← readEntry pd (indexForAddr virt 1)
      if ptPhys &&& present = 0 then pure false
      else do
        let pt ← toVirtual (ptPhys &&& physAddrMask)
        writeEntry pt (indexForAddr virt 0) newPte
        pure true

end LodaxOS.Virt
