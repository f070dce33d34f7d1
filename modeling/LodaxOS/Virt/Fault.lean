/-
# Page faults (`kernel/src/mm/vma.rs`)

What the kernel does on a page fault: a write to a page that is marked
copy-on-write gets a copy of its own, and a missing page of a VMA gets a
zeroed one. A VMA is what `find_covering` takes for one, a pointer into the
memory of the tree; its permission is the word that stands there.
-/
import LodaxOS.Virt.Entries
import LodaxOS.Vma.Model

namespace LodaxOS.Virt

open Phys (pageSize)
open Radix
open VmaTree (VmaPerm)

def readPteNow (pml4Phys virt : ℕ) : Op (Option ℕ) := fun m => (readPte m pml4Phys virt).map fun r => (r, m)

/-- `map_page` under a PML4; the old entry decides on a shootdown only. -/
def mapPageExplicit (pml4Phys virt phys flags : ℕ) : Op Unit := do
  let _ ← readPteNow pml4Phys virt
  let pml4 ← toVirtual pml4Phys
  mapPage pml4 virt phys flags

def unrefPage (pn : ℕ) : Op Bool := fun m =>
  let r := (Phys.unrefPage pn).run m.phys
  some (r.1, { m with phys := r.2 })

/-- `addr & !0xFFF`. -/
def pageBase (addr : ℕ) : ℕ := addr &&& (2 ^ 64 - pageSize)

/-! ### Copy on write -/

/-- A page copied between physical addresses that are used as pointers: the
loaded tables decide where they lead. -/
def copyPhysPage (src dst : ℕ) : Op Unit := fun m => do
  let s ← hwTranslate m.mem m.cr3 src
  let d ← hwTranslate m.mem m.cr3 dst
  pure ((), { m with mem := m.mem.fill d (m.mem s) })

/-- The entry that `resolve_cow` writes: the low flags of the old one. -/
def cowEntry (newPhys oldPte : ℕ) : ℕ :=
  newPhys ||| ((oldPte &&& 0xFFF) &&& (2 ^ 64 - 1 - cow)) ||| writable

def resolveCow (pml4Phys pageAddr oldPte : ℕ) : Op Bool := do
  let oldPhys := oldPte &&& physAddrMask
  match ← tryAllocPage with
  | none => pure false
  | some newPhys => do
    copyPhysPage oldPhys newPhys
    let _ ← writePte pml4Phys pageAddr (cowEntry newPhys oldPte)
    if ← unrefPage (oldPhys / pageSize) then do
      freePage oldPhys
      pure true
    else pure true

/-! ### Demand paging -/

variable {σ τ : Type}

def demandFlags (perm : ℕ) : ℕ :=
  if perm &&& VmaPerm.execute.toNat = 0 then present ||| writable ||| noExecute else present ||| writable

/-- A zeroed page for the page of `faultAddr`. -/
def demandPage (pml4Phys faultAddr perm : ℕ) : Op Bool := do
  match ← tryAllocPage with
  | none => pure false
  | some physPage => do
    -- written through the direct map
    writeTable physPage newZeroed
    mapPageExplicit pml4Phys (pageBase faultAddr) physPage (demandFlags perm)
    pure true

/-- `find_covering`, which may panic: the permission. -/
def coveringPerm (tree : VmaTree.State σ) (addr : ℕ) : Op (Option ℕ) := fun m =>
  (VmaTree.findCovering addr tree).map fun vma => (vma.map fun p => tree.mem (VmaTree.permOf p), m)

structure ProcessMemory (σ : Type) where
  pml4Phys : ℕ
  vmaTree : VmaTree.State σ

namespace ProcessMemory

/-- The part of `handle_page_fault` from the lookup on. -/
def demand (process : ProcessMemory σ) (faultAddr : ℕ) (write : Bool) : Op Bool := do
  match ← coveringPerm process.vmaTree faultAddr with
  | none => pure false
  | some perm =>
    if write && (perm &&& VmaPerm.write.toNat = 0) then pure false
    else demandPage process.pml4Phys faultAddr perm

def handlePageFault (process : ProcessMemory σ) (faultAddr : ℕ) (write : Bool) : Op Bool := do
  let pml4Phys := process.pml4Phys
  let pte ← if write then readPteNow pml4Phys faultAddr else pure none
  if pte.any (fun p => p &&& cow ≠ 0) then do
    -- `handle_cow_fault`
    match ← readPteNow pml4Phys (pageBase faultAddr) with
    | none => pure false
    | some oldPte => resolveCow pml4Phys (pageBase faultAddr) oldPte
  else process.demand faultAddr write

end ProcessMemory

/-- `handle_page_fault`, with the memory of the running process, if it is one,
and the kernel's VMA tree. -/
def handlePageFault (process : Option (ProcessMemory σ)) (kernelVmas : VmaTree.State τ) (faultAddr errorCode : ℕ) :
    Op Bool := do
  let isPresent := errorCode.testBit 0
  let isWrite := errorCode.testBit 1
  let isUser := errorCode.testBit 2
  let m ← get
  let pml4 := pageBase m.cr3
  if isPresent && isWrite then do
    match ← readPteNow pml4 faultAddr with
    | none => pure false
    | some pte =>
      if pte &&& cow ≠ 0 then resolveCow pml4 (pageBase faultAddr) pte else pure false
  else if isPresent then pure false
  else if isUser then
    match process with
    | none => pure false
    | some process => process.handlePageFault faultAddr isWrite
  else
    match ← coveringPerm kernelVmas faultAddr with
    | none => pure false
    | some perm => demandPage pml4 faultAddr perm

end LodaxOS.Virt
