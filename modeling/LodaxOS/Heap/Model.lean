/-
# The kernel heap (`kernel/src/mm/heap.rs`)

Nine slab caches and the allocator that chooses between them and whole pages.
`Cells` is the memory that the heap's pointers reach: the value at each
address that a field or a link is stored at. A slab begins with its header,
whose fields lie at the offsets of the `repr(C)` struct; its objects follow. A
free object's first cell links it to the next one. A null pointer is 0.

Each function is the program of its locked sections (`Sections.Prog`). What
the heap calls outside itself, the physical allocator and the page tables, is
an `Env`; a slab that is not yet on a list is set up in one step, since nobody
else can reach it.
-/
import LodaxOS.Lib.Linked
import LodaxOS.Virt.Model

namespace LodaxOS.Heap

open Phys (pageSize)
open Virt (higherHalf)
open Sections Prog

abbrev Cells := ℕ → ℕ

def Cells.set (mem : Cells) (a v : ℕ) : Cells := Function.update mem a v

/-! ### Slabs -/

/-- `size_of::<Slab>()`. -/
def slabSize : ℕ := 40

/-- `size_of::<*mut u8>()`. -/
def ptrSize : ℕ := 8

/-! The addresses of the fields of the header at `slab`. -/

namespace Slab

def freeHead (slab : ℕ) : ℕ := slab

def slabBase (slab : ℕ) : ℕ := slab + 8

def next (slab : ℕ) : ℕ := slab + 16

def prev (slab : ℕ) : ℕ := slab + 24

def order (slab : ℕ) : ℕ := slab + 32

def totalObjs (slab : ℕ) : ℕ := slab + 34

def freeObjs (slab : ℕ) : ℕ := slab + 36

end Slab

/-- The loop of `Slab::init`: each object linked to the next, the last to
null. -/
def linkObjs (objSize : ℕ) : ℕ → ℕ → Cells → Cells
  | 0, _, mem => mem
  | n + 1, cur, mem =>
    let nextObj := if n = 0 then 0 else cur + objSize
    linkObjs objSize n nextObj (mem.set cur nextObj)

/-- The whole header. -/
def Slab.write (mem : Cells) (slab freeHead slabBase next prev order totalObjs freeObjs : ℕ) : Cells :=
  let mem := mem.set (Slab.freeHead slab) freeHead
  let mem := mem.set (Slab.slabBase slab) slabBase
  let mem := mem.set (Slab.next slab) next
  let mem := mem.set (Slab.prev slab) prev
  let mem := mem.set (Slab.order slab) order
  let mem := mem.set (Slab.totalObjs slab) totalObjs
  mem.set (Slab.freeObjs slab) freeObjs

def Slab.init (mem : Cells) (base order objSize : ℕ) : ℕ × Cells :=
  let objectsStart := base + slabSize
  let slabBytes := (1 <<< order) * pageSize
  if slabBytes ≤ slabSize ∨ objSize < ptrSize then (0, mem)
  else
    let total := (slabBytes - slabSize) / objSize % 2 ^ 16
    let mem := linkObjs objSize total objectsStart mem
    (base, Slab.write mem base objectsStart base 0 0 order total total)

def allocObj (mem : Cells) (slab : ℕ) : ℕ × Cells :=
  if mem (Slab.freeObjs slab) = 0 then (0, mem)
  else
    let obj := mem (Slab.freeHead slab)
    let mem := mem.set (Slab.freeHead slab) (mem obj)
    (obj, mem.set (Slab.freeObjs slab) (mem (Slab.freeObjs slab) - 1))

def freeObj (mem : Cells) (slab obj : ℕ) : Cells :=
  let mem := mem.set obj (mem (Slab.freeHead slab))
  let mem := mem.set (Slab.freeHead slab) obj
  mem.set (Slab.freeObjs slab) (mem (Slab.freeObjs slab) + 1)

def isFull (mem : Cells) (slab : ℕ) : Bool := mem (Slab.freeObjs slab) = 0

def isEmpty (mem : Cells) (slab : ℕ) : Bool := mem (Slab.freeObjs slab) = mem (Slab.totalObjs slab)

def contains (mem : Cells) (obj slab : ℕ) : Bool :=
  let base := mem (Slab.slabBase slab)
  base ≤ obj && obj < base + (1 <<< mem (Slab.order slab)) * pageSize

/-! ### Lists of slabs -/

structure Cache where
  objSize : ℕ
  slabOrder : ℕ
  objsPerSlab : ℕ
  partialSlabs : ℕ
  freeSlabs : ℕ
  fullSlabs : ℕ

def Cache.newConst (objSize slabOrder objsPerSlab : ℕ) : Cache := ⟨objSize, slabOrder, objsPerSlab, 0, 0, 0⟩

/-- A slab taken out of the list at `head`: the new head. -/
def unlinkSlab (head : ℕ) (mem : Cells) (slab : ℕ) : ℕ × Cells :=
  let prev := mem (Slab.prev slab)
  let next := mem (Slab.next slab)
  let mem := if prev ≠ 0 then mem.set (Slab.next prev) next else mem
  let mem := if next ≠ 0 then mem.set (Slab.prev next) prev else mem
  (if prev ≠ 0 then head else next, (mem.set (Slab.next slab) 0).set (Slab.prev slab) 0)

/-- A slab put in front of the list at `head`. -/
def pushSlab (head : ℕ) (mem : Cells) (slab : ℕ) : Cells :=
  let mem := (mem.set (Slab.next slab) head).set (Slab.prev slab) 0
  if head ≠ 0 then mem.set (Slab.prev head) slab else mem

def removePartialPtr (c : Cache) (mem : Cells) (slab : ℕ) : Cache × Cells :=
  let r := unlinkSlab c.partialSlabs mem slab
  ({ c with partialSlabs := r.1 }, r.2)

def removeFullPtr (c : Cache) (mem : Cells) (slab : ℕ) : Cache × Cells :=
  let r := unlinkSlab c.fullSlabs mem slab
  ({ c with fullSlabs := r.1 }, r.2)

def pushPartialPtr (c : Cache) (mem : Cells) (slab : ℕ) : Cache × Cells :=
  ({ c with partialSlabs := slab }, pushSlab c.partialSlabs mem slab)

def pushFullPtr (c : Cache) (mem : Cells) (slab : ℕ) : Cache × Cells :=
  ({ c with fullSlabs := slab }, pushSlab c.fullSlabs mem slab)

/-- No list is longer: there are no more pages below the end of the direct
map. -/
def maxSlabs : ℕ := 2 ^ 35

/-- A loop over the list at `head`: the first slab that `p` accepts, or null. -/
def searchList (mem : Cells) (p : ℕ → Bool) (head : ℕ) : ℕ :=
  Linked.walk 0 (fun slab => mem (Slab.next slab)) p maxSlabs head

def findSlabPtr (c : Cache) (mem : Cells) (obj : ℕ) : ℕ :=
  let slab := searchList mem (contains mem obj) c.partialSlabs
  if slab ≠ 0 then slab else searchList mem (contains mem obj) c.fullSlabs

def removeFromAnyList (c : Cache) (mem : Cells) (slab : ℕ) : Cache × Cells :=
  if searchList mem (fun cur => cur = slab) c.partialSlabs ≠ 0 then removePartialPtr c mem slab
  else if searchList mem (fun cur => cur = slab) c.fullSlabs ≠ 0 then removeFullPtr c mem slab
  else (c, mem)

/-! ### The caches -/

/-- What the heap calls: `phys::alloc_order`, `phys::free_pages`,
`virt::map_contiguous` of `HIGHER_HALF + phys` in the kernel's PML4 with
`DATA`, and `virt::unmap`. -/
structure Env (ε : Type) where
  allocOrder : ℕ → ε → Option ℕ × ε
  freePages : ℕ → ℕ → ε → ε
  mapContiguous : ℕ → ℕ → ε → ε
  unmap : ℕ → ε → ε

structure State (ε : Type) where
  env : ε
  mem : Cells
  caches : ℕ → Cache
  initialized : Bool

variable {ε : Type} (E : Env ε)

def State.setCache (s : State ε) (i : ℕ) (r : Cache × Cells) : State ε :=
  { s with caches := Function.update s.caches i r.1, mem := r.2 }

def State.setEnv (s : State ε) (env : ε) : State ε := { s with env }

/-- A call of `phys` or `virt` that returns nothing. -/
def onEnv (f : ε → ε) : Prog (State ε) Unit := modify fun s => s.setEnv (f s.env)

def callAllocOrder (order : ℕ) : Prog (State ε) (Option ℕ) :=
  atomically fun s => ((E.allocOrder order s.env).1, s.setEnv (E.allocOrder order s.env).2)

/-- One object of a slab that is on the partial list: the slab may become
full. -/
def takePartial (c : Cache) (mem : Cells) : ℕ × Cache × Cells :=
  let slab := c.partialSlabs
  let r := allocObj mem slab
  if isFull r.2 slab then
    let q := removePartialPtr c r.2 slab
    (r.1, pushFullPtr q.1 q.2 slab)
  else (r.1, c, r.2)

/-- A slab with an object taken goes on the list that fits. -/
def install (c : Cache) (mem : Cells) (slab : ℕ) (full : Bool) : Cache × Cells :=
  if full then pushFullPtr c mem slab else pushPartialPtr c mem slab

/-- One object of a slab that is on the free list. -/
def takeFree (c : Cache) (mem : Cells) : ℕ × Cache × Cells :=
  let slab := c.freeSlabs
  let c := { c with freeSlabs := mem (Slab.next slab) }
  let mem := if c.freeSlabs ≠ 0 then mem.set (Slab.prev c.freeSlabs) 0 else mem
  let mem := (mem.set (Slab.next slab) 0).set (Slab.prev slab) 0
  let r := allocObj mem slab
  (r.1, install c r.2 slab (isFull r.2 slab))

/-- An object of a slab that the cache has: the fast path, and the double
check after the slow path got a slab of its own. -/
def takeExisting (i : ℕ) (s : State ε) : Option ℕ × State ε :=
  let c := s.caches i
  if c.partialSlabs ≠ 0 then
    let r := takePartial c s.mem
    (some r.1, s.setCache i r.2)
  else if c.freeSlabs ≠ 0 then
    let r := takeFree c s.mem
    (some r.1, s.setCache i r.2)
  else (none, s)

/-- The second section of the slow path. -/
def takeOrInstall (i slab : ℕ) (full : Bool) (s : State ε) : Option ℕ × State ε :=
  match takeExisting i s with
  | (some obj, s') => (some obj, s')
  | (none, _) => (none, s.setCache i (install (s.caches i) s.mem slab full))

/-- A slab of one's own with one object taken: the object, and whether the
slab is full. -/
def newSlab (i virtBase : ℕ) (s : State ε) : (ℕ × Bool) × State ε :=
  let c := s.caches i
  let r := Slab.init s.mem virtBase c.slabOrder c.objSize
  let q := allocObj r.2 r.1
  ((q.1, isFull q.2 r.1), { s with mem := q.2 })

def unmapPages (virtBase : ℕ) : List ℕ → Prog (State ε) Unit
  | [] => pure ()
  | p :: rest => do
    onEnv (E.unmap (virtBase + p * pageSize))
    unmapPages virtBase rest

/-- `KmemCache::alloc`. -/
def cacheAlloc (i : ℕ) : Prog (State ε) ℕ := do
  match ← atomically (takeExisting i) with
  | some obj => pure obj
  | none => do
    let order ← read fun s => (s.caches i).slabOrder
    match ← callAllocOrder E order with
    | none => pure 0
    | some phys => do
      let numPages := 1 <<< order
      let virtBase := higherHalf + phys
      onEnv (E.mapContiguous phys numPages)
      let obj ← atomically (newSlab i virtBase)
      match ← atomically (takeOrInstall i virtBase obj.2) with
      | some real => do
        unmapPages E virtBase (List.range numPages)
        onEnv (E.freePages phys numPages)
        pure real
      | none => pure obj.1

/-- An empty slab leaves its list and is unmapped: its pages. -/
def reclaim (i slab : ℕ) (s : State ε) (r : Cache × Cells) : Option (ℕ × ℕ) × State ε :=
  let q := removeFromAnyList r.1 r.2 slab
  let slabBase := q.2 (Slab.slabBase slab)
  let numPages := 1 <<< q.2 (Slab.order slab)
  (some (slabBase - higherHalf, numPages),
    (s.setCache i q).setEnv ((List.range numPages).foldl (fun e p => E.unmap (slabBase + p * pageSize) e) s.env))

/-- The section of `KmemCache::free`: the pages to give back. -/
def freeSection (i obj : ℕ) (s : State ε) : Option (ℕ × ℕ) × State ε :=
  let c := s.caches i
  let slab := findSlabPtr c s.mem obj
  if slab = 0 then (none, s)
  else
    let wasFull := isFull s.mem slab
    let mem := freeObj s.mem slab obj
    let nowEmpty := isEmpty mem slab
    let r := if wasFull && !nowEmpty then
        let q := removeFullPtr c mem slab
        pushPartialPtr q.1 q.2 slab
      else (c, mem)
    if nowEmpty then reclaim E i slab s r else (none, s.setCache i r)

/-- `KmemCache::free`. -/
def cacheFree (i obj : ℕ) : Prog (State ε) Unit := do
  match ← atomically (freeSection E i obj) with
  | some (phys, numPages) => onEnv (E.freePages phys numPages)
  | none => pure ()

/-! ### The allocator -/

/-- `cache_params`: the lowest order whose slab holds an object. -/
def cacheParams (objSize : ℕ) : ℕ × ℕ :=
  ((List.range 5).findSome? fun order =>
    let avail := (1 <<< order) * pageSize - slabSize
    let objs := avail / objSize % 2 ^ 16
    if avail ≥ objSize ∧ objs ≥ 1 then some (order, objs) else none).getD (4, 1)

def sizes : List ℕ := [32, 64, 128, 256, 512, 1024, 2048, 4096, 8192]

/-- `CacheAllocator::init`. -/
def State.init (s : State ε) : State ε :=
  if s.initialized then s
  else { s with
    caches := fun i =>
      match sizes[i]? with
      | some size => Cache.newConst size (cacheParams size).1 (cacheParams size).2
      | none => s.caches i
    initialized := true }

def cacheIndex (size : ℕ) : Option ℕ :=
  if size ≤ 32 then some 0
  else if size ≤ 64 then some 1
  else if size ≤ 128 then some 2
  else if size ≤ 256 then some 3
  else if size ≤ 512 then some 4
  else if size ≤ 1024 then some 5
  else if size ≤ 2048 then some 6
  else if size ≤ 4096 then some 7
  else if size ≤ 8192 then some 8
  else none

/-- `while (1usize << o) < pages { o += 1; }`. -/
def orderLoop (pages : ℕ) : ℕ → ℕ → ℕ
  | 0, o => o
  | fuel + 1, o => if 1 <<< o < pages then orderLoop pages fuel (o + 1) else o

def pagesOf (size : ℕ) : ℕ := (size + pageSize - 1) / pageSize

def orderOf (size : ℕ) : ℕ := orderLoop (pagesOf size) 64 0

/-- Whole pages. -/
def directAlloc (size : ℕ) : Prog (State ε) ℕ :=
  if orderOf size > 10 then pure 0
  else do
    match ← callAllocOrder E (orderOf size) with
    | none => pure 0
    | some phys => do
      onEnv (E.mapContiguous phys (pagesOf size))
      pure (higherHalf + phys)

def kmallocAligned (size align : ℕ) : Prog (State ε) ℕ :=
  if align > 16 then directAlloc E size
  else
    match cacheIndex size with
    | some i => cacheAlloc E i
    | none => directAlloc E size

def directFree (ptr size : ℕ) : Prog (State ε) Unit :=
  if orderOf size > 10 then pure ()
  else do
    unmapPages E ptr (List.range (pagesOf size))
    onEnv (E.freePages (ptr - higherHalf) (1 <<< orderOf size))

def kfree (ptr size : ℕ) : Prog (State ε) Unit :=
  match cacheIndex size with
  | some i => cacheFree E i ptr
  | none => directFree E ptr size

/-- `core::alloc::Layout`. -/
structure Layout where
  size : ℕ
  align : ℕ
  alignPow : ∃ k, align = 2 ^ k
  sizeLe : size + align ≤ 2 ^ 63

end LodaxOS.Heap
