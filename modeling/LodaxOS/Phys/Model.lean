/-
# The physical page allocator (`kernel/src/mm/phys.rs`)

The buddy allocator: eleven free lists, one for each order, with a lock
each, a counter of free pages, and a reference count for each page below
128 MB. Each function is the program of its locked sections and of its
atomic accesses (`Sections.Prog`), in the order of the source; run alone it is
the function as one caller sees it. Addresses are byte addresses, and the
intrusive lists of `FreeBlock`s are lists of block addresses, first block
first; no block is at address 0, the null pointer, since page 0 is reserved.

`MULTI_PAGE_LOCK` is left out: it only takes interleavings away.
-/
import LodaxOS.Lib.Sections
import LodaxOS.Lib.Words

namespace LodaxOS.Phys

open Sections Words Prog

def pageSize : ℕ := 0x1000

def maxOrder : ℕ := 10

def bootinfoHandoffPage : ℕ := 0x5000

/-- Pages from here on (128 MB) have no reference count. -/
def refcountMaxPages : ℕ := 128 * 1024 * 1024 / pageSize

/-- `size_of::<BootInfo>()`. -/
def bootInfoSize : ℕ := 2200

def usizeMax : ℕ := u64Max

structure Zone where
  base : ℕ
  top : ℕ
  freeLists : ℕ → List ℕ
  totalPages : ℕ
  freePages : ℕ

/-- The statics of the module. -/
structure State where
  zone : Zone
  refcounts : ℕ → ℕ
  initialized : Bool
  bootinfoReservedPn : ℕ
  bootinfoReservedPages : ℕ
  kernelReservedPn : ℕ
  kernelReservedPages : ℕ

/-- The statics as the kernel image holds them: every count is 1. -/
def State.boot : State where
  zone := ⟨0, 0, fun _ => [], 0, 0⟩
  refcounts := fun _ => 1
  initialized := false
  bootinfoReservedPn := usizeMax
  bootinfoReservedPages := 0
  kernelReservedPn := usizeMax
  kernelReservedPages := 0

def alignDown (x align : ℕ) : ℕ := x &&& (2 ^ 64 - align)

def alignUp (x align : ℕ) : ℕ := satAdd x (align - 1) &&& (2 ^ 64 - align)

def blockSize (order : ℕ) : ℕ := (1 <<< order) * pageSize

def isReservedPage (s : State) (pn : ℕ) : Bool :=
  if pn = 0 ∨ pn = bootinfoHandoffPage / pageSize then true
  else if s.bootinfoReservedPn ≠ usizeMax ∧ s.bootinfoReservedPages ≠ 0 ∧
      s.bootinfoReservedPn ≤ pn ∧ pn < s.bootinfoReservedPn + s.bootinfoReservedPages then true
  else decide (s.kernelReservedPn ≠ usizeMax ∧ s.kernelReservedPages ≠ 0 ∧
    s.kernelReservedPn ≤ pn ∧ pn < s.kernelReservedPn + s.kernelReservedPages)

/-! ### One free list -/

/-- A free list and the page counter changed together, as every section
changes them. -/
def State.setList (s : State) (order : ℕ) (l : List ℕ) (freePages : ℕ) : State :=
  { s with zone := { s.zone with
      freeLists := Function.update s.zone.freeLists order l, freePages } }

def addBlock (s : State) (phys order : ℕ) : State :=
  s.setList order (phys :: s.zone.freeLists order) (wrapAdd 64 s.zone.freePages (1 <<< order))

def popBlock (s : State) (order : ℕ) : Option ℕ × State :=
  match s.zone.freeLists order with
  | [] => (none, s)
  | head :: next => (some head, s.setList order next (wrapSub 64 s.zone.freePages (1 <<< order)))

/-- Unlink the block at `target`, if it is on the list. -/
def removeBlock (s : State) (target order : ℕ) : Bool × State :=
  if target ∈ s.zone.freeLists order then
    (true, s.setList order ((s.zone.freeLists order).erase target) (wrapSub 64 s.zone.freePages (1 <<< order)))
  else (false, s)

/-! ### Ranges -/

/-- The order of the next block of `[addr, end)` in `carve_range` and in
`free_pages_chunked`: what the alignment of `addr` and the pages left allow. -/
def chunkOrder (addr «end» : ℕ) : ℕ :=
  let remaining := «end» - addr
  let pn := addr / pageSize
  let alignZeros := trailingZeros 64 pn
  let maxPages := remaining / pageSize
  let maxFit := if maxPages ≤ 1 then 0 else 63 - leadingZeros 64 (maxPages - 1)
  min maxOrder (min alignZeros maxFit)

/-- The loop of `carve_range`; every round takes a page or more, so `fuel`
pages are enough for a range of that many. -/
def carveLoop («end» : ℕ) : ℕ → ℕ → Prog State Unit
  | 0, _ => pure ()
  | fuel + 1, addr =>
    if addr < «end» then do
      let order := chunkOrder addr «end»
      modify fun s => addBlock s addr order
      carveLoop «end» fuel (addr + blockSize order)
    else pure ()

def carveRange (start «end» : ℕ) : Prog State Unit :=
  carveLoop «end» (((«end» - start) + (pageSize - 1)) / pageSize) start

/-- The section of `coalesce`: unlink the buddy or, in the same section, link
the block itself. -/
def removeOrAdd (s : State) (addr buddy order : ℕ) : Bool × State :=
  match removeBlock s buddy order with
  | (true, s') => (true, s')
  | (false, s') => (false, addBlock s' addr order)

/-- `coalesce` at `order`, with `up` orders above it. -/
def coalesceUp : ℕ → ℕ → ℕ → Prog State Unit
  | 0, addr, order => modify fun s => addBlock s addr order
  | up + 1, addr, order => do
    let buddy := addr ^^^ blockSize order
    let merged ← atomically fun s => removeOrAdd s addr buddy order
    if merged then coalesceUp up (min addr buddy) (order + 1) else pure ()

def coalesce (addr order : ℕ) : Prog State Unit := coalesceUp (maxOrder - order) addr order

def rangeOverlaps (aStart aEnd bStart bEnd : ℕ) : Bool := aStart < bEnd && aEnd > bStart

/-- What a block leaves outside `[rstart, rend)`. -/
def leftover (rstart rend bsize cphys : ℕ) : List (ℕ × ℕ) :=
  (if cphys < rstart then [(cphys, rstart)] else []) ++
    if cphys + bsize > rend then [(rend, cphys + bsize)] else []

/-- The section of `remove_range`: unlink the overlapping blocks and return
what they leave outside the range, as far as the array of 64 holds it. -/
def takeRange (s : State) (rstart rend order : ℕ) : List (ℕ × ℕ) × State :=
  let bsize := blockSize order
  let hit := (s.zone.freeLists order).filter fun c => rangeOverlaps c (c + bsize) rstart rend
  let kept := (s.zone.freeLists order).filter fun c => !rangeOverlaps c (c + bsize) rstart rend
  ((hit.flatMap (leftover rstart rend bsize)).take 64,
    s.setList order kept (hit.foldl (fun n _ => wrapSub 64 n (1 <<< order)) s.zone.freePages))

def carveAll : List (ℕ × ℕ) → Prog State Unit
  | [] => pure ()
  | (cs, ce) :: rest => do
    carveRange cs ce
    carveAll rest

def removeRange (rstart rend order : ℕ) : Prog State Unit := do
  let toCarve ← atomically fun s => takeRange s rstart rend order
  carveAll toCarve

/-- `remove_range` for each order of the list, in turn. -/
def removeOrders (rstart rend : ℕ) : List ℕ → Prog State Unit
  | [] => pure ()
  | order :: rest => do
    removeRange rstart rend order
    removeOrders rstart rend rest

def isExcluded (phys : ℕ) (excludeRanges : List (ℕ × ℕ)) : Bool :=
  let pageEnd := satAdd phys pageSize
  excludeRanges.any fun r => phys < satAdd r.1 r.2 && pageEnd > r.1

/-! ### Boot -/

/-- A region rounded inwards to whole pages. -/
def regionBounds (r : ℕ × ℕ) : ℕ × ℕ :=
  (alignUp r.1 pageSize, alignDown (satAdd r.1 r.2) pageSize)

/-- The lowest start and the highest end of the regions that hold a page. -/
def zoneBounds (regions : List (ℕ × ℕ)) : ℕ × ℕ :=
  let ab := regions.foldl (fun (m : ℕ × ℕ) r =>
    let b := regionBounds r
    if b.1 < b.2 then (min m.1 b.1, max m.2 b.2) else m) (u64Max, 0)
  (if ab.1 = u64Max then 0 else ab.1, ab.2)

/-- The statics as `init_from_regions` sets them before it carves: the
reserved ranges, and an empty zone with the bounds of the regions. -/
def resetZone (regions : List (ℕ × ℕ)) (bootInfoPhys kernelStart kernelSize : ℕ) (s : State) : State :=
  let kstart := alignDown kernelStart pageSize
  let kend := alignUp (satAdd kernelStart kernelSize) pageSize
  let b := zoneBounds regions
  { s with
    zone := ⟨b.1, b.2, fun _ => [], 0, 0⟩
    bootinfoReservedPn := alignDown bootInfoPhys pageSize / pageSize
    bootinfoReservedPages := (bootInfoSize + pageSize - 1) / pageSize
    kernelReservedPn := if kernelSize > 0 then kstart / pageSize else s.kernelReservedPn
    kernelReservedPages :=
      if kernelSize > 0 then (kend - kstart) / pageSize else s.kernelReservedPages }

/-- The walk over the last `n` pages of a region that ends at `regEnd`. -/
def scanLoop (excludeRanges : List (ℕ × ℕ)) (regEnd : ℕ) : ℕ → ℕ → ℕ → Bool → Prog State Unit
  | 0, _, rangeStart, inRange => if inRange then carveRange rangeStart regEnd else pure ()
  | n + 1, addr, rangeStart, inRange => do
    let reserved ← read fun s => isReservedPage s (addr / pageSize)
    let free := !reserved && !isExcluded addr excludeRanges
    if free && !inRange then scanLoop excludeRanges regEnd n (addr + pageSize) addr true
    else if !free && inRange then do
      carveRange rangeStart addr
      scanLoop excludeRanges regEnd n (addr + pageSize) rangeStart false
    else scanLoop excludeRanges regEnd n (addr + pageSize) rangeStart inRange

def scanRegion (excludeRanges : List (ℕ × ℕ)) (r : ℕ × ℕ) : Prog State Unit :=
  let b := regionBounds r
  if b.1 < b.2 then scanLoop excludeRanges b.2 ((b.2 - b.1) / pageSize) b.1 0 false else pure ()

def scanRegions (excludeRanges : List (ℕ × ℕ)) : List (ℕ × ℕ) → Prog State Unit
  | [] => pure ()
  | r :: rest => do
    scanRegion excludeRanges r
    scanRegions excludeRanges rest

def initFromRegions (regions : List (ℕ × ℕ)) (bootInfoPhys kernelStart kernelSize : ℕ)
    (excludeRanges : List (ℕ × ℕ)) : Prog State Unit := do
  if ← read fun s => s.initialized then pure ()
  else do
    modify (resetZone regions bootInfoPhys kernelStart kernelSize)
    scanRegions excludeRanges regions
    let bootinfoBase := alignDown bootInfoPhys pageSize
    let bootinfoPages := (bootInfoSize + pageSize - 1) / pageSize
    removeOrders bootinfoBase (bootinfoBase + bootinfoPages * pageSize) (List.range (maxOrder + 1))
    modify fun s =>
      { s with zone := { s.zone with totalPages := s.zone.freePages }, initialized := true }

/-! ### Reserving and allocating -/

def reserveRange (start sizeInPages : ℕ) : Prog State Unit :=
  let rstart := alignDown start pageSize
  let rend := alignUp (satAdd start (sizeInPages * pageSize % 2 ^ 64)) pageSize
  removeOrders rstart rend (List.range (maxOrder + 1))

/-- A freshly allocated page has count 1. -/
def resetRefcount (s : State) (pn : ℕ) : State :=
  if pn < refcountMaxPages then { s with refcounts := Function.update s.refcounts pn 1 } else s

/-- The first section of `alloc_order`: take the head of the list and, for
order 0, reset its count under the same lock. -/
def popReset (s : State) (order : ℕ) : Option ℕ × State :=
  match popBlock s order with
  | (some phys, s') => (some phys, if order = 0 then resetRefcount s' (phys / pageSize) else s')
  | (none, s') => (none, s')

/-- Split: link the lower half at each order below, `n` orders down to
`order`, and keep the upper half. -/
def splitLoop (order : ℕ) : ℕ → ℕ → Prog State ℕ
  | 0, current => pure current
  | n + 1, current => do
    modify fun s => addBlock s current (order + n)
    splitLoop order n (current + blockSize (order + n))

/-- The count of the page that a split returns. -/
def resetSplit (order current : ℕ) : Prog State Unit :=
  if order = 0 then modify fun s => resetRefcount s (current / pageSize) else pure ()

/-- The search upward for a larger block. -/
def searchUp (order : ℕ) : List ℕ → Prog State (Option ℕ)
  | [] => pure none
  | higher :: rest => do
    match ← atomically fun s => popBlock s higher with
    | some phys => do
      let current ← splitLoop order (higher - order) phys
      resetSplit order current
      pure (some current)
    | none => searchUp order rest

def allocOrder (order : ℕ) : Prog State (Option ℕ) :=
  if order > maxOrder then pure none
  else do
    match ← atomically fun s => popReset s order with
    | some phys => pure (some phys)
    | none => searchUp order (List.range' (order + 1) (maxOrder - order))

/-- `fetch_add`, then a store if the count was at its maximum. -/
def refPage (pn : ℕ) : Prog State Unit :=
  if pn < refcountMaxPages then do
    let old ← atomically fun s =>
      (s.refcounts pn, { s with refcounts := Function.update s.refcounts pn (wrapAdd 16 (s.refcounts pn) 1) })
    if old = 2 ^ 16 - 1 then
      modify fun s => { s with refcounts := Function.update s.refcounts pn (2 ^ 16 - 1) }
    else pure ()
  else pure ()

/-- Whether the count reached zero. -/
def unrefPage (pn : ℕ) : Prog State Bool :=
  if refcountMaxPages ≤ pn then pure true
  else atomically fun s =>
    (s.refcounts pn == 1, { s with refcounts := Function.update s.refcounts pn (wrapSub 16 (s.refcounts pn) 1) })

/-- The two checks of `free_order` on the address. -/
def freeable (s : State) (addr order : ℕ) : Bool :=
  !isReservedPage s (addr / pageSize) &&
    !(decide (addr < s.zone.base) || decide (addr + blockSize order > s.zone.top))

def freeOrder (addr order : ℕ) : Prog State Unit :=
  if order > maxOrder ∨ addr % pageSize ≠ 0 then pure ()
  else do
    if ← read fun s => freeable s addr order then
      if order = 0 then do
        if ← unrefPage (addr / pageSize) then coalesce addr order else pure ()
      else coalesce addr order
    else pure ()

def allocPage : Prog State (Option ℕ) := allocOrder 0

def freePage (addr : ℕ) : Prog State Unit := freeOrder addr 0

/-- The loop of `free_pages_chunked`. -/
def chunkLoop («end» : ℕ) : ℕ → ℕ → Prog State Unit
  | 0, _ => pure ()
  | fuel + 1, current =>
    if current < «end» then do
      let order := chunkOrder current «end»
      freeOrder current order
      chunkLoop «end» fuel (current + blockSize order)
    else pure ()

def freePagesChunked (addr count : ℕ) : Prog State Unit :=
  chunkLoop (addr + count * pageSize) count addr

/-- The order of the block that `alloc_pages` takes for `count ≥ 2` pages. -/
def pagesOrder (count : ℕ) : ℕ := min (64 - leadingZeros 64 (count - 1)) maxOrder

/-- The pages of the block beyond `count` go back. -/
def freeExcess (addr count allocCount : ℕ) : Prog State Unit :=
  if allocCount > count then freePagesChunked (addr + count * pageSize) (allocCount - count)
  else pure ()

def allocPages (count : ℕ) : Prog State (Option ℕ) :=
  if count = 0 then pure none
  else if count = 1 then allocPage
  else if count > 1 <<< maxOrder then pure none
  else do
    match ← allocOrder (pagesOrder count) with
    | none => pure none
    | some addr => do
      freeExcess addr count (1 <<< pagesOrder count)
      pure (some addr)

def freePages (addr count : ℕ) : Prog State Unit :=
  if count = 0 then pure ()
  else do
    if ← read fun s => isReservedPage s (addr / pageSize) then pure ()
    else freePagesChunked addr count

end LodaxOS.Phys
