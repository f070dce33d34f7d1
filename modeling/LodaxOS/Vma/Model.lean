/-
# The VMA tree (`kernel/src/mm/vma.rs`)

A radix tree of four levels, keyed by the bits 12 to 51 of an area's start.
A node is two pages of 1024 entries; an entry is a pointer, to a node or to an
area, which the depth alone tells apart. `Cells` is the memory that the
pointers reach, the value at each address that a word is stored at, so a
pointer that is taken for something else reads what lies there.

What the tree calls outside itself is an `Env`: two pages from the physical
allocator for a node, and boxes from the heap. A panic (no memory for a node, or
a misaligned word where a pointer is taken to an area) is `none`.
-/
import LodaxOS.Heap.Model

namespace LodaxOS.VmaTree

open Phys (pageSize)
open Heap (Cells)

def pageShift : ℕ := 12

def radixBits : ℕ := 10

def radixSize : ℕ := 1 <<< radixBits

def radixMask : ℕ := radixSize - 1

def radixLevels : ℕ := 4

inductive VmaPerm
  | none
  | read
  | write
  | readWrite
  | execute
  | readExecute
  | writeExecute
  | readWriteExecute
  deriving DecidableEq, Repr

/-- The discriminants of the enumeration. -/
def VmaPerm.toNat : VmaPerm → ℕ
  | none => 0
  | read => 1
  | write => 2
  | readWrite => 3
  | execute => 4
  | readExecute => 5
  | writeExecute => 6
  | readWriteExecute => 7

structure Vma where
  start : ℕ
  «end» : ℕ
  perm : VmaPerm
  flags : ℕ
  deriving DecidableEq, Repr

/-! ### Memory -/

/-- The address of `entries[i]`. -/
def entry (node i : ℕ) : ℕ := node + 8 * i

/-- The addresses of the fields of the area at `vma`. -/
def startOf (vma : ℕ) : ℕ := vma

def endOf (vma : ℕ) : ℕ := vma + 8

def permOf (vma : ℕ) : ℕ := vma + 16

def flagsOf (vma : ℕ) : ℕ := vma + 24

/-- `size_of::<Vma>()`. -/
def vmaSize : ℕ := 32

def writeVma (mem : Cells) (p : ℕ) (vma : Vma) : Cells :=
  (((mem.set (startOf p) vma.start).set (endOf p) vma.end).set (permOf p) vma.perm.toNat).set (flagsOf p) vma.flags

/-- `phys::alloc_order(1)`, `phys::free_order(node, 1)`, `Box::new` of an area
and the drop of such a box. -/
structure Env (σ : Type) where
  newNode : σ → Option ℕ × σ
  freeNode : ℕ → σ → σ
  newBox : σ → Option ℕ × σ
  dropBox : ℕ → σ → σ

structure State (σ : Type) where
  env : σ
  mem : Cells
  root : ℕ

variable {σ : Type} (E : Env σ)

def State.write (s : State σ) (a v : ℕ) : State σ := { s with mem := s.mem.set a v }

/-! ### The tree -/

def radixShift (level : ℕ) : ℕ := pageShift + level * radixBits

def radixIndex (addr level : ℕ) : ℕ := (addr >>> radixShift level) &&& radixMask

/-- `RadixNode::new_zeroed`. -/
def newZeroed (s : State σ) : Option (ℕ × State σ) :=
  match E.newNode s.env with
  | (some page, env) =>
    some (page, { s with env, mem := fun a => if page ≤ a ∧ a < page + 2 * pageSize then 0 else s.mem a })
  | (none, _) => none

/-- The levels of `insert` above the leaf: the leaf. -/
def insertLoop (start : ℕ) : ℕ → ℕ → State σ → Option (ℕ × State σ)
  | 0, node, s => some (node, s)
  | level + 1, node, s =>
    if s.mem (entry node (radixIndex start (level + 1))) = 0 then do
      let r ← newZeroed E s
      insertLoop start level r.1 (r.2.write (entry node (radixIndex start (level + 1))) r.1)
    else insertLoop start level (s.mem (entry node (radixIndex start (level + 1)))) s

/-- The root, which `insert` makes if there is none. -/
def withRoot (s : State σ) : Option (ℕ × State σ) :=
  if s.root = 0 then (newZeroed E s).map fun r => (r.1, { r.2 with root := r.1 }) else some (s.root, s)

def insert (vma : ℕ) (s : State σ) : Option (State σ) := do
  -- nobody else has the area, so its start stays what it is
  let start := s.mem (startOf vma)
  let r ← withRoot E s
  let q ← insertLoop E start (radixLevels - 1) r.1 r.2
  return q.2.write (entry q.1 (radixIndex start 0)) vma

/-- `ProcessMemory::add_vma`: an area goes into a box and into the tree. -/
def addVma (vma : Vma) (s : State σ) : Option (State σ) :=
  match E.newBox s.env with
  | (some b, env) => insert E b { s with env, mem := writeVma s.mem b vma }
  | (none, _) => none

def lookupLoop (mem : Cells) (addr : ℕ) : ℕ → ℕ → Option ℕ
  | 0, node => some node
  | level + 1, node =>
    if mem (entry node (radixIndex addr (level + 1))) = 0 then none
    else lookupLoop mem addr level (mem (entry node (radixIndex addr (level + 1))))

def lookup (addr : ℕ) (s : State σ) : Option ℕ :=
  if s.root = 0 then none
  else do
    let node ← lookupLoop s.mem addr (radixLevels - 1) s.root
    let vma := s.mem (entry node (radixIndex addr 0))
    if vma = 0 then none else some vma

/-- The way down in `remove`, with the arrays `path_nodes` and `path_indices`
as one. -/
def removeLoop (mem : Cells) (start : ℕ) : ℕ → ℕ → (ℕ → ℕ × ℕ) → Option (ℕ × (ℕ → ℕ × ℕ))
  | 0, node, path => some (node, path)
  | level + 1, node, path =>
    let path := Function.update path (level + 1) (node, radixIndex start (level + 1))
    if mem (entry node (radixIndex start (level + 1))) = 0 then none
    else removeLoop mem start level (mem (entry node (radixIndex start (level + 1)))) path

def hasEntries (mem : Cells) (node : ℕ) : Bool := (List.range radixSize).any fun i => mem (entry node i) ≠ 0

/-- The loop that frees emptied nodes, for `level` on, `n` rounds at most. -/
def freeUp (path : ℕ → ℕ × ℕ) : ℕ → ℕ → ℕ → State σ → State σ
  | 0, _, _, s => s
  | n + 1, level, node, s =>
    if hasEntries s.mem node then s
    else
      let s := { s with env := E.freeNode node s.env }
      if level + 1 < radixLevels then
        freeUp path n (level + 1) (path (level + 1)).1
          (s.write (entry (path (level + 1)).1 (path (level + 1)).2) 0)
      else { s with root := 0 }

def remove (start : ℕ) (s : State σ) : Bool × State σ :=
  if s.root = 0 then (false, s)
  else
    match removeLoop s.mem start (radixLevels - 1) s.root fun _ => (0, 0) with
    | none => (false, s)
    | some (node, path) =>
      let vma := s.mem (entry node (radixIndex start 0))
      let s := s.write (entry node (radixIndex start 0)) 0
      if vma = 0 then (false, s)
      else (true, freeUp E path radixLevels 0 node { s with env := E.dropBox vma s.env })

/-! ### Traversal -/

section

variable {τ ρ : Type}

/-- The entries of a node that are not null, until `g` returns something. A
node or an area at an address that is no multiple of eight is not accessed: the
check of the pointer panics. -/
def forEntries (mem : Cells) (node : ℕ) (g : ℕ → τ → Option (Option ρ × τ)) : List ℕ → τ → Option (Option ρ × τ)
  | [], t => some (none, t)
  | i :: rest, t =>
    if mem (entry node i) = 0 then forEntries mem node g rest t
    else if mem (entry node i) % 8 ≠ 0 then none
    else
      (g (mem (entry node i)) t).bind fun
        | (some r, t) => some (some r, t)
        | (none, t) => forEntries mem node g rest t

def visitNode (mem : Cells) (f : ℕ → τ → Option ρ × τ) : ℕ → ℕ → τ → Option (Option ρ × τ)
  | 0, node => forEntries mem node (fun vma t => some (f vma t)) (List.range radixSize)
  | level + 1, node => forEntries mem node (visitNode mem f level) (List.range radixSize)

/-- The closure `f` gets a pointer to an area, and may keep a state of its
own. -/
def visitAll (f : ℕ → τ → Option ρ × τ) (s : State σ) (t : τ) : Option (Option ρ × τ) :=
  if s.root = 0 then some (none, t) else visitNode s.mem f 4 s.root t

end

def findCovering (addr : ℕ) (s : State σ) : Option (Option ℕ) :=
  (visitAll (fun vma t => (if s.mem (startOf vma) ≤ addr ∧ addr < s.mem (endOf vma) then some vma else none, t))
    s ()).map Prod.fst

def hasOverlap (start «end» : ℕ) (s : State σ) : Option Bool :=
  (visitAll (fun vma t => (if s.mem (startOf vma) < «end» ∧ start < s.mem (endOf vma) then some () else none, t))
    s ()).map fun r => r.1.isSome

/-- `free_tree`. -/
def freeTree (mem : Cells) : ℕ → ℕ → σ → σ
  | 0, node, e =>
    E.freeNode node ((List.range radixSize).foldl (fun e i =>
      if mem (entry node i) = 0 then e else E.dropBox (mem (entry node i)) e) e)
  | level + 1, node, e =>
    E.freeNode node ((List.range radixSize).foldl (fun e i =>
      if mem (entry node i) = 0 then e else freeTree mem level (mem (entry node i)) e) e)

/-- `Drop for VmaTree`. -/
def dropTree (s : State σ) : State σ :=
  if s.root = 0 then s else { s with env := freeTree E s.mem radixLevels s.root s.env }

end LodaxOS.VmaTree
