/-
# Slabs in memory

`SlabAt` says that the memory holds a slab with some free objects: its header,
and the objects linked one to the next. Taking and giving back an object take
it off the list and put it on again (`allocObj_ok`, `freeObj_ok`), and
`Slab::init` makes a slab whose objects are all free (`init_ok`). `Listed`
says the same for the doubly linked lists of slabs.

List pointers are told from everything else by their address alone: they are
at 16 and 24 modulo 32, where no other field and no object begins.
-/
import LodaxOS.Heap.Model

namespace LodaxOS.Heap

open Phys (pageSize)
open Virt (higherHalf)
open Linked Slab Cells

/-! ### The caches' parameters -/

/-- The sizes that `init` gives the caches. -/
def objSize (i : ℕ) : ℕ := sizes.getD i 0

def slabOrder (i : ℕ) : ℕ := (cacheParams (objSize i)).1

def totalObjs (i : ℕ) : ℕ := (cacheParams (objSize i)).2

def slabBytes (i : ℕ) : ℕ := (1 <<< slabOrder i) * pageSize

/-- What holds of every cache: some objects fit into a slab behind its header,
and they begin 8 bytes behind a multiple of 32. -/
structure Params (i : ℕ) : Prop where
  size : 32 ∣ objSize i ∧ 0 < objSize i
  total : 0 < totalObjs i
  fits : slabSize + totalObjs i * objSize i ≤ slabBytes i
  eq : (slabBytes i - slabSize) / objSize i % 2 ^ 16 = totalObjs i
  bytes : slabSize < slabBytes i
  order : slabOrder i ≤ 2

lemma params {i : ℕ} (hi : i < 9) : Params i := by
  have h : ∀ i < 9, (32 ∣ objSize i ∧ 0 < objSize i) ∧ 0 < totalObjs i ∧
      slabSize + totalObjs i * objSize i ≤ slabBytes i ∧
      (slabBytes i - slabSize) / objSize i % 2 ^ 16 = totalObjs i ∧ slabSize < slabBytes i ∧ slabOrder i ≤ 2 := by
    decide
  obtain ⟨h1, h2, h3, h4, h5, h6⟩ := h i hi
  exact ⟨h1, h2, h3, h4, h5, h6⟩

/-! ### Objects -/

section

variable {i b : ℕ}

/-- The object `k` of the slab at `b`. -/
def slot (i b k : ℕ) : ℕ := b + slabSize + k * objSize i

def slots (i b : ℕ) : List ℕ := (List.range (totalObjs i)).map (slot i b)

/-- The addresses of the slab at `b`. -/
def Region (i b a : ℕ) : Prop := b ≤ a ∧ a < b + slabBytes i

variable {o : ℕ}

lemma mem_slots : o ∈ slots i b ↔ ∃ k < totalObjs i, o = slot i b k := by
  simp [slots, eq_comm]

/-- An object lies behind the header and inside the slab. -/
lemma slot_bounds (hi : i < 9) {k : ℕ} (hk : k < totalObjs i) :
    b + slabSize ≤ slot i b k ∧ slot i b k + objSize i ≤ b + slabBytes i := by
  have hle : (k + 1) * objSize i ≤ totalObjs i * objSize i := Nat.mul_le_mul_right _ hk
  rw [Nat.succ_mul] at hle
  have := (params hi).fits
  unfold slot
  omega

lemma mem_slots_bounds (hi : i < 9) (ho : o ∈ slots i b) : b + slabSize ≤ o ∧ o + objSize i ≤ b + slabBytes i := by
  obtain ⟨k, hk, rfl⟩ := mem_slots.mp ho
  exact slot_bounds hi hk

lemma mem_slots_region (hi : i < 9) (ho : o ∈ slots i b) : Region i b o := by
  obtain ⟨h1, h2⟩ := mem_slots_bounds hi ho
  have := (params hi).size.2
  unfold Region
  omega

lemma slots_nodup (hi : i < 9) : (slots i b).Nodup := by
  refine List.nodup_range.map_on fun j _ k _ h => ?_
  unfold slot at h
  exact Nat.eq_of_mul_eq_mul_right (params hi).size.2 (by omega)

lemma slots_eq_cons (hi : i < 9) : slots i b = slot i b 0 :: (slots i b).tail := by
  obtain ⟨n, hn⟩ := Nat.exists_eq_succ_of_ne_zero (params hi).total.ne'
  rw [slots, hn, List.range_succ_eq_map]
  rfl

lemma mem_slots_mod (hi : i < 9) (hb : b % 4096 = 0) (ho : o ∈ slots i b) : o % 32 = 8 := by
  obtain ⟨k, -, rfl⟩ := mem_slots.mp ho
  obtain ⟨j, hj⟩ := (params hi).size.1
  have : k * objSize i = 32 * (k * j) := by rw [hj]; ring
  simp only [slot, slabSize]
  omega

/-- Two objects of a slab do not overlap. -/
lemma slots_disjoint {o o' a : ℕ} (ho : o ∈ slots i b) (ho' : o' ∈ slots i b) (hne : o ≠ o')
    (ha : o ≤ a ∧ a < o + objSize i) : ¬ (o' ≤ a ∧ a < o' + objSize i) := by
  obtain ⟨j, -, rfl⟩ := mem_slots.mp ho
  obtain ⟨k, -, rfl⟩ := mem_slots.mp ho'
  have hjk : j ≠ k := fun h => hne (h ▸ rfl)
  unfold slot at *
  rintro ⟨h1, h2⟩
  rcases lt_or_gt_of_ne hjk with h | h
  · have hle : (j + 1) * objSize i ≤ k * objSize i := Nat.mul_le_mul_right _ h
    rw [Nat.succ_mul] at hle
    omega
  · have hle : (k + 1) * objSize i ≤ j * objSize i := Nat.mul_le_mul_right _ h
    rw [Nat.succ_mul] at hle
    omega

end

/-! ### Slabs in memory -/

/-- The memory holds a slab of cache `i` at `b` with the free objects `l`. -/
structure SlabAt (mem : Cells) (i b : ℕ) (l : List ℕ) : Prop where
  cache : i < 9
  aligned : b % 4096 = 0
  base : mem (Slab.slabBase b) = b
  order : mem (Slab.order b) = slabOrder i
  total : mem (Slab.totalObjs b) = totalObjs i
  free : mem (Slab.freeObjs b) = l.length
  chain : Chain 0 mem (mem (Slab.freeHead b)) l
  nodup : l.Nodup
  slots : ∀ o ∈ l, o ∈ slots i b

/-- Where the fields of a header are, modulo 32. -/
lemma field_mod {b : ℕ} (hb : b % 4096 = 0) : freeHead b % 32 = 0 ∧ slabBase b % 32 = 8 ∧
    next b % 32 = 16 ∧ prev b % 32 = 24 ∧ Slab.order b % 32 = 0 ∧ Slab.totalObjs b % 32 = 2 ∧
    freeObjs b % 32 = 4 := by
  simp only [freeHead, slabBase, next, prev, Slab.order, Slab.totalObjs, freeObjs]
  omega

variable {x y : ℕ}

lemma next_inj : next x = next y ↔ x = y := Nat.add_right_cancel_iff

lemma prev_inj : prev x = prev y ↔ x = y := Nat.add_right_cancel_iff

lemma next_ne_prev (hx : x % 4096 = 0) (hy : y % 4096 = 0) : next x ≠ prev y := by
  simp only [next, prev]
  omega

lemma Cells.set_self (mem : Cells) (a v : ℕ) : mem.set a v a = v := Function.update_self _ _ _

lemma Cells.set_of_ne (mem : Cells) {a b : ℕ} (v : ℕ) (h : b ≠ a) : mem.set a v b = mem b := Function.update_of_ne h _ _

section

variable {mem mem' : Cells} {i b o : ℕ} {l : List ℕ}

namespace SlabAt

variable (h : SlabAt mem i b l)

include h

lemma chain_mod {o : ℕ} (ho : o ∈ l) : o % 32 = 8 :=
  mem_slots_mod h.cache h.aligned (h.slots o ho)

/-- Only the fields of the header and the free objects matter. -/
lemma congr (h0 : mem' (freeHead b) = mem (freeHead b))
    (h8 : mem' (slabBase b) = mem (slabBase b)) (h32 : mem' (Slab.order b) = mem (Slab.order b))
    (h34 : mem' (Slab.totalObjs b) = mem (Slab.totalObjs b)) (h36 : mem' (freeObjs b) = mem (freeObjs b))
    (hc : ∀ o ∈ l, mem' o = mem o) : SlabAt mem' i b l :=
  ⟨h.cache, h.aligned, h8.trans h.base, h32.trans h.order, h34.trans h.total, h36.trans h.free,
    h0 ▸ h.chain.congr hc, h.nodup, h.slots⟩

/-- Changes outside the header and the free objects. -/
lemma congr_region (hm : ∀ a, b ≤ a → a < b + slabSize → mem' a = mem a)
    (hc : ∀ o ∈ l, mem' o = mem o) : SlabAt mem' i b l := by
  refine h.congr (hm _ ?_ ?_) (hm _ ?_ ?_) (hm _ ?_ ?_) (hm _ ?_ ?_) (hm _ ?_ ?_) hc
  all_goals
    simp only [freeHead, slabBase, Slab.order, Slab.totalObjs, freeObjs, slabSize]
    omega

lemma header_region {a : ℕ} (ha : b ≤ a) (ha' : a < b + slabSize) : Region i b a :=
  ⟨ha, lt_trans ha' (Nat.add_lt_add_left (params h.cache).bytes _)⟩

/-- Changes outside the slab, and of list pointers. -/
lemma congr_cells (hm : ∀ a, Region i b a → a % 32 ≠ 16 → a % 32 ≠ 24 → mem' a = mem a) : SlabAt mem' i b l := by
  obtain ⟨h0, h8, -, -, h32, h34, h36⟩ := field_mod h.aligned
  refine h.congr (hm _ (h.header_region ?_ ?_) ?_ ?_) (hm _ (h.header_region ?_ ?_) ?_ ?_)
    (hm _ (h.header_region ?_ ?_) ?_ ?_) (hm _ (h.header_region ?_ ?_) ?_ ?_) (hm _ (h.header_region ?_ ?_) ?_ ?_)
    fun o ho => ?_
  case refine_21 =>
    have := h.chain_mod ho
    exact hm o (mem_slots_region h.cache (h.slots o ho)) (by omega) (by omega)
  all_goals
    simp only [freeHead, slabBase, Slab.order, Slab.totalObjs, freeObjs, slabSize] at *
    omega

end SlabAt

/-- The first free object is taken. -/
lemma allocObj_ok (h : SlabAt mem i b (o :: l)) : (allocObj mem b).1 = o ∧ SlabAt (allocObj mem b).2 i b l ∧
    ∀ a, a ≠ freeHead b → a ≠ freeObjs b → (allocObj mem b).2 a = mem a := by
  obtain ⟨h0, h8, -, -, h32, h34, h36⟩ := field_mod h.aligned
  obtain ⟨ho, -, hc⟩ := h.chain
  have he : allocObj mem b = (o, (mem.set (freeHead b) (mem o)).set (freeObjs b) l.length) := by
    have hfree : mem (freeObjs b) = l.length + 1 := h.free
    unfold allocObj
    rw [if_neg (by omega)]
    simp only [ho]
    rw [set_of_ne _ _ (by omega), hfree, Nat.add_sub_cancel]
  have hframe : ∀ a, a ≠ freeHead b → a ≠ freeObjs b → (allocObj mem b).2 a = mem a := by
    intro a h0 h36
    rw [he]
    exact (set_of_ne _ _ h36).trans (set_of_ne _ _ h0)
  refine ⟨by rw [he], ⟨h.cache, h.aligned, ?_, ?_, ?_, ?_, ?_, (List.nodup_cons.mp h.nodup).2, ?_⟩, hframe⟩
  · exact (hframe _ (by omega) (by omega)).trans h.base
  · refine (hframe _ ?_ (by omega)).trans h.order
    simp [Slab.order, freeHead]
  · exact (hframe _ (by omega) (by omega)).trans h.total
  · rw [he]
    exact set_self _ _ _
  · rw [he]
    change Chain 0 _ ((mem.set _ _).set _ _ _) l
    rw [set_of_ne _ _ (by omega), set_self]
    refine hc.congr fun x hx => ?_
    have := h.chain_mod (List.mem_cons_of_mem o hx)
    have := hframe x (by omega) (by omega)
    rwa [he] at this
  · exact fun x hx => h.slots x (List.mem_cons_of_mem o hx)

/-- An object is given back. -/
lemma freeObj_ok (h : SlabAt mem i b l) (ho : o ∈ slots i b) (hol : o ∉ l) : SlabAt (freeObj mem b o) i b (o :: l) ∧
    ∀ a, a ≠ freeHead b → a ≠ freeObjs b → a ≠ o → freeObj mem b o a = mem a := by
  obtain ⟨h0, h8, -, -, h32, h34, h36⟩ := field_mod h.aligned
  have hmod := mem_slots_mod h.cache h.aligned ho
  obtain ⟨hlow, -⟩ := mem_slots_bounds h.cache ho
  have he : freeObj mem b o = ((mem.set o (mem (freeHead b))).set (freeHead b) o).set (freeObjs b) (l.length + 1) := by
    unfold freeObj
    simp only
    rw [set_of_ne _ _ (by omega : freeObjs b ≠ freeHead b), set_of_ne _ _ (by omega), h.free]
  have hframe : ∀ a, a ≠ freeHead b → a ≠ freeObjs b → a ≠ o → freeObj mem b o a = mem a := by
    intro a h0 h36 hao
    rw [he, set_of_ne _ _ h36, set_of_ne _ _ h0, set_of_ne _ _ hao]
  refine ⟨⟨h.cache, h.aligned, ?_, ?_, ?_, ?_, ⟨?_, ?_, ?_⟩, List.nodup_cons.mpr ⟨hol, h.nodup⟩, ?_⟩, hframe⟩
  · refine (hframe _ (by omega) (by omega) ?_).trans h.base
    simp only [slabBase, slabSize] at *
    omega
  · refine (hframe _ ?_ (by omega) (by omega)).trans h.order
    simp [Slab.order, freeHead]
  · exact (hframe _ (by omega) (by omega) (by omega)).trans h.total
  · rw [he, set_self]
    rfl
  · rw [he, set_of_ne _ _ (by omega), set_self]
  · simp only [slabSize] at hlow
    omega
  · rw [he, set_of_ne _ _ (by omega), set_of_ne _ _ (by omega), set_self, ← he]
    refine h.chain.congr fun x hx => ?_
    have := h.chain_mod hx
    exact hframe x (by omega) (by omega) fun hxo => hol (hxo ▸ hx)
  · intro x hx
    rcases List.mem_cons.mp hx with rfl | hx
    · exact ho
    · exact h.slots x hx

end

/-! ### A new slab -/

/-- `n` objects from `cur` on. -/
def objsFrom (size : ℕ) : ℕ → ℕ → List ℕ
  | 0, _ => []
  | n + 1, cur => cur :: objsFrom size n (cur + size)

lemma objsFrom_eq (size : ℕ) : ∀ n cur : ℕ, objsFrom size n cur = (List.range n).map fun k => cur + k * size
  | 0, _ => rfl
  | n + 1, cur => by
    rw [objsFrom, objsFrom_eq size n, List.range_succ_eq_map, List.map_cons, List.map_map, zero_mul, add_zero]
    congr 1
    refine List.map_congr_left fun k _ => ?_
    simp only [Function.comp, Nat.succ_mul]
    omega

lemma slots_eq (i b : ℕ) : slots i b = objsFrom (objSize i) (totalObjs i) (b + slabSize) :=
  (objsFrom_eq _ _ _).symm

lemma le_of_mem_objsFrom {size : ℕ} : ∀ {n cur a : ℕ}, a ∈ objsFrom size n cur → cur ≤ a
  | n + 1, cur, a, h => by
    rcases List.mem_cons.mp h with rfl | h
    · exact le_rfl
    · exact le_trans (Nat.le_add_right _ _) (le_of_mem_objsFrom h)

lemma linkObjs_frame {size : ℕ} : ∀ (n cur : ℕ) (mem : Cells) {a : ℕ}, a ∉ objsFrom size n cur →
    linkObjs size n cur mem a = mem a
  | 0, _, _, _, _ => rfl
  | n + 1, cur, mem, a, ha => by
    rw [objsFrom, List.mem_cons, not_or] at ha
    unfold linkObjs
    cases n with
    | zero => exact set_of_ne _ _ ha.1
    | succ n =>
      rw [if_neg (Nat.succ_ne_zero n)]
      exact (linkObjs_frame (n + 1) (cur + size) _ ha.2).trans (set_of_ne _ _ ha.1)

/-- The objects are linked in order. -/
lemma linkObjs_chain (size : ℕ) (hs : 0 < size) : ∀ (n cur : ℕ) (mem : Cells), 0 < cur →
    Chain 0 (linkObjs size n cur mem) (if n = 0 then 0 else cur) (objsFrom size n cur)
  | 0, _, _, _ => rfl
  | n + 1, cur, mem, hc => by
    rw [if_neg (Nat.succ_ne_zero n)]
    refine ⟨rfl, by omega, ?_⟩
    have hcur : linkObjs size (n + 1) cur mem cur = if n = 0 then 0 else cur + size := by
      unfold linkObjs
      cases n with
      | zero => exact set_self _ _ _
      | succ n =>
        rw [if_neg (Nat.succ_ne_zero n)]
        refine (linkObjs_frame _ _ _ fun h => ?_).trans (set_self _ _ _)
        have := le_of_mem_objsFrom h
        omega
    rw [hcur]
    unfold linkObjs
    cases n with
    | zero => rfl
    | succ n =>
      simp only [if_neg (Nat.succ_ne_zero n)]
      have := linkObjs_chain size hs (n + 1) (cur + size) (mem.set cur (cur + size)) (by omega)
      rwa [if_neg (Nat.succ_ne_zero n)] at this

/-- A written header. -/
lemma write_fields (mem : Cells) (b h s n p o t f : ℕ) : write mem b h s n p o t f (freeHead b) = h ∧
    write mem b h s n p o t f (slabBase b) = s ∧ write mem b h s n p o t f (Slab.order b) = o ∧
    write mem b h s n p o t f (Slab.totalObjs b) = t ∧ write mem b h s n p o t f (freeObjs b) = f := by
  simp [write, Cells.set, freeHead, slabBase, next, prev, Slab.order, Slab.totalObjs, freeObjs]

lemma write_of_notMem (mem : Cells) {b a : ℕ} (h s n p o t f : ℕ) (ha : ¬ (b ≤ a ∧ a < b + slabSize)) :
    write mem b h s n p o t f a = mem a := by
  simp only [slabSize] at ha
  simp only [write, freeHead, slabBase, next, prev, Slab.order, Slab.totalObjs, freeObjs]
  iterate 7 rw [set_of_ne _ _ (by omega)]

/-- `Slab::init` makes a slab of free objects and writes nowhere else. -/
lemma init_ok {i b : ℕ} (hi : i < 9) (hb : b % 4096 = 0) (mem : Cells) : (init mem b (slabOrder i) (objSize i)).1 = b ∧
    SlabAt (init mem b (slabOrder i) (objSize i)).2 i b (slots i b) ∧
    ∀ a, ¬ Region i b a → (init mem b (slabOrder i) (objSize i)).2 a = mem a := by
  have hp := params hi
  have hsize : 32 ≤ objSize i := Nat.le_of_dvd hp.size.2 hp.size.1
  have hnot : ¬ ((1 <<< slabOrder i) * pageSize ≤ slabSize ∨ objSize i < ptrSize) := by
    have := hp.bytes
    simp only [slabBytes, ptrSize] at *
    omega
  have htotal : ((1 <<< slabOrder i) * pageSize - slabSize) / objSize i % 2 ^ 16 = totalObjs i := hp.eq
  have hchain := linkObjs_chain (objSize i) (by omega) (totalObjs i) (b + slabSize) mem (by simp [slabSize])
  rw [if_neg hp.total.ne', ← slots_eq] at hchain
  unfold init
  simp only [if_neg hnot, htotal]
  obtain ⟨h0, h8, h32, h34, h36⟩ := write_fields (linkObjs (objSize i) (totalObjs i) (b + slabSize) mem) b (b + slabSize) b
    0 0 (slabOrder i) (totalObjs i) (totalObjs i)
  refine ⟨trivial, ⟨hi, hb, h8, h32, h34, ?_, ?_, slots_nodup hi, fun _ h => h⟩, fun a ha => ?_⟩
  · rw [h36]
    simp [slots]
  · rw [h0]
    refine hchain.congr fun x hx => write_of_notMem _ _ _ _ _ _ _ _ fun hc => ?_
    have := (mem_slots_bounds hi hx).1
    omega
  · have hbytes := hp.bytes
    rw [write_of_notMem _ _ _ _ _ _ _ _ fun hc => ha ⟨hc.1, by omega⟩]
    exact linkObjs_frame _ _ _ fun hc => ha (mem_slots_region hi (slots_eq i b ▸ hc))

/-! ### Lists of slabs in memory -/

/-- The memory holds the list `l` of slabs from `head` on. -/
structure Listed (mem : Cells) (head : ℕ) (l : List ℕ) : Prop where
  list : Dlist 0 (fun slab => mem (Slab.next slab)) (fun slab => mem (Slab.prev slab)) head l
  nodup : l.Nodup
  aligned : ∀ x ∈ l, x % 4096 = 0

/-- The changes of list operations: list pointers alone, and of the slabs in
`S` only. -/
structure Relinked (S : List ℕ) (mem mem' : Cells) : Prop where
  cells : ∀ a, a % 32 ≠ 16 → a % 32 ≠ 24 → mem' a = mem a
  others : ∀ y, y % 4096 = 0 → y ∉ S → mem' (Slab.next y) = mem (Slab.next y) ∧ mem' (Slab.prev y) = mem (Slab.prev y)

lemma Relinked.trans {S S' : List ℕ} {mem mem' mem'' : Cells} (h : Relinked S mem mem') (h' : Relinked S' mem' mem'') :
    Relinked (S ++ S') mem mem'' := by
  refine ⟨fun a h1 h2 => (h'.cells a h1 h2).trans (h.cells a h1 h2), fun y hy hyS => ?_⟩
  rw [List.mem_append, not_or] at hyS
  obtain ⟨h1, h2⟩ := h.others y hy hyS.1
  obtain ⟨h3, h4⟩ := h'.others y hy hyS.2
  exact ⟨h3.trans h1, h4.trans h2⟩

namespace Listed

variable {mem mem' : Cells} {head x : ℕ} {l : List ℕ}

variable (h : Listed mem head l)

include h

lemma head_eq_zero_iff : head = 0 ↔ l = [] := h.list.chain.eq_nil_iff

lemma congr (hm : ∀ y ∈ l, mem' (next y) = mem (next y) ∧ mem' (prev y) = mem (prev y)) : Listed mem' head l :=
  ⟨h.list.congr (fun y hy => (hm y hy).1) fun y hy => (hm y hy).2, h.nodup, h.aligned⟩

/-- Changes elsewhere than of list pointers. -/
lemma congr_cells (hm : ∀ a, a % 32 = 16 ∨ a % 32 = 24 → mem' a = mem a) : Listed mem' head l :=
  h.congr fun y hy => by
    obtain ⟨-, -, h16, h24, -⟩ := field_mod (h.aligned y hy)
    exact ⟨hm _ (.inl h16), hm _ (.inr h24)⟩

/-- Operations on other lists. -/
lemma congr_relinked {S : List ℕ} (hr : Relinked S mem mem') (hd : ∀ y ∈ l, y ∉ S) : Listed mem' head l :=
  h.congr fun y hy => hr.others y (h.aligned y hy) (hd y hy)

/-- The neighbours of a slab on a list. -/
lemma neighbours (hx : x ∈ l) : (mem (next x) = 0 ∨ mem (next x) ∈ l) ∧ (mem (prev x) = 0 ∨ mem (prev x) ∈ l) := by
  obtain ⟨l1, l2, rfl⟩ := List.append_of_mem hx
  constructor
  · have hc := h.list.chain.next_eq
    cases l2 with
    | nil => exact .inl hc
    | cons =>
      right
      rw [hc.1]
      simp
  · have hp := h.list.back.prev_mem
    rw [List.mem_cons] at hp
    exact hp.imp_right fun hp => List.mem_append_left _ hp

lemma unlinkSlab_ok (hx : x ∈ l) :
    Listed (unlinkSlab head mem x).2 (unlinkSlab head mem x).1 (l.erase x) ∧ Relinked l mem (unlinkSlab head mem x).2 := by
  obtain ⟨hnext, hprev⟩ := h.neighbours hx
  have hnext' : mem (next x) % 4096 = 0 := hnext.elim (fun h => by rw [h]) (h.aligned _)
  have hprev' : mem (prev x) % 4096 = 0 := hprev.elim (fun h => by rw [h]) (h.aligned _)
  have hx4 := h.aligned x hx
  have hlist := h.list.unlink (fun y => (unlinkSlab head mem x).2 (next y))
    (fun y => (unlinkSlab head mem x).2 (prev y)) h.nodup hx
  generalize hp : mem (prev x) = p at *
  generalize hn : mem (next x) = n at *
  have hcells : ∀ a, (unlinkSlab head mem x).2 a = if a = prev x then 0 else if a = next x then 0
      else if n ≠ 0 ∧ a = prev n then p else if p ≠ 0 ∧ a = next p then n else mem a := by
    intro a
    simp only [unlinkSlab, hp, hn, Cells.set]
    by_cases hp0 : p = 0 <;> by_cases hn0 : n = 0 <;> simp [hp0, hn0, Function.update_apply]
  have hmem : ∀ y ∈ l, y ≠ 0 := h.list.chain.ne_nil
  refine ⟨⟨?_, h.nodup.erase x, fun y hy => h.aligned y (List.mem_of_mem_erase hy)⟩, fun a h1 h2 => ?_, fun y hy4 hyl => ?_⟩
  · have hhead : (unlinkSlab head mem x).1 = if p = 0 then n else head := by
      simp only [unlinkSlab, hp, hn, ne_eq, ite_not]
    rw [hhead]
    refine hlist (fun y hy hyx => ?_) fun y hy hyx => ?_
    · have hy4 := h.aligned y hy
      rw [hcells, if_neg (next_ne_prev hy4 hx4), if_neg (mt next_inj.mp hyx), if_neg fun h => next_ne_prev hy4 hnext' h.2]
      by_cases hyp : y = p
      · rw [if_pos ⟨hyp ▸ hmem y hy, by rw [hyp]⟩, if_pos hyp]
      · rw [if_neg fun h => hyp (next_inj.mp h.2), if_neg hyp]
    · have hy4 := h.aligned y hy
      rw [hcells, if_neg (mt prev_inj.mp hyx), if_neg (next_ne_prev hx4 hy4).symm]
      by_cases hyn : y = n
      · rw [if_pos ⟨hyn ▸ hmem y hy, by rw [hyn]⟩, if_pos hyn]
      · rw [if_neg fun h => hyn (prev_inj.mp h.2), if_neg fun h => next_ne_prev hprev' hy4 h.2.symm, if_neg hyn]
  · obtain ⟨-, -, hx16, hx24, -⟩ := field_mod hx4
    obtain ⟨-, -, -, hn24, -⟩ := field_mod hnext'
    obtain ⟨-, -, hp16, -⟩ := field_mod hprev'
    rw [hcells, if_neg (by omega), if_neg (by omega), if_neg (by omega), if_neg (by omega)]
  · have hyx : y ≠ x := fun h => hyl (h ▸ hx)
    have hyn : ¬ (n ≠ 0 ∧ prev y = prev n) := fun h => hyl (prev_inj.mp h.2 ▸ hnext.resolve_left h.1)
    have hyp : ¬ (p ≠ 0 ∧ next y = next p) := fun h => hyl (next_inj.mp h.2 ▸ hprev.resolve_left h.1)
    constructor
    · rw [hcells, if_neg (next_ne_prev hy4 hx4), if_neg (mt next_inj.mp hyx), if_neg fun h => next_ne_prev hy4 hnext' h.2,
        if_neg hyp]
    · rw [hcells, if_neg (mt prev_inj.mp hyx), if_neg (next_ne_prev hx4 hy4).symm, if_neg hyn,
        if_neg fun h => next_ne_prev hprev' hy4 h.2.symm]

lemma pushSlab_ok (hx : x % 4096 = 0) (hx0 : x ≠ 0) (hxl : x ∉ l) :
    Listed (pushSlab head mem x) x (x :: l) ∧ Relinked (x :: l) mem (pushSlab head mem x) := by
  have hhead : head = 0 ∨ head ∈ l := by
    cases l with
    | nil => exact .inl h.list.chain
    | cons =>
      obtain ⟨rfl, -⟩ := h.list.chain
      exact .inr List.mem_cons_self
  have hhead' : head % 4096 = 0 := hhead.elim (fun h => by rw [h]) (h.aligned _)
  have hcells : ∀ a, pushSlab head mem x a = if head ≠ 0 ∧ a = prev head then x else if a = prev x then 0
      else if a = next x then head else mem a := by
    intro a
    simp only [pushSlab, Cells.set]
    by_cases h0 : head = 0 <;> simp [h0, Function.update_apply]
  refine ⟨⟨?_, List.nodup_cons.mpr ⟨hxl, h.nodup⟩, fun y hy => ?_⟩, fun a h1 h2 => ?_, fun y hy4 hyl => ?_⟩
  · have hxh : ¬ (head ≠ 0 ∧ prev x = prev head) :=
      fun hc => hxl (prev_inj.mp hc.2 ▸ hhead.resolve_left hc.1)
    refine h.list.push hx0 ?_ ?_ (fun y hy => ?_) (fun y hy hyh => ?_) (fun h0 => ?_) h.nodup
    · rw [hcells, if_neg fun h => next_ne_prev hx hhead' h.2, if_neg (next_ne_prev hx hx), if_pos rfl]
    · rw [hcells, if_neg hxh, if_pos rfl]
    · have hyx : y ≠ x := fun hc => hxl (hc ▸ hy)
      have hy4 := h.aligned y hy
      rw [hcells, if_neg fun h => next_ne_prev hy4 hhead' h.2, if_neg (next_ne_prev hy4 hx), if_neg (mt next_inj.mp hyx)]
    · have hyx : y ≠ x := fun hc => hxl (hc ▸ hy)
      rw [hcells, if_neg fun h => hyh (prev_inj.mp h.2), if_neg (mt prev_inj.mp hyx),
        if_neg (next_ne_prev hx (h.aligned y hy)).symm]
    · rw [hcells, if_pos ⟨h0, rfl⟩]
  · rcases List.mem_cons.mp hy with rfl | hy
    · exact hx
    · exact h.aligned y hy
  · obtain ⟨-, -, hx16, hx24, -⟩ := field_mod hx
    obtain ⟨-, -, -, hh24, -⟩ := field_mod hhead'
    rw [hcells, if_neg (by omega), if_neg (by omega), if_neg (by omega)]
  · rw [List.mem_cons, not_or] at hyl
    have hyh : ¬ (head ≠ 0 ∧ prev y = prev head) :=
      fun hc => hyl.2 (prev_inj.mp hc.2 ▸ hhead.resolve_left hc.1)
    constructor
    · rw [hcells, if_neg fun h => next_ne_prev hy4 hhead' h.2, if_neg (next_ne_prev hy4 hx),
        if_neg (mt next_inj.mp hyl.1)]
    · rw [hcells, if_neg hyh, if_neg (mt prev_inj.mp hyl.1), if_neg (next_ne_prev hx hy4).symm]

/-- A slab goes from one list to another. -/
lemma move_ok {head' : ℕ} {l' : List ℕ} (h' : Listed mem head' l') (hx : x ∈ l)
    (hd : ∀ y ∈ l, y ∉ l') : Listed (pushSlab head' (unlinkSlab head mem x).2 x) (unlinkSlab head mem x).1 (l.erase x) ∧
    Listed (pushSlab head' (unlinkSlab head mem x).2 x) x (x :: l') ∧
    Relinked (l ++ x :: l') mem (pushSlab head' (unlinkSlab head mem x).2 x) := by
  obtain ⟨h1, hr1⟩ := h.unlinkSlab_ok hx
  have h2 := h'.congr_relinked hr1 fun y hy hyl => hd y hyl hy
  obtain ⟨h3, hr3⟩ := h2.pushSlab_ok (h.aligned x hx) (h.list.chain.ne_nil x hx) (hd x hx)
  refine ⟨h1.congr_relinked hr3 fun y hy => ?_, h3, hr1.trans hr3⟩
  rw [List.mem_cons, not_or]
  exact ⟨(h.nodup.mem_erase_iff.mp hy).1, hd y (List.mem_of_mem_erase hy)⟩

/-- The search of a list. -/
lemma searchList_eq (hlt : ∀ y ∈ l, higherHalf ≤ y ∧ y < higherHalf + 2 ^ 47) (p : ℕ → Bool) :
    searchList mem p head = (l.find? p).getD 0 := by
  refine walk_eq_find h.list.chain ?_
  -- the slabs are different pages of the direct map
  have hnd : (l.map fun y => (y - higherHalf) / 4096).Nodup := by
    refine h.nodup.map_on fun y hy w hw he => ?_
    have h1 := h.aligned y hy
    have h2 := h.aligned w hw
    have h3 := hlt y hy
    have h4 := hlt w hw
    simp only [higherHalf] at *
    omega
  have hsub : ∀ k ∈ l.map fun y => (y - higherHalf) / 4096, k ∈ Finset.range maxSlabs := by
    intro k hk
    obtain ⟨y, hy, rfl⟩ := List.mem_map.mp hk
    have h3 := hlt y hy
    rw [Finset.mem_range]
    simp only [higherHalf, maxSlabs] at *
    omega
  have hcard := Finset.card_le_card (s := (l.map fun y => (y - higherHalf) / 4096).toFinset) (t := Finset.range maxSlabs)
    fun k hk => hsub k (List.mem_toFinset.mp hk)
  rwa [List.toFinset_card_of_nodup hnd, List.length_map, Finset.card_range] at hcard

end Listed

end LodaxOS.Heap
