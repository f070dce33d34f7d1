/-
# The invariant of the heap

Which slabs the heap has is a multiset of descriptions (`Desc`). `Holds` ties
it to the state: the memory holds each slab, the two lists of a cache are its
slabs with and without a free object, the objects that are out are those that
no free list holds, and the pages of all slabs are the heap's. Beside the
slabs that are listed there are those that a call has not put on a list yet,
and the pages a call holds in the middle; the last argument of `Holds` counts
these and the objects that are out.

What the heap needs of the allocator and the page tables is `Lawful`: pages
are handed out to one holder at a time.
-/
import LodaxOS.Heap.Slabs
import LodaxOS.Phys.Blocks

namespace LodaxOS.Heap

open Phys (pageSize rangePages)
open Virt (higherHalf)
open Linked Multiset

variable {ε : Type} {E : Env ε}

/-! ### The environment -/

/-- The pages of a range, with a mark that says whether the heap mapped them. -/
def marked (mapped : Bool) (a n : ℕ) : Multiset (ℕ × Bool) := (rangePages a n).map fun p => (p, mapped)

/-- `Owns e M` says that the heap holds the pages `M` of the environment `e`.
Each page has one holder; pages are only given back by their holder. A call
may panic instead, and nothing happens after that. -/
structure Lawful (E : Env ε) (Dead : ε → Prop) (Owns : ε → Multiset (ℕ × Bool) → Prop) : Prop where
  nodup : ∀ {e M}, Owns e M → (M.map Prod.fst).Nodup
  lt : ∀ {e M}, Owns e M → ∀ x ∈ M, x.1 < 2 ^ 35
  alloc : ∀ {e M k a}, Owns e M → (E.allocOrder k e).1 = some a →
    Phys.blockSize k ∣ a ∧ Owns (E.allocOrder k e).2 (marked false a (2 ^ k) + M)
  allocNone : ∀ {e M k}, Owns e M → (E.allocOrder k e).1 = none → Owns (E.allocOrder k e).2 M
  map : ∀ {e M a n}, pageSize ∣ a → Owns e (marked false a n + M) →
    Dead (E.mapContiguous a n e) ∨ Owns (E.mapContiguous a n e) (marked true a n + M)
  unmap : ∀ {e M p}, Owns e ((p, true) ::ₘ M) →
    Dead (E.unmap (higherHalf + p * pageSize) e) ∨ Owns (E.unmap (higherHalf + p * pageSize) e) ((p, false) ::ₘ M)
  free : ∀ {e M a n}, pageSize ∣ a → Owns e (marked false a n + M) →
    Dead (E.freePages a n e) ∨ Owns (E.freePages a n e) M
  deadAlloc : ∀ {e k}, Dead e → (E.allocOrder k e).1 = none ∧ Dead (E.allocOrder k e).2
  deadMap : ∀ {e a n}, Dead e → Dead (E.mapContiguous a n e)
  deadUnmap : ∀ {e v}, Dead e → Dead (E.unmap v e)
  deadFree : ∀ {e a n}, Dead e → Dead (E.freePages a n e)

/-! ### Descriptions -/

/-- A slab: its cache, its block and its free objects, first one first. -/
structure Desc where
  cache : ℕ
  phys : ℕ
  chain : List ℕ

variable {d d' : Desc} {i : ℕ} {c : Cache} {mem : Cells} {D₀ : Multiset Desc} {O : Multiset (ℕ × ℕ)}

namespace Desc

/-- Where the slab is. -/
def base (d : Desc) : ℕ := higherHalf + d.phys

def pages (d : Desc) : Multiset (ℕ × Bool) := marked true d.phys (2 ^ slabOrder d.cache)

/-- The objects that are out. -/
def live (d : Desc) : Multiset (ℕ × ℕ) :=
  (((slots d.cache d.base).filter (· ∉ d.chain)).map fun o => (d.cache, o) : List (ℕ × ℕ))

lemma mem_live {x : ℕ × ℕ} : x ∈ d.live ↔ x.1 = d.cache ∧ x.2 ∈ slots d.cache d.base ∧ x.2 ∉ d.chain := by
  obtain ⟨i, o⟩ := x
  simp only [live, mem_coe, List.mem_map, List.mem_filter, decide_eq_true_eq, Prod.mk.injEq]
  constructor
  · rintro ⟨o', h, rfl, rfl⟩
    exact ⟨rfl, h⟩
  · rintro ⟨rfl, h⟩
    exact ⟨o, h, rfl, rfl⟩

lemma live_nodup (hi : d.cache < 9) : d.live.Nodup := by
  rw [live, coe_nodup]
  refine ((slots_nodup hi).filter _).map fun o o' h => ?_
  exact (Prod.mk.inj h).2

/-- One object more is out. -/
lemma live_cons {p o : ℕ} {l : List ℕ} (hi : i < 9) (ho : o ∈ slots i (higherHalf + p)) (hol : o ∉ l) :
    live ⟨i, p, l⟩ = (i, o) ::ₘ live ⟨i, p, o :: l⟩ := by
  refine (Multiset.Nodup.ext (live_nodup hi) (nodup_cons.mpr ⟨?_, live_nodup hi⟩)).mpr fun x => ?_
  · rw [mem_live]
    simp
  · rw [mem_cons, mem_live, mem_live]
    obtain ⟨j, o'⟩ := x
    simp only [Prod.mk.injEq, List.mem_cons, not_or]
    constructor
    · rintro ⟨rfl, h1, h2⟩
      by_cases he : o' = o
      · exact .inl ⟨rfl, he⟩
      · exact .inr ⟨rfl, h1, he, h2⟩
    · rintro (⟨rfl, rfl⟩ | ⟨rfl, h1, -, h2⟩)
      · exact ⟨rfl, ho, hol⟩
      · exact ⟨rfl, h1, h2⟩

/-- No object of an empty slab is out. -/
lemma live_empty (hnd : d.chain.Nodup) (hs : ∀ o ∈ d.chain, o ∈ slots d.cache d.base)
    (hl : d.chain.length = totalObjs d.cache) : d.live = 0 := by
  have hperm : d.chain.Perm (slots d.cache d.base) :=
    (hnd.subperm hs).perm_of_length_le (by simp [slots, hl])
  refine eq_zero_of_forall_notMem fun x hx => ?_
  obtain ⟨-, h1, h2⟩ := mem_live.mp hx
  exact h2 (hperm.mem_iff.mpr h1)

end Desc

/-- A page of a slab. -/
lemma mem_pages_of_region (hb : d.base % 4096 = 0) {a : ℕ} (ha : Region d.cache d.base a) :
    (a - higherHalf) / pageSize ∈ d.pages.map Prod.fst := by
  rw [Desc.pages, marked, map_map]
  simp only [Function.comp_def, map_id', Phys.mem_rangePages]
  obtain ⟨h1, h2⟩ := ha
  have hs : slabBytes d.cache = 2 ^ slabOrder d.cache * pageSize := by rw [slabBytes, Nat.one_shiftLeft]
  rw [hs] at h2
  simp only [Desc.base, higherHalf, pageSize] at *
  generalize 2 ^ slabOrder d.cache = n at *
  omega

/-! ### The invariant -/

/-- What calls hold between sections: pages, slabs that are on no list yet, and
objects. -/
abbrev Holding := Multiset (ℕ × Bool) × Multiset Desc × Multiset (ℕ × ℕ)

/-- The slabs of a cache with, or without, a free object. -/
def slabsOf (D : Multiset Desc) (i : ℕ) (full : Bool) : Multiset ℕ :=
  (D.filter fun d => d.cache = i ∧ d.chain.isEmpty = full).map Desc.base

lemma mem_slabsOf {D : Multiset Desc} {b : ℕ} {full : Bool} :
    b ∈ slabsOf D i full ↔ ∃ d ∈ D, d.cache = i ∧ d.chain.isEmpty = full ∧ d.base = b := by
  simp [slabsOf, and_assoc]

lemma slabsOf_cons (d : Desc) (D : Multiset Desc) (i : ℕ) (full : Bool) : slabsOf (d ::ₘ D) i full =
    if d.cache = i ∧ d.chain.isEmpty = full then d.base ::ₘ slabsOf D i full else slabsOf D i full := by
  unfold slabsOf
  rw [filter_cons]
  split
  · simp
  · simp

/-- The list of the slabs with, or without, a free object. -/
def Cache.head (c : Cache) (full : Bool) : ℕ := if full then c.fullSlabs else c.partialSlabs

/-- The slabs `D` are the heap's, and `M` is held beside them. -/
structure Holds (Owns : ε → Multiset (ℕ × Bool) → Prop) (s : State ε) (D : Multiset Desc) (M : Holding) : Prop where
  params : ∀ i < 9, (s.caches i).objSize = objSize i ∧ (s.caches i).slabOrder = slabOrder i ∧ (s.caches i).freeSlabs = 0
  slabs : ∀ d ∈ D + M.2.1, SlabAt s.mem d.cache d.base d.chain
  used : ∀ d ∈ D, d.chain.length < totalObjs d.cache
  lists : ∀ i < 9, ∀ full, ∃ l : List ℕ, Listed s.mem ((s.caches i).head full) l ∧ (l : Multiset ℕ) = slabsOf D i full
  objs : M.2.2 = D.bind Desc.live
  owned : Owns s.env (D.bind Desc.pages + M.2.1.bind Desc.pages + M.1)

section

variable {Dead : ε → Prop} {Owns : ε → Multiset (ℕ × Bool) → Prop} (hL : Lawful E Dead Owns) {s : State ε} {D : Multiset Desc}
  {M : Holding}

namespace Holds

include hL

/-- Different slabs share no address. -/
lemma apart (h : Holds Owns s D M) {X : Multiset Desc} (hX : D + M.2.1 = d ::ₘ X) (hd' : d' ∈ X) {a : ℕ}
    (ha : Region d.cache d.base a) : ¬ Region d'.cache d'.base a := by
  intro ha'
  have hnd := hL.nodup h.owned
  have hmem : ∀ x ∈ D + M.2.1, SlabAt s.mem x.cache x.base x.chain := h.slabs
  rw [← add_bind, hX, cons_bind, add_assoc, map_add, nodup_add] at hnd
  rw [hX] at hmem
  refine disjoint_left.mp hnd.2.2
    (mem_pages_of_region (hmem d (mem_cons_self _ _)).aligned ha) ?_
  rw [map_add]
  refine mem_add.mpr (.inl ?_)
  obtain ⟨x, hx, hx'⟩ := mem_map.mp
    (mem_pages_of_region (hmem d' (mem_cons_of_mem hd')).aligned ha')
  exact mem_map.mpr ⟨x, mem_bind.mpr ⟨d', hd', hx⟩, hx'⟩

/-- A slab is told by its address. -/
lemma base_inj (h : Holds Owns s D M) (hd : d ∈ D + M.2.1) (hd' : d' ∈ D + M.2.1)
    (hb : d.base = d'.base) : d = d' := by
  obtain ⟨X, hX⟩ := exists_cons_of_mem hd
  rw [hX] at hd'
  rcases mem_cons.mp hd' with rfl | hd''
  · rfl
  · have hS := h.slabs d hd
    have hS' := h.slabs d' (hX ▸ hd')
    refine absurd (hS'.header_region le_rfl (by simp [slabSize])) (h.apart hL hX hd'' ?_)
    rw [← hb]
    exact hS.header_region le_rfl (by simp [slabSize])

/-- The address of a slab. -/
lemma base_bounds (h : Holds Owns s D M) (hd : d ∈ D + M.2.1) : higherHalf ≤ d.base ∧ d.base < higherHalf + 2 ^ 47 := by
  refine ⟨Nat.le_add_right _ _, Nat.add_lt_add_left ?_ _⟩
  obtain ⟨x, hx, he⟩ := mem_map.mp (mem_pages_of_region (h.slabs d hd).aligned
    ((h.slabs d hd).header_region le_rfl (by simp [slabSize])))
  have hlt := hL.lt h.owned x (by
    rw [← add_bind]
    exact mem_add.mpr (.inl (mem_bind.mpr ⟨d, hd, hx⟩)))
  rw [he] at hlt
  simp only [Desc.base, pageSize] at hlt
  omega

omit hL in
/-- A change of one cache. -/
lemma setCache (h : Holds Owns s D M) {D' : Multiset Desc} {M' : Holding}
    (hc : c.objSize = (s.caches i).objSize ∧ c.slabOrder = (s.caches i).slabOrder ∧ c.freeSlabs = (s.caches i).freeSlabs)
    (hslabs : ∀ d ∈ D' + M'.2.1, SlabAt mem d.cache d.base d.chain)
    (hused : ∀ d ∈ D', d.chain.length < totalObjs d.cache)
    (hlists : ∀ full, ∃ l : List ℕ, Listed mem (c.head full) l ∧ (l : Multiset ℕ) = slabsOf D' i full)
    (hothers : ∀ j ≠ i, ∀ full, slabsOf D' j full = slabsOf D j full)
    (hlinks : ∀ d ∈ D, d.cache ≠ i → mem (Slab.next d.base) = s.mem (Slab.next d.base) ∧
      mem (Slab.prev d.base) = s.mem (Slab.prev d.base))
    (hobjs : M'.2.2 = D'.bind Desc.live) (howned : Owns s.env (D'.bind Desc.pages + M'.2.1.bind Desc.pages + M'.1)) :
    Holds Owns (s.setCache i (c, mem)) D' M' := by
  refine ⟨fun j hj => ?_, hslabs, hused, fun j hj full => ?_, hobjs, howned⟩
  · by_cases hji : j = i
    · subst hji
      obtain ⟨h1, h2, h3⟩ := h.params j hj
      simp only [State.setCache, Function.update_self]
      exact ⟨hc.1.trans h1, hc.2.1.trans h2, hc.2.2.trans h3⟩
    · simp only [State.setCache, Function.update_of_ne hji]
      exact h.params j hj
  · by_cases hji : j = i
    · subst hji
      simp only [State.setCache, Function.update_self]
      exact hlists full
    · simp only [State.setCache, Function.update_of_ne hji]
      obtain ⟨l, hl, he⟩ := h.lists j hj full
      refine ⟨l, hl.congr fun y hy => ?_, he.trans (hothers j hji full).symm⟩
      have hy' : y ∈ slabsOf D j full := he ▸ mem_coe.mpr hy
      obtain ⟨d, hd, rfl, -, rfl⟩ := mem_slabsOf.mp hy'
      exact hlinks d hd hji

/-- A slab is on one list. -/
lemma lists_disjoint (h : Holds Owns s D M) {j y : ℕ} {full full' : Bool} (hy : y ∈ slabsOf D i full)
    (hy' : y ∈ slabsOf D j full') : i = j ∧ full = full' := by
  obtain ⟨d, hd, rfl, rfl, rfl⟩ := mem_slabsOf.mp hy
  obtain ⟨d', hd', rfl, rfl, hb⟩ := mem_slabsOf.mp hy'
  rw [h.base_inj hL (mem_add.mpr (.inl hd')) (mem_add.mpr (.inl hd)) hb]
  exact ⟨rfl, rfl⟩

/-- The other slabs do not see a change in one of them or of list pointers. -/
lemma slab_frame (h : Holds Owns s D M) {X : Multiset Desc} (hX : D + M.2.1 = d ::ₘ X)
    (hm : ∀ a, ¬ Region d.cache d.base a → a % 32 ≠ 16 → a % 32 ≠ 24 → mem a = s.mem a) :
    ∀ d' ∈ X, SlabAt mem d'.cache d'.base d'.chain := fun d' hd' =>
  (h.slabs d' (hX ▸ mem_cons_of_mem hd')).congr_cells fun a ha =>
    hm a fun hc => h.apart hL hX hd' hc ha

omit hL in
/-- The objects that are out, after those of one slab changed. -/
lemma objs_replace {O' : Multiset (ℕ × ℕ)} (h : O = (d ::ₘ D₀).bind Desc.live)
    (ho : O' + d.live = O + d'.live) : O' = (d' ::ₘ D₀).bind Desc.live := by
  rw [h, cons_bind] at ho
  rw [cons_bind]
  refine add_right_cancel (b := d.live) ?_
  rw [ho]
  abel

variable (h : Holds Owns s (d ::ₘ D₀) M)

include h

/-- A slab changed inside, by an operation on its cache. -/
lemma replace (hd : d'.cache = d.cache ∧ d'.phys = d.phys)
    (hc : c.objSize = (s.caches d.cache).objSize ∧ c.slabOrder = (s.caches d.cache).slabOrder ∧
      c.freeSlabs = (s.caches d.cache).freeSlabs)
    (hS : SlabAt mem d'.cache d'.base d'.chain) (hlen : d'.chain.length < totalObjs d'.cache)
    (hm : ∀ a, ¬ Region d.cache d.base a → a % 32 ≠ 16 → a % 32 ≠ 24 → mem a = s.mem a)
    (hlists : ∀ full, ∃ l : List ℕ, Listed mem (c.head full) l ∧ (l : Multiset ℕ) = slabsOf (d' ::ₘ D₀) d.cache full)
    (hlinks : ∀ d0 ∈ D₀, d0.cache ≠ d.cache → mem (Slab.next d0.base) = s.mem (Slab.next d0.base) ∧
      mem (Slab.prev d0.base) = s.mem (Slab.prev d0.base)) (ho : O + d.live = M.2.2 + d'.live) :
    Holds Owns (s.setCache d.cache (c, mem)) (d' ::ₘ D₀) (M.1, M.2.1, O) := by
  have hX : (d ::ₘ D₀) + M.2.1 = d ::ₘ (D₀ + M.2.1) := cons_add _ _ _
  refine h.setCache hc (fun x hx => ?_) (fun x hx => ?_) hlists (fun j hj full => ?_) (fun x hx hxc => ?_)
    (objs_replace h.objs ho) ?_
  · rw [cons_add] at hx
    rcases mem_cons.mp hx with rfl | hx
    · exact hS
    · exact h.slab_frame hL hX hm x hx
  · rcases mem_cons.mp hx with rfl | hx
    · exact hlen
    · exact h.used x (mem_cons_of_mem hx)
  · rw [slabsOf_cons, slabsOf_cons, if_neg fun hc => hj (hc.1.symm.trans hd.1), if_neg fun hc => hj hc.1.symm]
  · rcases mem_cons.mp hx with rfl | hx
    · exact absurd rfl hxc
    · exact hlinks x hx hxc
  · have hp : d'.pages = d.pages := by rw [Desc.pages, Desc.pages, hd.1, hd.2]
    have := h.owned
    rwa [cons_bind, ← hp, ← cons_bind] at this

/-- The slab stays on its list. -/
lemma replace_stay (hd : d'.cache = d.cache ∧ d'.phys = d.phys) (hf : d'.chain.isEmpty = d.chain.isEmpty)
    (hS : SlabAt mem d'.cache d'.base d'.chain) (hlen : d'.chain.length < totalObjs d'.cache)
    (hm : ∀ a, ¬ Region d.cache d.base a ∨ a % 32 = 16 ∨ a % 32 = 24 → mem a = s.mem a)
    (ho : O + d.live = M.2.2 + d'.live) :
    Holds Owns (s.setCache d.cache (s.caches d.cache, mem)) (d' ::ₘ D₀) (M.1, M.2.1, O) := by
  have hi : d.cache < 9 := hd.1 ▸ hS.cache
  refine h.replace hL hd ⟨rfl, rfl, rfl⟩ hS hlen (fun a ha _ _ => hm a (.inl ha)) (fun full => ?_) (fun x hx _ => ?_) ho
  · obtain ⟨l, hl, he⟩ := h.lists d.cache hi full
    refine ⟨l, hl.congr_cells fun a ha => hm a (.inr ha), ?_⟩
    have hb : d'.base = d.base := by rw [Desc.base, Desc.base, hd.2]
    rw [he, slabsOf_cons, slabsOf_cons, hd.1, hf, hb]
  · have hS' := h.slabs x (mem_add.mpr (.inl (mem_cons_of_mem hx)))
    obtain ⟨-, -, h16, h24, -⟩ := field_mod hS'.aligned
    exact ⟨hm _ (.inr (.inl h16)), hm _ (.inr (.inr h24))⟩

/-- The slab goes to the other list. -/
lemma replace_move (full : Bool) (hd : d'.cache = d.cache ∧ d'.phys = d.phys) (hf : d.chain.isEmpty = full)
    (hf' : d'.chain.isEmpty = !full) (hS : SlabAt mem d'.cache d'.base d'.chain)
    (hlen : d'.chain.length < totalObjs d'.cache)
    (hm : ∀ a, ¬ Region d.cache d.base a ∨ a % 32 = 16 ∨ a % 32 = 24 → mem a = s.mem a)
    (hc : c.objSize = (s.caches d.cache).objSize ∧ c.slabOrder = (s.caches d.cache).slabOrder ∧
      c.freeSlabs = (s.caches d.cache).freeSlabs)
    (hhead : c.head full = (unlinkSlab ((s.caches d.cache).head full) mem d.base).1) (hhead' : c.head (!full) = d.base)
    (ho : O + d.live = M.2.2 + d'.live) :
    Holds Owns (s.setCache d.cache (c, pushSlab ((s.caches d.cache).head !full)
      (unlinkSlab ((s.caches d.cache).head full) mem d.base).2 d.base)) (d' ::ₘ D₀) (M.1, M.2.1, O) := by
  have hi : d.cache < 9 := hd.1 ▸ hS.cache
  have hb : d'.base = d.base := by rw [Desc.base, Desc.base, hd.2]
  obtain ⟨l, hl, he⟩ := h.lists d.cache hi full
  obtain ⟨l', hl', he'⟩ := h.lists d.cache hi !full
  have hin : ∀ {y}, y ∈ l → y ∈ slabsOf (d ::ₘ D₀) d.cache full := fun hy => he ▸ mem_coe.mpr hy
  have hin' : ∀ {y}, y ∈ l' → y ∈ slabsOf (d ::ₘ D₀) d.cache !full := fun hy => he' ▸ mem_coe.mpr hy
  have hmem : d.base ∈ l := by
    rw [← mem_coe, he]
    exact mem_slabsOf.mpr ⟨d, mem_cons_self _ _, rfl, hf, rfl⟩
  have hdisj : ∀ y ∈ l, y ∉ l' := fun y hy hy' => by
    have := (h.lists_disjoint hL (hin hy) (hin' hy')).2
    cases full <;> simp at this
  obtain ⟨h₁, h₂, hr⟩ := (hl.congr_cells fun a ha => hm a (.inr ha)).move_ok
    (hl'.congr_cells fun a ha => hm a (.inr ha)) hmem hdisj
  refine h.replace hL hd hc (hS.congr_cells fun a _ => hr.cells a) hlen
    (fun a ha h1 h2 => (hr.cells a h1 h2).trans (hm a (.inl ha))) (fun g => ?_) (fun x hx hxc => ?_) ho
  · by_cases hg : g = full
    · subst hg
      refine ⟨l.erase d.base, hhead ▸ h₁, ?_⟩
      rw [slabsOf_cons, if_neg fun hc => by rw [hf'] at hc; simp at hc, ← coe_erase, he, slabsOf_cons,
        if_pos ⟨rfl, hf⟩, erase_cons_head]
    · obtain rfl : g = !full := by cases g <;> cases full <;> simp_all
      refine ⟨d.base :: l', hhead' ▸ h₂, ?_⟩
      rw [slabsOf_cons, if_pos ⟨hd.1, hf'⟩, hb, ← cons_coe, he', slabsOf_cons,
        if_neg fun hc => by rw [hf] at hc; simp at hc]
  · have hxD : x ∈ d ::ₘ D₀ := mem_cons_of_mem hx
    have hS' := h.slabs x (mem_add.mpr (.inl hxD))
    obtain ⟨-, -, h16, h24, -⟩ := field_mod hS'.aligned
    have hxb : ∀ g, x.base ∉ slabsOf (d ::ₘ D₀) d.cache g := fun g hc =>
      hxc (h.lists_disjoint hL (mem_slabsOf.mpr ⟨x, hxD, rfl, rfl, rfl⟩) hc).1
    obtain ⟨h1, h2⟩ := hr.others x.base hS'.aligned (by
      rw [List.mem_append, List.mem_cons, not_or, not_or]
      exact ⟨fun hc => hxb _ (hin hc), fun hc => hxb _ (hin (hc ▸ hmem)), fun hc => hxb _ (hin' hc)⟩)
    exact ⟨h1.trans (hm _ (.inr (.inl h16))), h2.trans (hm _ (.inr (.inr h24)))⟩

end Holds

end

end LodaxOS.Heap
