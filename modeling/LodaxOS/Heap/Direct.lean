/-
# Whole pages

Allocations that are no objects of a cache: `kmalloc_aligned` takes a block
from the physical allocator and maps the pages that the size needs, and `kfree`
unmaps these and gives the block back. A block that is freed with a size of
some cache is looked for among the slabs of that cache, in which it is not, and
stays as it is (`cacheFree_block`).
-/
import LodaxOS.Heap.Safety

namespace LodaxOS.Heap

open Phys (pageSize rangePages blockSize)
open Virt (higherHalf)
open Sections Prog Multiset

variable {ε : Type} {E : Env ε} {Dead : ε → Prop} {Owns : ε → Multiset (ℕ × Bool) → Prop}

/-! ### Orders -/

lemma le_orderLoop (pages : ℕ) : ∀ fuel o : ℕ, pages ≤ 2 ^ (o + fuel) → pages ≤ 2 ^ orderLoop pages fuel o
  | 0, o, h => h
  | fuel + 1, o, h => by
    unfold orderLoop
    split
    · exact le_orderLoop pages fuel (o + 1) (by rwa [add_right_comm])
    · rename_i hge
      rw [Nat.one_shiftLeft] at hge
      exact Nat.le_of_not_lt hge

variable {size p i : ℕ}

/-- The block holds the pages. -/
lemma pagesOf_le (h : size ≤ 2 ^ 63) : pagesOf size ≤ 2 ^ orderOf size := by
  refine le_orderLoop _ _ _ ?_
  simp only [pagesOf, pageSize]
  omega

/-! ### Blocks -/

/-- The pages at `p` are a block that fits the size. -/
def BlockAt (size p : ℕ) : Prop :=
  orderOf size ≤ 10 ∧ ∃ phys, p = higherHalf + phys ∧ blockSize (orderOf size) ∣ phys

/-- The holder of a block has the pages that the size needs mapped, and the
rest of the block not. -/
def blockHolding (size p : ℕ) : Holding :=
  (marked true (p - higherHalf) (pagesOf size) +
    marked false (p - higherHalf + pagesOf size * pageSize) (2 ^ orderOf size - pagesOf size), 0, 0)

lemma marked_add (t : Bool) (a m n : ℕ) : marked t a (m + n) = marked t a m + marked t (a + m * pageSize) n := by
  rw [marked, Phys.rangePages_add, map_add]
  rfl

/-- A block without a mapping. -/
lemma marked_block (hs : size ≤ 2 ^ 63) (a : ℕ) : marked false a (2 ^ orderOf size) =
    marked false a (pagesOf size) + marked false (a + pagesOf size * pageSize) (2 ^ orderOf size - pagesOf size) := by
  rw [← marked_add, Nat.add_sub_cancel' (pagesOf_le hs)]

lemma blockHolding_pages (hs : size ≤ 2 ^ 63) (p : ℕ) :
    (blockHolding size p).1.map Prod.fst = rangePages (p - higherHalf) (2 ^ orderOf size) := by
  rw [blockHolding, map_add, marked_fst, marked_fst, ← Phys.rangePages_add, Nat.add_sub_cancel' (pagesOf_le hs)]

/-- The first page of a block. -/
lemma page_mem_blockHolding (hs : size ≤ 2 ^ 63) (p : ℕ) :
    (p - higherHalf) / pageSize ∈ (blockHolding size p).1.map Prod.fst := by
  rw [blockHolding_pages hs, Phys.mem_rangePages]
  exact ⟨le_rfl, Nat.lt_add_of_pos_right (Nat.two_pow_pos _)⟩

/-! ### The environment's part -/

section

variable (hL : Lawful E Dead Owns)

include hL

lemma callAllocOrder_safe (k : ℕ) : Safe (Guarded Dead Owns) (callAllocOrder E k) 0 fun r h =>
    r.elim (h = 0) fun a => blockSize k ∣ a ∧ h = (marked false a (2 ^ k), 0, 0) := by
  refine Safe.atomically fun s F hI => ?_
  rw [zero_add] at hI
  rcases hI with hd | ⟨D, hD⟩
  · obtain ⟨hr, hd'⟩ := hL.deadAlloc (k := k) hd
    exact ⟨0, .inl hd', by rw [hr]; rfl⟩
  · cases hr : (E.allocOrder k s.env).1 with
    | none => exact ⟨0, by rw [zero_add]; exact .inr ⟨D, hD.setEnv (hL.allocNone hD.owned hr)⟩, rfl⟩
    | some a =>
      obtain ⟨hblock, ho⟩ := hL.alloc hD.owned hr
      refine ⟨(marked false a (2 ^ k), 0, 0), .inr ⟨D, ?_⟩, hblock, rfl⟩
      rw [holding_add, zero_add, zero_add]
      refine hD.setEnv ?_
      rw [add_left_comm]
      exact ho

lemma directAlloc_safe (hs : size ≤ 2 ^ 63) : Safe (Guarded Dead Owns) (directAlloc E size) 0 fun p h =>
      (p = 0 ∧ h = 0) ∨ (BlockAt size p ∧ h = blockHolding size p) := by
  unfold directAlloc
  split
  · exact Safe.pure (.inl ⟨rfl, rfl⟩)
  · rename_i horder
    refine (callAllocOrder_safe hL (orderOf size)).bind fun r h hr => ?_
    cases r with
    | none => exact Safe.pure (.inl ⟨rfl, hr⟩)
    | some a =>
      obtain ⟨hblock, rfl⟩ := hr
      have hp : pageSize ∣ a := Phys.pageSize_dvd_of_block hblock
      refine Safe.bind (Q := fun _ h => h = blockHolding size (higherHalf + a)) ?_ fun _ h hh => ?_
      · rw [blockHolding, Nat.add_sub_cancel_left, marked_block hs]
        refine onEnv_safe (fun e h => hL.deadMap h) fun e M ho => ?_
        rw [add_assoc] at ho ⊢
        exact hL.map hp ho
      · exact Safe.pure (.inr ⟨⟨Nat.le_of_not_lt horder, a, rfl, hblock⟩, hh⟩)

lemma directFree_safe (hs : size ≤ 2 ^ 63) (hb : BlockAt size p) :
    Safe (Guarded Dead Owns) (directFree E p size) (blockHolding size p) fun _ h => h = 0 := by
  obtain ⟨horder, a, rfl, hblock⟩ := hb
  have hp : pageSize ∣ a := Phys.pageSize_dvd_of_block hblock
  have hbase : higherHalf + a = higherHalf + a / pageSize * pageSize := by rw [Nat.div_mul_cancel hp]
  have hsplit : blockHolding size (higherHalf + a) = (marked true a (pagesOf size), 0, 0) +
      (marked false (a + pagesOf size * pageSize) (2 ^ orderOf size - pagesOf size), 0, 0) := by
    rw [blockHolding, Nat.add_sub_cancel_left, holding_add, zero_add, zero_add]
  unfold directFree
  rw [if_neg (not_lt.mpr horder), hsplit, marked_eq true]
  refine ((unmapPages_safe hL hbase _).frame _).bind ?_
  rintro - _ ⟨_, rfl, rfl⟩
  rw [← marked_eq, holding_add, zero_add, zero_add, ← marked_block hs, Nat.add_sub_cancel_left, Nat.one_shiftLeft]
  refine onEnv_safe (R := 0) (fun e h => hL.deadFree h) fun e M ho => ?_
  rw [zero_add]
  exact hL.free hp ho

end

/-! ### Blocks beside the slabs -/

namespace Holds

section

variable (hL : Lawful E Dead Owns) {s : State ε} {D : Multiset Desc} {M : Holding}

include hL

/-- An address in a page that a call or a caller holds lies in no slab. -/
lemma not_region (h : Holds Owns s D M) {d : Desc} (hd : d ∈ D + M.2.1) {a : ℕ}
    (ha : (a - higherHalf) / pageSize ∈ M.1.map Prod.fst) : ¬ Region d.cache d.base a := by
  intro hr
  have hnd := hL.nodup h.owned
  rw [← add_bind, map_add, nodup_add] at hnd
  refine disjoint_left.mp hnd.2.2 ?_ ha
  obtain ⟨x, hx, he⟩ := mem_map.mp (mem_pages_of_region (h.slabs d hd).aligned hr)
  exact mem_map.mpr ⟨x, mem_bind.mpr ⟨d, hd, hx⟩, he⟩

/-- An address that lies in no slab of the cache is not found. -/
lemma findSlabPtr_none (h : Holds Owns s D M) (hi : i < 9) {o : ℕ}
    (ho : ∀ d ∈ D, ¬ Region d.cache d.base o) : findSlabPtr (s.caches i) s.mem o = 0 := by
  have hsearch : ∀ g, searchList s.mem (contains s.mem o) ((s.caches i).head g) = 0 := by
    intro g
    obtain ⟨l, hl, he⟩ := h.lists i hi g
    have hin : ∀ y ∈ l, ∃ d ∈ D, d.base = y := fun y hy => by
      obtain ⟨d, hd, -, -, hb⟩ := mem_slabsOf.mp (he ▸ mem_coe.mpr hy : y ∈ slabsOf D i g)
      exact ⟨d, hd, hb⟩
    rw [hl.searchList_eq fun y hy => ?_, List.find?_eq_none.mpr fun y hy hc => ?_]
    · rfl
    · obtain ⟨d, hd, rfl⟩ := hin y hy
      exact ho d hd ((contains_iff (h.slabs d (mem_add.mpr (.inl hd)))).mp hc)
    · obtain ⟨d, hd, rfl⟩ := hin y hy
      exact h.base_bounds hL (mem_add.mpr (.inl hd))
  have hp := hsearch false
  have hf := hsearch true
  simp only [Cache.head, Bool.false_eq_true, if_false, if_true] at hp hf
  unfold findSlabPtr
  rw [hp, hf]
  rfl

end

end Holds

/-- Nothing happens to a block that is looked for among slabs. -/
lemma freeSection_block (hL : Lawful E Dead Owns) {s : State ε} {D : Multiset Desc} {F : Holding}
    (hi : i < 9) (hs : size ≤ 2 ^ 63) (h : Holds Owns s D (blockHolding size p + F)) :
    freeSection E i p s = (none, s) := by
  have hfind : findSlabPtr (s.caches i) s.mem p = 0 := by
    refine h.findSlabPtr_none hL hi fun d hd => h.not_region hL (mem_add.mpr (.inl hd)) ?_
    rw [Prod.fst_add, map_add, mem_add]
    exact .inl (page_mem_blockHolding hs p)
  unfold freeSection
  simp only [hfind, if_true]

lemma cacheFree_block (hL : Lawful E Dead Owns) (hi : i < 9) (hs : size ≤ 2 ^ 63) :
    Safe (Guarded Dead Owns) (cacheFree E i p) (blockHolding size p) fun _ h => h = blockHolding size p := by
  unfold cacheFree
  refine alive_safe hL ((dead_stable hL).cacheFree i p) fun s F D hD _ => .inr ?_
  rw [freeSection_block hL hi hs hD]
  exact ⟨_, .inr ⟨D, hD⟩, Safe.pure rfl⟩

/-! ### Objects and blocks -/

lemma cacheIndex_lt (h : cacheIndex size = some i) : i < 9 := by
  unfold cacheIndex at h
  split_ifs at h <;> cases h <;> decide

namespace Layout

/-- The cache that serves a layout, if it does not get whole pages. -/
def cache (l : Layout) : Option ℕ := if l.align > 16 then none else cacheIndex l.size

/-- What the caller has who got `p`. -/
def holding (l : Layout) (p : ℕ) : Holding := l.cache.elim (blockHolding l.size p) fun i => objHolding i p

/-- An address that is not null, and that of a block without a cache. -/
def At (l : Layout) (p : ℕ) : Prop := p ≠ 0 ∧ (l.cache = none → BlockAt l.size p)

/-- Whole pages that are freed like an object. -/
def mismatched (l : Layout) : Bool := l.cache.isNone && (cacheIndex l.size).isSome

end Layout

/-- Whatever others do meanwhile, `kmalloc_aligned` returns null or memory that
is the caller's alone, and `kfree` with the same layout gives all of it back,
except for a mismatched one: then the block stays out for ever. -/
theorem kmalloc_kfree (hL : Lawful E Dead Owns) (l : Layout) :
    Safe (Guarded Dead Owns) (kmallocAligned E l.size l.align) 0
      (fun p h => (p = 0 ∧ h = 0) ∨ (l.At p ∧ h = l.holding p)) ∧
    ∀ p, l.At p → Safe (Guarded Dead Owns) (kfree E p l.size) (l.holding p)
      fun _ h => h = if l.mismatched then l.holding p else 0 := by
  have hs : l.size ≤ 2 ^ 63 := (Nat.le_add_right ..).trans l.sizeLe
  have halloc : kmallocAligned E l.size l.align = l.cache.elim (directAlloc E l.size) (cacheAlloc E) := by
    unfold kmallocAligned Layout.cache
    split
    · rfl
    · cases cacheIndex l.size <;> rfl
  unfold kfree
  rw [halloc]
  cases hc : l.cache with
  | none =>
    simp only [Layout.At, Layout.holding, Layout.mismatched, hc, Option.elim_none]
    refine ⟨(directAlloc_safe hL hs).mono fun p h hp => hp.imp_right fun hb => ⟨⟨?_, fun _ => hb.1⟩, hb.2⟩, fun p hp => ?_⟩
    · obtain ⟨⟨-, a, rfl, -⟩, -⟩ := hb
      simp [higherHalf]
    cases hi : cacheIndex l.size with
    | none => exact directFree_safe hL hs (hp.2 trivial)
    | some i => exact cacheFree_block hL (cacheIndex_lt hi) hs
  | some i =>
    have hi : cacheIndex l.size = some i := by
      rw [Layout.cache] at hc
      split at hc
      · cases hc
      · exact hc
    simp only [Layout.At, Layout.holding, Layout.mismatched, hc, hi, Option.elim_some]
    refine ⟨(cacheAlloc_safe hL (cacheIndex_lt hi)).mono fun p h hh => ?_, fun p hp => ?_⟩
    · by_cases hp : p = 0
      · exact .inl ⟨hp, by rw [hh, objHolding, if_pos hp]⟩
      · exact .inr ⟨⟨hp, by simp⟩, hh⟩
    · rw [objHolding_of_ne hp.1]
      exact cacheFree_safe hL i p

/-- A block of 100 bytes that is aligned to 64 is lost. -/
theorem kmalloc_kfree_lost : Safe (Guarded (fun _ => False) BumpOwns) (kfree bump (higherHalf + 4096) 100)
    (blockHolding 100 (higherHalf + 4096)) fun _ h => h = blockHolding 100 (higherHalf + 4096) :=
  (kmalloc_kfree bump_lawful ⟨100, 64, ⟨6, rfl⟩, by decide⟩).2 _
    ⟨by decide, fun _ => ⟨by decide, 4096, rfl, by decide⟩⟩

end LodaxOS.Heap
