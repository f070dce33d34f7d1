/-
# Blocks and the pages they cover

The pages of a range as a multiset of page numbers (`rangePages`), the pages
on the free lists (`State.free`), and the invariant of the allocator: the
free pages and the pages taken out of it are all different, inside the zone
and not reserved, every listed block is aligned to its size, and the counter
counts the free pages (`Inv`). The invariant sees the pages taken out as one
multiset `M`, so that a section that moves pages between a free list and its
caller keeps it if it keeps the sum (`Inv.setList`).
-/
import LodaxOS.Phys.Model
import Mathlib.Data.Nat.ModEq

namespace LodaxOS.Phys

open Words Multiset

lemma pageSize_pos : 0 < pageSize := by decide

lemma blockSize_eq (k : ℕ) : blockSize k = 2 ^ k * pageSize := by
  rw [blockSize, Nat.shiftLeft_eq, one_mul]

lemma blockSize_pos (k : ℕ) : 0 < blockSize k := by
  rw [blockSize_eq]; exact mul_pos (Nat.two_pow_pos k) pageSize_pos

lemma blockSize_succ (k : ℕ) : blockSize (k + 1) = blockSize k + blockSize k := by
  rw [blockSize_eq, blockSize_eq, pow_succ]; ring

variable {k a n : ℕ} {s s' : State} {M : Multiset ℕ}

lemma blockSize_dvd {j : ℕ} (h : j ≤ k) : blockSize j ∣ blockSize k := by
  rw [blockSize_eq, blockSize_eq]
  exact Nat.mul_dvd_mul_right (Nat.pow_dvd_pow 2 h) _

lemma pageSize_dvd_blockSize (k : ℕ) : pageSize ∣ blockSize k := by
  rw [blockSize_eq]; exact Dvd.intro_left _ rfl

lemma pageSize_dvd_of_block (h : blockSize k ∣ a) : pageSize ∣ a :=
  dvd_trans (pageSize_dvd_blockSize k) h

lemma blockSize_div (k : ℕ) : blockSize k / pageSize = 2 ^ k := by
  rw [blockSize_eq, Nat.mul_div_cancel _ pageSize_pos]

/-- The page number after `n` more pages. -/
lemma add_pages_div (a n : ℕ) : (a + n * pageSize) / pageSize = a / pageSize + n :=
  Nat.add_mul_div_right _ _ pageSize_pos

lemma blockSize_dvd_iff (h : pageSize ∣ a) : blockSize k ∣ a ↔ 2 ^ k ∣ a / pageSize := by
  obtain ⟨q, rfl⟩ := h
  rw [blockSize_eq, Nat.mul_div_cancel_left _ pageSize_pos, mul_comm pageSize]
  exact Nat.mul_dvd_mul_iff_right pageSize_pos

/-! ### The pages of a range -/

/-- The `n` pages from address `a` on. -/
def rangePages (a n : ℕ) : Multiset ℕ := (List.range' (a / pageSize) n : List ℕ)

@[simp] lemma card_rangePages (a n : ℕ) : (rangePages a n).card = n := by simp [rangePages]

@[simp] lemma rangePages_zero (a : ℕ) : rangePages a 0 = 0 := rfl

lemma mem_rangePages {p : ℕ} : p ∈ rangePages a n ↔ a / pageSize ≤ p ∧ p < a / pageSize + n := by
  simp [rangePages, List.mem_range'_1]

lemma rangePages_add (a m n : ℕ) : rangePages a (m + n) = rangePages a m + rangePages (a + m * pageSize) n := by
  rw [rangePages, rangePages, rangePages, add_pages_div, coe_add]
  congr 1
  exact List.range'_append_1.symm

lemma rangePages_succ (a n : ℕ) : rangePages a (n + 1) = a / pageSize ::ₘ rangePages (a + pageSize) n := by
  have h := rangePages_add a 1 n
  rw [one_mul, add_comm 1 n] at h
  rw [h]
  rfl

/-- Two halves make a block of the next order. -/
lemma rangePages_double (a k : ℕ) :
    rangePages a (2 ^ (k + 1)) = rangePages a (2 ^ k) + rangePages (a + blockSize k) (2 ^ k) := by
  rw [pow_succ, mul_two, rangePages_add, blockSize_eq]

/-- The pages of the blocks on one list. -/
def listPages (l : List ℕ) (k : ℕ) : Multiset ℕ := (l.map fun a => rangePages a (2 ^ k)).sum

@[simp] lemma listPages_nil (k : ℕ) : listPages [] k = 0 := rfl

@[simp] lemma listPages_cons (a : ℕ) (l : List ℕ) (k : ℕ) :
    listPages (a :: l) k = rangePages a (2 ^ k) + listPages l k := by simp [listPages]

lemma card_listPages (l : List ℕ) (k : ℕ) : (listPages l k).card = 2 ^ k * l.length := by
  induction l with
  | nil => simp
  | cons a l ih => rw [listPages_cons, card_add, ih, card_rangePages, List.length_cons]; ring

lemma listPages_erase {l : List ℕ} (k : ℕ) (h : a ∈ l) :
    rangePages a (2 ^ k) + listPages (l.erase a) k = listPages l k := by
  rw [← listPages_cons]
  exact ((List.perm_cons_erase h).symm.map _).sum_eq

lemma listPages_filter (l : List ℕ) (k : ℕ) (q : ℕ → Bool) :
    listPages (l.filter q) k + listPages (l.filter fun a => !q a) k = listPages l k := by
  induction l with
  | nil => rfl
  | cons a l ih =>
    rw [listPages_cons, ← ih]
    cases hq : q a
    · rw [List.filter_cons_of_neg (by simp [hq]), List.filter_cons_of_pos (by simp [hq]), listPages_cons]
      abel
    · rw [List.filter_cons_of_pos hq, List.filter_cons_of_neg (by simp [hq]), listPages_cons]
      abel

/-! ### The free pages -/

/-- The pages of all listed blocks. -/
def State.free (s : State) : Multiset ℕ :=
  ∑ k ∈ Finset.range (maxOrder + 1), listPages (s.zone.freeLists k) k

/-- The free pages apart from those of order `k`. -/
def State.freeBut (s : State) (k : ℕ) : Multiset ℕ :=
  ∑ j ∈ Finset.range (maxOrder + 1) \ {k}, listPages (s.zone.freeLists j) j

lemma free_eq (s : State) (hk : k ≤ maxOrder) : s.free = listPages (s.zone.freeLists k) k + s.freeBut k := by
  have hsub : {k} ⊆ Finset.range (maxOrder + 1) := by simpa using Nat.lt_succ_of_le hk
  rw [State.free, State.freeBut, ← Finset.sum_sdiff hsub, Finset.sum_singleton]
  exact add_comm _ _

lemma freeBut_setList (s : State) (k : ℕ) (l : List ℕ) (n : ℕ) : (s.setList k l n).freeBut k = s.freeBut k := by
  refine Finset.sum_congr rfl fun j hj => ?_
  have hne : j ≠ k := by simpa using (Finset.mem_sdiff.mp hj).2
  simp [State.setList, Function.update_of_ne hne]

lemma free_setList (s : State) (hk : k ≤ maxOrder) (l : List ℕ) (n : ℕ) :
    (s.setList k l n).free = listPages l k + s.freeBut k := by
  rw [free_eq _ hk, freeBut_setList]
  simp [State.setList]

/-- A change that leaves the lists alone leaves the free pages alone. -/
lemma free_congr (h : s'.zone.freeLists = s.zone.freeLists) : s'.free = s.free := by
  simp [State.free, h]

/-! ### The invariant -/

/-- The zone's bounds and the reserved ranges, which nothing changes after
`init_from_regions`. -/
def SameBounds (s s' : State) : Prop :=
  s'.zone.base = s.zone.base ∧ s'.zone.top = s.zone.top ∧
    s'.bootinfoReservedPn = s.bootinfoReservedPn ∧ s'.bootinfoReservedPages = s.bootinfoReservedPages ∧
    s'.kernelReservedPn = s.kernelReservedPn ∧ s'.kernelReservedPages = s.kernelReservedPages

lemma SameBounds.rfl (s : State) : SameBounds s s := ⟨Eq.refl _, Eq.refl _, Eq.refl _, Eq.refl _, Eq.refl _, Eq.refl _⟩

lemma SameBounds.trans {a b c : State} (h : SameBounds a b) (h' : SameBounds b c) : SameBounds a c := by
  obtain ⟨h1, h2, h3, h4, h5, h6⟩ := h
  obtain ⟨g1, g2, g3, g4, g5, g6⟩ := h'
  exact ⟨g1.trans h1, g2.trans h2, g3.trans h3, g4.trans h4, g5.trans h5, g6.trans h6⟩

lemma SameBounds.reserved (h : SameBounds s s') (p : ℕ) : isReservedPage s' p = isReservedPage s p := by
  obtain ⟨-, -, h3, h4, h5, h6⟩ := h
  simp [isReservedPage, h3, h4, h5, h6]

lemma sameBounds_setList (s : State) (k : ℕ) (l : List ℕ) (n : ℕ) : SameBounds s (s.setList k l n) :=
  ⟨Eq.refl _, Eq.refl _, Eq.refl _, Eq.refl _, Eq.refl _, Eq.refl _⟩

/-- A page the allocator may hold: inside the zone and not reserved. -/
def Usable (s : State) (p : ℕ) : Prop :=
  s.zone.base ≤ p * pageSize ∧ (p + 1) * pageSize ≤ s.zone.top ∧ isReservedPage s p = false

/-- A range of usable pages, by its ends. -/
lemma usable_range (ha : pageSize ∣ a) (hn : 0 < n) (h : ∀ p ∈ rangePages a n, Usable s p) :
    s.zone.base ≤ a ∧ a + n * pageSize ≤ s.zone.top ∧ isReservedPage s (a / pageSize) = false := by
  obtain ⟨q, rfl⟩ := ha
  have hdiv : pageSize * q / pageSize = q := Nat.mul_div_cancel_left _ pageSize_pos
  obtain ⟨h1, -, hres⟩ := h q (mem_rangePages.mpr ⟨by omega, by omega⟩)
  obtain ⟨-, h2, -⟩ := h (q + n - 1) (mem_rangePages.mpr ⟨by omega, by omega⟩)
  rw [Nat.sub_add_cancel (by omega)] at h2
  rw [hdiv, mul_comm, ← add_mul]
  exact ⟨h1, h2, hres⟩

/-- The invariant of the allocator whose clients hold the pages `M`; `z` has
the zone's bounds and the reserved ranges as `init_from_regions` left them. -/
structure Inv (z s : State) (M : Multiset ℕ) : Prop where
  bounds : SameBounds z s
  nodup : (s.free + M).Nodup
  usable : ∀ p ∈ s.free + M, Usable z p
  aligned : ∀ k ≤ maxOrder, ∀ a ∈ s.zone.freeLists k, blockSize k ∣ a
  count : s.zone.freePages = s.free.card % 2 ^ 64

variable {z : State}

/-- Pages may be forgotten. -/
lemma Inv.drop {M' : Multiset ℕ} (h : Inv z s M) (hle : M' ≤ M) : Inv z s M' where
  bounds := h.bounds
  nodup := nodup_of_le (add_le_add_right hle _) h.nodup
  usable p hp := h.usable p (mem_of_le (add_le_add_right hle _) hp)
  aligned := h.aligned
  count := h.count

lemma Inv.drop_left {F : Multiset ℕ} (h : Inv z s (M + F)) : Inv z s (0 + F) :=
  h.drop (add_le_add_left (zero_le M) F)

/-- A block that is held is on no list. -/
lemma Inv.not_listed (h : Inv z s M) (hk : k ≤ maxOrder)
    (hM : rangePages a (2 ^ k) ≤ M) : a ∉ s.zone.freeLists k := by
  intro ha
  have hpage : a / pageSize ∈ rangePages a (2 ^ k) :=
    mem_rangePages.mpr ⟨le_rfl, Nat.lt_add_of_pos_right (Nat.two_pow_pos k)⟩
  have hfree : a / pageSize ∈ s.free := by
    rw [free_eq s hk, ← listPages_erase k ha, mem_add, mem_add]
    exact Or.inl (Or.inl hpage)
  exact disjoint_left.mp (nodup_add.mp h.nodup).2.2 hfree (mem_of_le hM hpage)

/-- A change that leaves the lists, the counter and the bounds alone. -/
lemma Inv.congr (h : Inv z s M) (hb : SameBounds s s')
    (hl : s'.zone.freeLists = s.zone.freeLists) (hn : s'.zone.freePages = s.zone.freePages) :
    Inv z s' M where
  bounds := h.bounds.trans hb
  nodup := by rw [free_congr hl]; exact h.nodup
  usable p hp := by rw [free_congr hl] at hp; exact h.usable p hp
  aligned := by rw [hl]; exact h.aligned
  count := by rw [free_congr hl, hn]; exact h.count

/-- A list changes: the pages it gains come out of those held, the pages it
loses may be held, and the counter follows. -/
lemma Inv.setList {M' : Multiset ℕ} {l : List ℕ} (h : Inv z s M)
    (hk : k ≤ maxOrder) (hle : listPages l k + M' ≤ listPages (s.zone.freeLists k) k + M)
    (hal : ∀ a ∈ l, blockSize k ∣ a) (hn : n < 2 ^ 64)
    (hcount : n + 2 ^ k * (s.zone.freeLists k).length ≡
      s.zone.freePages + 2 ^ k * l.length [MOD 2 ^ 64]) : Inv z (s.setList k l n) M' := by
  have hfree := free_setList s hk l n
  have hsum : (s.setList k l n).free + M' ≤ s.free + M := by
    rw [hfree, free_eq s hk, add_right_comm, add_right_comm (listPages (s.zone.freeLists k) k)]
    exact add_le_add_left hle _
  refine ⟨h.bounds.trans (sameBounds_setList s k l n), nodup_of_le hsum h.nodup,
    fun p hp => h.usable p (mem_of_le hsum hp), fun j hj a ha => ?_, ?_⟩
  · by_cases hjk : j = k
    · subst hjk
      simp only [State.setList, Function.update_self] at ha
      exact hal a ha
    · simp only [State.setList, Function.update_of_ne hjk] at ha
      exact h.aligned j hj a ha
  · have hmod : s.zone.freePages ≡ s.free.card [MOD 2 ^ 64] := by
      rw [h.count]; exact Nat.mod_modEq _ _
    have hc : (s.setList k l n).free.card + 2 ^ k * (s.zone.freeLists k).length = s.free.card + 2 ^ k * l.length := by
      rw [hfree, free_eq s hk, card_add, card_add, card_listPages, card_listPages]
      ring
    have hn' : n ≡ (s.setList k l n).free.card [MOD 2 ^ 64] := by
      refine Nat.ModEq.add_right_cancel' (2 ^ k * (s.zone.freeLists k).length) ?_
      rw [hc]
      exact hcount.trans (hmod.add_right _)
    exact (Nat.mod_eq_of_lt hn).symm.trans hn'

end LodaxOS.Phys
