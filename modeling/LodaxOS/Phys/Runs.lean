/-
# What each call does to the free pages

The functions of the allocator run alone: the free pages before and after,
exactly, and the reference counts. `alloc_order` takes the last block of the
wanted order inside the first block of the first list that has one
(`nextBlock`); a free gives back what it is given but for the pages it frees
singly whose count is not 1. Which pages of a range `free_pages_chunked` frees
singly depends only on the ends of the range (`freedSingly`).
-/
import LodaxOS.Phys.Safety

namespace LodaxOS.Phys

open Sections Words Prog Multiset

variable {z : State}

/-! ### The sections -/

variable {k a p e : ℕ} {s : State} {M F : Multiset ℕ}

lemma free_addBlock (s : State) (hk : k ≤ maxOrder) (a : ℕ) :
    (addBlock s a k).free = rangePages a (2 ^ k) + s.free := by
  rw [addBlock, free_setList s hk, listPages_cons, free_eq s hk, add_assoc]

lemma free_setList_tail (s : State) (hk : k ≤ maxOrder) {l : List ℕ} (n : ℕ)
    (hl : s.zone.freeLists k = a :: l) : (s.setList k l n).free + rangePages a (2 ^ k) = s.free := by
  rw [free_setList s hk, free_eq s hk, hl, listPages_cons]
  abel

lemma free_removeBlock (s : State) (hk : k ≤ maxOrder) {t : ℕ} (ht : t ∈ s.zone.freeLists k) :
    (removeBlock s t k).2.free + rangePages t (2 ^ k) = s.free := by
  rw [removeBlock, if_pos ht, free_setList s hk, free_eq s hk, ← listPages_erase k ht]
  abel

lemma refcounts_removeBlock (s : State) (t k : ℕ) : (removeBlock s t k).2.refcounts = s.refcounts := by
  unfold removeBlock
  split <;> rfl

lemma coalesceUp_succ_run (up a k : ℕ) (s : State) : (coalesceUp (up + 1) a k).run s =
      if a ^^^ blockSize k ∈ s.zone.freeLists k then
        (coalesceUp up (min a (a ^^^ blockSize k)) (k + 1)).run (removeBlock s (a ^^^ blockSize k) k).2
      else ((), addBlock s a k) := by
  rw [coalesceUp, run_bind, run_atomically]
  rcases removeOrAdd_cases s a (a ^^^ blockSize k) k with ⟨hb, he⟩ | ⟨hb, he⟩
  · rw [if_pos hb]; simp only [he, if_true]
  · rw [if_neg hb]; simp only [he]; rfl

lemma coalesceUp_run : ∀ (up a k : ℕ) (s : State), k + up = maxOrder → blockSize k ∣ a →
    ((coalesceUp up a k).run s).2.free = rangePages a (2 ^ k) + s.free ∧
      ((coalesceUp up a k).run s).2.refcounts = s.refcounts
  | 0, a, k, s, hk, _ => ⟨free_addBlock s (by omega) a, rfl⟩
  | up + 1, a, k, s, hk, ha => by
    obtain ⟨hd, hpages⟩ := buddy_pages ha
    rw [coalesceUp_succ_run]
    split
    · rename_i hb
      obtain ⟨h1, h2⟩ := coalesceUp_run up (min a (a ^^^ blockSize k)) (k + 1)
        (removeBlock s (a ^^^ blockSize k) k).2 (by omega) hd
      refine ⟨?_, h2.trans (refcounts_removeBlock s _ k)⟩
      rw [h1, hpages, ← free_removeBlock s (by omega) hb]
      abel
    · exact ⟨free_addBlock s (by omega) a, rfl⟩

lemma coalesce_run (s : State) (hk : k ≤ maxOrder) (ha : blockSize k ∣ a) :
    ((coalesce a k).run s).2.free = rangePages a (2 ^ k) + s.free ∧ ((coalesce a k).run s).2.refcounts = s.refcounts :=
  coalesceUp_run _ a k s (by omega) ha

/-! ### `alloc_order` -/

/-- The block of order `k` that `alloc_order` returns: from the first block
of the lowest list with one, the upper half at each split. -/
def nextBlock (s : State) (k : ℕ) : Option ℕ :=
  (List.range' k (maxOrder + 1 - k)).findSome? fun j =>
    (s.zone.freeLists j).head?.map fun a => a + (blockSize j - blockSize k)

lemma splitLoop_run (k : ℕ) : ∀ (n a : ℕ) (s : State), k + n ≤ maxOrder + 1 →
    ((splitLoop k n a).run s).1 = a + (blockSize (k + n) - blockSize k) ∧
      ((splitLoop k n a).run s).2.free + rangePages (a + (blockSize (k + n) - blockSize k)) (2 ^ k) =
        s.free + rangePages a (2 ^ (k + n)) ∧
      ((splitLoop k n a).run s).2.refcounts = s.refcounts
  | 0, a, s, _ => by simp [splitLoop]
  | n + 1, a, s, hk => by
    obtain ⟨h1, h2, h3⟩ := splitLoop_run k n (a + blockSize (k + n)) (addBlock s a (k + n)) (by omega)
    have hle : blockSize k ≤ blockSize (k + n) := Nat.le_of_dvd (blockSize_pos _) (blockSize_dvd (by omega))
    have he : a + blockSize (k + n) + (blockSize (k + n) - blockSize k) =
        a + (blockSize (k + (n + 1)) - blockSize k) := by
      rw [← add_assoc k n 1, blockSize_succ]; omega
    rw [he] at h1 h2
    simp only [splitLoop, run_bind, run_modify]
    refine ⟨h1, h2.trans ?_, h3⟩
    rw [free_addBlock s (by omega), ← add_assoc k n 1, rangePages_double]
    abel

/-- Taking a block out of list `j` and splitting it down to order `k`. -/
lemma split_run {j : ℕ} {l : List ℕ} (hkj : k ≤ j) (hj : j ≤ maxOrder)
    (hl : s.zone.freeLists j = a :: l) (n : ℕ) :
    ((splitLoop k (j - k) a).run (s.setList j l n)).1 = a + (blockSize j - blockSize k) ∧
      ((splitLoop k (j - k) a).run (s.setList j l n)).2.free +
        rangePages (a + (blockSize j - blockSize k)) (2 ^ k) = s.free ∧
      ((splitLoop k (j - k) a).run (s.setList j l n)).2.refcounts = s.refcounts := by
  have hs := splitLoop_run k (j - k) a (s.setList j l n) (by omega)
  rw [Nat.add_sub_cancel' hkj] at hs
  exact ⟨hs.1, hs.2.1.trans (free_setList_tail s hj n hl), hs.2.2⟩

/-- The counts after `a` is allocated as a block of order `k`. -/
def allocCounts (s : State) (k a : ℕ) : ℕ → ℕ :=
  if k = 0 then (resetRefcount s (a / pageSize)).refcounts else s.refcounts

lemma free_resetRefcount (s : State) (pn : ℕ) : (resetRefcount s pn).free = s.free :=
  free_congr (by unfold resetRefcount; split <;> rfl)

lemma resetRefcount_counts {s' : State} (h : s'.refcounts = s.refcounts) (pn : ℕ) :
    (resetRefcount s' pn).refcounts = (resetRefcount s pn).refcounts := by
  unfold resetRefcount
  split
  · simp [h]
  · exact h

/-- What a successful or failed search leaves. -/
def Allocated (s : State) (k : ℕ) (out : Option ℕ × State) : Option ℕ → Prop
  | none => out = (none, s)
  | some a => out.1 = some a ∧ out.2.free + rangePages a (2 ^ k) = s.free ∧ out.2.refcounts = allocCounts s k a

lemma searchUp_run (s : State) (k : ℕ) : ∀ l : List ℕ, (∀ j ∈ l, k ≤ j ∧ j ≤ maxOrder) →
    Allocated s k ((searchUp k l).run s) (l.findSome? fun j =>
      (s.zone.freeLists j).head?.map fun a => a + (blockSize j - blockSize k))
  | [], _ => rfl
  | j :: rest, h => by
    obtain ⟨hkj, hj⟩ := h j List.mem_cons_self
    rcases popBlock_cases s j with ⟨hl, he⟩ | ⟨a, l, hl, he⟩
    · simp only [searchUp, run_bind, run_atomically, he, List.findSome?_cons, hl, List.head?_nil, Option.map_none]
      exact searchUp_run s k rest fun i hi => h i (List.mem_cons_of_mem _ hi)
    · obtain ⟨h1, h2, h3⟩ := split_run hkj hj hl (wrapSub 64 s.zone.freePages (1 <<< j))
      simp only [searchUp, run_bind, run_atomically, he, List.findSome?_cons, hl, List.head?_cons,
        Option.map_some, h1, run_pure, resetSplit]
      refine ⟨rfl, ?_, ?_⟩
      · split
        · rw [run_modify, free_resetRefcount]; exact h2
        · exact h2
      · unfold allocCounts
        split
        · rw [run_modify]; exact resetRefcount_counts h3 _
        · exact h3

/-- `alloc_order` returns the next block and takes exactly its pages, or
finds no list with a block and changes nothing. -/
lemma allocOrder_run (s : State) (hk : k ≤ maxOrder) : Allocated s k ((allocOrder k).run s) (nextBlock s k) := by
  have hr : List.range' k (maxOrder + 1 - k) = k :: List.range' (k + 1) (maxOrder - k) := by
    rw [show maxOrder + 1 - k = (maxOrder - k) + 1 by omega, List.range'_succ]
  unfold allocOrder nextBlock
  rw [if_neg (by omega), hr, List.findSome?_cons]
  simp only [run_bind, run_atomically, popReset]
  rcases popBlock_cases s k with ⟨hl, he⟩ | ⟨a, l, hl, he⟩
  · simp only [he, hl, List.head?_nil, Option.map_none]
    refine searchUp_run s k _ fun j hj => ?_
    rw [List.mem_range'_1] at hj
    omega
  · simp only [he, hl, List.head?_cons, Option.map_some, Nat.sub_self, add_zero, run_pure]
    refine ⟨rfl, ?_, ?_⟩
    · dsimp only
      split
      · rw [free_resetRefcount]; exact free_setList_tail s hk _ hl
      · exact free_setList_tail s hk _ hl
    · unfold allocCounts
      split
      · have hc : (s.setList k l (wrapSub 64 s.zone.freePages (1 <<< k))).refcounts = s.refcounts := rfl
        exact resetRefcount_counts hc _
      · rfl

/-- Without a page, nothing changed. -/
lemma allocPage_none (h : (allocPage.run s).1 = none) : (allocPage.run s).2 = s := by
  have hrun := allocOrder_run s (Nat.zero_le maxOrder)
  unfold allocPage at h ⊢
  cases hn : nextBlock s 0 with
  | none =>
    rw [hn] at hrun
    exact congrArg Prod.snd hrun
  | some =>
    rw [hn] at hrun
    exact absurd (hrun.1.symm.trans h) (by simp)

/-! ### Frees -/

/-- A count that a free of the page alone finds to be 1, or that no count is
kept. -/
def counted (s : State) (p : ℕ) : Bool := decide (refcountMaxPages ≤ p) || s.refcounts p == 1

/-- Of pages freed singly, those that do not come back. -/
def lost (s : State) (M : Multiset ℕ) : Multiset ℕ := M.filter fun p => counted s p = false

lemma lost_add (s : State) (M N : Multiset ℕ) : lost s (M + N) = lost s M + lost s N :=
  filter_add _ _ _

lemma lost_congr {s' : State} (h : ∀ p ∈ M, s'.refcounts p = s.refcounts p) : lost s' M = lost s M :=
  filter_congr fun p hp => by simp [counted, h p hp]

lemma lost_eq_zero : lost s M = 0 ↔ ∀ p ∈ M, counted s p = true := by
  simp [lost, filter_eq_nil]

lemma unrefPage_run (s : State) (p : ℕ) :
    ((unrefPage p).run s).1 = counted s p ∧ ((unrefPage p).run s).2.free = s.free ∧
      ∀ q, q ≠ p → ((unrefPage p).run s).2.refcounts q = s.refcounts q := by
  unfold unrefPage counted
  split
  · rename_i hp
    simp [hp]
  · rename_i hp
    refine ⟨by simp [hp], rfl, fun q hq => ?_⟩
    simp [Function.update_of_ne hq]

/-- A block that its caller holds passes the checks of `free_order`. -/
lemma Inv.freeable (ha : blockSize k ∣ a) (h : Inv z s (rangePages a (2 ^ k) + F)) : freeable s a k = true := by
  obtain ⟨h1, h2, h3⟩ := usable_range (pageSize_dvd_of_block ha) (Nat.two_pow_pos k) fun p hp =>
    h.usable p (mem_add.mpr (.inr (mem_add.mpr (.inl hp))))
  obtain ⟨hbase, htop, -⟩ := h.bounds
  have hres := h.bounds.reserved (a / pageSize)
  simp only [Phys.freeable, hres, h3, hbase, htop, blockSize_eq]
  simp [h1, h2]

/-- The pages of a block that `free_order` frees singly. -/
def blockSingles (a k : ℕ) : Multiset ℕ := if k = 0 then {a / pageSize} else 0

lemma freeOrder_run (hk : k ≤ maxOrder) (ha : blockSize k ∣ a) (h : Inv z s (rangePages a (2 ^ k) + F)) :
    ((freeOrder a k).run s).2.free + lost s (blockSingles a k) = s.free + rangePages a (2 ^ k) ∧
      ∀ q ∉ rangePages a (2 ^ k), ((freeOrder a k).run s).2.refcounts q = s.refcounts q := by
  have hp : a % pageSize = 0 := Nat.mod_eq_zero_of_dvd (pageSize_dvd_of_block ha)
  unfold freeOrder blockSingles
  rw [if_neg (by omega)]
  simp only [run_bind, run_read, h.freeable ha, if_true]
  by_cases h0 : k = 0
  · subst h0
    obtain ⟨h1, h2, h3⟩ := unrefPage_run s (a / pageSize)
    have hpage : rangePages a (2 ^ 0) = {a / pageSize} := rfl
    simp only [if_true, run_bind, h1, hpage]
    have hq : ∀ q ∉ ({a / pageSize} : Multiset ℕ),
        ((unrefPage (a / pageSize)).run s).2.refcounts q = s.refcounts q := fun q hq =>
      h3 q (by simpa using hq)
    cases hc : counted s (a / pageSize)
    · have hl : lost s {a / pageSize} = {a / pageSize} := by simp [lost, hc]
      rw [hl]
      exact ⟨by simp [h2], fun q h' => hq q h'⟩
    · have hl : lost s {a / pageSize} = 0 := by simp [lost, hc]
      rw [hl, add_zero]
      obtain ⟨h4, h5⟩ := coalesce_run ((unrefPage (a / pageSize)).run s).2 hk ha
      simp only [if_true]
      rw [h4, h5, h2, hpage, add_comm]
      exact ⟨rfl, fun q h' => hq q h'⟩
  · obtain ⟨h1, h2⟩ := coalesce_run s hk ha
    simp only [h0, if_false]
    rw [h1, h2, add_comm (rangePages a _)]
    exact ⟨by simp [lost], fun q _ => rfl⟩

/-! ### Ranges -/

/-- Whether page `q` of the range `[p, e)` of pages is freed singly: the last
page, the one before it if the range ends at an even page, and the first if
it is odd. -/
def freedSingly (p e q : ℕ) : Bool :=
  q + 1 == e || (q + 2 == e && e % 2 == 0) || (q == p && p % 2 == 1)

def singles (a n : ℕ) : Multiset ℕ :=
  (rangePages a n).filter fun q => freedSingly (a / pageSize) (a / pageSize + n) q = true

/-- Where `free_pages_chunked` takes a single page. -/
lemma chunkOrder_eq_zero (h : p < e) : chunkOrder (pageSize * p) (pageSize * e) = 0 ↔ p % 2 = 1 ∨ e ≤ p + 2 := by
  have hpages : (pageSize * e - pageSize * p) / pageSize = e - p := by
    rw [← Nat.mul_sub, Nat.mul_div_cancel_left _ pageSize_pos]
  have hz : 1 ≤ trailingZeros 64 p ↔ 2 ^ 1 ∣ p := le_trailingZeros_iff p (by norm_num)
  simp only [chunkOrder, hpages, Nat.mul_div_cancel_left _ pageSize_pos]
  have hm : maxOrder = 10 := rfl
  by_cases h1 : e - p ≤ 1
  · rw [if_pos h1]; omega
  · rw [if_neg h1, leadingZeros_of_pos (by omega)]
    have hlog : 1 ≤ Nat.log 2 (e - p - 1) ↔ 2 ^ 1 ≤ e - p - 1 :=
      Nat.le_log_iff_pow_le (by norm_num) (by omega)
    rw [pow_one] at hz hlog
    generalize Nat.log 2 (e - p - 1) = l at hlog ⊢
    generalize trailingZeros 64 p = t at hz ⊢
    omega

/-- The singly freed pages, chunk by chunk. -/
lemma singles_chunk (h : p < e) :
    let k := chunkOrder (pageSize * p) (pageSize * e)
    singles (pageSize * p) (e - p) =
      blockSingles (pageSize * p) k + singles (pageSize * (p + 2 ^ k)) (e - (p + 2 ^ k)) := by
  intro k
  have hz : k = 0 ↔ p % 2 = 1 ∨ e ≤ p + 2 := chunkOrder_eq_zero h
  have hfit : 2 ^ k ≤ max 1 (e - p - 1) := two_pow_chunkOrder h
  have hdiv : ∀ q, pageSize * q / pageSize = q := fun q => Nat.mul_div_cancel_left _ pageSize_pos
  have hsplit : rangePages (pageSize * p) (e - p) =
      rangePages (pageSize * p) (2 ^ k) + rangePages (pageSize * (p + 2 ^ k)) (e - (p + 2 ^ k)) := by
    rw [show e - p = 2 ^ k + (e - (p + 2 ^ k)) by omega, rangePages_add, mul_add, mul_comm _ pageSize]
  unfold singles blockSingles
  rw [hsplit, filter_add, hdiv, hdiv, Nat.add_sub_cancel' h.le, Nat.add_sub_cancel' (by omega : p + 2 ^ k ≤ e)]
  congr 1
  · split
    · rename_i h0
      -- a single page: the range is short or begins at an odd page
      have hf : freedSingly p e p = true := by
        simp only [freedSingly, Bool.or_eq_true, Bool.and_eq_true, beq_iff_eq, true_and]
        have := hz.mp h0
        omega
      rw [h0]
      simp [rangePages, hdiv, hf]
    · rename_i h0
      refine filter_eq_nil.mpr fun q hq => ?_
      rw [mem_rangePages, hdiv] at hq
      obtain ⟨j, hj⟩ : ∃ j, k = j + 1 := ⟨k - 1, by omega⟩
      rw [hj, pow_succ] at hfit hq
      simp only [freedSingly, Bool.or_eq_true, Bool.and_eq_true, beq_iff_eq]
      have := mt hz.mpr h0
      omega
  · refine filter_congr fun q hq => ?_
    rw [mem_rangePages, hdiv] at hq
    simp only [freedSingly, Bool.or_eq_true, Bool.and_eq_true, beq_iff_eq]
    rcases Nat.eq_zero_or_pos k with h0 | h0
    · have := hz.mp h0
      rw [h0, pow_zero] at hq ⊢
      omega
    · obtain ⟨j, hj⟩ : ∃ j, k = j + 1 := ⟨k - 1, by omega⟩
      have := mt hz.mpr (by omega)
      rw [hj, pow_succ] at hfit hq ⊢
      omega

lemma chunkLoop_run : ∀ (fuel p : ℕ) (s : State) (F : Multiset ℕ), e - p ≤ fuel →
    Inv z s (rangePages (pageSize * p) (e - p) + F) →
    ((chunkLoop (pageSize * e) fuel (pageSize * p)).run s).2.free + lost s (singles (pageSize * p) (e - p)) =
        s.free + rangePages (pageSize * p) (e - p) ∧
      ∀ q ∉ rangePages (pageSize * p) (e - p),
        ((chunkLoop (pageSize * e) fuel (pageSize * p)).run s).2.refcounts q = s.refcounts q
  | 0, p, s, F, hf, h => by
    rw [Nat.le_zero.mp hf]
    exact ⟨by simp [chunkLoop, singles, lost], fun q _ => rfl⟩
  | fuel + 1, p, s, F, hf, h => by
    unfold chunkLoop
    by_cases hlt : p < e
    · rw [if_pos (Nat.mul_lt_mul_of_pos_left hlt pageSize_pos), run_bind]
      obtain ⟨hk, hd, hfit⟩ := chunkOrder_spec (Dvd.intro p rfl) (Dvd.intro e rfl)
        (Nat.mul_lt_mul_of_pos_left hlt pageSize_pos)
      have hle := two_pow_chunkOrder hlt
      have hsingle := singles_chunk hlt
      set k := chunkOrder (pageSize * p) (pageSize * e) with hkdef
      have hnext : pageSize * p + blockSize k = pageSize * (p + 2 ^ k) := by rw [blockSize_eq]; ring
      have hsplit : rangePages (pageSize * p) (e - p) =
          rangePages (pageSize * p) (2 ^ k) + rangePages (pageSize * (p + 2 ^ k)) (e - (p + 2 ^ k)) := by
        rw [show e - p = 2 ^ k + (e - (p + 2 ^ k)) by omega, rangePages_add, mul_add, mul_comm _ pageSize]
      rw [hsplit, add_assoc] at h
      obtain ⟨h1, h2⟩ := freeOrder_run hk hd h
      obtain ⟨_, hI, rfl⟩ := (safe_inv fun _ hJ => freeOrder_safe hJ hk hd).run h
      rw [zero_add] at hI
      have h2pos := Nat.two_pow_pos k
      obtain ⟨h3, h4⟩ := chunkLoop_run fuel (p + 2 ^ k) _ F (by omega) hI
      rw [hnext]
      -- the pages freed singly later keep their counts until then
      have hdis : ∀ q ∈ rangePages (pageSize * (p + 2 ^ k)) (e - (p + 2 ^ k)),
          q ∉ rangePages (pageSize * p) (2 ^ k) := by
        intro q hq hq'
        rw [mem_rangePages, Nat.mul_div_cancel_left _ pageSize_pos] at hq hq'
        omega
      have hlost : lost ((freeOrder (pageSize * p) k).run s).2
          (singles (pageSize * (p + 2 ^ k)) (e - (p + 2 ^ k))) =
          lost s (singles (pageSize * (p + 2 ^ k)) (e - (p + 2 ^ k))) :=
        lost_congr fun q hq => h2 q (hdis q (mem_of_mem_filter hq))
      refine ⟨?_, fun q hq => ?_⟩
      · rw [hsingle, lost_add, hsplit, ← hlost, add_left_comm, h3, ← add_assoc, add_comm (lost s _), h1, add_assoc]
      · rw [hsplit, mem_add, not_or] at hq
        rw [h4 q hq.2, h2 q hq.1]
    · rw [if_neg (fun hc => hlt (Nat.lt_of_mul_lt_mul_left hc)), Nat.sub_eq_zero_of_le (by omega)]
      exact ⟨by simp [singles, lost], fun q _ => rfl⟩

/-- A range goes back but for the singly freed pages whose count is not 1. -/
lemma freePagesChunked_run {n : ℕ} (ha : pageSize ∣ a) (h : Inv z s (rangePages a n + F)) :
    ((freePagesChunked a n).run s).2.free + lost s (singles a n) = s.free + rangePages a n := by
  obtain ⟨p, rfl⟩ := ha
  have hn : p + n - p = n := by omega
  have he : pageSize * p + n * pageSize = pageSize * (p + n) := by ring
  unfold freePagesChunked
  rw [he]
  have := (chunkLoop_run n p s F (le_of_eq hn) (by rwa [hn])).1
  rwa [hn] at this

lemma freePages_run {n : ℕ} (ha : pageSize ∣ a) (h : Inv z s (rangePages a n + F)) :
    ((freePages a n).run s).2.free + lost s (singles a n) = s.free + rangePages a n := by
  unfold freePages
  split
  · rename_i h0
    subst h0
    simp [singles, lost]
  · rename_i h0
    obtain ⟨-, -, hres⟩ := usable_range ha (by omega : 0 < n) fun p hp =>
      h.usable p (mem_add.mpr (.inr (mem_add.mpr (.inl hp))))
    simp only [run_bind, run_read, h.bounds.reserved, hres]
    exact freePagesChunked_run ha h

end LodaxOS.Phys
