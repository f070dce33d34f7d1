/-
# What the allocator's sections do to its pages

One lemma for each section of the allocator: linking a block takes its pages
from the caller (`addBlock_inv`), unlinking one gives them to the caller
(`popBlock_inv`, `removeBlock_inv`), and `remove_range` gives its caller what
the blocks it unlinks leave outside the range (`takeRange_inv`). The order
that `carve_range` and `free_pages_chunked` choose divides the address and
fits into what is left (`chunkOrder_spec`), and a block and its buddy are the
two halves of the block above (`buddy_cases`).
-/
import LodaxOS.Phys.Blocks

namespace LodaxOS.Phys

open Words List Nat

variable {z : State}

/-! ### Rounding -/

lemma alignDown_eq {x : ℕ} (hx : x < 2 ^ 64) : alignDown x pageSize = x / pageSize * pageSize :=
  and_high (a := 12) hx (by norm_num)

lemma satAdd_lt (x y : ℕ) : satAdd x y < 2 ^ 64 :=
  lt_of_le_of_lt (min_le_right _ _) (by norm_num [u64Max])

lemma satAdd_eq {x y : ℕ} (h : x + y < 2 ^ 64) : satAdd x y = x + y :=
  min_eq_left (by simp only [u64Max]; omega)

lemma alignUp_eq (x : ℕ) : alignUp x pageSize = satAdd x (pageSize - 1) / pageSize * pageSize :=
  and_high (a := 12) (satAdd_lt _ _) (by norm_num)

lemma pageSize_dvd_alignDown (x : ℕ) : pageSize ∣ alignDown x pageSize := by
  have h : alignDown x pageSize = (x &&& (2 ^ 64 - 2 ^ 12)) / 2 ^ 12 * 2 ^ 12 := by
    rw [← and_high (w := 64) (lt_of_le_of_lt and_le_right (by norm_num)) (by norm_num), Nat.and_assoc, Nat.and_self]
    rfl
  rw [h]
  exact Dvd.intro_left _ rfl

lemma pageSize_dvd_alignUp (x : ℕ) : pageSize ∣ alignUp x pageSize := by
  rw [alignUp_eq]; exact Dvd.intro_left _ rfl

/-! ### The order of the next chunk -/

variable {p a k c rs re : ℕ} {s : State} {F : Multiset ℕ}

/-- The chunk of a range of pages leaves a page over, unless it is a page
itself. -/
lemma two_pow_chunkOrder {q : ℕ} (h : p < q) : 2 ^ chunkOrder (pageSize * p) (pageSize * q) ≤ max 1 (q - p - 1) := by
  have hpages : (pageSize * q - pageSize * p) / pageSize = q - p := by
    rw [← Nat.mul_sub, Nat.mul_div_cancel_left _ pageSize_pos]
  have hk : chunkOrder (pageSize * p) (pageSize * q) ≤
      if q - p ≤ 1 then 0 else 63 - leadingZeros 64 (q - p - 1) := by
    simp only [chunkOrder, hpages]
    exact le_trans (min_le_right _ _) (min_le_right _ _)
  by_cases h1 : q - p ≤ 1
  · rw [if_pos h1] at hk
    rw [le_zero.mp hk]
    exact le_max_left _ _
  · rw [if_neg h1, leadingZeros_of_pos (by omega)] at hk
    calc 2 ^ chunkOrder (pageSize * p) (pageSize * q) ≤ 2 ^ Nat.log 2 (q - p - 1) :=
          Nat.pow_le_pow_right (by norm_num) (by omega)
      _ ≤ q - p - 1 := pow_log_le_self 2 (by omega)
      _ ≤ max 1 (q - p - 1) := le_max_right _ _

/-- The chunk taken at `a` is aligned and does not pass the end. -/
lemma chunkOrder_spec {e : ℕ} (ha : pageSize ∣ a) (he : pageSize ∣ e) (h : a < e) :
    chunkOrder a e ≤ maxOrder ∧ blockSize (chunkOrder a e) ∣ a ∧ a + blockSize (chunkOrder a e) ≤ e := by
  have hmax : chunkOrder a e ≤ maxOrder := min_le_left _ _
  have hz : chunkOrder a e ≤ trailingZeros 64 (a / pageSize) :=
    le_trans (min_le_right _ _) (min_le_left _ _)
  refine ⟨hmax, ?_, ?_⟩
  · rw [blockSize_dvd_iff ha]
    exact (le_trailingZeros_iff _ (le_trans hmax (by decide))).mp hz
  · obtain ⟨p, rfl⟩ := ha
    obtain ⟨q, rfl⟩ := he
    have hpq : p < q := Nat.lt_of_mul_lt_mul_left h
    have hfit := two_pow_chunkOrder hpq
    calc pageSize * p + blockSize (chunkOrder (pageSize * p) (pageSize * q))
        = pageSize * (p + 2 ^ chunkOrder (pageSize * p) (pageSize * q)) := by rw [blockSize_eq]; ring
      _ ≤ pageSize * q := mul_le_mul_left _ (by omega)

/-! ### Buddies -/

lemma xor_one_of_even (r : ℕ) : 2 * r ^^^ 1 = 2 * r + 1 := by
  apply eq_of_testBit_eq
  intro i
  cases i <;> simp [testBit_succ, testBit_zero, show (2 * r + 1) / 2 = r by omega]

/-- The buddy of an aligned block is the other half of the block of the next
order. -/
lemma buddy_cases (h : blockSize k ∣ a) : (blockSize (k + 1) ∣ a ∧ a ^^^ blockSize k = a + blockSize k) ∨
      (∃ b, a = b + blockSize k ∧ blockSize (k + 1) ∣ b ∧ a ^^^ blockSize k = b) := by
  have hb : blockSize k = 2 ^ (k + 12) := by rw [blockSize_eq, pow_add]; rfl
  have hb' : blockSize (k + 1) = 2 ^ (k + 12) * 2 := by rw [blockSize_eq, pow_succ, pow_add]; norm_num [pageSize]; ring
  obtain ⟨q, rfl⟩ := h
  have hx : blockSize k * q ^^^ blockSize k = blockSize k * (q ^^^ 1) := by
    rw [hb, mul_comm, mul_comm _ (q ^^^ 1), ← shiftLeft_eq, ← shiftLeft_eq, shiftLeft_xor_distrib, one_shiftLeft]
  rcases even_or_odd' q with ⟨r, rfl | rfl⟩
  · left
    have h1 : 2 * r ^^^ 1 = 2 * r + 1 := xor_one_of_even r
    refine ⟨⟨r, by rw [hb, hb']; ring⟩, ?_⟩
    rw [hx, h1, mul_add, mul_one]
  · right
    have h0 : 2 * r ^^^ 1 = 2 * r + 1 := xor_one_of_even r
    have h1 : (2 * r + 1) ^^^ 1 = 2 * r := by
      rw [← h0, Nat.xor_assoc, Nat.xor_self, xor_zero]
    exact ⟨blockSize k * (2 * r), by ring, ⟨r, by rw [hb, hb']; ring⟩, by rw [hx, h1]⟩

lemma upper_buddy (h : blockSize (k + 1) ∣ a) : a ^^^ blockSize k = a + blockSize k := by
  rcases buddy_cases (dvd_trans (blockSize_dvd (le_succ k)) h) with ⟨-, hx⟩ | ⟨b, rfl, hb, -⟩
  · exact hx
  · have hdvd := (Nat.dvd_add_right hb).mp h
    have := le_of_dvd (blockSize_pos k) hdvd
    have := blockSize_pos k
    rw [blockSize_succ] at *
    omega

/-- The block and its buddy together, from the lower of the two on. -/
lemma buddy_pages (h : blockSize k ∣ a) : blockSize (k + 1) ∣ min a (a ^^^ blockSize k) ∧
      rangePages (min a (a ^^^ blockSize k)) (2 ^ (k + 1)) =
        rangePages a (2 ^ k) + rangePages (a ^^^ blockSize k) (2 ^ k) := by
  rcases buddy_cases h with ⟨hd, hx⟩ | ⟨b, rfl, hd, hx⟩
  · rw [hx, min_eq_left (le_add_right _ _)]
    exact ⟨hd, rangePages_double a k⟩
  · rw [hx, min_eq_right (le_add_right _ _)]
    exact ⟨hd, by rw [rangePages_double, add_comm]⟩

/-! ### Linking and unlinking -/

lemma one_shiftLeft_le (hk : k ≤ maxOrder) : 1 <<< k ≤ 2 ^ 10 := by
  rw [one_shiftLeft]; exact Nat.pow_le_pow_right (by norm_num) hk

lemma wrapSub_modEq (x y : ℕ) (hy : y ≤ 2 ^ 64) : wrapSub 64 x y + y ≡ x [MOD 2 ^ 64] := by
  have h1 : wrapSub 64 x y + y ≡ x + (2 ^ 64 - y) + y [MOD 2 ^ 64] := (mod_modEq _ _).add_right y
  have h2 : x + (2 ^ 64 - y) + y = x + 2 ^ 64 := by omega
  rw [h2] at h1
  exact h1.trans (by simp [Nat.ModEq])

lemma addBlock_inv (hk : k ≤ maxOrder) (ha : blockSize k ∣ a)
    (h : Inv z s (rangePages a (2 ^ k) + F)) : Inv z (addBlock s a k) F := by
  refine h.setList hk ?_ (fun b hb => ?_) (mod_lt _ (by norm_num)) ?_
  · rw [listPages_cons]
    exact le_of_eq (by abel)
  · rcases mem_cons.mp hb with rfl | hb
    · exact ha
    · exact h.aligned k hk b hb
  · rw [length_cons, wrapAdd, one_shiftLeft]
    refine ((mod_modEq _ _).add_right _).trans ?_
    have he : s.zone.freePages + 2 ^ k + 2 ^ k * (s.zone.freeLists k).length =
        s.zone.freePages + 2 ^ k * ((s.zone.freeLists k).length + 1) := by ring
    rw [he]

lemma popBlock_cases (s : State) (k : ℕ) : (s.zone.freeLists k = [] ∧ popBlock s k = (none, s)) ∨
      ∃ a l, s.zone.freeLists k = a :: l ∧
        popBlock s k = (some a, s.setList k l (wrapSub 64 s.zone.freePages (1 <<< k))) := by
  unfold popBlock
  cases hl : s.zone.freeLists k with
  | nil => exact .inl ⟨rfl, rfl⟩
  | cons a l => exact .inr ⟨a, l, rfl, rfl⟩

lemma popBlock_inv {s' : State} (hk : k ≤ maxOrder) (h : Inv z s F)
    (hp : popBlock s k = (some a, s')) : Inv z s' (rangePages a (2 ^ k) + F) ∧ blockSize k ∣ a := by
  rcases popBlock_cases s k with ⟨-, he⟩ | ⟨b, l, hl, he⟩
  · rw [he] at hp; simp at hp
  · rw [he, Prod.mk.injEq, Option.some.injEq] at hp
    obtain ⟨rfl, rfl⟩ := hp
    have hmem : ∀ c ∈ b :: l, blockSize k ∣ c := hl ▸ h.aligned k hk
    refine ⟨h.setList hk ?_ (fun c hc => hmem c (mem_cons_of_mem _ hc)) (mod_lt _ (by norm_num)) ?_,
      hmem b mem_cons_self⟩
    · rw [hl, listPages_cons]
      exact le_of_eq (by abel)
    · rw [hl, length_cons, mul_add, mul_one, ← add_assoc, add_right_comm]
      have := wrapSub_modEq s.zone.freePages (1 <<< k) (le_trans (one_shiftLeft_le hk) (by norm_num))
      rw [one_shiftLeft] at this ⊢
      exact this.add_right _

lemma removeBlock_inv {t : ℕ} (hk : k ≤ maxOrder) (h : Inv z s F)
    (ht : t ∈ s.zone.freeLists k) : Inv z (removeBlock s t k).2 (rangePages t (2 ^ k) + F) := by
  rw [removeBlock, if_pos ht]
  refine h.setList hk ?_ (fun c hc => h.aligned k hk c (mem_of_mem_erase hc))
    (mod_lt _ (by norm_num)) ?_
  · rw [← listPages_erase k ht]
    exact le_of_eq (by abel)
  · have hlen : (s.zone.freeLists k).length = ((s.zone.freeLists k).erase t).length + 1 := by
      rw [length_erase_of_mem ht]
      have := length_pos_of_mem ht
      omega
    rw [hlen, mul_add, mul_one, ← add_assoc, add_right_comm]
    have := wrapSub_modEq s.zone.freePages (1 <<< k) (le_trans (one_shiftLeft_le hk) (by norm_num))
    rw [one_shiftLeft] at this ⊢
    exact this.add_right _

/-- The section of `coalesce` unlinks the buddy if it is listed and links the
block otherwise. -/
lemma removeOrAdd_cases (s : State) (a b k : ℕ) :
    (b ∈ s.zone.freeLists k ∧ removeOrAdd s a b k = (true, (removeBlock s b k).2)) ∨
      (b ∉ s.zone.freeLists k ∧ removeOrAdd s a b k = (false, addBlock s a k)) := by
  unfold removeOrAdd removeBlock
  by_cases hb : b ∈ s.zone.freeLists k
  · exact .inl ⟨hb, by simp [hb]⟩
  · exact .inr ⟨hb, by simp [hb]⟩

/-! ### Taking a range out of a list -/

/-- The pages of ranges given by their ends. -/
def endsPages (l : List (ℕ × ℕ)) : Multiset ℕ :=
  (l.map fun r => rangePages r.1 ((r.2 - r.1) / pageSize)).sum

@[simp] lemma endsPages_nil : endsPages [] = 0 := rfl

@[simp] lemma endsPages_cons (r : ℕ × ℕ) (l : List (ℕ × ℕ)) :
    endsPages (r :: l) = rangePages r.1 ((r.2 - r.1) / pageSize) + endsPages l := by simp [endsPages]

lemma endsPages_append (l l' : List (ℕ × ℕ)) : endsPages (l ++ l') = endsPages l + endsPages l' := by
  simp [endsPages]

lemma endsPages_take (l : List (ℕ × ℕ)) (n : ℕ) : endsPages (l.take n) ≤ endsPages l := by
  conv_rhs => rw [← take_append_drop n l, endsPages_append]
  exact Multiset.le_add_right _ _

lemma nodup_rangePages (a n : ℕ) : (rangePages a n).Nodup := by
  simpa [rangePages] using nodup_range'

/-- A range of whole pages, by page numbers. -/
lemma mem_endsPages {d : ℕ} (hc : pageSize ∣ c) (hd : pageSize ∣ d) :
    p ∈ rangePages c ((d - c) / pageSize) ↔ c ≤ p * pageSize ∧ p * pageSize < d := by
  obtain ⟨m, rfl⟩ := hc
  obtain ⟨n, rfl⟩ := hd
  rw [mem_rangePages, ← Nat.mul_sub, Nat.mul_div_cancel_left _ pageSize_pos,
    Nat.mul_div_cancel_left _ pageSize_pos, mul_comm p, Nat.mul_le_mul_left_iff pageSize_pos,
    Nat.mul_lt_mul_left pageSize_pos]
  omega

lemma mem_blockPages (ha : pageSize ∣ a) :
    p ∈ rangePages a (2 ^ k) ↔ a ≤ p * pageSize ∧ p * pageSize < a + blockSize k := by
  rw [← mem_endsPages ha (Nat.dvd_add ha (pageSize_dvd_blockSize k)), Nat.add_sub_cancel_left, blockSize_div]

/-- A block at the front of a range, and the rest. -/
lemma rangePages_chunk {e : ℕ} (h : a + blockSize k ≤ e) : rangePages a ((e - a) / pageSize) =
      rangePages a (2 ^ k) + rangePages (a + blockSize k) ((e - (a + blockSize k)) / pageSize) := by
  have he : e - a = (e - (a + blockSize k)) + 2 ^ k * pageSize := by rw [← blockSize_eq]; omega
  rw [he, add_pages_div, add_comm, rangePages_add, blockSize_eq]

/-- What a block leaves outside a range is part of the block. -/
lemma leftover_le (hc : blockSize k ∣ c) (hrs : pageSize ∣ rs) (hre : pageSize ∣ re)
    (hle : rs ≤ re) (hov : rangeOverlaps c (c + blockSize k) rs re = true) :
    endsPages (leftover rs re (blockSize k) c) ≤ rangePages c (2 ^ k) := by
  have hcp := pageSize_dvd_of_block hc
  have hce : pageSize ∣ c + blockSize k := Nat.dvd_add hcp (pageSize_dvd_blockSize k)
  simp only [rangeOverlaps, Bool.and_eq_true, decide_eq_true_eq] at hov
  unfold leftover
  by_cases h1 : c < rs <;> by_cases h2 : c + blockSize k > re
  · simp only [h1, h2, if_true, cons_append, nil_append, endsPages_cons, endsPages_nil, add_zero]
    rw [Multiset.le_iff_subset]
    · intro p hp
      rw [Multiset.mem_add, mem_endsPages hcp hrs, mem_endsPages hre hce] at hp
      rw [mem_blockPages hcp]
      omega
    · rw [Multiset.nodup_add]
      refine ⟨nodup_rangePages _ _, nodup_rangePages _ _, ?_⟩
      rw [Multiset.disjoint_left]
      intro p hp hp'
      rw [mem_endsPages hcp hrs] at hp
      rw [mem_endsPages hre hce] at hp'
      omega
  · simp only [h1, h2, if_true, if_false, append_nil, endsPages_cons, endsPages_nil, add_zero]
    rw [Multiset.le_iff_subset (nodup_rangePages _ _)]
    intro p hp
    rw [mem_endsPages hcp hrs] at hp
    rw [mem_blockPages hcp]
    omega
  · simp only [h1, h2, if_true, if_false, nil_append, endsPages_cons, endsPages_nil, add_zero]
    rw [Multiset.le_iff_subset (nodup_rangePages _ _)]
    intro p hp
    rw [mem_endsPages hre hce] at hp
    rw [mem_blockPages hcp]
    omega
  · simp only [h1, h2, if_false, append_nil, endsPages_nil]
    exact Multiset.zero_le _

lemma leftovers_le (hrs : pageSize ∣ rs) (hre : pageSize ∣ re) (hle : rs ≤ re) :
    ∀ l : List ℕ, (∀ c ∈ l, blockSize k ∣ c ∧ rangeOverlaps c (c + blockSize k) rs re = true) →
      endsPages (l.flatMap (leftover rs re (blockSize k))) ≤ listPages l k
  | [], _ => by simp
  | c :: l, h => by
    rw [flatMap_cons, endsPages_append, listPages_cons]
    obtain ⟨hc, hov⟩ := h c mem_cons_self
    exact add_le_add (leftover_le hc hrs hre hle hov)
      (leftovers_le hrs hre hle l fun d hd => h d (mem_cons_of_mem _ hd))

lemma foldl_wrapSub (l : List ℕ) (k : ℕ) (hk : k ≤ maxOrder) (n : ℕ) (hn : n < 2 ^ 64) :
    l.foldl (fun n _ => wrapSub 64 n (1 <<< k)) n < 2 ^ 64 ∧
      l.foldl (fun n _ => wrapSub 64 n (1 <<< k)) n + 2 ^ k * l.length ≡ n [MOD 2 ^ 64] := by
  induction l generalizing n with
  | nil => exact ⟨hn, by simp [Nat.ModEq]⟩
  | cons a l ih =>
    obtain ⟨h1, h2⟩ := ih (wrapSub 64 n (1 <<< k)) (mod_lt _ (by norm_num))
    refine ⟨h1, ?_⟩
    have h3 := wrapSub_modEq n (1 <<< k) (le_trans (one_shiftLeft_le hk) (by norm_num))
    rw [foldl_cons, length_cons, mul_add, mul_one, ← add_assoc]
    rw [one_shiftLeft] at h2 h3 ⊢
    exact (h2.add_right _).trans h3

/-- The ends of a range that a section of `remove_range` returns are whole
pages. -/
lemma leftover_dvd (hc : blockSize k ∣ c) (hrs : pageSize ∣ rs) (hre : pageSize ∣ re)
    {r : ℕ × ℕ} (hr : r ∈ leftover rs re (blockSize k) c) : pageSize ∣ r.1 ∧ pageSize ∣ r.2 := by
  have hcp := pageSize_dvd_of_block hc
  simp only [leftover, mem_append, mem_ite_nil_right, mem_singleton] at hr
  rcases hr with ⟨-, rfl⟩ | ⟨-, rfl⟩
  · exact ⟨hcp, hrs⟩
  · exact ⟨hre, Nat.dvd_add hcp (pageSize_dvd_blockSize k)⟩

lemma takeRange_inv (hk : k ≤ maxOrder) (hrs : pageSize ∣ rs)
    (hre : pageSize ∣ re) (hle : rs ≤ re) (h : Inv z s F) :
    Inv z (takeRange s rs re k).2 (endsPages (takeRange s rs re k).1 + F) ∧
      ∀ r ∈ (takeRange s rs re k).1, pageSize ∣ r.1 ∧ pageSize ∣ r.2 := by
  set q : ℕ → Bool := fun c => rangeOverlaps c (c + blockSize k) rs re with hq
  set l := s.zone.freeLists k with hl
  have hal : ∀ c ∈ l, blockSize k ∣ c := h.aligned k hk
  have hhit : ∀ c ∈ l.filter q, blockSize k ∣ c ∧ rangeOverlaps c (c + blockSize k) rs re = true :=
    fun c hc => ⟨hal c (mem_filter.mp hc).1, (mem_filter.mp hc).2⟩
  refine ⟨?_, fun r hr => ?_⟩
  · have hfree : s.zone.freePages < 2 ^ 64 := by rw [h.count]; exact mod_lt _ (by norm_num)
    obtain ⟨hlt, hmod⟩ := foldl_wrapSub (l.filter q) k hk s.zone.freePages hfree
    refine h.setList hk ?_ (fun c hc => hal c (mem_filter.mp hc).1) hlt ?_
    · rw [← hl, ← listPages_filter l k q, ← add_assoc,
        add_comm (listPages (l.filter q) k) (listPages (l.filter fun a => !q a) k)]
      refine add_le_add_left (add_le_add_right ((endsPages_take _ _).trans ?_) _) _
      exact leftovers_le hrs hre hle _ hhit
    · have hlen : l.length = (l.filter q).length + (l.filter fun a => !q a).length := by
        have := congrArg Multiset.card (listPages_filter l k q)
        rw [Multiset.card_add, card_listPages, card_listPages, card_listPages, ← mul_add] at this
        exact (Nat.eq_of_mul_eq_mul_left (Nat.two_pow_pos k) this).symm
      rw [← hl, hlen, mul_add, ← add_assoc]
      exact hmod.add_right _
  · obtain ⟨c, hc, hr⟩ := mem_flatMap.mp (mem_of_mem_take hr)
    exact leftover_dvd (hhit c hc).1 hrs hre hr

end LodaxOS.Phys
