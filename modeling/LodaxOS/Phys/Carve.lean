/-
# What carving links

`carve_range` cuts a run of pages into aligned blocks, and the order it gives
a block depends on the run: a block of order 1 or more leaves a page of the
run over, and a block that its alignment would let grow is followed by the
end of the run (`Carved`). So in one run the only buddies that stay apart are
two single pages at an even end (`carved_pair`).

`init_from_regions` carves the runs of free pages of each region
(`scanRegions_all`), `reserve_range` the two runs that a block it cuts leaves
(`removeOrders_remains`).
-/
import LodaxOS.Phys.Buddy

namespace LodaxOS.Phys

open Sections Words Prog Function List

variable {z : State}

/-! ### Buddies -/

/-- No block below the highest order is listed together with its buddy. -/
def Unbuddied (s : State) : Prop :=
  ∀ k < maxOrder, ∀ a ∈ s.zone.freeLists k, a ^^^ blockSize k ∉ s.zone.freeLists k

lemma unbuddied_stable : Stable z Unbuddied where
  unlink {s k l n} hl h j hj a ha hb := by
    by_cases hjk : j = k
    · subst hjk
      simp only [State.setList, update_self] at ha hb
      exact h j hj a (hl.subset ha) (hl.subset hb)
    · simp only [State.setList, update_of_ne hjk] at ha hb
      exact h j hj a ha hb
  link {s a k F} hk ha hI hbuddy h j hj b hb hb' := by
    by_cases hjk : j = k
    · subst hjk
      simp only [addBlock, State.setList, update_self, mem_cons] at hb hb'
      have hpos := blockSize_pos j
      rcases hb with rfl | hb <;> rcases hb' with hb' | hb'
      · have h0 : blockSize j = 0 := by
          rw [← Nat.zero_xor (blockSize j), ← Nat.xor_self b, Nat.xor_assoc, hb', Nat.xor_self]
        omega
      · exact hbuddy hj hb'
      · refine hbuddy hj ?_
        rwa [← hb', Nat.xor_assoc, Nat.xor_self, Nat.xor_zero]
      · exact h j hj b hb hb'
    · simp only [addBlock, State.setList, update_of_ne hjk] at hb hb'
      exact h j hj b hb hb'
  counts h := h

variable {s s0 : State} {p e rs re : ℕ} {Q : ℕ → ℕ → Prop}

/-- Only a lower half and the upper half after it have to be looked at. -/
lemma unbuddied_of_pairs (hal : ∀ k ≤ maxOrder, ∀ a ∈ s.zone.freeLists k, blockSize k ∣ a)
    (h : ∀ k < maxOrder, ∀ a ∈ s.zone.freeLists k, blockSize (k + 1) ∣ a →
      a + blockSize k ∉ s.zone.freeLists k) : Unbuddied s := by
  intro k hk a ha hb
  rcases buddy_cases (hal k hk.le a ha) with ⟨hd, hx⟩ | ⟨b, rfl, hd, hx⟩
  · rw [hx] at hb
    exact h k hk a ha hd hb
  · rw [hx] at hb
    exact h k hk b hb hd ha

/-! ### One run -/

/-- How a block of order `k` at page `A` was carved out of a run of the pages
`R`. -/
def Carved (R : ℕ → Prop) (A k : ℕ) : Prop :=
  (∀ i < 2 ^ k, R (A + i)) ∧ (k ≠ 0 → R (A + 2 ^ k)) ∧ (k < maxOrder → 2 ^ (k + 1) ∣ A → ∃ i ≤ 2 ^ (k + 1), ¬ R (A + i))

/-- Buddies out of one run are single pages at its end. -/
lemma carved_pair {R : ℕ → Prop} {A k : ℕ} (h : Carved R A k) (h' : Carved R (A + 2 ^ k) k)
    (hk : k < maxOrder) (hA : 2 ^ (k + 1) ∣ A) : k = 0 ∧ ¬ R (A + 2) := by
  obtain ⟨i, hi, hR⟩ := h.2.2 hk hA
  have hpow : 2 ^ (k + 1) = 2 ^ k + 2 ^ k := by rw [pow_succ, mul_two]
  have hpos := Nat.two_pow_pos k
  rcases lt_or_ge i (2 ^ k) with h1 | h1
  · exact absurd (h.1 i h1) hR
  · have hrest := h'.1 (i - 2 ^ k)
    have he : A + 2 ^ k + (i - 2 ^ k) = A + i := by omega
    rw [he] at hrest
    have hend : i = 2 ^ k + 2 ^ k := by
      by_contra hne
      exact hR (hrest (by omega))
    by_cases h0 : k = 0
    · subst h0
      exact ⟨rfl, by rwa [hend] at hR⟩
    · have := h'.2.1 h0
      rw [add_assoc, ← hend] at this
      exact absurd this hR

/-- The order of a chunk that its alignment would let grow is set by the end
of the range. -/
lemma chunkOrder_max (h : p < e) (hk : chunkOrder (pageSize * p) (pageSize * e) < maxOrder)
    (hd : 2 ^ (chunkOrder (pageSize * p) (pageSize * e) + 1) ∣ p) :
    e ≤ p + 2 ^ (chunkOrder (pageSize * p) (pageSize * e) + 1) := by
  have hpages : (pageSize * e - pageSize * p) / pageSize = e - p := by
    rw [← Nat.mul_sub, Nat.mul_div_cancel_left _ pageSize_pos]
  set k := chunkOrder (pageSize * p) (pageSize * e) with hkdef
  have hm : maxOrder = 10 := rfl
  have hz : k + 1 ≤ trailingZeros 64 p := (le_trailingZeros_iff p (by omega)).mpr hd
  simp only [chunkOrder, hpages, Nat.mul_div_cancel_left _ pageSize_pos] at hkdef
  have hpos := Nat.two_pow_pos (k + 1)
  by_cases h1 : e - p ≤ 1
  · omega
  · rw [if_neg h1, leadingZeros_of_pos (by omega)] at hkdef
    have hlt : e - p - 1 < 2 ^ (Nat.log 2 (e - p - 1) + 1) := Nat.lt_pow_succ_log_self (by norm_num) _
    have hlog : Nat.log 2 (e - p - 1) = k := by omega
    rw [hlog] at hlt
    omega

/-- A chunk of the run `[p, e)`. -/
lemma carved_chunk {R : ℕ → Prop} (h : p < e) (hR : ∀ q, p ≤ q → q < e → R q) (he : ¬ R e) :
    Carved R p (chunkOrder (pageSize * p) (pageSize * e)) := by
  have hle := two_pow_chunkOrder h
  have hmax := chunkOrder_max h
  generalize chunkOrder (pageSize * p) (pageSize * e) = k at hle hmax ⊢
  have hpos := Nat.two_pow_pos k
  refine ⟨fun i hi => hR _ (by omega) (by omega), fun h0 => hR _ (by omega) ?_, fun hlt hd => ?_⟩
  · obtain ⟨j, rfl⟩ : ∃ j, k = j + 1 := ⟨k - 1, by omega⟩
    have := Nat.two_pow_pos j
    rw [pow_succ] at hle ⊢
    omega
  · have := hmax hlt hd
    exact ⟨e - p, by omega, by rwa [Nat.add_sub_cancel' h.le]⟩

/-! ### All listed blocks -/

/-- A property of every listed block, by its page and its order. -/
def State.All (s : State) (Q : ℕ → ℕ → Prop) : Prop :=
  ∀ k ≤ maxOrder, ∀ a ∈ s.zone.freeLists k, pageSize ∣ a ∧ Q (a / pageSize) k

/-- Carving adds the chunks of the range. -/
lemma carveLoop_all : ∀ (fuel p : ℕ) (s : State), s.All Q → SameBounds z s →
    (∀ c, p ≤ c → c < e → Q c (chunkOrder (pageSize * c) (pageSize * e))) →
    ((carveLoop (pageSize * e) fuel (pageSize * p)).run s).2.All Q ∧
      SameBounds z ((carveLoop (pageSize * e) fuel (pageSize * p)).run s).2
  | 0, p, s, h, hb, _ => ⟨h, hb⟩
  | fuel + 1, p, s, h, hb, hc => by
    unfold carveLoop
    by_cases hlt : p < e
    · rw [if_pos (Nat.mul_lt_mul_of_pos_left hlt pageSize_pos), run_bind, run_modify]
      have hQ := hc p le_rfl hlt
      set k := chunkOrder (pageSize * p) (pageSize * e) with hk
      have hnext : pageSize * p + blockSize k = pageSize * (p + 2 ^ k) := by rw [blockSize_eq]; ring
      rw [hnext]
      refine carveLoop_all fuel (p + 2 ^ k) _ (fun j hj a ha => ?_) (hb.trans (sameBounds_setList _ _ _ _))
        fun c h1 h2 => hc c (le_trans (Nat.le_add_right _ _) h1) h2
      by_cases hjk : j = k
      · rw [hjk] at hj ⊢
        simp only [hjk, addBlock, State.setList, update_self, mem_cons] at ha
        rcases ha with rfl | ha
        · exact ⟨Dvd.intro p rfl, by rwa [Nat.mul_div_cancel_left _ pageSize_pos]⟩
        · exact h k hj a ha
      · simp only [addBlock, State.setList, update_of_ne hjk] at ha
        exact h j hj a ha
    · rw [if_neg (fun h' => hlt (Nat.lt_of_mul_lt_mul_left h'))]
      exact ⟨h, hb⟩

lemma carveRange_all (p e : ℕ) (h : s.All Q) (hb : SameBounds z s)
    (hc : ∀ c, p ≤ c → c < e → Q c (chunkOrder (pageSize * c) (pageSize * e))) :
    ((carveRange (pageSize * p) (pageSize * e)).run s).2.All Q ∧
      SameBounds z ((carveRange (pageSize * p) (pageSize * e)).run s).2 :=
  carveLoop_all _ p s h hb hc

/-! ### Boot -/

/-- Page `p` of region `r` is one that `init_from_regions` links. -/
def RegionFree (z : State) (excl : List (ℕ × ℕ)) (r : ℕ × ℕ) (p : ℕ) : Prop :=
  (regionBounds r).1 ≤ p * pageSize ∧ p * pageSize < (regionBounds r).2 ∧
    isReservedPage z p = false ∧ isExcluded (p * pageSize) excl = false

lemma scanLoop_all {excl : List (ℕ × ℕ)} {r : ℕ × ℕ}
    (he : (regionBounds r).2 = pageSize * e) (hQ : ∀ p k, Carved (RegionFree z excl r) p k → Q p k) :
    ∀ (n p q : ℕ) (inRange : Bool) (s : State), s.All Q → SameBounds z s → p + n = e →
    (regionBounds r).1 ≤ pageSize * p →
    (inRange = true → ∀ c, q ≤ c → c < p → RegionFree z excl r c) →
    ((scanLoop excl (pageSize * e) n (pageSize * p) (pageSize * q) inRange).run s).2.All Q ∧
      SameBounds z ((scanLoop excl (pageSize * e) n (pageSize * p) (pageSize * q) inRange).run s).2
  | 0, p, q, inRange, s, h, hb, hn, _, hr => by
    obtain rfl : p = e := by omega
    unfold scanLoop
    cases inRange
    · exact ⟨h, hb⟩
    · refine carveRange_all q p h hb fun c h1 h2 => hQ _ _ (carved_chunk h2 (fun d h3 h4 => ?_) ?_)
      · exact hr rfl d (le_trans h1 h3) h4
      · -- the region ends here
        rintro ⟨-, hlt, -⟩
        rw [he, mul_comm p] at hlt
        exact lt_irrefl _ hlt
  | n + 1, p, q, inRange, s, h, hb, hn, hlow, hr => by
    unfold scanLoop
    rw [run_bind, run_read, hb.reserved, Nat.mul_div_cancel_left _ pageSize_pos]
    dsimp only
    have hnext : pageSize * p + pageSize = pageSize * (p + 1) := by ring
    have hlow' : (regionBounds r).1 ≤ pageSize * (p + 1) := by omega
    have hfree : (!isReservedPage z p && !isExcluded (pageSize * p) excl) = true ↔ RegionFree z excl r p := by
      have hlt : p * pageSize < (regionBounds r).2 := by
        rw [he, mul_comm]; exact Nat.mul_lt_mul_of_pos_left (by omega) pageSize_pos
      rw [mul_comm] at hlow ⊢
      simp [RegionFree, hlow, hlt]
    rw [hnext]
    cases hf : (!isReservedPage z p && !isExcluded (pageSize * p) excl) <;> cases inRange
    · exact scanLoop_all he hQ n (p + 1) q false s h hb (by omega) hlow' (by simp)
    · have hnot : ¬ RegionFree z excl r p := fun h' => by rw [hfree.mpr h'] at hf; cases hf
      simp only [Bool.not_true, Bool.not_false, Bool.and_self, Bool.false_eq_true, if_false, if_true, run_bind]
      obtain ⟨h1, h2⟩ := carveRange_all q p h hb fun c h1 h2 => hQ _ _ (carved_chunk h2
        (fun d h3 h4 => hr rfl d (le_trans h1 h3) h4) hnot)
      exact scanLoop_all he hQ n (p + 1) q false _ h1 h2 (by omega) hlow' (by simp)
    · refine scanLoop_all he hQ n (p + 1) p true s h hb (by omega) hlow' fun _ c h1 h2 => ?_
      obtain rfl : c = p := by omega
      exact hfree.mp hf
    · refine scanLoop_all he hQ n (p + 1) q true s h hb (by omega) hlow' fun _ c h1 h2 => ?_
      rcases Nat.lt_succ_iff_lt_or_eq.mp h2 with h2 | rfl
      · exact hr rfl c h1 h2
      · exact hfree.mp hf

lemma scanRegions_all {excl : List (ℕ × ℕ)} : ∀ (regions : List (ℕ × ℕ)) (s : State), s.All Q → SameBounds z s →
    (∀ r ∈ regions, ∀ p k, Carved (RegionFree z excl r) p k → Q p k) →
    ((scanRegions excl regions).run s).2.All Q ∧ SameBounds z ((scanRegions excl regions).run s).2
  | [], s, h, hb, _ => ⟨h, hb⟩
  | r :: rest, s, h, hb, hQ => by
    unfold scanRegions
    rw [run_bind]
    obtain ⟨⟨b, h1⟩, ⟨e, h2⟩⟩ := regionBounds_dvd r
    have hscan : ((scanRegion excl r).run s).2.All Q ∧ SameBounds z ((scanRegion excl r).run s).2 := by
      unfold scanRegion
      dsimp only
      split
      · rename_i hlt
        rw [h1, h2] at hlt ⊢
        have hbe : b < e := Nat.lt_of_mul_lt_mul_left hlt
        rw [← Nat.mul_sub, Nat.mul_div_cancel_left _ pageSize_pos]
        exact scanLoop_all h2 (hQ r mem_cons_self) (e - b) b 0 false s h hb (by omega) h1.le (by simp)
      · exact ⟨h, hb⟩
    exact scanRegions_all rest _ hscan.1 hscan.2 fun r' hr' => hQ r' (mem_cons_of_mem _ hr')

/-! ### Reserving -/

/-- A listed block that a range cuts into, and one of the two runs it leaves,
out of which the block of order `k` at page `p` was carved. -/
def Piece (s : State) (rs re p k : ℕ) : Prop :=
  ∃ b ∈ s.blocks, rangeOverlaps b.1 (b.1 + blockSize b.2) (pageSize * rs) (pageSize * re) = true ∧
    (Carved (fun q => b.1 / pageSize ≤ q ∧ q < rs) p k ∨ Carved (fun q => re ≤ q ∧ q < b.1 / pageSize + 2 ^ b.2) p k)

/-- Listed after the orders below `i` are done: a block that was there, clear
of the range if its order is done, or a piece. -/
def Remains (s0 : State) (rs re i p k : ℕ) : Prop :=
  (pageSize * p ∈ s0.zone.freeLists k ∧
    (k < i → rangeOverlaps (pageSize * p) (pageSize * p + blockSize k) (pageSize * rs) (pageSize * re) = false)) ∨
  Piece s0 rs re p k

lemma carveAll_all : ∀ (l : List (ℕ × ℕ)) (s : State), s.All Q → SameBounds z s →
    (∀ r ∈ l, ∃ p e, r = (pageSize * p, pageSize * e) ∧
      ∀ c, p ≤ c → c < e → Q c (chunkOrder (pageSize * c) (pageSize * e))) →
    ((carveAll l).run s).2.All Q ∧ SameBounds z ((carveAll l).run s).2
  | [], s, h, hb, _ => ⟨h, hb⟩
  | r :: rest, s, h, hb, hl => by
    obtain ⟨p, e, rfl, hc⟩ := hl r mem_cons_self
    unfold carveAll
    rw [run_bind]
    obtain ⟨h1, h2⟩ := carveRange_all p e h hb hc
    exact carveAll_all rest _ h1 h2 fun r' hr' => hl r' (mem_cons_of_mem _ hr')

/-- A piece lies outside the range. -/
lemma Piece.clear {k : ℕ} (h : Piece s rs re p k) :
    rangeOverlaps (pageSize * p) (pageSize * p + blockSize k) (pageSize * rs) (pageSize * re) = false := by
  have hpos := Nat.two_pow_pos k
  have hend : pageSize * p + blockSize k = pageSize * (p + 2 ^ k) := by rw [blockSize_eq]; ring
  rw [hend]
  simp only [rangeOverlaps, Bool.and_eq_false_iff, decide_eq_false_iff_not, not_lt, gt_iff_lt,
    Nat.mul_le_mul_left_iff pageSize_pos]
  obtain ⟨b, -, -, hc | hc⟩ := h
  · have := (hc.1 (2 ^ k - 1) (by omega)).2
    omega
  · have := (hc.1 0 hpos).1
    omega

lemma carveLeftover_piece {C i : ℕ} (hC : pageSize * C ∈ s0.zone.freeLists i) (hi : i ≤ maxOrder)
    (hov : rangeOverlaps (pageSize * C) (pageSize * C + blockSize i) (pageSize * rs) (pageSize * re) = true)
    {r : ℕ × ℕ} (hr : r ∈ leftover (pageSize * rs) (pageSize * re) (blockSize i) (pageSize * C)) :
    ∃ p e, r = (pageSize * p, pageSize * e) ∧
      ∀ c, p ≤ c → c < e → Piece s0 rs re c (chunkOrder (pageSize * c) (pageSize * e)) := by
  have hend : pageSize * C + blockSize i = pageSize * (C + 2 ^ i) := by rw [blockSize_eq]; ring
  have hb : (pageSize * C, i) ∈ s0.blocks := mem_blocks.mpr ⟨hi, hC⟩
  have hdiv : pageSize * C / pageSize = C := Nat.mul_div_cancel_left _ pageSize_pos
  simp only [leftover, mem_append, mem_ite_nil_right, mem_singleton] at hr
  rcases hr with ⟨-, rfl⟩ | ⟨-, rfl⟩
  · refine ⟨C, rs, rfl, fun c h1 h2 => ⟨_, hb, hov, .inl ?_⟩⟩
    rw [hdiv]
    exact carved_chunk h2 (fun q h3 h4 => ⟨le_trans h1 h3, h4⟩) fun h => lt_irrefl _ h.2
  · refine ⟨re, C + 2 ^ i, by rw [hend], fun c h1 h2 => ⟨_, hb, hov, .inr ?_⟩⟩
    rw [hdiv]
    exact carved_chunk h2 (fun q h3 h4 => ⟨le_trans h1 h3, h4⟩) fun h => lt_irrefl _ h.2

lemma removeRange_all {i : ℕ} (hi : i ≤ maxOrder) (h : s.All (Remains s0 rs re i)) (hb : SameBounds z s) :
    ((removeRange (pageSize * rs) (pageSize * re) i).run s).2.All (Remains s0 rs re (i + 1)) ∧
      SameBounds z ((removeRange (pageSize * rs) (pageSize * re) i).run s).2 := by
  unfold removeRange
  rw [run_bind, run_atomically]
  refine carveAll_all _ _ (fun k hk a ha => ?_) (hb.trans (sameBounds_setList _ _ _ _)) fun r hr => ?_
  · -- what is still listed
    by_cases hki : k = i
    · subst hki
      simp only [takeRange, State.setList, update_self, mem_filter] at ha
      obtain ⟨⟨p, rfl⟩, hp⟩ := h k hk a ha.1
      rw [Nat.mul_div_cancel_left _ pageSize_pos] at hp ⊢
      refine ⟨Dvd.intro p rfl, hp.imp (fun h0 => ⟨h0.1, fun _ => ?_⟩) id⟩
      simpa using ha.2
    · simp only [takeRange, State.setList, update_of_ne hki] at ha
      obtain ⟨hd, hp⟩ := h k hk a ha
      exact ⟨hd, hp.imp (fun h0 => ⟨h0.1, fun hlt => h0.2 (by omega)⟩) id⟩
  · -- what is carved again
    obtain ⟨a, ha, hr⟩ := mem_flatMap.mp (mem_of_mem_take hr)
    obtain ⟨ha, hov⟩ := mem_filter.mp ha
    obtain ⟨⟨C, rfl⟩, hp⟩ := h i hi a ha
    rw [Nat.mul_div_cancel_left _ pageSize_pos] at hp
    rcases hp with ⟨hC, -⟩ | hp
    · obtain ⟨p, e, hpe, hc⟩ := carveLeftover_piece hC hi hov hr
      exact ⟨p, e, hpe, fun c h1 h2 => .inr (hc c h1 h2)⟩
    · rw [hp.clear] at hov
      cases hov

lemma removeOrders_all : ∀ (n i : ℕ) (s : State), i + n ≤ maxOrder + 1 → s.All (Remains s0 rs re i) → SameBounds z s →
    ((removeOrders (pageSize * rs) (pageSize * re) (List.range' i n)).run s).2.All
        (Remains s0 rs re (i + n)) ∧
      SameBounds z ((removeOrders (pageSize * rs) (pageSize * re) (List.range' i n)).run s).2
  | 0, i, s, _, h, hb => ⟨h, hb⟩
  | n + 1, i, s, hn, h, hb => by
    rw [List.range'_succ]
    unfold removeOrders
    rw [run_bind]
    obtain ⟨h1, h2⟩ := removeRange_all (by omega) h hb
    have h3 := removeOrders_all n (i + 1) _ (by omega) h1 h2
    rwa [add_assoc, add_comm 1 n] at h3

/-- After a range of pages is taken out of every list. -/
lemma removeOrders_remains (rs re : ℕ) (hal : ∀ k ≤ maxOrder, ∀ a ∈ s.zone.freeLists k, blockSize k ∣ a) :
    ((removeOrders (pageSize * rs) (pageSize * re) (List.range (maxOrder + 1))).run s).2.All
        (Remains s rs re (maxOrder + 1)) ∧
      SameBounds s ((removeOrders (pageSize * rs) (pageSize * re) (List.range (maxOrder + 1))).run s).2 := by
  have h0 : s.All (Remains s rs re 0) := fun k hk a ha => by
    obtain ⟨p, rfl⟩ := pageSize_dvd_of_block (hal k hk a ha)
    rw [Nat.mul_div_cancel_left _ pageSize_pos]
    exact ⟨Dvd.intro p rfl, .inl ⟨ha, by omega⟩⟩
  have h := removeOrders_all (maxOrder + 1) 0 s (by omega) h0 (SameBounds.rfl s)
  rwa [← range_eq_range', zero_add] at h

end LodaxOS.Phys
