/-
# When the allocator finds every aligned run of free pages

Free blocks without listed buddies are merged as far as they go: a run of
`2 ^ k` free pages that starts at a multiple of `2 ^ k` lies in one block of
order `k` or more (`unbuddied_complete`). Allocation and free keep buddies
apart from each other in every interleaving. Carving does not:
`carve_range` takes the order of a chunk from one page less than is left, so
two buddies stay at every even end of a run, and nothing merges the runs of
adjacent regions. The allocator is complete from every boot and along every
run that avoids these ends (`complete_of_clean`), and four free pages at 64 KB
are enough for it to miss one (`complete_fails`).
-/
import LodaxOS.Phys.Carve
import LodaxOS.Phys.Conserve

namespace LodaxOS.Phys

open Sections Words Prog
open Nat (mul_div_cancel_left two_pow_pos)

variable {z : State}

/-! ### Completeness -/

variable {s : State} {M : Multiset ℕ} {b : ℕ × ℕ} {p k n rs re : ℕ} {regions excl : List (ℕ × ℕ)}

/-- A page lies in one listed block only. -/
lemma Inv.block_unique (h : Inv z s M) {b' : ℕ × ℕ} (hb : b ∈ s.blocks)
    (hb' : b' ∈ s.blocks) (hp : p ∈ rangePages b.1 (2 ^ b.2)) (hp' : p ∈ rangePages b'.1 (2 ^ b'.2)) :
    b = b' := by
  have hn : s.free.Nodup := (Multiset.nodup_add.mp h.nodup).1
  rw [free_eq_blocks, Multiset.coe_nodup, List.nodup_flatMap] at hn
  by_contra hne
  have : Std.Symm (Function.onFun List.Disjoint fun b : ℕ × ℕ => List.range' (b.1 / pageSize) (2 ^ b.2)) :=
    ⟨fun _ _ h => List.Disjoint.symm h⟩
  exact hn.2.forall hb hb' hne hp hp'

/-- The pages of an aligned block are those with the same quotient. -/
lemma mem_block_iff {a : ℕ} (ha : blockSize k ∣ a) : p ∈ rangePages a (2 ^ k) ↔ p / 2 ^ k = a / pageSize / 2 ^ k := by
  obtain ⟨n, hn⟩ := (blockSize_dvd_iff (pageSize_dvd_of_block ha)).mp ha
  have hpos := two_pow_pos k
  rw [mem_rangePages, hn, mul_div_cancel_left _ hpos, Nat.div_eq_iff hpos, mul_comm]
  omega

lemma exists_block (hp : p ∈ s.free) : ∃ b ∈ s.blocks, p ∈ rangePages b.1 (2 ^ b.2) := by
  rw [free_eq_blocks, Multiset.mem_coe] at hp
  exact List.mem_flatMap.mp hp

lemma div_two_pow_congr {x y j : ℕ} (hjk : j ≤ k) (h : x / 2 ^ j = y / 2 ^ j) : x / 2 ^ k = y / 2 ^ k := by
  obtain ⟨d, rfl⟩ := Nat.exists_eq_add_of_le hjk
  rw [pow_add, ← Nat.div_div_eq_div_mul, ← Nat.div_div_eq_div_mul, h]

/-- The other half of the block of the next order, by page numbers. -/
def sibling (n : ℕ) : ℕ := if n % 2 = 0 then n + 1 else n - 1

lemma Unbuddied.sibling (hu : Unbuddied s) {j : ℕ} (hj : j < maxOrder)
    (h : pageSize * (n * 2 ^ j) ∈ s.zone.freeLists j) :
    pageSize * (sibling n * 2 ^ j) ∉ s.zone.freeLists j := by
  have hup : ∀ m, pageSize * (2 * m * 2 ^ j) ^^^ blockSize j = pageSize * ((2 * m + 1) * 2 ^ j) := by
    intro m
    have hd : blockSize (j + 1) ∣ pageSize * (2 * m * 2 ^ j) := ⟨m, by rw [blockSize_eq, pow_succ]; ring⟩
    rw [upper_buddy hd, blockSize_eq]
    ring
  intro h'
  unfold Phys.sibling at h'
  rcases Nat.even_or_odd' n with ⟨m, rfl | rfl⟩
  · rw [if_pos (by omega), ← hup m] at h'
    exact hu j hj _ h h'
  · rw [if_neg (by omega), Nat.add_sub_cancel] at h'
    rw [← hup m] at h
    exact hu j hj _ h' h

/-- Without listed buddies, an aligned run of free pages lies in a block of
its size or more. -/
lemma unbuddied_complete (h : Inv z s M) (hu : Unbuddied s) {q : ℕ}
    (hk : k ≤ maxOrder) (hrun : ∀ i < 2 ^ k, q * 2 ^ k + i ∈ s.free) : ∃ b ∈ s.blocks, k ≤ b.2 := by
  by_contra! hno
  have hpos := two_pow_pos k
  have hfree : ∀ p, p / 2 ^ k = q → p ∈ s.free := by
    rintro p rfl
    have := hrun (p % 2 ^ k) (Nat.mod_lt _ hpos)
    rwa [Nat.div_add_mod'] at this
  -- the block around a page of the run begins in the run
  have hblock : ∀ p, p / 2 ^ k = q → ∃ b ∈ s.blocks, p / 2 ^ b.2 = b.1 / pageSize / 2 ^ b.2 ∧
      b.1 / pageSize / 2 ^ k = q := by
    intro p hp
    obtain ⟨b, hb, hpb⟩ := exists_block (hfree p hp)
    rw [mem_block_iff (h.block_dvd hb)] at hpb
    exact ⟨b, hb, hpb, (div_two_pow_congr (hno b hb).le hpb).symm.trans hp⟩
  -- a block of least order among these
  have hex : ∃ j, ∃ b ∈ s.blocks, b.2 = j ∧ b.1 / pageSize / 2 ^ k = q := by
    obtain ⟨b, hb, -, hq⟩ := hblock (q * 2 ^ k) (Nat.mul_div_cancel _ hpos)
    exact ⟨b.2, b, hb, rfl, hq⟩
  classical
  obtain ⟨⟨a, j⟩, hb, hj, hq⟩ := Nat.find_spec hex
  have hmin := fun i => Nat.find_min' hex (m := i)
  rw [← hj] at hmin
  dsimp only at hmin hq
  have hjk : j < k := hno _ hb
  obtain ⟨n, hn⟩ := (blockSize_dvd_iff (pageSize_dvd_of_block (h.block_dvd hb))).mp (h.block_dvd hb)
  dsimp only at hn
  rw [mul_comm] at hn
  have hposj := two_pow_pos j
  -- its sibling is in the run too
  have hhalf : sibling n * 2 ^ j / 2 ^ (j + 1) = a / pageSize / 2 ^ (j + 1) := by
    rw [hn, pow_succ, ← Nat.div_div_eq_div_mul, ← Nat.div_div_eq_div_mul, Nat.mul_div_cancel _ hposj,
      Nat.mul_div_cancel _ hposj]
    unfold sibling
    split <;> omega
  obtain ⟨⟨a', j'⟩, hb', hs, hq'⟩ := hblock (sibling n * 2 ^ j)
    ((div_two_pow_congr (by omega : j + 1 ≤ k) hhalf).trans hq)
  dsimp only at hs hq'
  have hle : j ≤ j' := hmin j' ⟨_, hb', rfl, hq'⟩
  rcases Nat.lt_or_eq_of_le hle with hlt | rfl
  · -- a larger block around the sibling would hold both
    have hmem : a / pageSize ∈ rangePages a' (2 ^ j') := by
      rw [mem_block_iff (h.block_dvd hb'), ← hs]
      exact (div_two_pow_congr hlt hhalf).symm
    have hself : a / pageSize ∈ rangePages a (2 ^ j) :=
      mem_rangePages.mpr ⟨le_rfl, Nat.lt_add_of_pos_right hposj⟩
    have := h.block_unique hb hb' hself hmem
    simp only [Prod.mk.injEq] at this
    omega
  · obtain ⟨n', hn'⟩ := (blockSize_dvd_iff (pageSize_dvd_of_block (h.block_dvd hb'))).mp (h.block_dvd hb')
    dsimp only at hn'
    rw [hn', Nat.mul_div_cancel _ hposj, mul_div_cancel_left _ hposj] at hs
    have hm : j < maxOrder := by omega
    have ha : pageSize * (n * 2 ^ j) = a := by
      rw [← hn]; exact Nat.mul_div_cancel' (pageSize_dvd_of_block (h.block_dvd hb))
    have ha' : pageSize * (sibling n * 2 ^ j) = a' := by
      rw [hs, mul_comm n', ← hn']; exact Nat.mul_div_cancel' (pageSize_dvd_of_block (h.block_dvd hb'))
    refine hu.sibling (n := n) hm (by rw [ha]; exact (mem_blocks.mp hb).2) ?_
    rw [ha']
    exact (mem_blocks.mp hb').2

/-! ### Reserving -/

/-- The pages `[rs, re)` cut the listed blocks only where no buddies stay
behind: there are some, they begin at an odd page inside a block, and they
end inside a block only before its last page. -/
def CleanCut (s : State) (rs re : ℕ) : Prop :=
  ∀ b ∈ s.blocks, rangeOverlaps b.1 (b.1 + blockSize b.2) (pageSize * rs) (pageSize * re) = true →
    rs < re ∧ (b.1 / pageSize < rs → rs % 2 = 1) ∧ (re < b.1 / pageSize + 2 ^ b.2 → re + 1 = b.1 / pageSize + 2 ^ b.2)

instance (s : State) (rs re : ℕ) : Decidable (CleanCut s rs re) :=
  inferInstanceAs (Decidable (∀ b ∈ s.blocks, _ → _))

lemma overlap_pages (hb : pageSize ∣ b.1)
    (h : rangeOverlaps b.1 (b.1 + blockSize b.2) (pageSize * rs) (pageSize * re) = true) :
    b.1 / pageSize < re ∧ rs < b.1 / pageSize + 2 ^ b.2 := by
  obtain ⟨C, hC⟩ := hb
  have hend : b.1 + blockSize b.2 = pageSize * (C + 2 ^ b.2) := by rw [hC, blockSize_eq]; ring
  rw [hend, hC] at h
  simp only [rangeOverlaps, Bool.and_eq_true, decide_eq_true_eq, gt_iff_lt, Nat.mul_lt_mul_left pageSize_pos] at h
  rw [hC, mul_div_cancel_left _ pageSize_pos]
  exact h

/-- A piece and its buddy lie in the block the piece was cut from, which is
larger. -/
lemma Piece.parent (h : Inv z s M) (hp : Piece s rs re p k) (hn : 2 ^ (k + 1) ∣ n) (hpn : p = n ∨ p = n + 2 ^ k) :
    ∃ b ∈ s.blocks, k < b.2 ∧ (∀ i < 2 ^ (k + 1), n + i ∈ rangePages b.1 (2 ^ b.2)) ∧
      rangeOverlaps b.1 (b.1 + blockSize b.2) (pageSize * rs) (pageSize * re) = true ∧
      (Carved (fun q => b.1 / pageSize ≤ q ∧ q < rs) p k ∨
        Carved (fun q => re ≤ q ∧ q < b.1 / pageSize + 2 ^ b.2) p k) := by
  obtain ⟨b, hb, hov, hc⟩ := hp
  obtain ⟨h1, h2⟩ := overlap_pages (pageSize_dvd_of_block (h.block_dvd hb)) hov
  have hpos := two_pow_pos k
  have hin : b.1 / pageSize ≤ p ∧ p + 2 ^ k ≤ b.1 / pageSize + 2 ^ b.2 ∧ 2 ^ k < 2 ^ b.2 := by
    rcases hc with hc | hc
    · have h3 := hc.1 0 hpos
      have h4 := hc.1 (2 ^ k - 1) (by omega)
      omega
    · have h3 := hc.1 0 hpos
      have h4 := hc.1 (2 ^ k - 1) (by omega)
      omega
  have hk : k < b.2 := (Nat.pow_lt_pow_iff_right (by norm_num)).mp hin.2.2
  refine ⟨b, hb, hk, fun i hi => ?_, hov, hc⟩
  have hpage : p ∈ rangePages b.1 (2 ^ b.2) := mem_rangePages.mpr ⟨hin.1, by omega⟩
  have hsame : ∀ j < 2 ^ (k + 1), (n + j) / 2 ^ (k + 1) = n / 2 ^ (k + 1) := by
    obtain ⟨m, rfl⟩ := hn
    intro j hj
    have hpos' := two_pow_pos (k + 1)
    rw [Nat.mul_add_div hpos', Nat.div_eq_of_lt hj, mul_div_cancel_left _ hpos', add_zero]
  have hp' : p / 2 ^ (k + 1) = n / 2 ^ (k + 1) := by
    rcases hpn with rfl | rfl
    · rfl
    · exact hsame (2 ^ k) (by rw [pow_succ]; omega)
  rw [mem_block_iff (h.block_dvd hb)] at hpage ⊢
  rw [← hpage]
  exact div_two_pow_congr hk ((hsame i hi).trans hp'.symm)

/-- A block that stayed is not the buddy of a piece. -/
lemma Piece.not_kept (h : Inv z s M) {p' : ℕ}
    (hp : Piece s rs re p k) (hn : 2 ^ (k + 1) ∣ n) (hpn : p = n ∨ p = n + 2 ^ k)
    (hpn' : p' = n ∨ p' = n + 2 ^ k) (hk : k ≤ maxOrder) : pageSize * p' ∉ s.zone.freeLists k := by
  intro hkept
  obtain ⟨b, hb, hkb, hin, -, -⟩ := hp.parent h hn hpn
  have hpos := two_pow_pos k
  have hmem : p' ∈ rangePages b.1 (2 ^ b.2) := by
    rcases hpn' with rfl | rfl
    · exact hin 0 (two_pow_pos _)
    · exact hin (2 ^ k) (by rw [pow_succ]; omega)
  have hself : p' ∈ rangePages (pageSize * p') (2 ^ k) := by
    rw [mem_rangePages, mul_div_cancel_left _ pageSize_pos]; omega
  have := h.block_unique hb (mem_blocks.mpr ⟨hk, hkept⟩ : (pageSize * p', k) ∈ s.blocks) hmem hself
  rw [this] at hkb
  exact lt_irrefl _ hkb

/-- Two pieces are not buddies, if the range cuts cleanly. -/
lemma Piece.not_pair (h : Inv z s M)
    (hcut : CleanCut s rs re) (hk : k < maxOrder) (hn : 2 ^ (k + 1) ∣ n) (hp : Piece s rs re n k)
    (hp' : Piece s rs re (n + 2 ^ k) k) : False := by
  obtain ⟨b, hb, -, hin, hov, hc⟩ := hp.parent h hn (.inl rfl)
  obtain ⟨b', hb', -, hin', -, hc'⟩ := hp'.parent h hn (.inr rfl)
  obtain rfl := h.block_unique hb hb' (hin 0 (two_pow_pos _)) (hin' 0 (two_pow_pos _))
  obtain ⟨hlt, hodd, hlast⟩ := hcut b hb hov
  have hpos := two_pow_pos k
  rcases hc with hc | hc <;> rcases hc' with hc' | hc'
  · -- two single pages before an odd page
    obtain ⟨rfl, hR⟩ := carved_pair hc hc' hk hn
    have h1 := hc.1 0 hpos
    have h2 := hc'.1 0 hpos
    obtain ⟨m, rfl⟩ := hn
    omega
  · have h1 := hc.1 (2 ^ k - 1) (by omega)
    have h2 := hc'.1 0 hpos
    omega
  · have h1 := hc.1 0 hpos
    have h2 := hc'.1 0 hpos
    omega
  · -- two single pages where only the last one is left
    have h1 := hc.1 0 hpos
    have h2 := hc'.1 0 hpos
    omega

lemma removeOrders_unbuddied (h : Inv z s M) (hu : Unbuddied s) (hle : rs ≤ re) (hcut : CleanCut s rs re) :
    Unbuddied ((removeOrders (pageSize * rs) (pageSize * re) (List.range (maxOrder + 1))).run s).2 := by
  obtain ⟨hrem, -⟩ := removeOrders_remains rs re h.aligned
  obtain ⟨_, hI, rfl⟩ := (removeOrders_safe (Dvd.intro rs rfl) (Dvd.intro re rfl)
    (Nat.mul_le_mul_left _ hle) (List.range (maxOrder + 1)) fun k hk => by
      rw [List.mem_range] at hk; omega).run (F := M) (by rwa [zero_add])
  refine unbuddied_of_pairs hI.aligned fun k hk a ha hd hb => ?_
  obtain ⟨⟨n, rfl⟩, hra⟩ := hrem k hk.le a ha
  have hnext : pageSize * n + blockSize k = pageSize * (n + 2 ^ k) := by rw [blockSize_eq]; ring
  have hn : 2 ^ (k + 1) ∣ n := by
    have := (blockSize_dvd_iff (Dvd.intro n rfl)).mp hd
    rwa [mul_div_cancel_left _ pageSize_pos] at this
  rw [hnext] at hb
  obtain ⟨-, hrb⟩ := hrem k hk.le _ hb
  rw [mul_div_cancel_left _ pageSize_pos] at hra hrb
  rcases hra with ⟨hka, -⟩ | hpa <;> rcases hrb with ⟨hkb, -⟩ | hpb
  · refine hu k hk _ hka ?_
    rwa [upper_buddy hd, hnext]
  · exact hpb.not_kept h hn (.inr rfl) (.inl rfl) hk.le hka
  · exact hpa.not_kept h hn (.inl rfl) (.inr rfl) hk.le hkb
  · exact hpa.not_pair h hcut hk hn hpb

/-! ### Boot -/

/-- Where two pages of a pair are free, the next page is free too and all
three are in one region. -/
def CleanBoot (z : State) (regions excl : List (ℕ × ℕ)) : Prop :=
  ∀ r ∈ regions, ∀ r' ∈ regions, ∀ q, RegionFree z excl r (2 * q) → RegionFree z excl r' (2 * q + 1) →
    r = r' ∧ RegionFree z excl r (2 * q + 2)

/-- A page is free in one region only. -/
lemma RegionFree.unique (hd : regions.Pairwise RangesDisjoint)
    (he : ∀ r ∈ regions, r.1 + r.2 < 2 ^ 64) {r r' : ℕ × ℕ} (hr : r ∈ regions) (hr' : r' ∈ regions)
    (h : RegionFree z excl r p) (h' : RegionFree z excl r' p) : r = r' := by
  have : Std.Symm RangesDisjoint := ⟨fun a b hab x h1 h2 hx => hab x hx.1 hx.2 ⟨h1, h2⟩⟩
  by_contra hne
  have h1 := regionBounds_within (he r hr) (by have := h.1; have := h.2.1; omega)
  have h2 := regionBounds_within (he r' hr') (by have := h'.1; have := h'.2.1; omega)
  exact hd.forall hr hr' hne (p * pageSize) (h1.1.trans h.1) (lt_of_lt_of_le h.2.1 h1.2)
    ⟨h2.1.trans h'.1, lt_of_lt_of_le h'.2.1 h2.2⟩

lemma scanRegions_unbuddied (hd : regions.Pairwise RangesDisjoint)
    (he : ∀ r ∈ regions, r.1 + r.2 < 2 ^ 64) (hc : CleanBoot z regions excl)
    (h0 : ∀ k, s.zone.freeLists k = []) (hb : SameBounds z s)
    (hal : ∀ k ≤ maxOrder, ∀ a ∈ ((scanRegions excl regions).run s).2.zone.freeLists k, blockSize k ∣ a) :
    Unbuddied ((scanRegions excl regions).run s).2 := by
  have hall : ((scanRegions excl regions).run s).2.All
      fun p k => ∃ r ∈ regions, Carved (RegionFree z excl r) p k :=
    (scanRegions_all regions s (fun k _ a ha => by rw [h0 k] at ha; exact absurd ha List.not_mem_nil) hb
      fun r hr p k h => ⟨r, hr, h⟩).1
  refine unbuddied_of_pairs hal fun k hk a ha hd' hb' => ?_
  obtain ⟨⟨n, rfl⟩, r, hr, hcar⟩ := hall k hk.le a ha
  have hnext : pageSize * n + blockSize k = pageSize * (n + 2 ^ k) := by rw [blockSize_eq]; ring
  rw [hnext] at hb'
  obtain ⟨-, r', hr', hcar'⟩ := hall k hk.le _ hb'
  have hn := (blockSize_dvd_iff (Dvd.intro n rfl)).mp hd'
  rw [mul_div_cancel_left _ pageSize_pos] at hcar hcar' hn
  have hpos := two_pow_pos k
  by_cases h1 : k = 0
  · subst h1
    obtain ⟨q, rfl⟩ := hn
    obtain ⟨rfl, hfree⟩ := hc r hr r' hr' q (hcar.1 0 hpos) (hcar'.1 0 hpos)
    exact (carved_pair hcar hcar' hk (Dvd.intro q rfl)).2 hfree
  · -- a block of order 1 or more is followed by a page of its own run
    obtain rfl := RegionFree.unique hd he hr hr' (hcar.2.1 h1) (hcar'.1 0 hpos)
    exact h1 (carved_pair hcar hcar' hk hn).1

/-- The page of the boot information is reserved. -/
lemma bootinfo_reserved (regions : List (ℕ × ℕ)) (bi ks kn : ℕ) (s : State) :
    isReservedPage (resetZone regions bi ks kn s) (alignDown bi pageSize / pageSize) = true := by
  have hlt : alignDown bi pageSize / pageSize < usizeMax :=
    lt_of_le_of_lt (Nat.div_le_div_right Nat.and_le_right) (by decide)
  have hpages : (resetZone regions bi ks kn s).bootinfoReservedPages = 1 := by
    change (bootInfoSize + pageSize - 1) / pageSize = 1
    decide
  unfold isReservedPage
  split
  · rfl
  · rw [if_pos]
    refine ⟨hlt.ne, by rw [hpages]; decide, le_rfl, ?_⟩
    rw [hpages]
    exact Nat.lt_succ_self _

lemma init_unbuddied (hd : regions.Pairwise RangesDisjoint)
    (he : ∀ r ∈ regions, r.1 + r.2 < 2 ^ 64) (bi ks kn : ℕ)
    (hc : CleanBoot (resetZone regions bi ks kn State.boot) regions excl) :
    Unbuddied ((initFromRegions regions bi ks kn excl).run State.boot).2 := by
  have hI := scan_inv hd he bi ks kn State.boot excl
  have hu := scanRegions_unbuddied hd he hc (fun _ => rfl) (SameBounds.rfl _) hI.aligned
  have hres := bootinfo_reserved regions bi ks kn State.boot
  obtain ⟨p, hp⟩ := pageSize_dvd_alignDown bi
  rw [hp, mul_div_cancel_left _ pageSize_pos] at hres
  rw [initFromRegions_run]
  have hend : alignDown bi pageSize + (bootInfoSize + pageSize - 1) / pageSize * pageSize = pageSize * (p + 1) := by
    rw [hp, show (bootInfoSize + pageSize - 1) / pageSize = 1 by decide]; ring
  dsimp only
  rw [hend, hp]
  -- its page is in no block, so nothing is cut
  refine removeOrders_unbuddied hI hu (Nat.le_succ p) fun b hb hov => ?_
  obtain ⟨h1, h2⟩ := overlap_pages (pageSize_dvd_of_block (hI.block_dvd hb)) hov
  have := (hI.block_usable hb (mem_rangePages.mpr ⟨by omega, h2⟩)).2.2
  rw [hres] at this
  cases this

/-! ### Runs -/

/-- A call that does not reserve, or cuts cleanly. -/
def Call.CutsClean (s : State) : Call → Prop
  | .reserveRange start n => CleanCut s (alignDown start pageSize / pageSize)
      (alignUp (satAdd start (n * pageSize % 2 ^ 64)) pageSize / pageSize)
  | _ => True

instance (s : State) : ∀ c : Call, Decidable (c.CutsClean s)
  | .reserveRange _ _ => inferInstanceAs (Decidable (CleanCut _ _ _))
  | .allocOrder _ | .allocPages _ | .freeOrder _ _ | .freePages _ _ | .refPage _ | .unrefPage _ =>
    .isTrue trivial

lemma step_unbuddied {F : Multiset ℕ} {c : Call} {x y : State × Multiset (ℕ × ℕ)}
    (hx : CallerInv (InvWith Unbuddied z) F x) (hc : c.CutsClean x.1) (h : c.step x = some y) :
    CallerInv (InvWith Unbuddied z) F y := by
  by_cases hk : c.KeepsBuddies
  · exact step_keeps hx h (Call.safe_stable unbuddied_stable hk)
  · obtain ⟨a, n, rfl⟩ : ∃ a n, c = .reserveRange a n := by
      cases c with
      | reserveRange a n => exact ⟨a, n, rfl⟩
      | _ => exact absurd trivial hk
    obtain ⟨hI, hok⟩ := step_keeps (I := Inv z) ⟨hx.1.2, hx.2⟩ h (Call.safe _)
    refine ⟨⟨?_, hI⟩, hok⟩
    obtain ⟨rest, -, rfl⟩ := step_eq h
    simp only [Call.prog, run_bind, run_pure, reserveRange]
    simp only [Call.CutsClean] at hc
    have hle := alignDown_le_alignUp (y := n * pageSize % 2 ^ 64) a.isLt
    obtain ⟨rs, hrs⟩ := pageSize_dvd_alignDown a
    obtain ⟨re, hre⟩ := pageSize_dvd_alignUp (satAdd a (n * pageSize % 2 ^ 64))
    rw [hrs, hre] at hc hle ⊢
    rw [mul_div_cancel_left _ pageSize_pos, mul_div_cancel_left _ pageSize_pos] at hc
    exact removeOrders_unbuddied hx.1.2 hx.1.1 (Nat.le_of_mul_le_mul_left hle pageSize_pos) hc

lemma runCalls_unbuddied {F : Multiset ℕ} : ∀ (cs : List Call) (x y : State × Multiset (ℕ × ℕ)),
    EveryCall (fun s c => c.CutsClean s) cs x → CallerInv (InvWith Unbuddied z) F x →
    runCalls cs x = some y → CallerInv (InvWith Unbuddied z) F y
  | [], x, y, _, hx, h => by
    cases h
    exact hx
  | c :: cs, x, y, hc, hx, h => by
    obtain ⟨w, hw, h⟩ := Option.bind_eq_some_iff.mp h
    obtain ⟨hc, hcs⟩ := (EveryCall.tail hw).mp hc
    exact runCalls_unbuddied cs w y hcs (step_unbuddied hx hc hw) h

/-- A block of the order or above is found. -/
lemma nextBlock_ne_none (hb : b ∈ s.blocks) (hk : k ≤ b.2) :
    nextBlock s k ≠ none := by
  obtain ⟨hmax, hmem⟩ := mem_blocks.mp hb
  intro hnone
  have h := List.findSome?_eq_none_iff.mp hnone b.2 (List.mem_range'_1.mpr (by omega))
  rw [Option.map_eq_none_iff, List.head?_eq_none_iff] at h
  rw [h] at hmem
  exact absurd hmem List.not_mem_nil

/-- As long as a page is free, one is allocated. -/
lemma allocPage_some (h : 0 < s.free.card) :
    ∃ a, (allocPage.run s).1 = some a ∧ (allocPage.run s).2.free.card + 1 = s.free.card := by
  obtain ⟨p, hp⟩ := Multiset.exists_mem_of_ne_zero (Multiset.card_pos.mp h)
  obtain ⟨b, hb, -⟩ := exists_block hp
  obtain ⟨a, ha⟩ := Option.ne_none_iff_exists'.mp (nextBlock_ne_none hb (Nat.zero_le b.2))
  have hrun := allocOrder_run s (Nat.zero_le maxOrder)
  rw [ha] at hrun
  obtain ⟨hsome, hfree, -⟩ := hrun
  refine ⟨a, hsome, ?_⟩
  rw [← hfree, Multiset.card_add]
  simp [allocPage, rangePages]

/-- From a clean boot and along clean calls, no two buddies are listed, and
`alloc_order` fails only where no aligned run of free pages is left. -/
theorem complete_of_clean {regions : List (ℕ × ℕ)} (hd : regions.Pairwise RangesDisjoint)
    (he : ∀ r ∈ regions, r.1 + r.2 < 2 ^ 64) (bi ks kn : ℕ) {excl : List (ℕ × ℕ)}
    (hboot : CleanBoot (resetZone regions bi ks kn State.boot) regions excl) {calls : List Call}
    (hclean : EveryCall (fun s c => c.CutsClean s) calls
      (((initFromRegions regions bi ks kn excl).run State.boot).2, 0)) {x : State × Multiset (ℕ × ℕ)}
    (hrun : runCalls calls (((initFromRegions regions bi ks kn excl).run State.boot).2, 0) = some x) :
    Unbuddied x.1 ∧ ∀ k ≤ maxOrder, ((allocOrder k).run x.1).1 = none →
      ¬ ∃ q, ∀ i < 2 ^ k, q * 2 ^ k + i ∈ x.1.free := by
  have h0 : CallerInv (InvWith Unbuddied (resetZone regions bi ks kn State.boot)) 0
      (((initFromRegions regions bi ks kn excl).run State.boot).2, 0) :=
    ⟨⟨init_unbuddied hd he bi ks kn hboot, by simpa using init_inv hd he bi ks kn excl⟩, by simp⟩
  obtain ⟨⟨hu, hI⟩, -⟩ := runCalls_unbuddied calls _ x hclean h0 hrun
  refine ⟨hu, fun k hk hnone => ?_⟩
  rintro ⟨q, hq⟩
  obtain ⟨b, hb, hkb⟩ := unbuddied_complete hI hu hk hq
  have halloc := allocOrder_run x.1 hk
  cases hn : nextBlock x.1 k with
  | none => exact nextBlock_ne_none hb hkb hn
  | some =>
    rw [hn] at halloc
    rw [halloc.1] at hnone
    cases hnone

/-- The five pages at 64 KB, of which one is taken and one reserved. -/
theorem complete_of_clean_five : ∃ x, runCalls [.allocOrder 0, .reserveRange 0x13000 1] (fivePages, 0) =
    some x ∧ Unbuddied x.1 := by
  have hboot : CleanBoot (resetZone [(0x10000, 0x5000)] 0x9000 0 0 State.boot) [(0x10000, 0x5000)] [] := by
    intro r hr r' hr' q h h'
    obtain rfl := List.mem_singleton.mp hr
    obtain rfl := List.mem_singleton.mp hr'
    have hlow : 0x10000 ≤ 2 * q * pageSize := h.1
    have hhigh : (2 * q + 1) * pageSize < 0x15000 := h'.2.1
    have hq : q = 8 ∨ q = 9 := by simp only [pageSize] at hlow hhigh; omega
    refine ⟨rfl, ?_⟩
    rcases hq with rfl | rfl <;> exact ⟨by decide, by decide, by decide, by decide⟩
  have hclean : EveryCall (fun s c => c.CutsClean s) [.allocOrder 0, .reserveRange 0x13000 1]
      (fivePages, 0) := by
    decide +kernel
  obtain ⟨x, hx⟩ : ∃ x, runCalls [.allocOrder 0, .reserveRange 0x13000 1] (fivePages, 0) = some x :=
    Option.isSome_iff_exists.mp (by decide +kernel)
  refine ⟨x, hx, ?_⟩
  have hf : ((initFromRegions [(0x10000, 0x5000)] 0x9000 0 0 []).run State.boot).2 = fivePages := by
    rw [fivePages]
  rw [← hf] at hx hclean
  exact (complete_of_clean (List.pairwise_singleton _ _) (by simp) 0x9000 0 0 hboot hclean hx).1

/-- The zone of four pages at 64 KB. -/
def fourPages : State := ((initFromRegions [(0x10000, 0x4000)] 0x9000 0 0 []).run State.boot).2

/-- Its four pages are free and aligned, but not as one block: the last two
are listed apart. -/
theorem complete_fails : ((allocOrder 2).run fourPages).1 = none ∧ (∀ i < 2 ^ 2, 4 * 2 ^ 2 + i ∈ fourPages.free) ∧
      0x12000 ∈ fourPages.zone.freeLists 0 ∧ 0x12000 ^^^ blockSize 0 ∈ fourPages.zone.freeLists 0 := by
  refine ⟨by decide +kernel, by decide +kernel, by decide +kernel, by decide +kernel⟩

end LodaxOS.Phys
