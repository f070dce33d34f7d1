/-
# The map that `init` builds

`init` maps each region, the kernel image and the framebuffer at
`HIGHER_HALF` plus their physical addresses, and the first 4 GB at their own
addresses. A step adds the pages it maps to those mapped before (`Added`): a
page that is not mapped does not lie in a 2 MB page, so nothing is split, and
a 2 MB page is only used for a block that lies inside one region, so it hides
no other page.
-/
import LodaxOS.Virt.Split

namespace LodaxOS.Virt

open Phys (pageSize Inv)
open Radix Partial List Option

variable {z : Phys.State} {own own' own'' : Owners} {M M' M'' : Multiset ℕ} {m m' m'' : Machine}

/-- The pages `S` were mapped as `P` says, and all other pages are mapped as
before. -/
structure Added (z : Phys.State) (r : ℕ) (S : Set ℕ) (P : ℕ → Option (ℕ × ℕ) → Prop) (own : ℕ → Option (ℕ × ℕ))
    (M : Multiset ℕ) (m : Machine) (own' : ℕ → Option (ℕ × ℕ)) (M' : Multiset ℕ) (m' : Machine) : Prop where
  tables : Tables z own' M' m'
  grown : Grown own M m own' M' m'
  new : ∀ v < 512 ^ 4, v ∈ S → P v (leafAt m'.mem r v)
  old : ∀ v < 512 ^ 4, v ∉ S → leafAt m'.mem r v = leafAt m.mem r v

/-- Pages that are not mapped. -/
def Free (m : Machine) (r : ℕ) (T : Set ℕ) : Prop := ∀ v < 512 ^ 4, v ∈ T → leafAt m.mem r v = none

variable {r : ℕ}

lemma Free.mono {S T : Set ℕ} (h : Free m r T) (hS : S ⊆ T) : Free m r S := fun v hv hvS => h v hv (hS hvS)

namespace Added

variable {r : ℕ} {S S' : Set ℕ} {P P' : ℕ → Option (ℕ × ℕ) → Prop}

lemma refl (hT : Tables z own M m) : Added z r ∅ P own M m own M m :=
  ⟨hT, Grown.refl own M m, fun _ _ h => absurd h (Set.notMem_empty _), fun _ _ _ => rfl⟩

variable (h : Added z r S P own M m own' M' m')

include h

lemma congr (hS : ∀ v < 512 ^ 4, v ∈ S ↔ v ∈ S') : Added z r S' P own M m own' M' m' :=
  ⟨h.tables, h.grown, fun v hv h' => h.new v hv ((hS v hv).mpr h'), fun v hv h' => h.old v hv (mt (hS v hv).mp h')⟩

lemma mono (hP : ∀ v ∈ S, ∀ x, P v x → P' v x) : Added z r S P' own M m own' M' m' :=
  ⟨h.tables, h.grown, fun v hv h' => hP v h' _ (h.new v hv h'), h.old⟩

/-- First some pages, then others. -/
lemma trans (h' : Added z r S' P own' M' m' own'' M'' m'') : Added z r (S ∪ S') P own M m own'' M'' m'' := by
  refine ⟨h'.tables, h.grown.trans h'.grown, fun v hv hvS => ?_, fun v hv hvS => ?_⟩
  · by_cases hv' : v ∈ S'
    · exact h'.new v hv hv'
    · rw [h'.old v hv hv']
      exact h.new v hv (hvS.resolve_right hv')
  · rw [h'.old v hv fun hc => hvS (.inr hc)]
    exact h.old v hv fun hc => hvS (.inl hc)

/-- Pages that were free stay so, if they are not among those added. -/
lemma free {T : Set ℕ} (hd : ∀ v ∈ T, v ∉ S) (hf : Free m r T) :
    Free m' r T := fun v hlt hv => (h.old v hlt (hd v hv)).trans (hf v hlt hv)

end Added

/-! ### The direct map -/

/-- The page number of `HIGHER_HALF`. -/
def directPage : ℕ := 2 ^ 35

/-- The pages of the direct map that stand for `[a, b)`. -/
def span (a b : ℕ) : Set ℕ := { v | directPage + a / pageSize ≤ v ∧ v < directPage + b / pageSize }

variable {a b v p f : ℕ} {u : Unit} {rs : List (ℕ × ℕ)}

lemma mem_span : v ∈ span a b ↔ directPage + a / pageSize ≤ v ∧ v < directPage + b / pageSize := Iff.rfl

lemma span_eq_empty (h : b ≤ a) : span a b = ∅ := by
  have := Nat.div_le_div_right (c := pageSize) h
  ext v
  rw [mem_span, Set.mem_empty_iff_false, iff_false]
  omega

lemma span_union {c : ℕ} (hab : a ≤ b) (hbc : b ≤ c) : span a b ∪ span b c = span a c := by
  have h1 := Nat.div_le_div_right (c := pageSize) hab
  have h2 := Nat.div_le_div_right (c := pageSize) hbc
  ext v
  rw [Set.mem_union, mem_span, mem_span, mem_span]
  omega

/-- Later pages are others. -/
lemma notMem_span {c : ℕ} (h : v ∈ span b c) : v ∉ span a b := fun h' => absurd h.1 (not_le.mpr h'.2)

lemma span_subset {a' b' : ℕ} (ha : a ≤ a') (hb : b' ≤ b) : span a' b' ⊆ span a b := by
  have h1 := Nat.div_le_div_right (c := pageSize) ha
  have h2 := Nat.div_le_div_right (c := pageSize) hb
  intro v hv
  rw [mem_span] at *
  omega

/-- The page `v` of the direct map leads to the page it stands for, by a 4 KB
or a 2 MB page with the given flags. -/
def Direct (flags v : ℕ) (x : Option (ℕ × ℕ)) : Prop :=
  x = some (0, (v - directPage) * pageSize ||| flags) ∨
    x = some (1, (v - directPage) / 512 * hugeSize ||| flags ||| pageSizeBit)

lemma vpn_direct (hp : p < 2 ^ 47) : vpn (higherHalf + p) = directPage + p / pageSize := by
  unfold vpn higherHalf directPage
  simp only [pageSize]
  omega

section

variable (hz : z.zone.top ≤ directMapSize) {r flags : ℕ}

include hz

/-- One more page. -/
lemma idMapPage_added {addr : ℕ} (hr : Root own r) (hT : Tables z own M m) (hp : flags.testBit 0 = true)
    (ha : pageSize ∣ addr) (hlt : addr < 2 ^ 47) (hf : Free m r (span addr (addr + pageSize)))
    (h : idMapPage r (higherHalf + addr) addr flags m = some (u, m')) :
    ∃ own' M', Added z r (span addr (addr + pageSize)) (Direct flags) own M m own' M' m' := by
  obtain ⟨own', M', hM⟩ := idMapPage_mapped hz hT hr h
  rw [vpn_direct hlt] at hM
  have hdiv : (addr + pageSize) / pageSize = addr / pageSize + 1 := by
    rw [← Nat.one_mul pageSize]
    exact Phys.add_pages_div addr 1
  have hfree : leafAt m.mem r (directPage + addr / pageSize) = none := by
    refine hf _ ?_ ⟨le_rfl, by omega⟩
    simp only [directPage, pageSize]
    omega
  refine ⟨own', M', hM.tables, hM.grown, fun v hv hvS => ?_, fun v hv hvS => ?_⟩
  · obtain rfl : v = directPage + addr / pageSize := by
      rw [mem_span, hdiv] at hvS
      omega
    left
    rw [hM.page, Nat.add_sub_cancel_left, Nat.div_mul_cancel ha, ptLeaf, Nat.testBit_or, hp, Bool.or_true]
    rfl
  · by_cases hb : v / 512 = (directPage + addr / pageSize) / 512
    · -- the page is free, so its block is no 2 MB page
      rw [hM.block v hb]
      · cases hx : leafAt m.mem r v with
        | none => rfl
        | some x =>
          obtain ⟨l, e⟩ := x
          by_cases hl : l = 1
          · subst hl
            rw [leafAt_huge hx hb.symm] at hfree
            simp at hfree
          · unfold parted
            split
            · simp_all
            · rfl
      · rintro rfl
        rw [mem_span, hdiv] at hvS
        omega
    · exact hM.others r 3 v (hr.owned hv) hb

/-- One more 2 MB page. -/
lemma idMapHuge2mb_added {addr : ℕ} (hr : Root own r) (hT : Tables z own M m)
    (hp : flags.testBit 0 = true) (ha : hugeSize ∣ addr) (hlt : addr < 2 ^ 47)
    (h : idMapHuge2mb r (higherHalf + addr) addr flags m = some (u, m')) :
    ∃ own' M', Added z r (span addr (addr + hugeSize)) (Direct flags) own M m own' M' m' := by
  obtain ⟨own', M', hM⟩ := idMapHuge2mb_mapped hz hT hr h
  rw [vpn_direct hlt] at hM
  have hmem : ∀ v, v ∈ span addr (addr + hugeSize) ↔ v / 512 = (directPage + addr / pageSize) / 512 := by
    intro v
    obtain ⟨k, rfl⟩ := ha
    rw [mem_span]
    simp only [directPage, pageSize, hugeSize]
    omega
  refine ⟨own', M', hM.tables, hM.grown, fun v hv hvS => ?_, fun v hv hvS => ?_⟩
  · right
    rw [hM.block v ((hmem v).mp hvS), Nat.testBit_or, Nat.testBit_or, hp, Bool.or_true, Bool.true_or, if_pos rfl]
    have hb := (hmem v).mp hvS
    obtain ⟨k, rfl⟩ := ha
    have : (v - directPage) / 512 * hugeSize = hugeSize * k := by
      simp only [directPage, pageSize, hugeSize] at *
      omega
    rw [this]
  · exact hM.others r 3 v (hr.owned hv) fun hc => hvS ((hmem v).mpr hc)

/-- The pages from `addr` up to `bound`. -/
lemma idMapPages_added {bound : ℕ} (hp : flags.testBit 0 = true) (hb : pageSize ∣ bound) (hlt : bound ≤ 2 ^ 47) :
    ∀ (fuel addr : ℕ) {x : ℕ} {own : Owners} {M : Multiset ℕ} {m : Machine}, Root own r →
      Tables z own M m → pageSize ∣ addr → bound ≤ addr + fuel * pageSize → Free m r (span addr bound) →
      idMapPages r flags bound fuel addr m = some (x, m') →
      x = max addr bound ∧ ∃ own' M', Added z r (span addr bound) (Direct flags) own M m own' M' m'
  | 0, addr, x, own, M, m, hr, hT, ha, hn, hf, h => by
    obtain ⟨rfl, rfl⟩ := pure_eq_some.mp h
    rw [zero_mul, add_zero] at hn
    rw [span_eq_empty hn]
    exact ⟨(max_eq_left hn).symm, own, M, Added.refl hT⟩
  | fuel + 1, addr, x, own, M, m, hr, hT, ha, hn, hf, h => by
    rw [idMapPages] at h
    split at h
    · rename_i hab
      have hle : addr + pageSize ≤ bound := by
        obtain ⟨i, rfl⟩ := ha
        obtain ⟨j, rfl⟩ := hb
        simp only [pageSize] at *
        omega
      obtain ⟨_, m1, h1, h2⟩ := bind_eq_some.mp h
      obtain ⟨own1, M1, hA1⟩ := idMapPage_added hz hr hT hp ha (by omega) (hf.mono (span_subset le_rfl hle)) h1
      obtain ⟨hx, own2, M2, hA2⟩ := idMapPages_added hp hb hlt fuel (addr + pageSize) (hr.mono hA1.grown.ext) hA1.tables
        (Nat.dvd_add ha dvd_rfl) (by rw [Nat.succ_mul] at hn; omega)
        (hA1.free (fun v hv => notMem_span hv) (hf.mono (span_subset (by omega) le_rfl))) h2
      refine ⟨by omega, own2, M2, ?_⟩
      rw [← span_union (Nat.le_add_right addr pageSize) hle]
      exact hA1.trans hA2
    · obtain ⟨rfl, rfl⟩ := pure_eq_some.mp h
      rw [span_eq_empty (by omega)]
      exact ⟨by omega, own, M, Added.refl hT⟩

/-- The 2 MB pages from `addr` on. -/
lemma idMapHuges_added {regionEnd : ℕ} (hp : flags.testBit 0 = true) (hlt : regionEnd ≤ 2 ^ 47) :
    ∀ (fuel addr : ℕ) {x : ℕ} {own : Owners} {M : Multiset ℕ} {m : Machine}, Root own r →
      Tables z own M m → (addr + hugeSize ≤ regionEnd → hugeSize ∣ addr) → addr ≤ regionEnd → pageSize ∣ addr →
      idMapHuges r flags regionEnd fuel addr m = some (x, m') →
      (addr ≤ x ∧ x ≤ regionEnd ∧ pageSize ∣ x) ∧ ∃ own' M', Added z r (span addr x) (Direct flags) own M m own' M' m'
  | 0, addr, x, own, M, m, hr, hT, ha, hle, hd, h => by
    obtain ⟨rfl, rfl⟩ := pure_eq_some.mp h
    rw [span_eq_empty le_rfl]
    exact ⟨⟨le_rfl, hle, hd⟩, own, M, Added.refl hT⟩
  | fuel + 1, addr, x, own, M, m, hr, hT, ha, hle, hd, h => by
    rw [idMapHuges] at h
    split at h
    · rename_i hab
      obtain ⟨_, m1, h1, h2⟩ := bind_eq_some.mp h
      have hlt' : addr < 2 ^ 47 := by
        simp only [hugeSize] at hab
        omega
      obtain ⟨own1, M1, hA1⟩ := idMapHuge2mb_added hz hr hT hp (ha hab) hlt' h1
      obtain ⟨hx, own2, M2, hA2⟩ := idMapHuges_added hp hlt fuel (addr + hugeSize) (hr.mono hA1.grown.ext) hA1.tables
        (fun _ => Nat.dvd_add (ha hab) dvd_rfl) hab (Nat.dvd_add hd ⟨512, rfl⟩) h2
      have hax : addr ≤ addr + hugeSize := Nat.le_add_right _ _
      refine ⟨⟨hax.trans hx.1, hx.2⟩, own2, M2, ?_⟩
      rw [← span_union hax hx.1]
      exact hA1.trans hA2
    · obtain ⟨rfl, rfl⟩ := pure_eq_some.mp h
      rw [span_eq_empty le_rfl]
      exact ⟨⟨le_rfl, hle, hd⟩, own, M, Added.refl hT⟩

/-- A whole region, for every alignment of its ends. -/
lemma mapHigherHalf_added {start size : ℕ} (hr : Root own r) (hT : Tables z own M m)
    (hp : flags.testBit 0 = true) (hs : pageSize ∣ start) (hn : pageSize ∣ size) (hlt : start + size ≤ 2 ^ 47)
    (hf : Free m r (span start (start + size))) (h : mapHigherHalf r flags start size m = some (u, m')) :
    ∃ own' M', Added z r (span start (start + size)) (Direct flags) own M m own' M' m' := by
  unfold mapHigherHalf at h
  obtain ⟨a1, m1, h1, h⟩ := bind_eq_some.mp h
  obtain ⟨a2, m2, h2, h⟩ := bind_eq_some.mp h
  obtain ⟨a3, m3, h3, h⟩ := bind_eq_some.mp h
  obtain ⟨-, rfl⟩ := pure_eq_some.mp h
  have he : pageSize ∣ start + size := Nat.dvd_add hs hn
  obtain ⟨aligned, hal⟩ : ∃ a, a = (start + 0x1FFFFF) / 2 ^ 21 * 2 ^ 21 := ⟨_, rfl⟩
  have halign : (start + 0x1FFFFF) &&& (2 ^ 64 - hugeSize) = aligned :=
    (Words.and_high (w := 64) (a := 21) (by omega) (by norm_num)).trans hal.symm
  rw [halign] at h1
  have hdvd : pageSize ∣ aligned := hal ▸ (Dvd.dvd.mul_left ⟨512, rfl⟩ _)
  have hfuel : start + size ≤ start + (size / pageSize + 1) * pageSize := by
    simp only [pageSize]
    omega
  have hmin : pageSize ∣ min aligned (start + size) := by
    rcases min_choice aligned (start + size) with h | h <;> rw [h] <;> assumption
  -- the leading pages end at the first 2 MB boundary, or at the end
  obtain ⟨hx1, own1, M1, hA1⟩ := idMapPages_added hz hp hmin (by omega) _ _ hr hT hs (by omega)
    (hf.mono (span_subset le_rfl (min_le_right _ _))) h1
  rw [max_eq_right (by omega)] at hx1
  subst hx1
  have hr1 := hr.mono hA1.grown.ext
  obtain ⟨⟨hle1, hle2, hd2⟩, own2, M2, hA2⟩ := idMapHuges_added hz hp hlt _ _ hr1 hA1.tables (fun hfit => by
    simp only [hugeSize] at *
    exact ⟨(start + 0x1FFFFF) / 2 ^ 21, by omega⟩) (min_le_right _ _) hmin h2
  have hA12 := hA1.trans hA2
  rw [span_union (by omega) hle1] at hA12
  obtain ⟨-, own3, M3, hA3⟩ := idMapPages_added hz hp he hlt _ _ (hr1.mono hA2.grown.ext) hA2.tables hd2 (by omega)
    (hA12.free (fun v hv => notMem_span hv) (hf.mono (span_subset (by omega) le_rfl))) h3
  have hA := hA12.trans hA3
  rw [span_union (by omega) hle2] at hA
  exact ⟨own3, M3, hA⟩

omit hz in
/-- The end of a range, rounded up to a page. -/
def pageEnd (r : ℕ × ℕ) : ℕ := r.1 + (r.2 + pageSize - 1) / pageSize * pageSize

omit hz in
lemma pageEnd_eq {r : ℕ × ℕ} (h : pageSize ∣ r.2) : pageEnd r = r.1 + r.2 := by
  obtain ⟨k, hk⟩ := h
  simp only [pageEnd, hk, pageSize]
  omega

omit hz in
/-- The pages of ranges. -/
def spans (rs : List (ℕ × ℕ)) : Set ℕ := { v | ∃ r ∈ rs, v ∈ span r.1 (pageEnd r) }

omit hz in
lemma spans_cons (r : ℕ × ℕ) (rs : List (ℕ × ℕ)) : spans (r :: rs) = span r.1 (pageEnd r) ∪ spans rs := by
  ext v
  simp [spans]

omit hz in
/-- Ranges that begin at a page and share no byte share no page. -/
lemma notMem_span_of_disjoint {r r' : ℕ × ℕ} (hd : Phys.RangesDisjoint r r') (h : pageSize ∣ r.1)
    (h' : pageSize ∣ r'.1) (hv : v ∈ span r.1 (pageEnd r)) : v ∉ span r'.1 (pageEnd r') := by
  intro hv'
  obtain ⟨i, hi⟩ := h
  obtain ⟨j, hj⟩ := h'
  simp only [mem_span, pageEnd, hi, hj, pageSize] at hv hv'
  refine hd ((v - directPage) * pageSize) ?_ ?_ ⟨?_, ?_⟩
  all_goals
    simp only [hi, hj, pageSize]
    omega

/-- All regions. -/
lemma mapRegions_added : ∀ (regions : List (ℕ × ℕ)) {own : Owners} {M : Multiset ℕ}
    {m : Machine}, Root own r → Tables z own M m → (∀ x ∈ regions, pageSize ∣ x.1 ∧ pageSize ∣ x.2 ∧ x.1 + x.2 ≤ 2 ^ 47) →
    regions.Pairwise Phys.RangesDisjoint → Free m r (spans regions) → mapRegions r regions m = some (u, m') →
    ∃ own' M', Added z r (spans regions) (Direct data) own M m own' M' m'
  | [], own, M, m, hr, hT, _, _, _, h => by
    obtain rfl := (pure_eq_some.mp h).2
    refine ⟨own, M, (Added.refl hT).congr fun v _ => ?_⟩
    simp [spans]
  | (start, size) :: rest, own, M, m, hr, hT, ha, hd, hf, h => by
    rw [mapRegions] at h
    obtain ⟨_, m1, h1, h2⟩ := bind_eq_some.mp h
    obtain ⟨hs, hn, hlt⟩ := ha _ mem_cons_self
    have he : pageEnd (start, size) = start + size := pageEnd_eq hn
    rw [pairwise_cons] at hd
    rw [spans_cons] at hf ⊢
    rw [he] at hf ⊢
    obtain ⟨own1, M1, hA1⟩ := mapHigherHalf_added hz hr hT (by decide) hs hn hlt
      (hf.mono Set.subset_union_left) h1
    have hrest : ∀ x ∈ rest, pageSize ∣ x.1 ∧ pageSize ∣ x.2 ∧ x.1 + x.2 ≤ 2 ^ 47 :=
      fun x hx => ha x (mem_cons_of_mem _ hx)
    have hfree : Free m1 r (spans rest) := by
      refine hA1.free ?_ (hf.mono Set.subset_union_right)
      rintro v ⟨x, hx, hv⟩ hv'
      rw [← he] at hv'
      exact notMem_span_of_disjoint (hd.1 x hx) hs (hrest x hx).1 hv' hv
    obtain ⟨own2, M2, hA2⟩ := mapRegions_added rest (hr.mono hA1.grown.ext) hA1.tables hrest hd.2 hfree h2
    exact ⟨own2, M2, hA1.trans hA2⟩

/-- The pages of the framebuffer. -/
lemma mapFramebuffer_added {base n k : ℕ} (hb : pageSize ∣ base) (hr : Root own r) (hT : Tables z own M m)
    (hlt : base + (k + n) * pageSize ≤ 2 ^ 47)
    (hf : Free m r (span (base + k * pageSize) (base + (k + n) * pageSize)))
    (h : mapFramebuffer r base (List.range' k n) m = some (u, m')) :
    ∃ own' M', Added z r (span (base + k * pageSize) (base + (k + n) * pageSize)) (Direct data) own M m own' M' m' := by
  induction n generalizing k own M m with
  | zero =>
    obtain rfl := (pure_eq_some.mp h).2
    rw [span_eq_empty (by rw [add_zero])]
    exact ⟨own, M, Added.refl hT⟩
  | succ n ih =>
    rw [List.range'_succ, mapFramebuffer] at h
    obtain ⟨_, m1, h1, h2⟩ := bind_eq_some.mp h
    have hend : base + (k + (n + 1)) * pageSize = base + (k + 1 + n) * pageSize := by ring
    have hnext : base + k * pageSize + pageSize = base + (k + 1) * pageSize := by ring
    have hle : base + (k + 1) * pageSize ≤ base + (k + 1 + n) * pageSize :=
      Nat.add_le_add_left (Nat.mul_le_mul_right _ (by omega)) _
    rw [hend] at hlt hf ⊢
    have hlt' : base + k * pageSize < 2 ^ 47 := by
      simp only [pageSize] at *
      omega
    have hone : span (base + k * pageSize) (base + k * pageSize + pageSize) ⊆
        span (base + k * pageSize) (base + (k + 1 + n) * pageSize) := by
      rw [hnext]
      exact span_subset le_rfl hle
    have hd : pageSize ∣ base + k * pageSize := Nat.dvd_add hb (Nat.dvd_mul_left _ _)
    obtain ⟨own1, M1, hA1⟩ := idMapPage_added hz hr hT (by decide) hd hlt' (hf.mono hone) h1
    rw [hnext] at hA1
    have hstep : base + k * pageSize ≤ base + (k + 1) * pageSize := by
      rw [← hnext]
      exact Nat.le_add_right _ _
    obtain ⟨own2, M2, hA2⟩ := ih (hr.mono hA1.grown.ext) hA1.tables hlt
      (hA1.free (fun v hv => notMem_span hv) (hf.mono (span_subset hstep le_rfl))) h2
    refine ⟨own2, M2, ?_⟩
    rw [← span_union hstep hle]
    exact hA1.trans hA2

omit hz in
/-- What the lower 512 GB map. -/
def Identity (v : ℕ) (x : Option (ℕ × ℕ)) : Prop :=
  x = if v < 2 ^ 20 then some (1, identityWords (v / 2 ^ 18) (v / 512 % 512)) else none

omit hz in
lemma testBit_identityWords_zero (j i : ℕ) : (identityWords j i).testBit 0 = true := by
  simp only [identityWords]
  rw [Nat.testBit_or]
  split
  · rw [show (writable ||| present ||| pageSizeBit ||| cacheDisable).testBit 0 = true by decide, Bool.or_true]
  · rw [show (writable ||| present ||| pageSizeBit).testBit 0 = true by decide, Bool.or_true]

/-- The lower 512 GB. -/
lemma mapIdentity_added (hr : Root own r) (hT : Tables z own M m) (h : mapIdentity r m = some (u, m')) :
    ∃ own' M', Added z r { v | v < 512 ^ 3 } Identity own M m own' M' m' := by
  obtain ⟨own', M', hT', hG, hQ⟩ := mapIdentity_tables hz hr hT h
  refine ⟨own', M', hT', hG, fun v hv hlt => ?_, fun v hv hlt => ?_⟩
  · obtain ⟨pdp, hpdp, hnone, hpds⟩ := hQ.pdp
    have hlt' : v < 512 ^ 3 := hlt
    have h3 : v / 512 ^ 3 % 512 = 0 := by rw [Nat.div_eq_of_lt hlt', Nat.zero_mod]
    have h2 : v / 512 ^ 2 % 512 = v / 2 ^ 18 := by omega
    rw [Identity, leafAt, find_succ, h3, hpdp]
    simp only
    rw [find_succ, h2]
    by_cases hv20 : v < 2 ^ 20
    · rw [if_pos hv20]
      obtain ⟨pd, hpd, hws⟩ := hpds (v / 2 ^ 18) (by omega)
      rw [hpd]
      simp only
      rw [find_succ, pow_one, hws]
      have hleaf : decode 1 (identityWords (v / 2 ^ 18) (v / 512 % 512)) = .leaf := by
        unfold decode
        rw [if_neg (present_of_testBit (testBit_identityWords_zero _ _)), if_neg (by norm_num),
          if_pos (huge_of_testBit (testBit_identityWords _ _)), if_neg (by norm_num)]
      rw [hleaf]
    · rw [if_neg hv20, hnone _ (by omega)]
      rfl
  · refine find_congr (walk_eq_of_owned (by norm_num) hT.tree v 3 r (hr.owned hv) fun g k hg => ?_)
    by_cases hgr : g = r
    · subst hgr
      obtain ⟨rfl, -⟩ : 3 = k ∧ 0 = v / 512 ^ (k + 1) := by
        have := hr.symm.trans hg
        simpa using this
      refine hQ.others _ fun hc => hlt ?_
      change v < 512 ^ 3
      omega
    · exact congrFun (hQ.frame g _ hg hgr) _

end

/-! ### The whole map -/

/-- What `init` is called with: regions and a kernel image of whole pages and a
framebuffer that begins at a page, which share no byte and lie below the end
of the direct map. -/
structure Layout (regions : List (ℕ × ℕ)) (fb kernel : Option (ℕ × ℕ)) : Prop where
  memory : ∀ r ∈ regions, pageSize ∣ r.1 ∧ pageSize ∣ r.2 ∧ r.1 + r.2 ≤ 2 ^ 47
  image : ∀ r ∈ kernel, pageSize ∣ r.1 ∧ pageSize ∣ r.2 ∧ r.1 + r.2 ≤ 2 ^ 47
  screen : ∀ r ∈ fb, pageSize ∣ r.1 ∧ r.1 + r.2 ≤ 2 ^ 47
  disjoint : (regions ++ kernel.toList ++ fb.toList).Pairwise Phys.RangesDisjoint

/-- The leaf of each page after `init`. -/
def Intended (kernel : Option (ℕ × ℕ)) (v : ℕ) (x : Option (ℕ × ℕ)) : Prop :=
  (v < 512 ^ 3 → Identity v x) ∧ (v ∈ spans kernel.toList → Direct code v x) ∧
    (512 ^ 3 ≤ v → v ∉ spans kernel.toList → Direct data v x)

lemma lt_of_mem_spans (h : v ∈ spans rs) : 512 ^ 3 ≤ v := by
  obtain ⟨r, _, hv⟩ := h
  exact le_trans (by decide) (Nat.le_of_add_right_le hv.1)

lemma spans_append (rs rs' : List (ℕ × ℕ)) : spans (rs ++ rs') = spans rs ∪ spans rs' := by
  ext v
  constructor
  · rintro ⟨r, hr, hv⟩
    exact (mem_append.mp hr).imp (fun hr => ⟨r, hr, hv⟩) fun hr => ⟨r, hr, hv⟩
  · rintro (⟨r, hr, hv⟩ | ⟨r, hr, hv⟩)
    · exact ⟨r, mem_append_left _ hr, hv⟩
    · exact ⟨r, mem_append_right _ hr, hv⟩

/-- Ranges of two lists that are disjoint share no page. -/
lemma notMem_spans_of_disjoint {rs' : List (ℕ × ℕ)} (hd : ∀ r ∈ rs, ∀ r' ∈ rs', Phys.RangesDisjoint r r')
    (h : ∀ r ∈ rs, pageSize ∣ r.1) (h' : ∀ r ∈ rs', pageSize ∣ r.1) (hv : v ∈ spans rs) : v ∉ spans rs' := by
  obtain ⟨r, hr, hv⟩ := hv
  rintro ⟨r', hr', hv'⟩
  exact notMem_span_of_disjoint (hd r hr r' hr') (h r hr) (h' r' hr') hv hv'

section

variable (hz : z.zone.top ≤ directMapSize) {r : ℕ} {regions : List (ℕ × ℕ)} {fb kernel : Option (ℕ × ℕ)}

include hz

lemma mapKernelImage_added (hr : Root own r) (hT : Tables z own M m)
    (hk : ∀ r ∈ kernel, pageSize ∣ r.1 ∧ pageSize ∣ r.2 ∧ r.1 + r.2 ≤ 2 ^ 47) (hf : Free m r (spans kernel.toList))
    (h : mapKernelImage r kernel m = some (u, m')) :
    ∃ own' M', Added z r (spans kernel.toList) (Direct code) own M m own' M' m' := by
  cases kernel with
  | none =>
    obtain rfl := (pure_eq_some.mp h).2
    exact ⟨own, M, (Added.refl hT).congr fun v _ => by simp [spans]⟩
  | some k =>
    obtain ⟨hs, hn, hlt⟩ := hk k rfl
    have he : spans [k] = span k.1 (k.1 + k.2) := by
      rw [← pageEnd_eq hn]
      simp [spans]
    rw [toList_some, he] at hf ⊢
    exact mapHigherHalf_added hz hr hT (by decide) hs hn hlt hf h

lemma mapFb_added (hr : Root own r) (hT : Tables z own M m)
    (hk : ∀ r ∈ fb, pageSize ∣ r.1 ∧ r.1 + r.2 ≤ 2 ^ 47) (hf : Free m r (spans fb.toList))
    (h : mapFb r fb m = some (u, m')) : ∃ own' M', Added z r (spans fb.toList) (Direct data) own M m own' M' m' := by
  cases fb with
  | none =>
    obtain rfl := (pure_eq_some.mp h).2
    exact ⟨own, M, (Added.refl hT).congr fun v _ => by simp [spans]⟩
  | some k =>
    obtain ⟨hs, hlt⟩ := hk k rfl
    have he : spans [k] = span (k.1 + 0 * pageSize) (k.1 + (0 + (k.2 + pageSize - 1) / pageSize) * pageSize) := by
      rw [zero_mul, add_zero, zero_add]
      simp [spans, pageEnd]
    rw [toList_some, he] at hf ⊢
    rw [mapFb, range_eq_range'] at h
    refine mapFramebuffer_added hz hs hr hT ?_ hf h
    obtain ⟨i, hi⟩ := hs
    simp only [hi, pageSize] at *
    omega

/-- The map that `buildTables` leaves, page by page. -/
lemma buildTables_added (hT : Tables z own M m) (hl : Layout regions fb kernel)
    (h : buildTables regions fb kernel m = some (r, m')) : ∃ own' M', Tables z own' M' m' ∧ Root own' r ∧
    (∀ v < 512 ^ 4, v < 512 ^ 3 ∨ v ∈ spans (regions ++ kernel.toList ++ fb.toList) → Intended kernel v (leafAt m'.mem r v)) ∧
    ∀ v < 512 ^ 4, 512 ^ 3 ≤ v → v ∉ spans (regions ++ kernel.toList ++ fb.toList) → leafAt m'.mem r v = none := by
  unfold buildTables at h
  obtain ⟨pml4, m1, h1, h⟩ := bind_eq_some.mp h
  obtain ⟨_, m2, h2, h⟩ := bind_eq_some.mp h
  obtain ⟨_, m3, h3, h⟩ := bind_eq_some.mp h
  obtain ⟨_, m4, h4, h⟩ := bind_eq_some.mp h
  obtain ⟨_, m5, h5, h⟩ := bind_eq_some.mp h
  obtain ⟨_, m6, h6, h⟩ := bind_eq_some.mp h
  obtain ⟨rfl, rfl⟩ := pure_eq_some.mp h
  obtain ⟨phys, hp, rfl⟩ := hT.fresh hz (allocPage_eq_some.mp h1)
  obtain rfl := writeTable_eq_some.mp h2
  obtain ⟨own1, M1, hT1, -, hr₁⟩ := Leads.placeZeroed hT 3 0 hp
  -- the new PML4 maps nothing
  have hempty : ∀ v, leafAt (m.mem.fill pml4 newZeroed) pml4 v = none := by
    intro v
    have hw : walk 512 decode (m.mem.fill pml4 newZeroed) 3 pml4 v = none :=
      walk_eq_none (by norm_num) (fun i _ => by rw [Mem.fill_self]; exact if_pos (Nat.zero_and _)) v
    rw [leafAt, find, hw]
    rfl
  have hd := hl.disjoint
  rw [pairwise_append, pairwise_append] at hd
  obtain ⟨⟨hdr, -, hdrk⟩, -, hdf⟩ := hd
  have hk1 : ∀ r ∈ kernel.toList, pageSize ∣ r.1 := fun r hr => (hl.image r (mem_toList.mp hr)).1
  have hf1 : ∀ r ∈ fb.toList, pageSize ∣ r.1 := fun r hr => (hl.screen r (mem_toList.mp hr)).1
  have hr1 : ∀ r ∈ regions, pageSize ∣ r.1 := fun r hr => (hl.memory r hr).1
  have hrk : ∀ v ∈ spans regions, v ∉ spans kernel.toList :=
    fun v => notMem_spans_of_disjoint hdrk hr1 hk1
  have hrf : ∀ v ∈ spans (regions ++ kernel.toList), v ∉ spans fb.toList :=
    fun v => notMem_spans_of_disjoint hdf (fun r hr => (mem_append.mp hr).elim (hr1 r) (hk1 r)) hf1
  rw [spans_append] at hrf
  obtain ⟨own2, M2, hA2⟩ := mapRegions_added hz regions hr₁ hT1 hl.memory hdr (fun v _ _ => hempty v) h3
  obtain ⟨own3, M3, hA3⟩ := mapKernelImage_added hz (Root.mono hr₁ hA2.grown.ext) hA2.tables hl.image
    (hA2.free (fun v hv hc => hrk v hc hv) fun v _ _ => hempty v) h4
  have hr3 : Root own3 pml4 := (Root.mono hr₁ hA2.grown.ext).mono hA3.grown.ext
  obtain ⟨own4, M4, hA4⟩ := mapIdentity_added hz hr3 hA3.tables h5
  have hI2 : Added z pml4 (spans regions) (Intended kernel) _ _ _ _ _ _ := hA2.mono fun v hv x hx =>
    ⟨fun hlt => absurd (lt_of_mem_spans hv) (by omega), fun hc => absurd hc (hrk v hv), fun _ _ => hx⟩
  have hI3 := hI2.trans (hA3.mono fun v hv x hx =>
    ⟨fun hlt => absurd (lt_of_mem_spans hv) (by omega), fun _ => hx, fun _ hc => absurd hv hc⟩)
  have hI4 := hI3.trans (hA4.mono fun v hv x hx => ⟨fun _ => hx,
    fun hc => absurd (lt_of_mem_spans hc) (not_le.mpr hv), fun hge => absurd hge (not_le.mpr hv)⟩)
  obtain ⟨own5, M5, hA5⟩ := mapFb_added hz (hr3.mono hA4.grown.ext) hA4.tables hl.screen
    (hI4.free (fun v hv hc => hc.elim (fun hc => hrf v hc hv) fun hc => absurd (lt_of_mem_spans hv) (not_le.mpr hc))
      fun v _ _ => hempty v) h6
  have hI5 := hI4.trans (hA5.mono fun v hv x hx => ⟨fun hlt => absurd (lt_of_mem_spans hv) (by omega),
    fun hc => absurd hv (hrf v (.inr hc)), fun _ _ => hx⟩)
  rw [spans_append, spans_append]
  refine ⟨own5, M5, hI5.tables, (hr3.mono hA4.grown.ext).mono hA5.grown.ext, fun v hv hS => hI5.new v hv ?_,
    fun v hv hge hS => (hI5.old v hv ?_).trans (hempty v)⟩
  · rcases hS with hlt | hS | hS
    · exact .inl (.inr hlt)
    · exact .inl (.inl hS)
    · exact .inr hS
  · rintro ((hc | hc) | hc)
    · exact hS (.inl hc)
    · exact absurd hge (not_le.mpr hc)
    · exact hS (.inr hc)

end

/-! ### Addresses -/

/-- A 2 MB leaf's base. -/
lemma leafBase_huge (hb : b * hugeSize < 2 ^ 52) (hf : f &&& physAddrMask = 0) :
    leafBase 1 (b * hugeSize ||| f) = b * hugeSize := by
  have hd : pageSize ∣ b * hugeSize := Dvd.dvd.mul_left ⟨512, rfl⟩ b
  have h := entry_addr hd hb hf
  rw [and_physAddrMask] at h
  generalize b * hugeSize ||| f = w at h ⊢
  clear hd hf
  norm_num [leafBase, hugeSize] at h hb ⊢
  omega

/-- Flags of a page for the kernel alone. -/
structure KernelFlags (f : ℕ) : Prop where
  mask : f &&& physAddrMask = 0
  writable : f.testBit 1 = true
  user : f.testBit 2 = false

section

variable (hT : Tables z own M m)

include hT

variable (hr : Root own r)

include hr

lemma Tables.hwLeaf_huge_page (hf : KernelFlags f)
    (hb : b * hugeSize < 2 ^ 52) (h : leafAt m.mem r (vpn a) = some (1, b * hugeSize ||| f)) :
    hwLeaf m.mem r a = some ⟨b * hugeSize + a % hugeSize, true, false, f.testBit 63⟩ := by
  obtain ⟨us, -, hL⟩ := hT.hwLeaf_eq hr h
  have hd : pageSize ∣ b * hugeSize := Dvd.dvd.mul_left ⟨512, rfl⟩ b
  rw [hL, leafBase_huge hb hf.mask, entry_testBit hd (by norm_num), entry_testBit hd (by norm_num),
    entry_testBit_high hb (by norm_num), hf.writable, hf.user]
  rfl

lemma Tables.hwLeaf_page (hf : KernelFlags f)
    (hb : b * pageSize < 2 ^ 52) (h : leafAt m.mem r (vpn a) = some (0, b * pageSize ||| f)) :
    hwLeaf m.mem r a = some ⟨b * pageSize + a % pageSize, true, false, f.testBit 63⟩ := by
  obtain ⟨us, -, hL⟩ := hT.hwLeaf_eq hr h
  have hd : pageSize ∣ b * pageSize := Nat.dvd_mul_left _ _
  have hbase : leafBase 0 (b * pageSize ||| f) = b * pageSize :=
    (and_physAddrMask _).symm.trans (entry_addr hd hb hf.mask)
  rw [hL, hbase, entry_testBit hd (by norm_num), entry_testBit hd (by norm_num),
    entry_testBit_high hb (by norm_num), hf.writable, hf.user]
  rfl

/-- A page of the direct map gives the address it stands for. -/
lemma Direct.hwLeaf_eq (hf : KernelFlags f) (hp : p < 2 ^ 47)
    (h : Direct f (vpn (higherHalf + p)) (leafAt m.mem r (vpn (higherHalf + p)))) :
    hwLeaf m.mem r (higherHalf + p) = some ⟨p, true, false, f.testBit 63⟩ := by
  have hv : vpn (higherHalf + p) - directPage = p / pageSize := by
    rw [vpn_direct hp, Nat.add_sub_cancel_left]
  rcases h with h | h
  · rw [hv] at h
    have hlt : p / pageSize * pageSize < 2 ^ 52 := lt_of_le_of_lt (Nat.div_mul_le_self _ _) (by omega)
    rw [hT.hwLeaf_page hr hf hlt h]
    have he : p / pageSize * pageSize + (higherHalf + p) % pageSize = p := by
      simp only [pageSize, higherHalf]
      omega
    rw [he]
  · rw [hv, Nat.or_assoc] at h
    have hlt : p / pageSize / 512 * hugeSize < 2 ^ 52 := by
      simp only [pageSize, hugeSize]
      omega
    have hf' : KernelFlags (f ||| pageSizeBit) := by
      refine ⟨?_, ?_, ?_⟩
      · rw [Nat.and_or_distrib_right, hf.mask]
        rfl
      · rw [Nat.testBit_or, hf.writable, Bool.true_or]
      · rw [Nat.testBit_or, hf.user]
        rfl
    rw [hT.hwLeaf_huge_page hr hf' hlt h]
    have he : p / pageSize / 512 * hugeSize + (higherHalf + p) % hugeSize = p := by
      simp only [pageSize, hugeSize, higherHalf]
      omega
    rw [he, Nat.testBit_or, show pageSizeBit.testBit 63 = false by decide, Bool.or_false]

/-- A page of the first 4 GB gives its own address. -/
lemma Identity.hwLeaf_eq (hp : p < 2 ^ 32)
    (h : Identity (vpn p) (leafAt m.mem r (vpn p))) : hwLeaf m.mem r p = some ⟨p, true, false, false⟩ := by
  have hv : vpn p = p / 2 ^ 12 := by
    unfold vpn
    omega
  rw [Identity, hv, if_pos (by omega)] at h
  have hphys : p / 2 ^ 12 / 2 ^ 18 * 0x40000000 + p / 2 ^ 12 / 512 % 512 * hugeSize = p / hugeSize * hugeSize := by
    simp only [hugeSize]
    omega
  simp only [identityWords] at h
  rw [hphys, ← hv] at h
  have hlt : p / hugeSize * hugeSize < 2 ^ 52 := lt_of_le_of_lt (Nat.div_mul_le_self _ _) (by omega)
  split at h
  · rw [hT.hwLeaf_huge_page hr ⟨by decide, by decide, by decide⟩ hlt h, Nat.div_add_mod']
    rfl
  · rw [hT.hwLeaf_huge_page hr ⟨by decide, by decide, by decide⟩ hlt h, Nat.div_add_mod']
    rfl

end

/-- The addresses of a range, up to the end of its last page. -/
def pagesOf (r : ℕ × ℕ) : Set ℕ := { p | r.1 ≤ p ∧ p < pageEnd r }

lemma mem_spans_iff (hd : ∀ r ∈ rs, pageSize ∣ r.1) (hp : p < 2 ^ 47) :
    vpn (higherHalf + p) ∈ spans rs ↔ ∃ r ∈ rs, p ∈ pagesOf r := by
  rw [vpn_direct hp]
  refine exists_congr fun r => and_congr_right fun hr => ?_
  obtain ⟨k, hk⟩ := hd r hr
  change _ ∧ _ ↔ r.1 ≤ p ∧ p < pageEnd r
  simp only [pageEnd, hk, pageSize]
  omega

/-- What the CPU sees under the tables `init` loads: the regions, the kernel
image and the framebuffer in the higher half, executable only in the image;
the first 4 GB at their own addresses; nothing else. -/
structure InitMap (regions : List (ℕ × ℕ)) (fb kernel : Option (ℕ × ℕ)) (mem : Mem ℕ ℕ) (pml4 : ℕ) : Prop where
  data : ∀ r ∈ regions ++ fb.toList, ∀ p ∈ pagesOf r, hwLeaf mem pml4 (higherHalf + p) = some ⟨p, true, false, true⟩
  image : ∀ r ∈ kernel, ∀ p ∈ pagesOf r, hwLeaf mem pml4 (higherHalf + p) = some ⟨p, true, false, false⟩
  identity : ∀ p < 2 ^ 32, hwLeaf mem pml4 p = some ⟨p, true, false, false⟩
  lower : ∀ p < 2 ^ 47, 2 ^ 32 ≤ p → hwLeaf mem pml4 p = none
  upper : ∀ p < 2 ^ 47, (∀ r ∈ regions ++ kernel.toList ++ fb.toList, p ∉ pagesOf r) →
    hwLeaf mem pml4 (higherHalf + p) = none

lemma buildTables_map (hz : z.zone.top ≤ directMapSize) {regions : List (ℕ × ℕ)} {fb kernel : Option (ℕ × ℕ)}
    (hT : Tables z own M m) (hl : Layout regions fb kernel) (h : buildTables regions fb kernel m = some (r, m')) :
    InitMap regions fb kernel m'.mem r := by
  obtain ⟨own', M', hT', hr, hin, hout⟩ := buildTables_added hz hT hl h
  have hd : ∀ x ∈ regions ++ kernel.toList ++ fb.toList, pageSize ∣ x.1 := by
    intro x hx
    rw [mem_append, mem_append, mem_toList, mem_toList] at hx
    rcases hx with (hx | hx) | hx
    · exact (hl.memory x hx).1
    · exact (hl.image x hx).1
    · exact (hl.screen x hx).1
  have hdk : ∀ x ∈ kernel.toList, pageSize ∣ x.1 := fun x hx => hd x (by simp [mem_toList.mp hx])
  have hlt : ∀ x ∈ regions ++ kernel.toList ++ fb.toList, ∀ p ∈ pagesOf x, p < 2 ^ 47 := by
    intro x hx p hp
    refine lt_of_lt_of_le hp.2 ?_
    have hend : x.1 + x.2 ≤ 2 ^ 47 := by
      rw [mem_append, mem_append, mem_toList, mem_toList] at hx
      rcases hx with (hx | hx) | hx
      · exact (hl.memory x hx).2.2
      · exact (hl.image x hx).2.2
      · exact (hl.screen x hx).2
    obtain ⟨k, hk⟩ := hd x hx
    simp only [pageEnd, hk, pageSize] at *
    omega
  have hdisj := hl.disjoint
  rw [pairwise_append, pairwise_append] at hdisj
  obtain ⟨⟨-, -, hdrk⟩, -, hdf⟩ := hdisj
  have hlow : ∀ p < 2 ^ 47, vpn p = p / 2 ^ 12 := by
    intro p hp
    unfold vpn
    omega
  have hhigh : ∀ p < 2 ^ 47, 512 ^ 3 ≤ vpn (higherHalf + p) := by
    intro p hp
    rw [vpn_direct hp]
    exact le_trans (by decide) (Nat.le_add_right _ _)
  refine ⟨fun x hx p hp => ?_, fun x hx p hp => ?_, fun p hp => ?_, fun p hp hge => ?_, fun p hp hx => ?_⟩
  · have hx' : x ∈ regions ++ kernel.toList ++ fb.toList := by
      rw [mem_append] at hx
      rcases hx with hx | hx <;> simp [hx]
    have hp' := hlt x hx' p hp
    refine Direct.hwLeaf_eq (f := data) hT' hr ⟨by decide, by decide, by decide⟩ hp' ?_
    refine (hin _ (vpn_lt _) (.inr ((mem_spans_iff hd hp').mpr ⟨x, hx', hp⟩))).2.2 (hhigh p hp') fun hc => ?_
    -- no page of the image belongs to a region or the framebuffer
    have hv : vpn (higherHalf + p) ∈ spans [x] :=
      (mem_spans_iff (fun y hy => hd y (mem_singleton.mp hy ▸ hx')) hp').mpr ⟨x, mem_cons_self, hp⟩
    rcases mem_append.mp hx with hxr | hxf
    · exact notMem_spans_of_disjoint (fun y hy y' hy' => hdrk y (mem_singleton.mp hy ▸ hxr) y' hy')
        (fun y hy => hd y (mem_singleton.mp hy ▸ hx')) hdk hv hc
    · exact notMem_spans_of_disjoint (fun y hy y' hy' => hdf y (mem_append_right _ hy) y'
        (mem_singleton.mp hy' ▸ hxf)) hdk (fun y hy => hd y (mem_singleton.mp hy ▸ hx')) hc hv
  · have hx' : x ∈ regions ++ kernel.toList ++ fb.toList := by simp [mem_def.mp hx]
    have hp' := hlt x hx' p hp
    refine Direct.hwLeaf_eq (f := code) hT' hr ⟨by decide, by decide, by decide⟩ hp' ?_
    exact (hin _ (vpn_lt _) (.inr ((mem_spans_iff hd hp').mpr ⟨x, hx', hp⟩))).2.1
      ((mem_spans_iff hdk hp').mpr ⟨x, mem_toList.mpr hx, hp⟩)
  · have hv : vpn p < 512 ^ 3 := by
      rw [hlow p (by omega)]
      omega
    exact Identity.hwLeaf_eq hT' hr hp ((hin _ (vpn_lt _) (.inl hv)).1 hv)
  · apply hwLeaf_eq_none
    by_cases hv : vpn p < 512 ^ 3
    · have hI := (hin _ (vpn_lt _) (.inl hv)).1 hv
      rwa [Identity, if_neg (by rw [hlow p hp]; omega)] at hI
    · refine hout _ (vpn_lt _) (by omega) fun hc => ?_
      obtain ⟨x, -, hx⟩ := hc
      have := Nat.le_of_add_right_le hx.1
      rw [hlow p hp, directPage] at this
      omega
  · apply hwLeaf_eq_none
    refine hout _ (vpn_lt _) (hhigh p hp) fun hc => ?_
    obtain ⟨x, hx', hpx⟩ := (mem_spans_iff hd hp).mp hc
    exact hx x hx' hpx

/-- `init` builds the intended map, from every state of the machine before it
in which the allocations succeed. -/
theorem init_map {memory : List (ℕ × ℕ)} (hd : memory.Pairwise Phys.RangesDisjoint)
    (he : ∀ r ∈ memory, r.1 + r.2 ≤ directMapSize) (bi ks kn : ℕ) (excl : List (ℕ × ℕ)) (mem : Mem ℕ ℕ) (cr3 : ℕ)
    {m m' : Machine} {roots : List ℕ} (hreach : Reach (bootMachine memory bi ks kn excl mem cr3) m roots)
    (hpt : m.ptInitialized = false) {regions : List (ℕ × ℕ)} {fb kernel : Option (ℕ × ℕ)}
    (hl : Layout regions fb kernel) (h : init regions fb kernel m = some ((), m')) :
    InitMap regions fb kernel m'.mem m'.cr3 := by
  obtain ⟨own, M, hT, -⟩ := boot_spaces hd he hreach
  unfold init at h
  obtain ⟨m₀, m₁, h₁, h⟩ := bind_eq_some.mp h
  obtain ⟨rfl, rfl⟩ := get_eq_some.mp h₁
  rw [hpt] at h
  obtain ⟨r, m₂, h₂, h₃⟩ := bind_eq_some.mp h
  obtain rfl := modify_eq_some.mp h₃
  change InitMap regions fb kernel m₂.mem r
  exact buildTables_map (resetZone_top he bi ks kn) hT hl h₂

/-- A region of two pages, an image of 2 MB, and a framebuffer whose last page
is used in part. -/
theorem init_map_small : ∃ m',
    init [(0x100000, 0x20000)] (some (0x600000, 0x1234)) (some (0x400000, 0x200000)) smallBoot = some ((), m') ∧
    hwLeaf m'.mem m'.cr3 (higherHalf + 0x102345) = some ⟨0x102345, true, false, true⟩ ∧
    hwLeaf m'.mem m'.cr3 (higherHalf + 0x412345) = some ⟨0x412345, true, false, false⟩ ∧
    hwLeaf m'.mem m'.cr3 (higherHalf + 0x601FFF) = some ⟨0x601FFF, true, false, true⟩ ∧
    hwLeaf m'.mem m'.cr3 (higherHalf + 0x602000) = none := by
  have hrun : ((init [(0x100000, 0x20000)] (some (0x600000, 0x1234)) (some (0x400000, 0x200000)) smallBoot).map
      (fun x => x.2.ptInitialized) : Option Bool) = some true := by decide +kernel
  obtain ⟨⟨u, m'⟩, hx, -⟩ := Option.map_eq_some_iff.mp hrun
  have hl : Layout [(0x100000, 0x20000)] (some (0x600000, 0x1234)) (some (0x400000, 0x200000)) := by
    refine ⟨?_, ?_, ?_, ?_⟩
    · simp [pageSize]
    · simp [pageSize]
    · simp [pageSize]
    · simp only [Option.toList_some, List.cons_append, List.nil_append, List.pairwise_cons, List.mem_cons,
        List.not_mem_nil, or_false, forall_eq_or_imp, forall_eq, IsEmpty.forall_iff, implies_true, List.Pairwise.nil,
        and_true, Phys.RangesDisjoint]
      refine ⟨⟨?_, ?_⟩, ?_⟩ <;> omega
  have hmap := init_map (List.pairwise_singleton _ _) (by simp [directMapSize]) _ _ _ _ _ _ .start rfl hl hx
  refine ⟨m', hx, hmap.data _ (by simp; left; rfl) _ ?_, hmap.image _ rfl _ ?_, hmap.data (0x600000, 0x1234) (by simp) _ ?_,
    hmap.upper _ (by norm_num) ?_⟩
  · exact ⟨by decide, by decide⟩
  · exact ⟨by decide, by decide⟩
  · exact ⟨by decide, by decide⟩
  · intro r hr hp
    simp only [Option.toList_some, List.cons_append, List.nil_append, List.mem_cons, List.not_mem_nil, or_false] at hr
    rcases hr with rfl | rfl | rfl
    all_goals exact absurd hp.2 (by decide)

end LodaxOS.Virt
