/-
# The allocator from boot on

`init_from_regions` holds the usable pages of disjoint regions to begin with
and carves them (`init_inv`). From there any number of processors call the
allocator, each freeing only what its callers own (`client`), and in every
state between two sections the free blocks are apart from each other and from
everything owned (`buddy_safe`).
-/
import LodaxOS.Phys.Safety

namespace LodaxOS.Phys

open Sections Words Prog Multiset State

variable {z : State}

/-! ### Boot -/

/-- Two ranges `(start, size)` with no address in common. -/
def RangesDisjoint (r r' : ℕ × ℕ) : Prop :=
  ∀ x, r.1 ≤ x → x < r.1 + r.2 → ¬ (r'.1 ≤ x ∧ x < r'.1 + r'.2)

/-- The whole pages of a region that are not reserved. -/
def regionPages (z : State) (r : ℕ × ℕ) : Multiset ℕ :=
  (rangePages (regionBounds r).1 (((regionBounds r).2 - (regionBounds r).1) / pageSize)).filter
    fun p => isReservedPage z p = false

/-- The pages `init_from_regions` may link. -/
def usablePages (z : State) (regions : List (ℕ × ℕ)) : Multiset ℕ := (regions.map (regionPages z)).sum

lemma usablePages_cons (r : ℕ × ℕ) (rest : List (ℕ × ℕ)) :
    usablePages z (r :: rest) = regionPages z r + usablePages z rest := by simp [usablePages]

/-- The pages of the stretch that the walk over a region is in the middle of. -/
def pending (rangeStart addr : ℕ) (inRange : Bool) : Multiset ℕ :=
  if inRange then rangePages rangeStart ((addr - rangeStart) / pageSize) else 0

variable {a p n : ℕ} {r b : ℕ × ℕ} {regions : List (ℕ × ℕ)} {M : Multiset ℕ} {s : State}

lemma pending_grow {rs : ℕ} (hrs : pageSize ∣ rs) (ha : pageSize ∣ a) (h : rs ≤ a) :
    pending rs (a + pageSize) true = {a / pageSize} + pending rs a true := by
  obtain ⟨m, rfl⟩ := hrs
  obtain ⟨n, rfl⟩ := ha
  have hmn : m ≤ n := Nat.le_of_mul_le_mul_left h pageSize_pos
  have h1 : (pageSize * n + pageSize - pageSize * m) / pageSize = (n - m) + 1 := by
    rw [← Nat.mul_succ, ← Nat.mul_sub, Nat.mul_div_cancel_left _ pageSize_pos]; omega
  have h2 : (pageSize * n - pageSize * m) / pageSize = n - m := by
    rw [← Nat.mul_sub, Nat.mul_div_cancel_left _ pageSize_pos]
  have h3 : pageSize * m + (n - m) * pageSize = pageSize * n := by
    rw [mul_comm _ pageSize, ← mul_add, Nat.add_sub_cancel' hmn]
  simp only [pending, if_true, h1, h2]
  rw [rangePages_add, h3, add_comm, rangePages_succ, rangePages_zero]
  rfl

lemma scanLoop_safe (excl : List (ℕ × ℕ)) {e : ℕ} : ∀ (n a rs : ℕ) (inRange : Bool),
    a + n * pageSize = e → pageSize ∣ a → (inRange = true → pageSize ∣ rs ∧ rs ≤ a) →
    Safe (Inv z) (scanLoop excl e n a rs inRange)
      (pending rs a inRange + (rangePages a n).filter fun p => isReservedPage z p = false) fun _ h => h = 0
  | 0, a, rs, inRange, he, ha, hr => by
    obtain rfl : a = e := by omega
    unfold scanLoop
    cases inRange
    · exact Safe.pure rfl
    · rw [rangePages_zero, filter_zero, add_zero]
      exact carveRange_safe (hr rfl).1 ha
  | n + 1, a, rs, inRange, he, ha, hr => by
    unfold scanLoop
    have hnext : a + pageSize + n * pageSize = e := by rw [← he]; ring
    have hdvd : pageSize ∣ a + pageSize := Nat.dvd_add ha (dvd_refl _)
    set rest := (rangePages (a + pageSize) n).filter fun p => isReservedPage z p = false with hrest
    -- the page at `a` is kept if it is free and forgotten otherwise
    refine Safe.bind (Q := fun b h => h = pending rs a inRange +
      ((if !b && !isExcluded a excl then {a / pageSize} else 0) + rest)) ?_ ?_
    · refine Safe.atomically fun s F hI => ?_
      refine ⟨_, hI.drop (add_le_add_left (add_le_add_right ?_ _) F), rfl⟩
      simp only [hI.bounds.reserved]
      rw [rangePages_succ]
      cases hres : isReservedPage z (a / pageSize)
      · rw [filter_cons_of_pos _ (by simp [hres]), ← singleton_add]
        split
        · exact le_rfl
        · exact add_le_add_left (zero_le _) _
      · rw [filter_cons_of_neg _ (by simp [hres])]
        simp [hrest]
    · rintro b _ rfl
      cases hfree : (!b && !isExcluded a excl) <;> cases inRange
      · simp only [Bool.false_and, Bool.not_false, Bool.true_and, Bool.false_eq_true, if_false, zero_add]
        exact scanLoop_safe excl n (a + pageSize) rs false hnext hdvd (by simp)
      · simp only [Bool.not_true, Bool.not_false, Bool.and_self, Bool.false_eq_true, if_false, if_true, zero_add]
        refine ((carveRange_safe (hr rfl).1 ha).frame rest).bind ?_
        rintro - _ ⟨_, rfl, rfl⟩
        exact scanLoop_safe excl n (a + pageSize) rs false hnext hdvd (by simp)
      · simp only [Bool.not_false, Bool.and_self, if_true]
        have hp : pending rs a false + ({a / pageSize} + rest) = pending a (a + pageSize) true + rest := by
          rw [pending_grow ha ha le_rfl]
          simp [pending]
        rw [hp]
        exact scanLoop_safe excl n (a + pageSize) a true hnext hdvd fun _ => ⟨ha, Nat.le_add_right _ _⟩
      · simp only [Bool.not_true, Bool.and_false, Bool.false_and, Bool.false_eq_true, if_false, if_true]
        obtain ⟨h1, h2⟩ := hr rfl
        have hp : pending rs a true + ({a / pageSize} + rest) = pending rs (a + pageSize) true + rest := by
          rw [pending_grow h1 ha h2]
          abel
        rw [hp]
        exact scanLoop_safe excl n (a + pageSize) rs true hnext hdvd fun _ =>
          ⟨h1, le_trans h2 (Nat.le_add_right _ _)⟩

lemma regionBounds_dvd (r : ℕ × ℕ) : pageSize ∣ (regionBounds r).1 ∧ pageSize ∣ (regionBounds r).2 :=
  ⟨pageSize_dvd_alignUp _, pageSize_dvd_alignDown _⟩

lemma scanRegions_safe (excl : List (ℕ × ℕ)) : ∀ regions : List (ℕ × ℕ),
    Safe (Inv z) (scanRegions excl regions) (usablePages z regions) fun _ h => h = 0
  | [] => Safe.pure rfl
  | r :: rest => by
    unfold scanRegions
    rw [usablePages_cons]
    have hr : Safe (Inv z) (scanRegion excl r) (regionPages z r) fun _ h => h = 0 := by
      obtain ⟨h1, h2⟩ := regionBounds_dvd r
      unfold scanRegion regionPages
      by_cases hlt : (regionBounds r).1 < (regionBounds r).2
      · rw [if_pos hlt]
        have he : (regionBounds r).1 +
            ((regionBounds r).2 - (regionBounds r).1) / pageSize * pageSize = (regionBounds r).2 := by
          rw [Nat.div_mul_cancel (Nat.dvd_sub h2 h1)]; omega
        have := scanLoop_safe (z := z) excl _ (regionBounds r).1 0 false he h1 (by simp)
        simpa [pending] using this
      · rw [if_neg hlt, Nat.sub_eq_zero_of_le (by omega), Nat.zero_div]
        exact Safe.pure rfl
    refine (hr.frame _).bind ?_
    rintro - _ ⟨_, rfl, rfl⟩
    rw [zero_add]
    exact scanRegions_safe excl rest

/-- A region's whole pages lie inside it. -/
lemma regionBounds_within (hr : r.1 + r.2 < 2 ^ 64) (h : (regionBounds r).1 < (regionBounds r).2) :
    r.1 ≤ (regionBounds r).1 ∧ (regionBounds r).2 ≤ r.1 + r.2 := by
  have h2 : (regionBounds r).2 = (r.1 + r.2) / pageSize * pageSize := by
    rw [regionBounds, satAdd_eq hr]
    exact alignDown_eq hr
  have h1 : (regionBounds r).1 = satAdd r.1 (pageSize - 1) / pageSize * pageSize := alignUp_eq _
  rw [h1, h2] at h
  rw [h1, h2]
  simp only [satAdd, u64Max, pageSize] at *
  omega

lemma mem_regionPages (hr : r.1 + r.2 < 2 ^ 64) (hp : p ∈ regionPages z r) :
    (regionBounds r).1 ≤ p * pageSize ∧ (p + 1) * pageSize ≤ (regionBounds r).2 ∧
      r.1 ≤ p * pageSize ∧ p * pageSize < r.1 + r.2 ∧ isReservedPage z p = false := by
  obtain ⟨hp, hres⟩ := mem_filter.mp hp
  obtain ⟨h1, h2⟩ := regionBounds_dvd r
  have hm := (mem_endsPages h1 h2).mp hp
  have hin := regionBounds_within hr (by omega)
  have hup : (p + 1) * pageSize ≤ (regionBounds r).2 := by
    obtain ⟨q, hq⟩ := h2
    rw [hq, mul_comm pageSize] at hm ⊢
    exact Nat.mul_le_mul_right _ (Nat.lt_of_mul_lt_mul_right hm.2)
  exact ⟨hm.1, hup, by omega, by omega, hres⟩

lemma mem_usablePages : ∀ {regions : List (ℕ × ℕ)}, p ∈ usablePages z regions → ∃ r ∈ regions, p ∈ regionPages z r
  | [], h => absurd h (notMem_zero p)
  | r :: rest, h => by
    rw [usablePages_cons, mem_add] at h
    rcases h with h | h
    · exact ⟨r, List.mem_cons_self, h⟩
    · obtain ⟨r', hr', hp⟩ := mem_usablePages h
      exact ⟨r', List.mem_cons_of_mem _ hr', hp⟩

lemma usablePages_nodup : ∀ regions : List (ℕ × ℕ), regions.Pairwise RangesDisjoint →
    (∀ r ∈ regions, r.1 + r.2 < 2 ^ 64) → (usablePages z regions).Nodup
  | [], _, _ => nodup_zero
  | r :: rest, hd, he => by
    rw [List.pairwise_cons] at hd
    have hrest := usablePages_nodup rest hd.2 fun r' hr' => he r' (List.mem_cons_of_mem _ hr')
    rw [usablePages_cons, nodup_add]
    refine ⟨(nodup_rangePages _ _).filter _, hrest, disjoint_left.mpr fun {p} hp hp' => ?_⟩
    obtain ⟨r', hr', hpm⟩ := mem_usablePages hp'
    obtain ⟨-, -, h1, h2, -⟩ := mem_regionPages (he r List.mem_cons_self) hp
    obtain ⟨-, -, h3, h4, -⟩ := mem_regionPages (he r' (List.mem_cons_of_mem _ hr')) hpm
    exact hd.1 r' hr' _ h1 h2 ⟨h3, h4⟩

/-- The zone spans every region that holds a page. -/
lemma zoneBounds_fold (regions : List (ℕ × ℕ)) (m : ℕ × ℕ) :
    let ab := regions.foldl (fun (m : ℕ × ℕ) r =>
      let b := regionBounds r
      if b.1 < b.2 then (min m.1 b.1, max m.2 b.2) else m) m
    ab.1 ≤ m.1 ∧ m.2 ≤ ab.2 ∧ ∀ r ∈ regions, (regionBounds r).1 < (regionBounds r).2 →
      ab.1 ≤ (regionBounds r).1 ∧ (regionBounds r).2 ≤ ab.2 := by
  induction regions generalizing m with
  | nil => simp
  | cons r rest ih =>
    simp only [List.foldl_cons]
    obtain ⟨h1, h2, h3⟩ := ih (if (regionBounds r).1 < (regionBounds r).2 then
      (min m.1 (regionBounds r).1, max m.2 (regionBounds r).2) else m)
    by_cases hr : (regionBounds r).1 < (regionBounds r).2
    · rw [if_pos hr] at h1 h2 h3 ⊢
      refine ⟨h1.trans (min_le_left _ _), (le_max_left _ _).trans h2, fun r' hr' hlt => ?_⟩
      rcases List.mem_cons.mp hr' with rfl | hr'
      · exact ⟨h1.trans (min_le_right _ _), (le_max_right _ _).trans h2⟩
      · exact h3 r' hr' hlt
    · rw [if_neg hr] at h1 h2 h3 ⊢
      refine ⟨h1, h2, fun r' hr' hlt => ?_⟩
      rcases List.mem_cons.mp hr' with rfl | hr'
      · exact absurd hlt hr
      · exact h3 r' hr' hlt

lemma zoneBounds_le (hr : r ∈ regions) (h : (regionBounds r).1 < (regionBounds r).2) :
    (zoneBounds regions).1 ≤ (regionBounds r).1 ∧ (regionBounds r).2 ≤ (zoneBounds regions).2 := by
  obtain ⟨-, -, h3⟩ := zoneBounds_fold regions (u64Max, 0)
  obtain ⟨h1, h2⟩ := h3 r hr h
  refine ⟨?_, h2⟩
  unfold zoneBounds
  dsimp only
  split
  · exact Nat.zero_le _
  · exact h1

/-- The empty zone, with the usable pages of the regions still to be linked. -/
lemma resetZone_inv (hd : regions.Pairwise RangesDisjoint)
    (he : ∀ r ∈ regions, r.1 + r.2 < 2 ^ 64) (bi ks kn : ℕ) (s : State) :
    Inv (resetZone regions bi ks kn s) (resetZone regions bi ks kn s)
      (usablePages (resetZone regions bi ks kn s) regions) := by
  set z := resetZone regions bi ks kn s with hz
  have hfree : z.free = 0 := Finset.sum_eq_zero fun k _ => rfl
  refine ⟨SameBounds.rfl z, ?_, fun p hp => ?_, fun k _ a ha => ?_, ?_⟩
  · rw [hfree, zero_add]
    exact usablePages_nodup regions hd he
  · rw [hfree, zero_add] at hp
    obtain ⟨r, hr, hp⟩ := mem_usablePages hp
    obtain ⟨h1, h2, -, -, hres⟩ := mem_regionPages (he r hr) hp
    have hlt : (regionBounds r).1 < (regionBounds r).2 := by
      have := pageSize_pos
      rw [add_mul] at h2
      omega
    obtain ⟨h3, h4⟩ := zoneBounds_le hr hlt
    exact ⟨h3.trans h1, h2.trans h4, hres⟩
  · exact absurd ha List.not_mem_nil
  · rw [hfree]; rfl

/-- The state that `init_from_regions` leaves the first time it is called. -/
lemma initFromRegions_run (regions : List (ℕ × ℕ)) (bi ks kn : ℕ) (excl : List (ℕ × ℕ)) :
    ((initFromRegions regions bi ks kn excl).run boot).2 =
      let base := alignDown bi pageSize
      let s1 := ((scanRegions excl regions).run (resetZone regions bi ks kn boot)).2
      let s2 := ((removeOrders base (base + (bootInfoSize + pageSize - 1) / pageSize * pageSize)
        (List.range (maxOrder + 1))).run s1).2
      { s2 with zone := { s2.zone with totalPages := s2.zone.freePages }, initialized := true } := by
  simp [initFromRegions, show boot.initialized = false from rfl]

/-- The regions carved, with nothing held. -/
lemma scan_inv (hd : regions.Pairwise RangesDisjoint)
    (he : ∀ r ∈ regions, r.1 + r.2 < 2 ^ 64) (bi ks kn : ℕ) (s : State) (excl : List (ℕ × ℕ)) :
    Inv (resetZone regions bi ks kn s)
      ((scanRegions excl regions).run (resetZone regions bi ks kn s)).2 0 := by
  obtain ⟨_, h, rfl⟩ := (scanRegions_safe excl regions).run (F := 0) (by simpa using resetZone_inv hd he bi ks kn s)
  rwa [add_zero] at h

/-- `init_from_regions` leaves the invariant, with nothing held. -/
lemma init_inv (hd : regions.Pairwise RangesDisjoint)
    (he : ∀ r ∈ regions, r.1 + r.2 < 2 ^ 64) (bi ks kn : ℕ) (excl : List (ℕ × ℕ)) :
    Inv (resetZone regions bi ks kn boot)
      ((initFromRegions regions bi ks kn excl).run boot).2 0 := by
  set z := resetZone regions bi ks kn boot with hz
  have h1 := scan_inv hd he bi ks kn boot excl
  have hbi := pageSize_dvd_alignDown bi
  have hremove := (removeOrders_safe (z := z) hbi
    (Nat.dvd_add hbi (Dvd.intro_left ((bootInfoSize + pageSize - 1) / pageSize) rfl))
    (Nat.le_add_right _ _) (List.range (maxOrder + 1)) fun k hk => by
      rw [List.mem_range] at hk; omega).run (F := 0) (by rwa [zero_add])
  obtain ⟨_, h2, rfl⟩ := hremove
  rw [initFromRegions_run]
  exact h2.congr ⟨rfl, rfl, rfl, rfl, rfl, rfl⟩ rfl rfl

/-! ### Callers -/

/-- What a processor may call; a block or range that is freed is one the
caller owns. -/
inductive Call
  | allocOrder (order : ℕ)
  | allocPages (count : ℕ)
  | freeOrder (addr order : ℕ)
  | freePages (addr count : ℕ)
  | reserveRange (start : Fin (2 ^ 64)) (sizeInPages : ℕ)
  | refPage (pn : ℕ)
  | unrefPage (pn : ℕ)

namespace Call

def prog : Call → Prog State (Option ℕ)
  | .allocOrder k => Phys.allocOrder k
  | .allocPages n => Phys.allocPages n
  | .freeOrder a k => do Phys.freeOrder a k; pure none
  | .freePages a n => do Phys.freePages a n; pure none
  | .reserveRange a n => do Phys.reserveRange a n; pure none
  | .refPage pn => do Phys.refPage pn; pure none
  | .unrefPage pn => do let _ ← Phys.unrefPage pn; pure none

/-- The callers own ranges `(addr, pages)`: a block of order `k` is owned as
its `2 ^ k` pages. -/
def takes : Call → Multiset (ℕ × ℕ)
  | .freeOrder a k => {(a, 2 ^ k)}
  | .freePages a n => {(a, n)}
  | _ => 0

def gives : Call → Option ℕ → Multiset (ℕ × ℕ)
  | .allocOrder k, some a => {(a, 2 ^ k)}
  | .allocPages n, some a => {(a, n)}
  | _, _ => 0

/-- The calls other than `reserve_range`: they look for the buddy of a block
before they link it. -/
def KeepsBuddies : Call → Prop
  | .reserveRange _ _ => False
  | _ => True

end Call

/-- An owned range lies at the front of a block. -/
def RangeOk (t : ℕ × ℕ) : Prop := ∃ k ≤ maxOrder, t.2 ≤ 2 ^ k ∧ blockSize k ∣ t.1

def client : Client State (Option ℕ) (Multiset ℕ) where
  Call := Call
  Tok := ℕ × ℕ
  prog := Call.prog
  takes := Call.takes
  gives := Call.gives
  cost t := rangePages t.1 t.2
  Ok := RangeOk

/-- The pages of the owned ranges. -/
def ownedPages (ts : Multiset (ℕ × ℕ)) : Multiset ℕ := client.total ts

@[simp] lemma ownedPages_zero : ownedPages 0 = 0 := client.total_zero

@[simp] lemma ownedPages_singleton (t : ℕ × ℕ) : ownedPages {t} = rangePages t.1 t.2 :=
  client.total_singleton t

@[simp] lemma ownedPages_add (ts us : Multiset (ℕ × ℕ)) : ownedPages (ts + us) = ownedPages ts + ownedPages us :=
  client.total_add ts us

/-- A call that gives its caller nothing. -/
lemma safe_discard {α : Type} {I : State → Multiset ℕ → Prop} {p : Prog State α}
    (hp : Safe I p M fun _ h => h = 0) :
    Safe I (do let _ ← p; pure (none : Option ℕ)) M fun _ h =>
      h = ownedPages 0 ∧ ∀ t ∈ (0 : Multiset (ℕ × ℕ)), RangeOk t := by
  refine hp.bind ?_
  rintro - _ rfl
  exact Safe.pure (by simp)

lemma granted_ok {k : ℕ} {r : Option ℕ} {c : Call} (h : Granted n k r M)
    (hg : ∀ a, c.gives (some a) = {(a, n)}) (hn : c.gives none = 0) :
    M = ownedPages (c.gives r) ∧ ∀ t ∈ c.gives r, RangeOk t := by
  cases r with
  | none => rw [show M = 0 from h, hn]; simp
  | some =>
    obtain ⟨rfl, hk, hle, ha⟩ := h
    rw [hg]
    refine ⟨by simp, fun t ht => ?_⟩
    obtain rfl := mem_singleton.mp ht
    exact ⟨k, hk, hle, ha⟩

/-- The alignment of what a call frees. -/
lemma freeOrder_ok {k : ℕ} (h : ∀ t ∈ (Call.freeOrder a k).takes, RangeOk t) : k ≤ maxOrder ∧ blockSize k ∣ a := by
  obtain ⟨j, hj, hkj, ha⟩ := h (a, 2 ^ k) (mem_singleton_self _)
  have hle : k ≤ j := (Nat.pow_le_pow_iff_right (by norm_num)).mp hkj
  exact ⟨hle.trans hj, dvd_trans (blockSize_dvd hle) ha⟩

lemma freePages_ok (h : ∀ t ∈ (Call.freePages a n).takes, RangeOk t) : pageSize ∣ a := by
  obtain ⟨j, -, -, ha⟩ := h (a, n) (mem_singleton_self _)
  exact pageSize_dvd_of_block ha

/-- Allocations and frees are safe from the pages they are given to the pages
they return, whatever stable property the lists have. -/
lemma Call.safe_stable {J : State → Prop} (hJ : Stable z J) {c : Call} (hc : c.KeepsBuddies)
    (hok : ∀ t ∈ c.takes, RangeOk t) :
    Safe (InvWith J z) c.prog (ownedPages c.takes) fun r h =>
      h = ownedPages (c.gives r) ∧ ∀ t ∈ c.gives r, RangeOk t := by
  cases c with
  | allocOrder k =>
    exact (allocOrder_safe hJ k).mono fun r M h => granted_ok (c := .allocOrder k) h (fun _ => rfl) rfl
  | allocPages n =>
    exact (allocPages_safe hJ n).mono fun r M h => granted_ok (c := .allocPages n) h (fun _ => rfl) rfl
  | freeOrder =>
    obtain ⟨hk, ha⟩ := freeOrder_ok hok
    rw [Call.takes, ownedPages_singleton]
    exact safe_discard (freeOrder_safe hJ hk ha)
  | freePages =>
    rw [Call.takes, ownedPages_singleton]
    exact safe_discard (freePages_safe hJ (freePages_ok hok))
  | reserveRange => exact hc.elim
  | refPage pn => exact safe_discard (refPage_safe hJ pn 0)
  | unrefPage pn => exact safe_discard ((unrefPage_safe hJ pn 0).mono (by simp))

lemma Call.safe (c : Call) (hok : ∀ t ∈ c.takes, RangeOk t) : Safe (Inv z) c.prog (ownedPages c.takes) fun r h =>
      h = ownedPages (c.gives r) ∧ ∀ t ∈ c.gives r, RangeOk t := by
  cases c with
  | reserveRange a n => exact safe_discard (reserveRange_safe a.isLt n)
  | _ => exact safe_inv fun J hJ => Call.safe_stable hJ trivial hok

lemma client_safe : client.Safe (Inv z) := Call.safe

/-! ### The free blocks -/

/-- Every listed block, as its address and its order. -/
def State.blocks (s : State) : List (ℕ × ℕ) :=
  (List.range (maxOrder + 1)).flatMap fun k => (s.zone.freeLists k).map fun a => (a, k)

lemma mem_blocks : b ∈ s.blocks ↔ b.2 ≤ maxOrder ∧ b.1 ∈ s.zone.freeLists b.2 := by
  obtain ⟨a, k⟩ := b
  simp only [blocks, List.mem_flatMap, List.mem_range, List.mem_map, Prod.mk.injEq, Nat.lt_add_one_iff]
  constructor
  · rintro ⟨_, hk, _, ha, rfl, rfl⟩
    exact ⟨hk, ha⟩
  · exact fun ⟨hk, ha⟩ => ⟨k, hk, a, ha, rfl, rfl⟩

lemma free_eq_blocks (s : State) :
    s.free = (s.blocks.flatMap fun b => List.range' (b.1 / pageSize) (2 ^ b.2) : List ℕ) := by
  have hlist : ∀ (l : List ℕ) (k : ℕ), listPages l k =
      ((l.map fun a => (a, k)).flatMap fun b => List.range' (b.1 / pageSize) (2 ^ b.2) : List ℕ) := by
    intro l k
    induction l with
    | nil => rfl
    | cons a l ih => rw [listPages_cons, ih]; rfl
  rw [free, blocks]
  generalize maxOrder + 1 = n
  induction n with
  | zero => rfl
  | succ n ih =>
    rw [Finset.sum_range_succ, ih, hlist, List.range_succ, List.flatMap_append, List.flatMap_append,
      ← coe_add, List.flatMap_singleton]

/-- An address of a range of whole pages is on one of its pages. -/
lemma page_mem_rangePages {x : ℕ} (ha : pageSize ∣ a) (h1 : a ≤ x) (h2 : x < a + n * pageSize) :
    x / pageSize ∈ rangePages a n := by
  obtain ⟨q, rfl⟩ := ha
  rw [mem_rangePages, Nat.mul_div_cancel_left _ pageSize_pos]
  refine ⟨(Nat.le_div_iff_mul_le pageSize_pos).mpr (by rwa [mul_comm]), ?_⟩
  rw [Nat.div_lt_iff_lt_mul pageSize_pos]
  rwa [mul_comm, ← add_mul] at h2

lemma card_free_blocks (s : State) : s.free.card = (s.blocks.map fun b => 2 ^ b.2).sum := by
  rw [free_eq_blocks, coe_card, List.length_flatMap]
  simp

lemma mem_free_of_block (hb : b ∈ s.blocks) (hp : p ∈ rangePages b.1 (2 ^ b.2)) : p ∈ s.free := by
  rw [free_eq_blocks, mem_coe, List.mem_flatMap]
  exact ⟨b, hb, hp⟩

lemma Inv.block_dvd (h : Inv z s M) (hb : b ∈ s.blocks) : blockSize b.2 ∣ b.1 :=
  h.aligned _ (mem_blocks.mp hb).1 _ (mem_blocks.mp hb).2

lemma Inv.blocks_disjoint (h : Inv z s M) :
    s.blocks.Pairwise fun b b' => RangesDisjoint (b.1, blockSize b.2) (b'.1, blockSize b'.2) := by
  have hn : s.free.Nodup := (nodup_add.mp h.nodup).1
  rw [free_eq_blocks, coe_nodup, List.nodup_flatMap] at hn
  refine hn.2.imp_of_mem fun hb hb' hdis x h1 h2 hx => ?_
  rw [blockSize_eq] at h2 hx
  exact hdis (page_mem_rangePages (pageSize_dvd_of_block (h.block_dvd hb)) h1 h2)
    (page_mem_rangePages (pageSize_dvd_of_block (h.block_dvd hb')) hx.1 hx.2)

/-- The pages of a listed block are usable. -/
lemma Inv.block_usable (h : Inv z s M) (hb : b ∈ s.blocks) (hp : p ∈ rangePages b.1 (2 ^ b.2)) : Usable z p :=
  h.usable p (mem_add.mpr (Or.inl (mem_free_of_block hb hp)))

lemma Inv.block_bounds (h : Inv z s M) (hb : b ∈ s.blocks) : s.zone.base ≤ b.1 ∧ b.1 + blockSize b.2 ≤ s.zone.top := by
  obtain ⟨h1, h2, -⟩ := usable_range (pageSize_dvd_of_block (h.block_dvd hb)) (Nat.two_pow_pos b.2)
    fun p hp => h.block_usable hb hp
  obtain ⟨hbase, htop, -⟩ := h.bounds
  rw [hbase, htop, blockSize_eq]
  exact ⟨h1, h2⟩

/-- The zone ends where the last region does. -/
lemma zoneBounds_top_le {b : ℕ} (h : ∀ r ∈ regions, (regionBounds r).2 ≤ b) : (zoneBounds regions).2 ≤ b := by
  have hfold : ∀ m : ℕ × ℕ, m.2 ≤ b → (regions.foldl (fun (m : ℕ × ℕ) r =>
      let b := regionBounds r
      if b.1 < b.2 then (min m.1 b.1, max m.2 b.2) else m) m).2 ≤ b := by
    induction regions with
    | nil => exact fun m hm => hm
    | cons r rest ih =>
      intro m hm
      refine ih (fun r' hr' => h r' (List.mem_cons_of_mem _ hr')) _ ?_
      dsimp only
      split
      · exact max_le hm (h r List.mem_cons_self)
      · exact hm
  exact hfold (u64Max, 0) (Nat.zero_le _)

lemma regionBounds_end_le (r : ℕ × ℕ) : (regionBounds r).2 ≤ r.1 + r.2 :=
  Nat.and_le_left.trans (min_le_left _ _)

lemma zoneBounds_lt (regions : List (ℕ × ℕ)) : (zoneBounds regions).2 < 2 ^ 64 :=
  Nat.lt_of_le_pred (by norm_num)
    (zoneBounds_top_le fun _ _ => Nat.le_pred_of_lt (lt_of_le_of_lt Nat.and_le_left (satAdd_lt _ _)))

/-- Below `2 ^ 64` there are fewer pages than the counter can count. -/
lemma Inv.card_lt (h : Inv z s M) (ht : z.zone.top < 2 ^ 64) : s.free.card < 2 ^ 64 := by
  have hn : s.free.Nodup := (nodup_add.mp h.nodup).1
  have hsub : s.free ≤ Multiset.range (2 ^ 52) := by
    rw [le_iff_subset hn]
    intro p hp
    obtain ⟨-, h2, -⟩ := h.usable p (mem_add.mpr (Or.inl hp))
    rw [mem_range]
    simp only [pageSize] at h2
    omega
  have := card_le_card hsub
  rw [card_range] at this
  omega

/-- Whatever the processors do, between two sections the free blocks are
pairwise disjoint, aligned, inside the zone, clear of reserved pages and of
what the callers own, and counted. -/
theorem buddy_safe {Cpu : Type} [Fintype Cpu] [DecidableEq Cpu] {regions : List (ℕ × ℕ)}
    (hd : regions.Pairwise RangesDisjoint) (he : ∀ r ∈ regions, r.1 + r.2 < 2 ^ 64) (bi ks kn : ℕ)
    (excl : List (ℕ × ℕ)) {P : Pool client Cpu}
    (hr : Pool.Reach (Pool.idle ((initFromRegions regions bi ks kn excl).run State.boot).2) P) :
    P.shared.blocks.Pairwise
        (fun b b' => RangesDisjoint (b.1, blockSize b.2) (b'.1, blockSize b'.2)) ∧
      (∀ b ∈ P.shared.blocks, blockSize b.2 ∣ b.1 ∧
        P.shared.zone.base ≤ b.1 ∧ b.1 + blockSize b.2 ≤ P.shared.zone.top) ∧
      (∀ b ∈ P.shared.blocks, ∀ x, b.1 ≤ x → x < b.1 + blockSize b.2 → isReservedPage P.shared (x / pageSize) = false) ∧
      (∀ b ∈ P.shared.blocks, ∀ t ∈ P.owned, RangesDisjoint (b.1, blockSize b.2) (t.1, t.2 * pageSize)) ∧
      P.shared.zone.freePages = (P.shared.blocks.map fun b => 2 ^ b.2).sum := by
  have hinv := Pool.reach_inv client_safe hr (Pool.idle_inv (init_inv hd he bi ks kn excl))
  have hok := hinv.owned_ok
  obtain ⟨F, h, -⟩ := hinv.shared_inv
  refine ⟨h.blocks_disjoint, fun b hb => ⟨h.block_dvd hb, h.block_bounds hb⟩, fun b hb x h1 h2 => ?_,
    fun b hb t ht x h1 h2 hx => ?_, ?_⟩
  · rw [blockSize_eq] at h2
    have hp := page_mem_rangePages (pageSize_dvd_of_block (h.block_dvd hb)) h1 h2
    rw [h.bounds.reserved]
    exact (h.block_usable hb hp).2.2
  · rw [blockSize_eq] at h2
    obtain ⟨k, -, -, ht1⟩ := hok t ht
    have hp := page_mem_rangePages (pageSize_dvd_of_block (h.block_dvd hb)) h1 h2
    have hp' := page_mem_rangePages (pageSize_dvd_of_block ht1) hx.1 hx.2
    have hmem : x / pageSize ∈ client.total P.owned + F :=
      Multiset.mem_add.mpr (Or.inl (Client.mem_total (C := client) ht hp'))
    exact Multiset.disjoint_left.mp (Multiset.nodup_add.mp h.nodup).2.2 (mem_free_of_block hb hp) hmem
  · rw [h.count, Nat.mod_eq_of_lt (h.card_lt (zoneBounds_lt regions)), card_free_blocks]

/-- One of two processors allocates two pages from a block of four, then the
other begins to allocate. -/
theorem buddy_safe_two_cpus : ∃ s s', ((initFromRegions [(0x10000, 0x5000), (0x20000, 0x3000)] 0x9000 0 0
      [(0x21000, 8)]).run State.boot).2 = s ∧ (allocOrder 1).run s = (some 0x12000, s') ∧
    s'.blocks = [(0x22000, 0), (0x20000, 0), (0x14000, 0), (0x10000, 1)] ∧ s'.zone.freePages = 5 ∧
    ∀ b ∈ s'.blocks, RangesDisjoint (b.1, blockSize b.2) (0x12000, 2 * pageSize) := by
  have hd : [(0x10000, 0x5000), (0x20000, 0x3000)].Pairwise RangesDisjoint := by
    simp only [List.pairwise_cons, List.mem_singleton, forall_eq, RangesDisjoint]
    refine ⟨fun x _ h hx => ?_, by simp⟩
    omega
  have hrun : ((allocOrder 1).run ((initFromRegions [(0x10000, 0x5000), (0x20000, 0x3000)] 0x9000 0 0
        [(0x21000, 8)]).run State.boot).2).1 = some 0x12000 ∧
      ((allocOrder 1).run ((initFromRegions [(0x10000, 0x5000), (0x20000, 0x3000)] 0x9000 0 0
        [(0x21000, 8)]).run State.boot).2).2.blocks = [(0x22000, 0), (0x20000, 0), (0x14000, 0), (0x10000, 1)] := by
    decide +kernel
  obtain ⟨s, hs⟩ : ∃ s, ((initFromRegions [(0x10000, 0x5000), (0x20000, 0x3000)] 0x9000 0 0
    [(0x21000, 8)]).run State.boot).2 = s := ⟨_, rfl⟩
  have hr : Pool.Reach (Pool.idle s : Pool client (Fin 2)) _ :=
    (Pool.reach_call (c := 0) (Call.allocOrder 1) 0 rfl rfl).tail
      (Pool.Step.call _ 1 (Call.allocOrder 0) _ rfl (zero_add _).symm)
  rw [hs] at hrun
  rw [← hs] at hr
  obtain ⟨-, -, -, howned, hcount⟩ := buddy_safe hd (by simp) 0x9000 0 0 [(0x21000, 8)] hr
  rw [hs] at howned hcount
  have hsum := congrArg (fun l : List (ℕ × ℕ) => (l.map fun b => 2 ^ b.2).sum) hrun.2
  refine ⟨s, _, hs, Prod.ext hrun.1 rfl, hrun.2, hcount.trans hsum, fun b hb => ?_⟩
  refine howned b hb (0x12000, 2) ?_
  change _ ∈ Call.gives (.allocOrder 1) ((allocOrder 1).run s).1 + 0
  rw [hrun.1]
  exact Multiset.mem_singleton_self _

end LodaxOS.Phys
