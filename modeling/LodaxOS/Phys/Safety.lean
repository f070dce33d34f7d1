/-
# The buddy allocator is safe in every interleaving

Every function of the allocator is safe (`Sections.Prog.Safe`) for the
invariant `Inv`: it takes the pages it is given, keeps to itself the blocks it
holds between two sections, and returns with exactly the pages of its result.
Allocation and free link a block only where its buddy is not listed, so they
are safe for every further property that such links and all unlinks keep
(`Stable`, `InvWith`); `init_from_regions` and `reserve_range` link without a
look at buddies.
-/
import LodaxOS.Phys.Sections

namespace LodaxOS.Phys

open Sections Words Prog Safe

variable {z : State}

/-! ### Carving -/

variable {e a k n : ℕ} {s : State} {F M : Multiset ℕ}

/-- A chunk is at least a page, so that the fuel suffices for the rest. -/
lemma chunk_fuel {fuel : ℕ} (hfit : a + blockSize (chunkOrder a e) ≤ e) (hf : (e - a) / pageSize ≤ fuel + 1) :
    (e - (a + blockSize (chunkOrder a e))) / pageSize ≤ fuel := by
  have h1 : (e - a) / pageSize = (e - (a + blockSize (chunkOrder a e))) / pageSize + 2 ^ chunkOrder a e := by
    rw [← add_pages_div, ← blockSize_eq]
    congr 1
    omega
  have h2 := Nat.two_pow_pos (chunkOrder a e)
  omega

lemma carveLoop_safe (he : pageSize ∣ e) : ∀ (fuel a : ℕ), pageSize ∣ a → (e - a) / pageSize ≤ fuel →
    Safe (Inv z) (carveLoop e fuel a) (rangePages a ((e - a) / pageSize)) fun _ h => h = 0
  | 0, a, _, hf => by
    rw [Nat.le_zero.mp hf]
    exact pure rfl
  | fuel + 1, a, ha, hf => by
    unfold carveLoop
    by_cases h : a < e
    · rw [if_pos h]
      obtain ⟨hk, hd, hfit⟩ := chunkOrder_spec ha he h
      rw [rangePages_chunk hfit]
      refine bind (Q := fun _ h' => h' = rangePages (a + blockSize (chunkOrder a e))
        ((e - (a + blockSize (chunkOrder a e))) / pageSize)) ?_ ?_
      · refine modify fun s F hI => ⟨_, addBlock_inv hk hd ?_, rfl⟩
        rwa [add_assoc] at hI
      · rintro - _ rfl
        exact carveLoop_safe he fuel _ (Nat.dvd_add ha (pageSize_dvd_blockSize _)) (chunk_fuel hfit hf)
    · rw [if_neg h, Nat.sub_eq_zero_of_le (by omega), Nat.zero_div]
      exact pure rfl

lemma carveRange_safe (ha : pageSize ∣ a) (he : pageSize ∣ e) :
    Safe (Inv z) (carveRange a e) (rangePages a ((e - a) / pageSize)) fun _ h => h = 0 :=
  carveLoop_safe he _ a ha (Nat.div_le_div_right (Nat.le_add_right _ _))

lemma carveAll_safe : ∀ l : List (ℕ × ℕ), (∀ r ∈ l, pageSize ∣ r.1 ∧ pageSize ∣ r.2) →
    Safe (Inv z) (carveAll l) (endsPages l) fun _ h => h = 0
  | [], _ => pure rfl
  | (cs, ce) :: rest, h => by
    unfold carveAll
    obtain ⟨h1, h2⟩ := h _ List.mem_cons_self
    rw [endsPages_cons]
    refine ((carveRange_safe h1 h2).frame (endsPages rest)).bind ?_
    rintro - _ ⟨_, rfl, rfl⟩
    rw [zero_add]
    exact carveAll_safe rest fun r hr => h r (List.mem_cons_of_mem _ hr)

/-! ### Properties that allocation and free keep -/

/-- A property of the lists that survives every unlink, and every link of a
block that was held and whose buddy is not listed. -/
structure Stable (z : State) (J : State → Prop) : Prop where
  unlink : ∀ {s : State} {k : ℕ} {l : List ℕ} {n : ℕ}, l.Sublist (s.zone.freeLists k) → J s → J (s.setList k l n)
  link : ∀ {s : State} {a k : ℕ} {F : Multiset ℕ}, k ≤ maxOrder → blockSize k ∣ a →
    Inv z s (rangePages a (2 ^ k) + F) → (k < maxOrder → a ^^^ blockSize k ∉ s.zone.freeLists k) →
    J s → J (addBlock s a k)
  counts : ∀ {s : State} {f : ℕ → ℕ}, J s → J { s with refcounts := f }

lemma stable_true : Stable z fun _ => True := ⟨fun _ _ => trivial, fun _ _ _ _ _ => trivial, fun _ => trivial⟩

/-- The invariant with a further property of the lists. -/
def InvWith (J : State → Prop) (z s : State) (M : Multiset ℕ) : Prop := J s ∧ Inv z s M

lemma invWith_true : InvWith (fun _ => True) z = Inv z := by
  funext s M
  simp [InvWith]

section

variable {J : State → Prop} (hJ : Stable z J)

include hJ

lemma addBlock_keeps (hk : k ≤ maxOrder) (ha : blockSize k ∣ a)
    (hb : k < maxOrder → a ^^^ blockSize k ∉ s.zone.freeLists k)
    (h : InvWith J z s (rangePages a (2 ^ k) + F)) : InvWith J z (addBlock s a k) F :=
  ⟨hJ.link hk ha h.2 hb h.1, addBlock_inv hk ha h.2⟩

lemma popBlock_keeps {s' : State} (hk : k ≤ maxOrder) (h : InvWith J z s F) (hp : popBlock s k = (some a, s')) :
    InvWith J z s' (rangePages a (2 ^ k) + F) ∧ blockSize k ∣ a := by
  obtain ⟨hI, ha⟩ := popBlock_inv hk h.2 hp
  refine ⟨⟨?_, hI⟩, ha⟩
  rcases popBlock_cases s k with ⟨-, he⟩ | ⟨b, l, hl, he⟩
  · rw [he] at hp; simp at hp
  · rw [he, Prod.mk.injEq] at hp
    rw [← hp.2]
    exact hJ.unlink (by rw [hl]; exact List.sublist_cons_self b l) h.1

lemma removeBlock_keeps {t : ℕ} (hk : k ≤ maxOrder) (h : InvWith J z s F) (ht : t ∈ s.zone.freeLists k) :
    InvWith J z (removeBlock s t k).2 (rangePages t (2 ^ k) + F) := by
  refine ⟨?_, removeBlock_inv hk h.2 ht⟩
  rw [removeBlock, if_pos ht]
  exact hJ.unlink List.erase_sublist h.1

lemma InvWith.refcounts (h : InvWith J z s M) (f : ℕ → ℕ) : InvWith J z { s with refcounts := f } M :=
  ⟨hJ.counts h.1, h.2.congr ⟨rfl, rfl, rfl, rfl, rfl, rfl⟩ rfl rfl⟩

omit hJ in
lemma InvWith.drop_left (h : InvWith J z s (M + F)) : InvWith J z s (0 + F) :=
  ⟨h.1, h.2.drop_left⟩

/-! ### Giving pages back -/

lemma coalesceUp_safe : ∀ (up a k : ℕ), k + up = maxOrder → blockSize k ∣ a →
    Safe (InvWith J z) (coalesceUp up a k) (rangePages a (2 ^ k)) fun _ h => h = 0
  | 0, a, k, hk, ha => modify fun s F hI =>
    ⟨0, by rw [zero_add]; exact addBlock_keeps hJ (by omega) ha (by omega) hI, rfl⟩
  | up + 1, a, k, hk, ha => by
    unfold coalesceUp
    obtain ⟨hd, hpages⟩ := buddy_pages ha
    refine bind (Q := fun m h => h = if m then rangePages (min a (a ^^^ blockSize k)) (2 ^ (k + 1))
      else 0) ?_ ?_
    · -- with its buddy listed the block grows, otherwise it is linked
      refine atomically fun s F hI => ?_
      rcases removeOrAdd_cases s a (a ^^^ blockSize k) k with ⟨hb, he⟩ | ⟨hb, he⟩
      · rw [he]
        refine ⟨_, ?_, rfl⟩
        have := removeBlock_keeps hJ (by omega) hI hb
        rw [if_pos rfl, hpages]
        rwa [← add_assoc, add_comm (rangePages (a ^^^ blockSize k) _)] at this
      · rw [he]
        refine ⟨0, ?_, by simp⟩
        rw [zero_add]
        exact addBlock_keeps hJ (by omega) ha (fun _ => hb) hI
    · rintro m _ rfl
      cases m
      · exact pure (by simp)
      · exact coalesceUp_safe up _ (k + 1) (by omega) hd

lemma coalesce_safe (hk : k ≤ maxOrder) (ha : blockSize k ∣ a) :
    Safe (InvWith J z) (coalesce a k) (rangePages a (2 ^ k)) fun _ h => h = 0 :=
  coalesceUp_safe hJ _ a k (by omega) ha

/-- A count that is not 1 keeps the page: the caller no longer holds it. -/
lemma unrefPage_safe (pn : ℕ) (M : Multiset ℕ) :
    Safe (InvWith J z) (unrefPage pn) M fun b h => h = if b then M else 0 := by
  unfold unrefPage
  by_cases hp : refcountMaxPages ≤ pn
  · rw [if_pos hp]
    exact pure (by simp)
  · rw [if_neg hp]
    refine atomically fun s F hI => ?_
    cases hc : s.refcounts pn == 1
    · exact ⟨0, hI.drop_left.refcounts hJ _, by simp⟩
    · exact ⟨M, hI.refcounts hJ _, by simp⟩

lemma refPage_safe (pn : ℕ) (M : Multiset ℕ) : Safe (InvWith J z) (refPage pn) M fun _ h => h = M := by
  unfold refPage
  split
  · refine bind (Q := fun _ h => h = M) ?_ ?_
    · exact atomically fun s F hI => ⟨_, hI.refcounts hJ _, rfl⟩
    · rintro old _ rfl
      split
      · exact modify fun s F hI => ⟨_, hI.refcounts hJ _, rfl⟩
      · exact pure rfl
  · exact pure rfl

lemma freeOrder_safe (hk : k ≤ maxOrder) (ha : blockSize k ∣ a) :
    Safe (InvWith J z) (freeOrder a k) (rangePages a (2 ^ k)) fun _ h => h = 0 := by
  unfold freeOrder
  have hp : a % pageSize = 0 := Nat.mod_eq_zero_of_dvd (pageSize_dvd_of_block ha)
  rw [if_neg (by omega)]
  refine bind (Q := fun b h => h = if b then rangePages a (2 ^ k) else 0) ?_ ?_
  · refine atomically fun s F hI => ?_
    cases hf : freeable s a k
    · exact ⟨0, hI.drop_left, by simp [hf]⟩
    · exact ⟨_, hI, by simp [hf]⟩
  · rintro b _ rfl
    cases b
    · exact pure (by simp)
    · simp only [if_true]
      split
      · refine (unrefPage_safe hJ _ _).bind ?_
        rintro c _ rfl
        cases c
        · exact pure (by simp)
        · exact coalesce_safe hJ hk ha
      · exact coalesce_safe hJ hk ha

lemma chunkLoop_safe (he : pageSize ∣ e) : ∀ (fuel a : ℕ), pageSize ∣ a → (e - a) / pageSize ≤ fuel →
    Safe (InvWith J z) (chunkLoop e fuel a) (rangePages a ((e - a) / pageSize)) fun _ h => h = 0
  | 0, a, _, hf => by
    rw [Nat.le_zero.mp hf]
    exact pure rfl
  | fuel + 1, a, ha, hf => by
    unfold chunkLoop
    by_cases h : a < e
    · rw [if_pos h]
      obtain ⟨hk, hd, hfit⟩ := chunkOrder_spec ha he h
      rw [rangePages_chunk hfit]
      refine ((freeOrder_safe hJ hk hd).frame _).bind ?_
      rintro - _ ⟨_, rfl, rfl⟩
      rw [zero_add]
      exact chunkLoop_safe he fuel _ (Nat.dvd_add ha (pageSize_dvd_blockSize _)) (chunk_fuel hfit hf)
    · rw [if_neg h, Nat.sub_eq_zero_of_le (by omega), Nat.zero_div]
      exact pure rfl

lemma freePagesChunked_safe (ha : pageSize ∣ a) :
    Safe (InvWith J z) (freePagesChunked a n) (rangePages a n) fun _ h => h = 0 := by
  have hn : (a + n * pageSize - a) / pageSize = n := by
    rw [Nat.add_sub_cancel_left, Nat.mul_div_cancel _ pageSize_pos]
  have := chunkLoop_safe hJ (Nat.dvd_add ha (Dvd.intro_left n rfl)) n a ha (le_of_eq hn)
  rwa [hn] at this

lemma freePages_safe (ha : pageSize ∣ a) : Safe (InvWith J z) (freePages a n) (rangePages a n) fun _ h => h = 0 := by
  unfold freePages
  split
  · rename_i hn
    subst hn
    exact pure rfl
  · refine bind (Q := fun b h => h = if b then 0 else rangePages a n) ?_ ?_
    · refine atomically fun s F hI => ?_
      cases hr : isReservedPage s (a / pageSize)
      · exact ⟨_, hI, by simp [hr]⟩
      · exact ⟨0, hI.drop_left, by simp [hr]⟩
    · rintro b _ rfl
      cases b
      · exact freePagesChunked_safe hJ ha
      · exact pure (by simp)

/-! ### Taking pages -/

/-- What a caller holds after a request for `n` pages at the front of a block
of order `k`. -/
def Granted (n k : ℕ) : Option ℕ → Multiset ℕ → Prop
  | none, h => h = 0
  | some a, h => h = rangePages a n ∧ k ≤ maxOrder ∧ n ≤ 2 ^ k ∧ blockSize k ∣ a

lemma splitLoop_safe (k : ℕ) : ∀ (n a : ℕ), k + n ≤ maxOrder → blockSize (k + n) ∣ a →
    Safe (InvWith J z) (splitLoop k n a) (rangePages a (2 ^ (k + n)))
      fun b h => h = rangePages b (2 ^ k) ∧ blockSize k ∣ b
  | 0, a, _, ha => pure ⟨rfl, ha⟩
  | n + 1, a, hk, ha => by
    unfold splitLoop
    have ha' : blockSize (k + n) ∣ a := dvd_trans (blockSize_dvd (by omega)) ha
    rw [← add_assoc, rangePages_double]
    refine bind (Q := fun _ h => h = rangePages (a + blockSize (k + n)) (2 ^ (k + n))) ?_ ?_
    · -- the upper half is held, so it is not listed
      refine modify fun s F hI => ⟨_, addBlock_keeps hJ (by omega) ha' (fun _ => ?_) ?_, rfl⟩
      · rw [upper_buddy (k := k + n) ha]
        exact hI.2.not_listed (by omega) ((Multiset.le_add_left _ _).trans (Multiset.le_add_right _ _))
      · rwa [add_assoc] at hI
    · rintro - _ rfl
      exact splitLoop_safe k n _ (by omega) (Nat.dvd_add ha' (dvd_refl _))

lemma resetRefcount_keeps (h : InvWith J z s M) (pn : ℕ) : InvWith J z (resetRefcount s pn) M := by
  unfold resetRefcount
  split
  · exact h.refcounts hJ _
  · exact h

lemma searchUp_safe (hk : k ≤ maxOrder) : ∀ l : List ℕ, (∀ j ∈ l, k ≤ j ∧ j ≤ maxOrder) →
    Safe (InvWith J z) (searchUp k l) 0 (Granted (2 ^ k) k)
  | [], _ => pure rfl
  | j :: rest, h => by
    unfold searchUp
    obtain ⟨hj, hj'⟩ := h j List.mem_cons_self
    refine bind (Q := Granted (2 ^ j) j) ?_ ?_
    · refine atomically fun s F hI => ?_
      rw [zero_add] at hI
      rcases popBlock_cases s j with ⟨-, he⟩ | ⟨a, l, -, he⟩
      · rw [he]
        exact ⟨0, by rwa [zero_add], rfl⟩
      · rw [he]
        obtain ⟨h1, h2⟩ := popBlock_keeps hJ hj' hI he
        exact ⟨_, h1, rfl, hj', le_rfl, h2⟩
    · intro r m hr
      cases r with
      | none =>
        rw [show m = 0 from hr]
        exact searchUp_safe hk rest fun i hi => h i (List.mem_cons_of_mem _ hi)
      | some a =>
        obtain ⟨rfl, -, -, ha⟩ := hr
        have hkj : k + (j - k) = j := by omega
        have hs := splitLoop_safe hJ k (j - k) a (by omega) (by rwa [hkj])
        rw [hkj] at hs
        refine hs.bind ?_
        rintro b _ ⟨rfl, hb⟩
        refine bind (Q := fun _ h => h = rangePages b (2 ^ k)) ?_ ?_
        · unfold resetSplit
          split
          · exact modify fun s F hI => ⟨_, resetRefcount_keeps hJ hI _, rfl⟩
          · exact pure rfl
        · rintro - _ rfl
          exact pure ⟨rfl, hk, le_rfl, hb⟩

lemma allocOrder_safe (k : ℕ) : Safe (InvWith J z) (allocOrder k) 0 (Granted (2 ^ k) k) := by
  unfold allocOrder
  split
  · exact pure rfl
  · rename_i hk
    refine bind (Q := Granted (2 ^ k) k) ?_ ?_
    · refine atomically fun s F hI => ?_
      rw [zero_add] at hI
      unfold popReset
      rcases popBlock_cases s k with ⟨-, he⟩ | ⟨a, l, -, he⟩
      · rw [he]
        exact ⟨0, by rwa [zero_add], rfl⟩
      · obtain ⟨h1, h2⟩ := popBlock_keeps hJ (by omega) hI he
        rw [he]
        refine ⟨_, ?_, rfl, by omega, le_rfl, h2⟩
        dsimp only
        split
        · exact resetRefcount_keeps hJ h1 _
        · exact h1
    · intro r m hr
      cases r with
      | none =>
        rw [show m = 0 from hr]
        refine searchUp_safe hJ (by omega) _ fun j hj => ?_
        rw [List.mem_range'_1] at hj
        omega
      | some => exact pure hr

omit hJ in
/-- `alloc_pages` takes the smallest block that holds the pages. -/
lemma le_two_pow_pagesOrder (h2 : 2 ≤ n) (h : n ≤ 1 <<< maxOrder) : n ≤ 2 ^ pagesOrder n := by
  rw [Nat.one_shiftLeft] at h
  have hlt : n - 1 < 2 ^ (Nat.log 2 (n - 1) + 1) := Nat.lt_pow_succ_log_self (by norm_num) _
  have hlog : Nat.log 2 (n - 1) < maxOrder := by
    refine Nat.log_lt_of_lt_pow (by omega) ?_
    omega
  have hm : maxOrder = 10 := rfl
  have ho : pagesOrder n = Nat.log 2 (n - 1) + 1 := by
    unfold pagesOrder
    rw [leadingZeros_of_pos (by omega)]
    omega
  rw [ho]
  omega

lemma allocPages_safe (n : ℕ) : Safe (InvWith J z) (allocPages n) 0 (Granted n (pagesOrder n)) := by
  unfold allocPages
  split
  · exact pure rfl
  · split
    · rename_i h0 h1
      subst h1
      exact (allocOrder_safe hJ 0).mono fun r m hr => hr
    · split
      · exact pure rfl
      · rename_i h0 h1 hmax
        have hle := le_two_pow_pagesOrder (by omega) (by omega : n ≤ 1 <<< maxOrder)
        refine (allocOrder_safe hJ (pagesOrder n)).bind ?_
        intro r m hr
        cases r with
        | none => exact pure hr
        | some a =>
          obtain ⟨rfl, hk, -, ha⟩ := hr
          refine bind (Q := fun _ h => h = rangePages a n) ?_ ?_
          · unfold freeExcess
            rw [Nat.one_shiftLeft]
            split
            · -- the pages beyond `n` go back
              have hsplit : rangePages a (2 ^ pagesOrder n) =
                  rangePages (a + n * pageSize) (2 ^ pagesOrder n - n) + rangePages a n := by
                rw [add_comm, ← rangePages_add, Nat.add_sub_cancel' hle]
              rw [hsplit]
              have hd : pageSize ∣ a + n * pageSize :=
                Nat.dvd_add (pageSize_dvd_of_block ha) (Dvd.intro_left n rfl)
              refine ((freePagesChunked_safe hJ hd).frame (rangePages a n)).mono ?_
              rintro - _ ⟨_, rfl, rfl⟩
              rw [zero_add]
            · exact pure (by rw [show 2 ^ pagesOrder n = n by omega])
          · rintro - _ rfl
            exact pure ⟨rfl, hk, hle, ha⟩

end

/-- What is safe for every stable property is safe for the invariant alone. -/
lemma safe_inv {α : Type} {p : Prog State α} {Q : α → Multiset ℕ → Prop}
    (h : ∀ J : State → Prop, Stable z J → Safe (InvWith J z) p M Q) : Safe (Inv z) p M Q :=
  invWith_true (z := z) ▸ h (fun _ => True) stable_true

/-! ### Reserving -/

lemma removeOrders_safe {rs re : ℕ} (hrs : pageSize ∣ rs) (hre : pageSize ∣ re) (hle : rs ≤ re) :
    ∀ l : List ℕ, (∀ k ∈ l, k ≤ maxOrder) → Safe (Inv z) (removeOrders rs re l) 0 fun _ h => h = 0
  | [], _ => pure rfl
  | k :: rest, hk => by
    unfold removeOrders removeRange
    refine bind (Q := fun _ h => h = 0) ?_ ?_
    · refine bind (Q := fun l h => h = endsPages l ∧ ∀ r ∈ l, pageSize ∣ r.1 ∧ pageSize ∣ r.2) ?_ ?_
      · refine atomically fun s F hI => ?_
        rw [zero_add] at hI
        obtain ⟨h1, h2⟩ := takeRange_inv (hk k List.mem_cons_self) hrs hre hle hI
        exact ⟨_, h1, rfl, h2⟩
      · rintro l _ ⟨rfl, hl⟩
        exact carveAll_safe l hl
    · rintro - _ rfl
      exact removeOrders_safe hrs hre hle rest fun j hj => hk j (List.mem_cons_of_mem _ hj)

lemma alignDown_le_alignUp {x y : ℕ} (hx : x < 2 ^ 64) : alignDown x pageSize ≤ alignUp (satAdd x y) pageSize := by
  rw [alignDown_eq hx, alignUp_eq]
  refine Nat.mul_le_mul_right _ (Nat.div_le_div_right ?_)
  simp only [satAdd, u64Max]
  omega

lemma reserveRange_safe {start : ℕ} (hs : start < 2 ^ 64) (n : ℕ) :
    Safe (Inv z) (reserveRange start n) 0 fun _ h => h = 0 :=
  removeOrders_safe (pageSize_dvd_alignDown _) (pageSize_dvd_alignUp _) (alignDown_le_alignUp hs) _
    fun k hk => by simpa [Nat.lt_succ_iff] using hk

end LodaxOS.Phys
