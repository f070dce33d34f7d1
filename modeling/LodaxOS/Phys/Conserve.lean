/-
# When allocation and free give every page back

A sequence of allocations and frees run by one caller (`runCalls`), which
frees only what it got. A page that goes back singly comes back to the free
lists only if its reference count is 1, and nothing resets the count of a page
that is allocated as part of a larger block. So a sequence that frees all it
allocated keeps the free pages exactly if each of its calls frees singly only
pages with count 1 (`conservation_iff`), and two rounds of three pages are
enough to lose one (`conservation_fails`).
-/
import LodaxOS.Phys.Buddy
import LodaxOS.Phys.Runs

namespace LodaxOS.Phys

open Sections Words Prog Call Multiset

variable {z : State}

/-! ### One call -/

/-- The allocations and frees among the calls. -/
def Call.AllocFree : Call → Prop
  | .allocOrder _ | .allocPages _ | .freeOrder _ _ | .freePages _ _ => True
  | _ => False

/-- The pages a call made in `s` frees singly. `alloc_pages` frees what its
block has beyond the `n` pages asked for. -/
def Call.singles (s : State) : Call → Multiset ℕ
  | .allocPages n =>
    if 2 ≤ n ∧ n ≤ 2 ^ maxOrder then
      match nextBlock s (pagesOrder n) with
      | some a => Phys.singles (a + n * pageSize) (2 ^ pagesOrder n - n)
      | none => 0
    else 0
  | .freeOrder a k => blockSingles a k
  | .freePages a n => Phys.singles a n
  | _ => 0

/-- A call that frees singly only pages that have count 1 or none. -/
def Call.Clean (s : State) (c : Call) : Prop := ∀ p ∈ c.singles s, counted s p = true

variable {s : State} {c : Call} {n : ℕ} {F : Multiset ℕ} {x y : State × Multiset (ℕ × ℕ)}

lemma allocOrder_free {k : ℕ} (hk : k ≤ maxOrder)
    (hg : ∀ a, c.gives (some a) = {(a, 2 ^ k)}) (hn : c.gives none = 0) :
    ((allocOrder k).run s).2.free + ownedPages (c.gives ((allocOrder k).run s).1) = s.free := by
  have h := allocOrder_run s hk
  cases hb : nextBlock s k with
  | none =>
    rw [hb] at h
    rw [show (allocOrder k).run s = (none, s) from h, hn, ownedPages_zero, add_zero]
  | some =>
    rw [hb] at h
    obtain ⟨h1, h2, -⟩ := h
    rw [h1, hg, ownedPages_singleton]
    exact h2

lemma pagesOrder_pos (h2 : 2 ≤ n) (h : n ≤ 2 ^ maxOrder) : pagesOrder n ≠ 0 := by
  have hle := le_two_pow_pagesOrder h2 (by rwa [Nat.one_shiftLeft])
  intro h0
  rw [h0, pow_zero] at hle
  omega

/-- `alloc_pages` for two pages or more: take a block, give the rest back. -/
lemma allocPages_run (h2 : 2 ≤ n) (hn : n ≤ 2 ^ maxOrder) :
    (allocPages n).run s = match (allocOrder (pagesOrder n)).run s with
      | (none, s') => (none, s')
      | (some a, s') =>
        (some a, ((freePagesChunked (a + n * pageSize) (2 ^ pagesOrder n - n)).run s').2) := by
  unfold allocPages
  rw [if_neg (by omega), if_neg (by omega), if_neg (by rw [Nat.one_shiftLeft]; omega), run_bind]
  rcases (allocOrder (pagesOrder n)).run s with ⟨_ | a, s'⟩
  · rfl
  · simp only [run_bind, run_pure, freeExcess, Nat.one_shiftLeft]
    split
    · rfl
    · rw [Nat.sub_eq_zero_of_le (by omega)]
      rfl

lemma allocPages_free (h2 : 2 ≤ n) (hn : n ≤ 2 ^ maxOrder) (h : Inv z s F) :
    ((allocPages n).run s).2.free + ownedPages (gives (.allocPages n) ((allocPages n).run s).1) +
        lost s (Call.singles s (.allocPages n)) = s.free := by
  have hk : pagesOrder n ≤ maxOrder := min_le_right _ _
  have hle := le_two_pow_pagesOrder h2 (by rwa [Nat.one_shiftLeft])
  have ha := allocOrder_run s hk
  have hsafe := (safe_inv fun _ hJ => allocOrder_safe hJ (pagesOrder n)).run (F := F) (by rwa [zero_add])
  rw [allocPages_run h2 hn]
  simp only [Call.singles, h2, hn, and_self, if_true]
  cases hb : nextBlock s (pagesOrder n) with
  | none =>
    rw [hb] at ha
    rw [show (allocOrder (pagesOrder n)).run s = (none, s) from ha]
    simp [lost, gives]
  | some a =>
    rw [hb] at ha
    obtain ⟨M, hI, hG⟩ := hsafe
    generalize (allocOrder (pagesOrder n)).run s = out at ha hI hG ⊢
    obtain ⟨r, s'⟩ := out
    obtain ⟨rfl, ha2, ha3⟩ := ha
    obtain ⟨rfl, -, -, had⟩ := hG
    dsimp only at ha2 ha3 hI ⊢
    have hsplit : rangePages a (2 ^ pagesOrder n) =
        rangePages (a + n * pageSize) (2 ^ pagesOrder n - n) + rangePages a n := by
      rw [add_comm, ← rangePages_add, Nat.add_sub_cancel' hle]
    rw [hsplit, add_assoc] at hI
    -- a block of order 1 or more is taken without a look at its counts
    have hcounts : s'.refcounts = s.refcounts := by
      rw [ha3, allocCounts, if_neg (pagesOrder_pos h2 hn)]
    have hfree := freePagesChunked_run (Nat.dvd_add (pageSize_dvd_of_block had) (Dvd.intro_left n rfl)) hI
    rw [lost_congr fun q _ => congrFun hcounts q] at hfree
    rw [gives, ownedPages_singleton, add_right_comm, hfree, ← ha2, hsplit]
    abel

/-- The free pages before and after a call. -/
lemma call_free (hc : c.AllocFree) (hok : ∀ t ∈ c.takes, RangeOk t) (h : Inv z s (ownedPages c.takes + F)) :
    (c.prog.run s).2.free + ownedPages (c.gives (c.prog.run s).1) + lost s (c.singles s) =
      s.free + ownedPages c.takes := by
  cases c with
  | allocOrder k =>
    simp only [takes, Call.singles, lost, filter_zero, ownedPages_zero, add_zero]
    by_cases hk : k ≤ maxOrder
    · exact allocOrder_free (c := .allocOrder k) hk (fun _ => rfl) rfl
    · have hnone : (Call.allocOrder k).prog.run s = (none, s) := by
        rw [prog, allocOrder, if_pos (by omega), run_pure]
      rw [hnone]
      simp [gives]
  | allocPages n =>
    simp only [takes, ownedPages_zero, add_zero]
    by_cases h2 : 2 ≤ n ∧ n ≤ 2 ^ maxOrder
    · exact allocPages_free h2.1 h2.2 h
    · have hs : lost s (Call.singles s (.allocPages n)) = 0 := by simp [Call.singles, h2, lost]
      rw [hs, add_zero]
      by_cases h1 : n = 1
      · subst h1
        rw [prog, show allocPages 1 = allocOrder 0 from rfl]
        exact allocOrder_free (c := .allocPages 1) (Nat.zero_le _) (fun _ => rfl) rfl
      · have hnone : (Call.allocPages n).prog.run s = (none, s) := by
          rw [prog, allocPages]
          by_cases h0 : n = 0
          · rw [if_pos h0, run_pure]
          · rw [if_neg h0, if_neg h1, if_pos (by rw [Nat.one_shiftLeft]; omega), run_pure]
        rw [hnone]
        simp [gives]
  | freeOrder =>
    obtain ⟨hk, ha⟩ := freeOrder_ok hok
    rw [takes, ownedPages_singleton] at h ⊢
    simp only [gives, ownedPages_zero, add_zero, Call.singles, prog, run_bind, run_pure]
    exact (freeOrder_run hk ha h).1
  | freePages =>
    rw [takes, ownedPages_singleton] at h ⊢
    simp only [gives, ownedPages_zero, add_zero, Call.singles, prog, run_bind, run_pure]
    exact freePages_run (freePages_ok hok) h
  | reserveRange | refPage | unrefPage => exact hc.elim

/-! ### A sequence of calls -/

/-- One caller makes a call with ranges it owns, or cannot. -/
def Call.step (c : Call) (x : State × Multiset (ℕ × ℕ)) : Option (State × Multiset (ℕ × ℕ)) :=
  if c.takes ≤ x.2 then
    some ((c.prog.run x.1).2, x.2 - c.takes + c.gives (c.prog.run x.1).1)
  else none

def runCalls : List Call → State × Multiset (ℕ × ℕ) → Option (State × Multiset (ℕ × ℕ))
  | [], x => some x
  | c :: cs, x => (c.step x).bind (runCalls cs)

/-- Every call of the sequence meets `P` in the state it is made in. -/
def EveryCall (P : State → Call → Prop) : List Call → State × Multiset (ℕ × ℕ) → Prop
  | [], _ => True
  | c :: cs, x => P x.1 c ∧
    match c.step x with
    | some y => EveryCall P cs y
    | none => True

instance EveryCall.decidable {P : State → Call → Prop} [∀ s c, Decidable (P s c)] :
    ∀ (cs : List Call) (x : State × Multiset (ℕ × ℕ)), Decidable (EveryCall P cs x)
  | [], _ => .isTrue trivial
  | c :: cs, x =>
    have : Decidable (match c.step x with
        | some y => EveryCall P cs y
        | none => True) :=
      match c.step x with
      | some y => EveryCall.decidable cs y
      | none => .isTrue trivial
    instDecidableAnd

lemma EveryCall.tail {P : State → Call → Prop} {cs : List Call} (h : c.step x = some y) :
    EveryCall P (c :: cs) x ↔ P x.1 c ∧ EveryCall P cs y := by
  rw [EveryCall, h]

def CleanRun : List Call → State × Multiset (ℕ × ℕ) → Prop := EveryCall fun s c => c.Clean s

lemma step_eq (h : c.step x = some y) : ∃ rest, x.2 = c.takes + rest ∧
      y = ((c.prog.run x.1).2, rest + c.gives (c.prog.run x.1).1) := by
  unfold step at h
  split at h
  · rename_i hle
    obtain ⟨rest, hrest⟩ := Multiset.le_iff_exists_add.mp hle
    refine ⟨rest, hrest, ?_⟩
    rw [← Option.some.inj h, hrest, add_tsub_cancel_left]
  · cases h

/-- What a caller may assume beside others that hold `F`. -/
def CallerInv (I : State → Multiset ℕ → Prop) (F : Multiset ℕ) (x : State × Multiset (ℕ × ℕ)) : Prop :=
  I x.1 (ownedPages x.2 + F) ∧ ∀ t ∈ x.2, RangeOk t

/-- A call that is safe keeps what its caller may assume. -/
lemma step_keeps {I : State → Multiset ℕ → Prop} (hx : CallerInv I F x) (h : c.step x = some y)
    (hc : (∀ t ∈ c.takes, RangeOk t) → Safe I c.prog (ownedPages c.takes) fun r h =>
      h = ownedPages (c.gives r) ∧ ∀ t ∈ c.gives r, RangeOk t) : CallerInv I F y := by
  obtain ⟨rest, hrest, rfl⟩ := step_eq h
  obtain ⟨hI, hok⟩ := hx
  rw [hrest] at hI hok
  rw [ownedPages_add, add_assoc] at hI
  obtain ⟨_, hI', rfl, hgok⟩ := (hc fun t ht => hok t (mem_add.mpr (Or.inl ht))).run hI
  refine ⟨?_, fun t ht => ?_⟩
  · rw [ownedPages_add]
    rwa [add_comm (ownedPages rest), add_assoc]
  · rcases mem_add.mp ht with ht | ht
    · exact hok t (mem_add.mpr (Or.inr ht))
    · exact hgok t ht

lemma step_free (hc : c.AllocFree) (hx : CallerInv (Inv z) F x) (h : c.step x = some y) :
    y.1.free + ownedPages y.2 + lost x.1 (c.singles x.1) = x.1.free + ownedPages x.2 := by
  obtain ⟨rest, hrest, rfl⟩ := step_eq h
  obtain ⟨hI, hok⟩ := hx
  rw [hrest] at hI hok ⊢
  rw [ownedPages_add, add_assoc] at hI
  have hfree := call_free hc (fun t ht => hok t (mem_add.mpr (Or.inl ht))) hI
  rw [ownedPages_add, ownedPages_add, ← add_assoc x.1.free, ← hfree]
  abel

/-- The pages lost on the way, none exactly if every call is clean. -/
lemma runCalls_free : ∀ (cs : List Call) (x y : State × Multiset (ℕ × ℕ)),
    (∀ c ∈ cs, c.AllocFree) → CallerInv (Inv z) F x → runCalls cs x = some y →
    CallerInv (Inv z) F y ∧ ∃ L, y.1.free + ownedPages y.2 + L = x.1.free + ownedPages x.2 ∧ (L = 0 ↔ CleanRun cs x)
  | [], x, y, _, hx, h => by
    cases h
    exact ⟨hx, 0, add_zero _, by simp [CleanRun, EveryCall]⟩
  | c :: cs, x, y, hc, hx, h => by
    obtain ⟨w, hw, h⟩ := Option.bind_eq_some_iff.mp h
    have hwfree := step_free (hc c List.mem_cons_self) hx hw
    obtain ⟨hyI, L, hL, hiff⟩ := runCalls_free cs w y (fun c' h' => hc c' (List.mem_cons_of_mem _ h'))
      (step_keeps hx hw c.safe) h
    refine ⟨hyI, L + lost x.1 (c.singles x.1), by rw [← hwfree, ← hL, ← add_assoc], ?_⟩
    rw [add_eq_zero_iff_of_nonneg (zero_le _) (zero_le _), hiff, lost_eq_zero, and_comm]
    exact (EveryCall.tail (P := fun s c => c.Clean s) hw).symm

/-- From any reachable state, a sequence of allocations and frees that gives
back all it got keeps the free pages and their number exactly if each of its
calls frees singly only pages with count 1. -/
theorem conservation_iff {Cpu : Type} [Fintype Cpu] [DecidableEq Cpu] {regions : List (ℕ × ℕ)}
    (hd : regions.Pairwise RangesDisjoint) (he : ∀ r ∈ regions, r.1 + r.2 < 2 ^ 64) (bi ks kn : ℕ)
    (excl : List (ℕ × ℕ)) {P : Pool client Cpu}
    (hr : Pool.Reach (Pool.idle ((initFromRegions regions bi ks kn excl).run State.boot).2) P)
    {calls : List Call} (hc : ∀ c ∈ calls, c.AllocFree) {s' : State}
    (hrun : runCalls calls (P.shared, 0) = some (s', 0)) :
    (s'.free = P.shared.free ∧ s'.zone.freePages = P.shared.zone.freePages) ↔ CleanRun calls (P.shared, 0) := by
  have hinv := Pool.reach_inv client_safe hr (Pool.idle_inv (init_inv hd he bi ks kn excl))
  obtain ⟨F, hI, -⟩ := hinv.shared_inv
  have hx : CallerInv (Inv _) (client.total P.owned + F) (P.shared, 0) :=
    ⟨by rw [ownedPages_zero, zero_add]; exact hI, by simp⟩
  obtain ⟨hy, L, hL, hiff⟩ := runCalls_free calls _ _ hc hx hrun
  simp only [ownedPages_zero, add_zero] at hL
  rw [← hiff]
  constructor
  · rintro ⟨hfree, -⟩
    rwa [hfree, add_eq_left] at hL
  · intro h0
    rw [h0, add_zero] at hL
    exact ⟨hL, by rw [hy.1.count, hL, hI.count]⟩

/-- The zone of five pages at 64 KB. -/
def fivePages : State := ((initFromRegions [(0x10000, 0x5000)] 0x9000 0 0 []).run State.boot).2

/-- A run that succeeds, with something computed from the state it ends in. -/
lemma exists_run {β : Type} {o : Option (State × Multiset (ℕ × ℕ))} {f : State → β} {b : β}
    (h : o.map (fun y => (y.2, f y.1)) = some (0, b)) : ∃ s', o = some (s', 0) ∧ f s' = b := by
  obtain ⟨⟨s', m⟩, ho, he⟩ := Option.map_eq_some_iff.mp h
  rw [Prod.mk.injEq] at he
  exact ⟨s', by rw [ho, ← he.1], he.2⟩

/-- Three pages taken and given back once are all there. -/
theorem conservation_iff_once : ∃ s', runCalls [.allocPages 3, .freePages 0x10000 3] (fivePages, 0) =
    some (s', 0) ∧ CleanRun [.allocPages 3, .freePages 0x10000 3] (fivePages, 0) := by
  obtain ⟨s', hrun, hs'⟩ := exists_run (o := runCalls [.allocPages 3, .freePages 0x10000 3] (fivePages, 0))
    (f := fun s => (s.free, s.zone.freePages)) (b := (fivePages.free, fivePages.zone.freePages))
    (by decide +kernel)
  rw [Prod.mk.injEq] at hs'
  have hf : ((initFromRegions [(0x10000, 0x5000)] 0x9000 0 0 []).run State.boot).2 = fivePages := by
    rw [fivePages]
  generalize fivePages = s at hf hrun hs' ⊢
  have hr : Pool.Reach (Pool.idle ((initFromRegions [(0x10000, 0x5000)] 0x9000 0 0 []).run
      State.boot).2 : Pool client Unit) (Pool.idle s) := by
    rw [hf]
  exact ⟨s', hrun, (conservation_iff (List.pairwise_singleton _ _) (by simp) 0x9000 0 0 []
    hr (by simp [Call.AllocFree]) hrun).mp hs'⟩

/-- Taken and given back twice, two of them are lost. -/
theorem conservation_fails : ∃ s', runCalls [.allocPages 3, .freePages 0x10000 3, .allocPages 3, .freePages 0x10000 3]
        (fivePages, 0) = some (s', 0) ∧
      s'.free = {16, 17, 20} ∧ fivePages.free = {16, 17, 18, 19, 20} ∧
      s'.zone.freePages = 3 ∧ fivePages.zone.freePages = 5 := by
  obtain ⟨s', hrun, hs'⟩ := exists_run
    (o := runCalls [.allocPages 3, .freePages 0x10000 3, .allocPages 3, .freePages 0x10000 3] (fivePages, 0))
    (f := fun s => (s.free, s.zone.freePages)) (b := ({16, 17, 20}, 3)) (by decide +kernel)
  rw [Prod.mk.injEq] at hs'
  exact ⟨s', hrun, hs'.1, by decide +kernel, hs'.2, by decide +kernel⟩

end LodaxOS.Phys
