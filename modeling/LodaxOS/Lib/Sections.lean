/-
# Programs of atomic sections

A program that runs beside others touches the shared state only inside its
locked sections. `Prog σ α` is such a program: it returns, or it enters a
section (an atomic change of the shared state) and goes on as the state it
found there tells it. `run` is its meaning when nobody else runs; `Pool`
interleaves the sections of any number of processors.

Between its sections a program may hold things it took out of the shared
state. `Safe I p h Q` says that `p`, holding `h`, keeps the invariant `I` at
every section whatever the others hold, and ends holding what `Q` allows. The
invariant sees what all of them hold as one sum, so a section is checked
against an arbitrary rest `F`, and programs checked one at a time are safe in
every interleaving (`Pool.reach_inv`).
-/
import Mathlib.Data.Fintype.BigOperators
import Mathlib.Tactic.Abel

namespace Sections

open Function Multiset

/-- A program over the shared state `σ` that returns an `α`. A section's
continuation sees the state as it was when the section was entered. -/
inductive Prog (σ α : Type) : Type
  | done (a : α)
  | locked (act : σ → σ) (next : σ → Prog σ α)

namespace Prog

variable {σ α β R : Type}

protected def bind : Prog σ α → (α → Prog σ β) → Prog σ β
  | .done a, f => f a
  | .locked act next, f => .locked act fun s => (next s).bind f

instance : Monad (Prog σ) where
  pure := .done
  bind := Prog.bind

/-- One section that computes a result. -/
def atomically (f : σ → α × σ) : Prog σ α :=
  .locked (fun s => (f s).2) fun s => .done (f s).1

/-- A look at the shared state. -/
def read (f : σ → α) : Prog σ α := atomically fun s => (f s, s)

/-- A change of the shared state. -/
def modify (f : σ → σ) : Prog σ Unit := atomically fun s => ((), f s)

/-- The program run alone from `s`. -/
def run : Prog σ α → σ → α × σ
  | .done a, s => (a, s)
  | .locked act next, s => (next s).run (act s)

@[simp] lemma run_pure (a : α) (s : σ) : (pure a : Prog σ α).run s = (a, s) := rfl

@[simp] lemma run_atomically (f : σ → α × σ) (s : σ) : (atomically f).run s = f s := rfl

@[simp] lemma run_read (f : σ → α) (s : σ) : (read f).run s = (f s, s) := rfl

@[simp] lemma run_modify (f : σ → σ) (s : σ) : (modify f).run s = ((), f s) := rfl

@[simp] lemma run_bind (p : Prog σ α) (f : α → Prog σ β) (s : σ) :
    (p >>= f).run s = (f (p.run s).1).run (p.run s).2 := by
  induction p generalizing s with
  | done => rfl
  | locked act next ih => exact ih s (act s)

/-- A program over a part of a larger state. -/
def within {τ : Type} (get : τ → σ) (set : σ → τ → τ) : Prog σ α → Prog τ α
  | .done a => .done a
  | .locked act next => .locked (fun t => set (act (get t)) t) fun t => (next (get t)).within get set

lemma bind_bind {γ : Type} (p : Prog σ α) (f : α → Prog σ β) (g : β → Prog σ γ) :
    p >>= f >>= g = p >>= fun a => f a >>= g := by
  induction p with
  | done => rfl
  | locked act next ih => exact congrArg (Prog.locked act) (funext ih)

/-! ### What a program holds between its sections -/

section Safe

variable [AddCommMonoid R] {I : σ → R → Prop} {p : Prog σ α} {h : R} {Q Q' : α → R → Prop}

/-- `p`, holding `h`, keeps `I` at each of its sections beside any holders of
the rest, and returns only with a result and a holding in `Q`. -/
def Safe (I : σ → R → Prop) : Prog σ α → R → (α → R → Prop) → Prop
  | .done a, h, Q => Q a h
  | .locked act next, h, Q =>
    ∀ s F, I s (h + F) → ∃ h', I (act s) (h' + F) ∧ Safe I (next s) h' Q

lemma Safe.pure {a : α} (hQ : Q a h) : Safe I (pure a) h Q := hQ

lemma Safe.atomically {f : σ → α × σ} (hf : ∀ s F, I s (h + F) → ∃ h', I (f s).2 (h' + F) ∧ Q (f s).1 h') :
    Safe I (atomically f) h Q := hf

/-- A look changes nothing; its result is what some state with the invariant
shows. -/
lemma Safe.read {f : σ → α} (hf : ∀ s F, I s (h + F) → Q (f s) h) : Safe I (read f) h Q :=
  fun s F hI => ⟨h, hI, hf s F hI⟩

lemma Safe.modify {f : σ → σ} {Q : Unit → R → Prop}
    (hf : ∀ s F, I s (h + F) → ∃ h', I (f s) (h' + F) ∧ Q () h') : Safe I (modify f) h Q := hf

lemma Safe.mono (hp : Safe I p h Q) (hQ : ∀ a h', Q a h' → Q' a h') : Safe I p h Q' := by
  induction p generalizing h with
  | done a => exact hQ a h hp
  | locked act next ih =>
    intro s F hI
    obtain ⟨h', hI', hn⟩ := hp s F hI
    exact ⟨h', hI', ih s hn⟩

lemma Safe.bind {f : α → Prog σ β} {Q' : β → R → Prop} (hp : Safe I p h Q)
    (hf : ∀ a h', Q a h' → Safe I (f a) h' Q') : Safe I (p >>= f) h Q' := by
  induction p generalizing h with
  | done a => exact hf a h hp
  | locked act next ih =>
    intro s F hI
    obtain ⟨h', hI', hn⟩ := hp s F hI
    exact ⟨h', hI', ih s hn⟩

/-- A program that also holds `g`, which it never touches. -/
lemma Safe.frame (g : R) (hp : Safe I p h Q) : Safe I p (h + g) fun a h' => ∃ h0, h' = h0 + g ∧ Q a h0 := by
  induction p generalizing h with
  | done => exact ⟨h, rfl, hp⟩
  | locked act next ih =>
    intro s F hI
    rw [add_assoc] at hI
    obtain ⟨h', hI', hn⟩ := hp s (g + F) hI
    exact ⟨h' + g, by rw [add_assoc]; exact hI', ih s hn⟩

/-- Run alone, a safe program keeps the invariant. -/
lemma Safe.run (hp : Safe I p h Q) {s : σ} {F : R} (hI : I s (h + F)) :
    ∃ h', I (p.run s).2 (h' + F) ∧ Q (p.run s).1 h' := by
  induction p generalizing h s with
  | done => exact ⟨h, hI, hp⟩
  | locked act next ih =>
    obtain ⟨h', hI', hn⟩ := hp s F hI
    exact ih s hn hI'

end Safe

/-! ### Programs that may stop

A state in `K` is one after which nothing more is asked for, such as one after
a panic. The invariant holds there of any holding, so a program that finds
such a state may go on with a holding `d` that exists in no other. -/

section Keeps

/-- No section of `p` leaves `K`. -/
def Keeps (K : σ → Prop) : Prog σ α → Prop
  | .done _ => True
  | .locked act next => ∀ s, (K s → K (act s)) ∧ Keeps K (next s)

variable {K : σ → Prop}

lemma Keeps.pure {a : α} : Keeps K (pure a : Prog σ α) := trivial

lemma Keeps.atomically {f : σ → α × σ} (hf : ∀ s, K s → K (f s).2) : Keeps K (atomically f) :=
  fun s => ⟨hf s, trivial⟩

variable {p : Prog σ α}

lemma Keeps.bind {f : α → Prog σ β} (hp : Keeps K p) (hf : ∀ a, Keeps K (f a)) : Keeps K (p >>= f) := by
  induction p with
  | done a => exact hf a
  | locked act next ih => exact fun s => ⟨(hp s).1, ih s (hp s).2⟩

/-- A program over a part that keeps all an invariant sees of the part. -/
lemma Keeps.within_safe {τ γ : Type} [AddCommMonoid R] {J : τ → R → Prop} {h : R} {get : τ → σ} {set : σ → τ → τ}
    (f : σ → γ) (hp : ∀ m, Keeps (fun s => f s = m) p)
    (hJ : ∀ t s F, f s = f (get t) → J t F → J (set s t) F) :
    Safe J (p.within get set) h fun _ h' => h' = h := by
  induction p with
  | done => exact rfl
  | locked act next ih =>
    intro t F hI
    exact ⟨h, hJ t _ _ ((hp (f (get t)) (get t)).1 rfl) hI, ih (get t) fun m => (hp m (get t)).2⟩

variable [AddCommMonoid R] {I : σ → R → Prop} {d h : R} {Q : α → R → Prop}

/-- Once stopped, a program is safe with some holding. -/
lemma Keeps.exists_safe (hd : ∀ s F, I s (d + F) → K s) (hK : ∀ s M, K s → I s M) (hQ : ∀ a, ∃ h, Q a h)
    (hp : Keeps K p) : ∃ h, Safe I p h Q := by
  induction p with
  | done a => exact hQ a
  | locked act next ih =>
    refine ⟨d, fun s F hI => ?_⟩
    obtain ⟨h', hs⟩ := ih s (hp s).2
    exact ⟨h', hK _ _ ((hp s).1 (hd s F hI)), hs⟩

/-- A section and what follows, where the section only has to be checked from
a state that is not in `K`. -/
lemma Safe.alive (hd : ∀ s F, I s (d + F) → K s) (hK : ∀ s M, K s → I s M) (hQ : ∀ a, ∃ h, Q a h)
    {f : σ → β × σ} {g : β → Prog σ α} (hp : Keeps K (Prog.atomically f >>= g))
    (hs : ∀ s F, ¬ K s → I s (h + F) → Keeps K (g (f s).1) →
      K (f s).2 ∨ ∃ h', I (f s).2 (h' + F) ∧ Safe I (g (f s).1) h' Q) :
    Safe I (Prog.atomically f >>= g) h Q := by
  intro s F hI
  obtain ⟨hf, hg⟩ := hp s
  have hdead : K (f s).2 → ∃ h', I (f s).2 (h' + F) ∧ Safe I (g (f s).1) h' Q := by
    intro hk
    obtain ⟨h', hs'⟩ := Keeps.exists_safe hd hK hQ hg
    exact ⟨h', hK _ _ hk, hs'⟩
  by_cases hk : K s
  · exact hdead (hf hk)
  · exact (hs s F hk hI hg).elim hdead id

end Keeps

end Prog

/-! ### Processors -/

/-- What the processors call. A call takes tokens its caller owns and, when
it returns, gives the caller others; a token stands for the part `cost` of
the invariant's sum, and `Ok` is what every token handed out satisfies. -/
structure Client (σ ρ R : Type) where
  Call : Type
  Tok : Type
  prog : Call → Prog σ ρ
  takes : Call → Multiset Tok
  gives : Call → ρ → Multiset Tok
  cost : Tok → R
  Ok : Tok → Prop

namespace Client

variable {σ ρ R : Type} [AddCommMonoid R] (C : Client σ ρ R)

/-- The cost of several tokens. -/
def total (ts : Multiset C.Tok) : R := (ts.map C.cost).sum

@[simp] lemma total_zero : C.total 0 = 0 := by simp [total]

@[simp] lemma total_singleton (t : C.Tok) : C.total {t} = C.cost t := by simp [total]

@[simp] lemma total_add (a b : Multiset C.Tok) : C.total (a + b) = C.total a + C.total b := by
  simp [total]

/-- Where the cost is a collection, a token's part of it is in the total. -/
lemma mem_total {β : Type} {C : Client σ ρ (Multiset β)} {ts : Multiset C.Tok} {t : C.Tok} {x : β}
    (ht : t ∈ ts) (hx : x ∈ C.cost t) : x ∈ C.total ts := by
  obtain ⟨u, rfl⟩ := exists_cons_of_mem ht
  rw [total, map_cons, sum_cons]
  exact mem_add.mpr (.inl hx)

/-- Every call is safe from the tokens it takes to the tokens it gives. -/
def Safe (I : σ → R → Prop) : Prop :=
  ∀ k, (∀ t ∈ C.takes k, C.Ok t) → Prog.Safe I (C.prog k) (C.total (C.takes k)) fun r h =>
      h = C.total (C.gives k r) ∧ ∀ t ∈ C.gives k r, C.Ok t

end Client

/-- The shared state, what each processor is in the middle of, and the
tokens the callers own. -/
structure Pool {σ ρ R : Type} (C : Client σ ρ R) (Cpu : Type) where
  shared : σ
  cpus : Cpu → Option (C.Call × Prog σ ρ)
  owned : Multiset C.Tok

namespace Pool

variable {σ ρ R Cpu : Type} {C : Client σ ρ R} [DecidableEq Cpu]

/-- An idle processor makes a call with tokens its callers own, a processor
runs one section, or a call returns. -/
inductive Step : Pool C Cpu → Pool C Cpu → Prop
  | call (P : Pool C Cpu) (c : Cpu) (k : C.Call) (rest : Multiset C.Tok) (hc : P.cpus c = none)
      (ho : P.owned = C.takes k + rest) :
      Step P ⟨P.shared, update P.cpus c (some (k, C.prog k)), rest⟩
  | enter (P : Pool C Cpu) (c : Cpu) (k : C.Call) (act : σ → σ) (next : σ → Prog σ ρ)
      (hc : P.cpus c = some (k, .locked act next)) :
      Step P ⟨act P.shared, update P.cpus c (some (k, next P.shared)), P.owned⟩
  | ret (P : Pool C Cpu) (c : Cpu) (k : C.Call) (r : ρ) (hc : P.cpus c = some (k, .done r)) :
      Step P ⟨P.shared, update P.cpus c none, C.gives k r + P.owned⟩

/-- Any number of steps. -/
abbrev Reach (P P' : Pool C Cpu) : Prop := Relation.ReflTransGen Step P P'

/-- All processors idle and the callers owning nothing. -/
def idle (s : σ) : Pool C Cpu := ⟨s, fun _ => none, 0⟩

variable {P : Pool C Cpu}

/-- What a processor is in the middle of, after processor `c` changed. -/
lemma cpus_update {c d : Cpu} {x y : Option (C.Call × Prog σ ρ)}
    (h : update P.cpus c x d = y) : (d = c ∧ x = y) ∨ (d ≠ c ∧ P.cpus d = y) := by
  by_cases hd : d = c
  · subst hd; exact .inl ⟨rfl, by simpa using h⟩
  · exact .inr ⟨hd, by rwa [update_of_ne hd] at h⟩

/-- A call that no other processor comes between. -/
lemma reach_call {c : Cpu} (k : C.Call) (rest : Multiset C.Tok) (hc : P.cpus c = none)
    (ho : P.owned = C.takes k + rest) :
    Reach P ⟨((C.prog k).run P.shared).2, P.cpus, C.gives k ((C.prog k).run P.shared).1 + rest⟩ := by
  have hrun : ∀ (p : Prog σ ρ) (s : σ), Reach (⟨s, update P.cpus c (some (k, p)), rest⟩ : Pool C Cpu)
        ⟨(p.run s).2, P.cpus, C.gives k (p.run s).1 + rest⟩ := by
    intro p
    induction p with
    | done r =>
      intro s
      have hs := Step.ret (⟨s, update P.cpus c (some (k, .done r)), rest⟩ : Pool C Cpu) c k r
        (update_self ..)
      rw [update_idem, ← hc, update_eq_self] at hs
      exact .single hs
    | locked act next ih =>
      intro s
      have hs := Step.enter (⟨s, update P.cpus c (some (k, .locked act next)), rest⟩ : Pool C Cpu) c k act next
        (update_self ..)
      rw [update_idem] at hs
      exact .head hs (ih s (act s))
  exact .head (Step.call P c k rest hc ho) (hrun _ _)

/-- The first part of a call's program, run with no other processor coming
between. -/
lemma reach_bind {α : Type} {c : Cpu} {k : C.Call} {owned : Multiset C.Tok} {cpus : Cpu → Option (C.Call × Prog σ ρ)}
    (f : α → Prog σ ρ) (p : Prog σ α) (s : σ) :
    Reach (⟨s, update cpus c (some (k, p >>= f)), owned⟩ : Pool C Cpu)
      ⟨(p.run s).2, update cpus c (some (k, f (p.run s).1)), owned⟩ := by
  induction p generalizing s with
  | done => exact .refl
  | locked act next ih =>
    have hs := Step.enter
      (⟨s, update cpus c (some (k, Prog.locked act next >>= f)), owned⟩ : Pool C Cpu) c k act
      (fun s => next s >>= f) (update_self ..)
    rw [update_idem] at hs
    exact .head hs (ih s (act s))

variable [AddCommMonoid R] [Fintype Cpu] {I : σ → R → Prop}

/-- What the steps keep: each processor holds something, nothing when idle,
with which the rest of its call is safe, and the invariant holds of what is
owned and held together. -/
def Inv (I : σ → R → Prop) (P : Pool C Cpu) : Prop :=
  ∃ held : Cpu → R, (∀ c, P.cpus c = none → held c = 0) ∧
    (∀ c k p, P.cpus c = some (k, p) → Prog.Safe I p (held c) fun r h =>
      h = C.total (C.gives k r) ∧ ∀ t ∈ C.gives k r, C.Ok t) ∧
    (∀ t ∈ P.owned, C.Ok t) ∧ I P.shared (C.total P.owned + ∑ c, held c)

lemma sum_update (held : Cpu → R) (c : Cpu) (h : R) : ∑ d, update held c h d = h + ∑ d ∈ Finset.univ \ {c}, held d :=
  Finset.sum_update_of_mem (Finset.mem_univ c) held h

lemma sum_split (held : Cpu → R) (c : Cpu) : ∑ d, held d = held c + ∑ d ∈ Finset.univ \ {c}, held d := by
  rw [← sum_update held c (held c), update_eq_self]

omit [DecidableEq Cpu] in
lemma idle_inv {s : σ} (h : I s 0) : Inv I (idle s : Pool C Cpu) :=
  ⟨fun _ => 0, fun _ _ => rfl, fun _ _ _ h => by simp [idle] at h, by simp [idle], by simpa [idle] using h⟩

lemma step_inv (hC : C.Safe I) {P P' : Pool C Cpu} (hs : Step P P') (h : Inv I P) : Inv I P' := by
  obtain ⟨held, h0, hp, hok, hI⟩ := h
  cases hs with
  | call c k rest hc ho =>
    -- the tokens the call takes are what its processor now holds
    have hok' : ∀ t ∈ C.takes k + rest, C.Ok t := ho ▸ hok
    refine ⟨update held c (C.total (C.takes k)), fun d hd => ?_, fun d k' p hd => ?_,
      fun t ht => hok' t (mem_add.mpr (.inr ht)), ?_⟩
    · rcases cpus_update hd with ⟨-, h⟩ | ⟨hne, h⟩
      · simp at h
      · rw [update_of_ne hne]; exact h0 d h
    · rcases cpus_update hd with ⟨rfl, h⟩ | ⟨hne, h⟩
      · obtain ⟨rfl, rfl⟩ : k = k' ∧ C.prog k = p := by simpa using h
        rw [update_self]
        exact hC k fun t ht => hok' t (mem_add.mpr (.inl ht))
      · rw [update_of_ne hne]; exact hp d k' p h
    · rw [sum_split held c, h0 c hc, zero_add, ho, C.total_add] at hI
      rw [sum_update]
      have he : C.total rest + (C.total (C.takes k) + ∑ d ∈ Finset.univ \ {c}, held d) =
          C.total (C.takes k) + C.total rest + ∑ d ∈ Finset.univ \ {c}, held d := by abel
      exact he ▸ hI
  | enter c k act next hc =>
    have hI' : I P.shared (held c + (C.total P.owned + ∑ d ∈ Finset.univ \ {c}, held d)) := by
      rw [sum_split held c] at hI
      rwa [add_left_comm] at hI
    obtain ⟨h', hI2, hn⟩ := hp c k _ hc P.shared _ hI'
    refine ⟨update held c h', fun d hd => ?_, fun d k' p hd => ?_, hok, ?_⟩
    · rcases cpus_update hd with ⟨-, h⟩ | ⟨hne, h⟩
      · simp at h
      · rw [update_of_ne hne]; exact h0 d h
    · rcases cpus_update hd with ⟨rfl, h⟩ | ⟨hne, h⟩
      · obtain ⟨rfl, rfl⟩ : k = k' ∧ next P.shared = p := by simpa using h
        rw [update_self]; exact hn
      · rw [update_of_ne hne]; exact hp d k' p h
    · rw [sum_update, add_left_comm]; exact hI2
  | ret c k r hc =>
    obtain ⟨hr, hgok⟩ := hp c k _ hc
    refine ⟨update held c 0, fun d hd => ?_, fun d k' p hd => ?_, fun t ht => ?_, ?_⟩
    · rcases cpus_update hd with ⟨rfl, -⟩ | ⟨hne, h⟩
      · rw [update_self]
      · rw [update_of_ne hne]; exact h0 d h
    · rcases cpus_update hd with ⟨-, h⟩ | ⟨hne, h⟩
      · simp at h
      · rw [update_of_ne hne]; exact hp d k' p h
    · rcases mem_add.mp ht with ht | ht
      · exact hgok t ht
      · exact hok t ht
    · rw [sum_split held c, hr] at hI
      rw [sum_update, zero_add, C.total_add]
      have he : C.total (C.gives k r) + C.total P.owned + ∑ d ∈ Finset.univ \ {c}, held d =
          C.total P.owned + (C.total (C.gives k r) + ∑ d ∈ Finset.univ \ {c}, held d) := by abel
      exact he ▸ hI

/-- Calls that are safe one at a time are safe in every interleaving. -/
lemma reach_inv (hC : C.Safe I) {P P' : Pool C Cpu} (hr : Reach P P') (h : Inv I P) : Inv I P' := by
  induction hr with
  | refl => exact h
  | tail _ hs ih => exact step_inv hC hs ih

omit [DecidableEq Cpu] in
lemma Inv.owned_ok (h : Inv I P) : ∀ t ∈ P.owned, C.Ok t := by
  obtain ⟨_, -, -, hok, -⟩ := h
  exact hok

omit [DecidableEq Cpu] in
/-- In every reachable state the invariant holds of what the callers own and
some rest that is held in the middle of calls. -/
lemma Inv.shared_inv (h : Inv I P) : ∃ F, I P.shared (C.total P.owned + F) ∧ ((∀ c, P.cpus c = none) → F = 0) := by
  obtain ⟨held, h0, -, -, hI⟩ := h
  exact ⟨_, hI, fun hc => Finset.sum_eq_zero fun c _ => h0 c (hc c)⟩

omit [DecidableEq Cpu] in
/-- The rest is held by the processors that are in the middle of a call. -/
lemma Inv.shared_held (h : Inv I P) :
    ∃ held : Cpu → R, (∀ c, P.cpus c = none → held c = 0) ∧ I P.shared (C.total P.owned + ∑ c, held c) := by
  obtain ⟨held, h0, -, -, hI⟩ := h
  exact ⟨held, h0, hI⟩

end Pool

end Sections
