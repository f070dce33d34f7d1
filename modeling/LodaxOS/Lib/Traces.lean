/-
# Traces

Runs of a machine whose steps carry events, and what such runs preserve.
-/
import Mathlib.Tactic.Common

namespace Traces

variable {S E : Type}

/-- The events of a run, from one state to another. -/
inductive Run (step : S → E → S → Prop) : S → List E → S → Prop
  | nil (s : S) : Run step s [] s
  | cons {s s' s'' : S} {e : E} {tr : List E} (h : step s e s') (hr : Run step s' tr s'') : Run step s (e :: tr) s''

variable {step step' : S → E → S → Prop} {s s' s'' : S} {tr tr' : List E} {e : E}

lemma Run.cons_iff : Run step s (e :: tr) s'' ↔ ∃ s', step s e s' ∧ Run step s' tr s'' := by
  constructor
  · intro h
    cases h with
    | cons h hr => exact ⟨_, h, hr⟩
  · intro ⟨s', h, hr⟩
    exact .cons h hr

lemma Run.append_iff : ∀ {tr : List E} {s : S},
    Run step s (tr ++ tr') s'' ↔ ∃ s', Run step s tr s' ∧ Run step s' tr' s''
  | [], s => by
    constructor
    · intro h
      exact ⟨s, .nil s, h⟩
    · intro ⟨s', h, hr⟩
      cases h
      exact hr
  | e :: tr, s => by
    rw [List.cons_append, Run.cons_iff]
    constructor
    · intro ⟨s1, h, hr⟩
      obtain ⟨s', h1, h2⟩ := Run.append_iff.mp hr
      exact ⟨s', .cons h h1, h2⟩
    · intro ⟨s', h, hr⟩
      obtain ⟨s1, h1, h2⟩ := Run.cons_iff.mp h
      exact ⟨s1, h1, Run.append_iff.mpr ⟨s', h2, hr⟩⟩

/-- What every step keeps, every run keeps. -/
lemma Run.invariant {Inv : S → Prop} (hstep : ∀ s e s', Inv s → step s e s' → Inv s') (h : Run step s tr s')
    (hs : Inv s) : Inv s' := by
  induction h with
  | nil => exact hs
  | cons h hr ih => exact ih (hstep _ _ _ hs h)

lemma Run.mono (h : ∀ s e s', step s e s' → step' s e s') (hr : Run step s tr s') : Run step' s tr s' := by
  induction hr with
  | nil s => exact .nil s
  | cons hs hr ih => exact .cons (h _ _ _ hs) ih

/-- A condition that holds of all events of the run. -/
lemma Run.and {cond : S → E → Prop} (hr : Run step s tr s') (h : ∀ e ∈ tr, ∀ s, cond s e) :
    Run (fun s e s' => cond s e ∧ step s e s') s tr s' := by
  induction hr with
  | nil s => exact .nil s
  | cons hs hr ih =>
    exact .cons ⟨h _ List.mem_cons_self _, hs⟩ (ih fun e he => h e (List.mem_cons_of_mem _ he))

/-- The state after some events, if each of them can happen. -/
def exec (f : S → E → Option S) : S → List E → Option S
  | s, [] => some s
  | s, e :: tr => (f s e).bind fun s' => exec f s' tr

lemma run_of_exec {f : S → E → Option S} : ∀ {tr : List E} {s : S}, exec f s tr = some s' →
    Run (fun s e s' => f s e = some s') s tr s'
  | [], s, h => by
    obtain rfl : s = s' := by simpa [exec] using h
    exact .nil s
  | e :: tr, s, h => by
    obtain ⟨s1, h1, h2⟩ := Option.bind_eq_some_iff.mp h
    exact .cons h1 (run_of_exec h2)

end Traces
