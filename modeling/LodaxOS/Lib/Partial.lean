/-
# Programs that may panic

`StateT σ Option` programs taken apart: a program returns exactly if its parts
do, one after the other. With these a proof about a program that returned
follows the program's text, part by part.
-/
import Mathlib.Tactic.Common

namespace Partial

variable {σ α β : Type} {s s' : σ}

lemma bind_eq_some {x : StateT σ Option α} {f : α → StateT σ Option β} {b : β} :
    (x >>= f) s = some (b, s') ↔ ∃ a s1, x s = some (a, s1) ∧ f a s1 = some (b, s') := by
  change (x s).bind (fun r => f r.1 r.2) = _ ↔ _
  rw [Option.bind_eq_some_iff]
  constructor
  · rintro ⟨⟨a, s1⟩, h, h'⟩
    exact ⟨a, s1, h, h'⟩
  · rintro ⟨a, s1, h, h'⟩
    exact ⟨(a, s1), h, h'⟩

@[simp] lemma pure_eq_some {a b : α} : (pure a : StateT σ Option α) s = some (b, s') ↔ a = b ∧ s = s' := by
  change some (a, s) = some (b, s') ↔ _
  simp

@[simp] lemma failure_ne_some {b : α} : ¬ (failure : StateT σ Option α) s = some (b, s') := by
  change ¬ (none : Option (α × σ)) = _
  simp

@[simp] lemma get_eq_some {s a s' : σ} : (get : StateT σ Option σ) s = some (a, s') ↔ s = a ∧ s = s' := by
  change some (s, s) = some (a, s') ↔ _
  simp

@[simp] lemma modify_eq_some {f : σ → σ} {u : Unit} :
    (modify f : StateT σ Option Unit) s = some (u, s') ↔ f s = s' := by
  change some ((), f s) = some (u, s') ↔ _
  simp

end Partial
