/-
# The first smallest

A loop over a list that keeps the best element so far: the first one whose
key is strictly below all keys before it, and below a bound. Elements without
a key are passed over.
-/
import Mathlib.Data.Nat.Basic
import Mathlib.Tactic.Common

namespace Select

variable {α : Type}

/-- One round of the loop: the best element and its key so far. -/
def better (key : α → Option ℕ) (best : Option α × ℕ) (x : α) : Option α × ℕ :=
  match key x with
  | some k => if k < best.2 then (some x, k) else best
  | none => best

def select (key : α → Option ℕ) (bound : ℕ) (l : List α) : Option α := (l.foldl (better key) (none, bound)).1

variable {key : α → Option ℕ} {bound : ℕ} {l : List α}

/-- What the loop knows: no key is below the best one, which is the key of the
best element or the bound. -/
lemma foldl_better (key : α → Option ℕ) : ∀ (l : List α) (best : Option α × ℕ),
    (∀ x ∈ l, ∀ k, key x = some k → (l.foldl (better key) best).2 ≤ k) ∧ (l.foldl (better key) best).2 ≤ best.2 ∧
    (l.foldl (better key) best = best ∨ ∃ x ∈ l, key x = some (l.foldl (better key) best).2 ∧
      (l.foldl (better key) best).1 = some x ∧ (l.foldl (better key) best).2 < best.2)
  | [], best => ⟨by simp, le_rfl, .inl rfl⟩
  | x :: l, best => by
    obtain ⟨hmin, hle, hor⟩ := foldl_better key l (better key best x)
    rw [List.foldl_cons]
    have hstep : (better key best x).2 ≤ best.2 ∧ (∀ k, key x = some k → (better key best x).2 ≤ k) ∧
        (better key best x = best ∨ ∃ k, key x = some k ∧ better key best x = (some x, k) ∧ k < best.2) := by
      unfold better
      cases hx : key x with
      | none => exact ⟨le_rfl, by simp, .inl rfl⟩
      | some k =>
        by_cases hk : k < best.2
        · simp only [hk, if_true]
          exact ⟨le_of_lt hk, by simp, .inr ⟨k, rfl, rfl, hk⟩⟩
        · simp only [hk, if_false]
          exact ⟨le_rfl, by simpa using hk, by simp⟩
    obtain ⟨hbest, hkey, hcase⟩ := hstep
    refine ⟨fun y hy k hk => ?_, le_trans hle hbest, ?_⟩
    · obtain rfl | hy := List.mem_cons.mp hy
      · exact le_trans hle (hkey k hk)
      · exact hmin y hy k hk
    · obtain heq | ⟨y, hy, hk, h1, h2⟩ := hor
      · obtain hsame | ⟨k, hk, hnew, hlt⟩ := hcase
        · exact .inl (heq.trans hsame)
        · refine .inr ⟨x, List.mem_cons_self, ?_, ?_, ?_⟩
          · rw [heq, hnew, hk]
          · rw [heq, hnew]
          · rw [heq, hnew]
            exact hlt
      · exact .inr ⟨y, List.mem_cons_of_mem _ hy, hk, h1, lt_of_lt_of_le h2 hbest⟩

/-- The selected element has the smallest key. -/
lemma select_eq_some {x : α} (h : select key bound l = some x) :
    x ∈ l ∧ ∃ k, key x = some k ∧ k < bound ∧ ∀ y ∈ l, ∀ k', key y = some k' → k ≤ k' := by
  obtain ⟨hmin, -, hor⟩ := foldl_better key l (none, bound)
  obtain heq | ⟨y, hy, hk, h1, h2⟩ := hor
  · rw [select, heq] at h
    simp at h
  · obtain rfl := Option.mem_unique h1 h
    exact ⟨hy, _, hk, h2, hmin⟩

/-- Nothing is selected only if no key is below the bound. -/
lemma select_eq_none (h : select key bound l = none) : ∀ x ∈ l, ∀ k, key x = some k → bound ≤ k := by
  obtain ⟨hmin, -, hor⟩ := foldl_better key l (none, bound)
  obtain heq | ⟨y, hy, hk, h1, h2⟩ := hor
  · intro x hx k hk
    have hle := hmin x hx k hk
    rwa [heq] at hle
  · rw [select, h1] at h
    simp at h

lemma select_isSome {x : α} (hx : x ∈ l) {k : ℕ} (hk : key x = some k) (hb : k < bound) :
    ∃ y, select key bound l = some y := by
  cases h : select key bound l with
  | none => exact absurd (select_eq_none h x hx k hk) (not_le.mpr hb)
  | some y => exact ⟨y, rfl⟩

end Select
