/-
# Tables of slots

A fixed number of slots, each empty or with a value, searched from the first
one on; and lists from which an element is removed by putting the last one in its
place.
-/
import Mathlib.Data.List.Perm.Basic

namespace Slots

open Function List

section Update

variable {ι β : Type} [DecidableEq ι] {f : ι → β} {i j : ι} {b : β}

/-- What holds of a slot after one slot was set. -/
lemma update_cases (Q : β → Prop) (h : Q (update f i b j)) : j = i ∧ Q b ∨ j ≠ i ∧ Q (f j) := by
  by_cases hj : j = i
  · subst hj
    rw [update_self] at h
    exact Or.inl ⟨rfl, h⟩
  · rw [update_of_ne hj] at h
    exact Or.inr ⟨hj, h⟩

lemma update_eq_cases {y : β} (h : update f i b j = y) : j = i ∧ b = y ∨ j ≠ i ∧ f j = y :=
  update_cases (· = y) h

/-- What the new value does not meet holds of another slot. -/
lemma update_of_not (Q : β → Prop) (hb : ¬ Q b) (h : Q (update f i b j)) : j ≠ i ∧ Q (f j) :=
  (update_cases Q h).resolve_left fun hc => hb hc.2

end Update

variable {α : Type} {n i : ℕ} {p : α → Bool} {t : ℕ → Option α}

/-- The first slot with a value that meets `p`. -/
def find (n : ℕ) (p : α → Bool) (t : ℕ → Option α) : Option ℕ := (List.range n).find? fun i => (t i).any p

/-- The first empty slot. -/
def free (n : ℕ) (t : ℕ → Option α) : Option ℕ := (List.range n).find? fun i => (t i).isNone

lemma find_range (n : ℕ) (q : ℕ → Bool) : (List.range n).find? q = some i ↔ i < n ∧ q i = true ∧ ∀ j < i, q j = false := by
  rw [List.find?_range_eq_some]
  simp [and_left_comm]

lemma find_eq_some : find n p t = some i ↔
    i < n ∧ (∃ a, t i = some a ∧ p a = true) ∧ ∀ j < i, ∀ b, t j = some b → p b = false := by
  unfold find
  rw [find_range]
  refine and_congr_right fun _ => and_congr (by simp [Option.any_eq_true]) (forall₂_congr fun j _ => ?_)
  cases t j with
  | none => simp
  | some => simp

lemma find_eq_none : find n p t = none ↔ ∀ i < n, ∀ a, t i = some a → p a = false := by
  unfold find
  rw [List.find?_eq_none]
  refine forall_congr' fun i => ?_
  rw [mem_range]
  refine imp_congr_right fun _ => ?_
  cases t i with
  | none => simp
  | some => simp

lemma free_eq_some : free n t = some i ↔ i < n ∧ t i = none ∧ ∀ j < i, (t j).isSome = true := by
  unfold free
  rw [find_range]
  simp only [Option.isNone_iff_eq_none]
  refine and_congr_right fun _ => and_congr_right fun _ => forall₂_congr fun j _ => ?_
  cases t j with
  | none => simp
  | some => simp

lemma find_congr {p' : α → Bool} (h : ∀ i a, t i = some a → p a = p' a) : find n p t = find n p' t := by
  unfold find
  congr 1
  funext i
  cases hi : t i with
  | none => rfl
  | some a => exact h i a hi

/-- How many of the slots have a value that meets `p`. -/
def count (n : ℕ) (p : α → Bool) (t : ℕ → Option α) : ℕ := (List.range n).countP fun i => (t i).any p

lemma count_update_of_le (h : n ≤ i) (o : Option α) : count n p (update t i o) = count n p t := by
  refine countP_congr fun j hj => ?_
  have hji : j ≠ i := by
    have := mem_range.mp hj
    omega
  rw [update_of_ne hji]

/-- A slot changes from `t i` to `o`. -/
lemma count_update (o : Option α) : ∀ {n : ℕ}, i < n →
    count n p (update t i o) + (if (t i).any p then 1 else 0) = count n p t + if o.any p then 1 else 0
  | 0, h => absurd h (Nat.not_lt_zero i)
  | n + 1, h => by
    have hsucc : ∀ t : ℕ → Option α, count (n + 1) p t = count n p t + if (t n).any p then 1 else 0 := by
      intro t
      rw [count, range_succ, countP_append, countP_singleton]
      rfl
    rw [hsucc, hsucc]
    by_cases hi : i = n
    · subst hi
      rw [count_update_of_le (Nat.le_refl _), update_self]
      omega
    · have ih := count_update o (show i < n by omega)
      rw [update_of_ne (Ne.symm hi)]
      omega

lemma count_fill (h : i < n) (hi : t i = none) (a : α) :
    count n p (update t i (some a)) = count n p t + if p a then 1 else 0 := by
  have hcount := count_update (p := p) (t := t) (some a) h
  rw [hi] at hcount
  simpa using hcount

lemma count_clear {a : α} (h : i < n) (hi : t i = some a) :
    count n p (update t i none) + (if p a then 1 else 0) = count n p t := by
  have hcount := count_update (p := p) (t := t) none h
  rw [hi] at hcount
  simpa using hcount

/-- The last element takes the place of the `i`-th. -/
def swapRemove (l : List α) (i : ℕ) : List α :=
  match l.getLast? with
  | some a => (l.set i a).dropLast
  | none => l

lemma swapRemove_perm {l : List α} (h : i < l.length) : (swapRemove l i).Perm (l.eraseIdx i) := by
  rcases eq_nil_or_concat l with rfl | ⟨init, a, rfl⟩
  · exact absurd h (Nat.not_lt_zero i)
  · rw [concat_eq_append] at h ⊢
    rw [length_append, length_singleton] at h
    unfold swapRemove
    rw [List.getLast?_append_of_ne_nil _ (cons_ne_nil a [])]
    change ((init ++ [a]).set i a).dropLast.Perm _
    by_cases hi : i < init.length
    · rw [set_append_left _ _ hi, dropLast_concat, eraseIdx_append_of_lt_length hi]
      exact (set_perm_cons_eraseIdx hi a).trans (perm_append_singleton a _).symm
    · obtain rfl : i = init.length := by omega
      rw [set_append_right _ _ (Nat.le_refl _), eraseIdx_append_of_length_le (Nat.le_refl _)]
      simp

end Slots
