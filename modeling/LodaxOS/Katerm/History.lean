/-
# The history of the input line

Submitted lines go to 32 slots, each to the slot of the line count modulo 32.
The count stops at 32: from the 33rd line on every line goes to slot 0, which
`history_up` reaches last. So the history recalls the last lines as long as no
more than 32 were submitted.
-/
import Mathlib.Data.List.Induction
import Mathlib.Order.Basic
import Mathlib.Logic.Function.Iterate

namespace LodaxOS.Katerm

open Function List

/-- `InputLine`: the line is `buf[..len]`, a slot of the history its first
`history_lens` bytes. -/
structure InputLine where
  line : List UInt8
  cursor : ℕ
  history : ℕ → List UInt8
  historyCount : ℕ
  historyPos : ℕ

namespace InputLine

def new : InputLine := ⟨[], 0, fun _ => [], 0, 0⟩

/-- `push_history`. -/
def pushHistory (s : InputLine) : InputLine :=
  if s.line.length = 0 then s
  else
    let count := if s.historyCount < 32 then s.historyCount + 1 else s.historyCount
    { s with history := update s.history (s.historyCount % 32) s.line, historyCount := count, historyPos := count }

/-- `handle_key` for `Enter`. -/
def enter (s : InputLine) : InputLine := { s.pushHistory with line := [], cursor := 0 }

/-- The line becomes that of slot `p`. -/
def fetch (s : InputLine) (p : ℕ) : InputLine :=
  { s with line := s.history (p % 32), cursor := (s.history (p % 32)).length, historyPos := p }

/-- `history_up`. -/
def historyUp (s : InputLine) : InputLine :=
  if s.historyCount = 0 then s else s.fetch (if s.historyPos > 0 then s.historyPos - 1 else s.historyPos)

/-- `history_down`. -/
def historyDown (s : InputLine) : InputLine :=
  let p := if s.historyPos < s.historyCount then s.historyPos + 1 else s.historyPos
  if p ≥ s.historyCount then { s with line := [], cursor := 0, historyPos := p } else s.fetch p

/-- The line `l` is submitted, however it was typed or recalled. -/
def submit (s : InputLine) (l : List UInt8) : InputLine := { s with line := l, cursor := l.length }.enter

/-- The input line after the lines `ls`. -/
def submitted (ls : List (List UInt8)) : InputLine := ls.foldl submit new

/-- After `k` times up and `j` times down the line is the `(k - j)`th last one. -/
def Recalls (ls : List (List UInt8)) : Prop :=
  ∀ k j, j < k → k ≤ min ls.length 32 →
    ls.reverse[k - j - 1]? = some (historyDown^[j] (historyUp^[k] (submitted ls))).line

/-- What `m` lines leave: the first 32 of them, but slot 0 has the last one. -/
structure Holds (ls : List (List UInt8)) (s : InputLine) : Prop where
  count : s.historyCount = min ls.length 32
  pos : s.historyPos = s.historyCount
  slot : ∀ i < 32, (0 < i ∨ ls.length ≤ 32) → ∀ l, ls[i]? = some l → s.history i = l

variable {ls : List (List UInt8)} {s : InputLine}

lemma holds_submitted (h : ∀ l ∈ ls, l ≠ []) : Holds ls (submitted ls) := by
  induction ls using reverseRecOn with
  | nil => exact ⟨rfl, rfl, by simp⟩
  | append_singleton ls l ih =>
    obtain ⟨hc, hp, hs⟩ := ih fun l hl => h l (by simp [hl])
    have hl : l.length ≠ 0 := by simpa using h l (by simp)
    simp only [submitted, foldl_append, foldl_cons, foldl_nil] at hc hp hs ⊢
    generalize ls.foldl submit new = s at *
    simp only [submit, enter, pushHistory, if_neg hl]
    refine ⟨?_, rfl, fun i hi h0 l' hl' => ?_⟩
    · simp only [length_append, length_singleton]
      split_ifs <;> omega
    · simp only [length_append, length_singleton] at h0
      show update s.history (s.historyCount % 32) l i = l'
      rcases Nat.lt_trichotomy i ls.length with hlt | rfl | hgt
      · rw [List.getElem?_append_left hlt] at hl'
        rw [update_of_ne (by omega)]
        exact hs i hi (by omega) l' hl'
      · rw [List.getElem?_concat_length] at hl'
        rw [show s.historyCount % 32 = ls.length by omega, update_self]
        exact Option.some.inj hl'
      · rw [List.getElem?_eq_none (by simp; omega)] at hl'
        cases hl'

lemma iterate_up (k : ℕ) (hk : k < s.historyPos) (hc : s.historyPos ≤ s.historyCount) :
    historyUp^[k + 1] s = s.fetch (s.historyPos - (k + 1)) := by
  induction k with
  | zero => rw [iterate_one, historyUp, if_neg (by omega), if_pos hk]
  | succ k ih =>
    rw [iterate_succ_apply', ih (by omega)]
    exact (if_neg (by show s.historyCount ≠ 0; omega)).trans (congrArg s.fetch (if_pos (by show s.historyPos - (k + 1) > 0; omega)))

lemma iterate_down (j p : ℕ) (hj : p + j < s.historyCount) :
    historyDown^[j] (s.fetch p) = s.fetch (p + j) := by
  induction j with
  | zero => rfl
  | succ j ih =>
    have hlt : (s.fetch (p + j)).historyPos < (s.fetch (p + j)).historyCount := Nat.lt_of_succ_lt hj
    rw [iterate_succ_apply', ih (by omega), historyDown, if_pos hlt]
    exact if_neg (Nat.not_le.mpr hj)

lemma Holds.recalled (h : Holds ls s) {k j : ℕ} (hj : j < k) (hk : k ≤ min ls.length 32) :
    (historyDown^[j] (historyUp^[k] s)).line = s.history (min ls.length 32 - k + j) := by
  obtain ⟨k, rfl⟩ := Nat.exists_eq_succ_of_ne_zero (by omega : k ≠ 0)
  have hp := h.pos.trans h.count
  rw [iterate_up k (by omega) (Nat.le_of_eq h.pos), iterate_down _ _ (by rw [h.count]; omega), hp]
  show s.history (_ % 32) = _
  rw [Nat.mod_eq_of_lt (by omega)]

/-- Lines `A`, 32 or more, and then a line `B`. -/
def overrun (n : ℕ) : List (List UInt8) := replicate (n + 32) [65] ++ [[66]]

lemma valid_overrun (n : ℕ) : ∀ l ∈ overrun n, l ≠ [] ∧ l.length ≤ 256 := by
  intro l hl
  rcases mem_append.mp hl with hl | hl
  · simp [eq_of_mem_replicate hl]
  · simp [mem_singleton.mp hl]

lemma not_recalls_overrun (n : ℕ) : ¬ Recalls (overrun n) := by
  intro h
  have hH := holds_submitted fun l hl => (valid_overrun n l hl).1
  have hlen : min (overrun n).length 32 = 32 := by simp [overrun]
  have h1 := h 1 0 (by omega) (by omega)
  rw [hH.recalled (by omega) (by omega), hlen, hH.slot 31 (by omega) (by omega) [65] (by simp [overrun])] at h1
  simp [overrun] at h1

/-- The history recalls `n` lines, whatever they are, exactly if `n` is at most 32. -/
theorem recalls_iff (n : ℕ) :
    (∀ ls : List (List UInt8), ls.length = n → (∀ l ∈ ls, l ≠ [] ∧ l.length ≤ 256) → Recalls ls) ↔ n ≤ 32 := by
  constructor
  · intro h
    by_contra hn
    exact not_recalls_overrun (n - 33) (h _ (by simp [overrun]; omega) (valid_overrun _))
  · rintro hn ls rfl hls k j hj hk
    have hH := holds_submitted fun l hl => (hls l hl).1
    have hi : ls.length - 1 - (k - j - 1) = min ls.length 32 - k + j := by omega
    rw [hH.recalled hj hk, List.getElem?_reverse (by omega), hi]
    have hl := List.getElem?_eq_getElem (l := ls) (i := min ls.length 32 - k + j) (by omega)
    rw [hl, hH.slot _ (by omega) (.inr hn) _ hl]

/-- The 33rd line is not recalled. -/
theorem recalls_fails : ¬ Recalls (List.replicate 32 [65] ++ [[66]]) := not_recalls_overrun 0

end InputLine

end LodaxOS.Katerm
