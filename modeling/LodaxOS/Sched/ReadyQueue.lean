/-
# The ready queue is a FIFO until its drop counter overflows

The head and tail of the ring count freely and wrap at 2^64, a multiple of its
256 slots, so they always tell the oldest id and the number of ids. The counter
of refused ids does not wrap: the 2^64th refusal panics.
-/
import LodaxOS.Sched.Model

namespace LodaxOS.Percpu

open Function List
open Sched (queueCapacity)

structure QueueInner where
  buf : ℕ → ℕ
  head : ℕ
  tail : ℕ
  dropped : ℕ

/-- A locked section, on whichever CPU. -/
inductive Call
  | push (id : ℕ)
  | pop
  | peek

/-- What `push` returns, or `pop` and `peek`. -/
abbrev Answer := Bool ⊕ Option ℕ

namespace QueueInner

/-- `ReadyQueue::empty`. -/
def empty : QueueInner := ⟨fun _ => 0, 0, 0, 0⟩

/-- `ReadyQueue::push`; `none` is the overflow of `dropped += 1`. -/
def push (q : QueueInner) (id : ℕ) : Option (QueueInner × Bool) :=
  if (q.tail + 2 ^ 64 - q.head) % 2 ^ 64 ≥ queueCapacity then
    if q.dropped + 1 < 2 ^ 64 then some ({ q with dropped := q.dropped + 1 }, false) else none
  else some ({ q with buf := update q.buf (q.tail % queueCapacity) id, tail := (q.tail + 1) % 2 ^ 64 }, true)

/-- `ReadyQueue::pop`. -/
def pop (q : QueueInner) : QueueInner × Option ℕ :=
  if q.head = q.tail then (q, none)
  else ({ q with head := (q.head + 1) % 2 ^ 64 }, some (q.buf (q.head % queueCapacity)))

/-- `ReadyQueue::peek`. -/
def peek (q : QueueInner) : Option ℕ :=
  if q.head = q.tail then none else some (q.buf (q.head % queueCapacity))

def call (q : QueueInner) : Call → Option (QueueInner × Answer)
  | .push id => (q.push id).map fun r => (r.1, .inl r.2)
  | .pop => some (q.pop.1, .inr q.pop.2)
  | .peek => some (q, .inr q.peek)

/-- The calls in the order of the lock. -/
def run (q : QueueInner) : List Call → Option (List Answer)
  | [] => some []
  | c :: cs => (q.call c).bind fun r => (r.1.run cs).map (r.2 :: ·)

/-! ### The abstract queue -/

/-- A queue of at most 256 ids, oldest first, after a call. -/
def after (l : List ℕ) : Call → List ℕ
  | .push id => if l.length < 256 then l ++ [id] else l
  | .pop => l.tail
  | .peek => l

def answer (l : List ℕ) : Call → Answer
  | .push _ => .inl (l.length < 256)
  | _ => .inr l.head?

def answers : List ℕ → List Call → List Answer
  | _, [] => []
  | l, c :: cs => answer l c :: answers (after l c) cs

def refused (l : List ℕ) (c : Call) : ℕ := if answer l c = .inl false then 1 else 0

/-- The number of pushes that are refused. -/
def refusals : List ℕ → List Call → ℕ
  | _, [] => 0
  | l, c :: cs => refused l c + refusals (after l c) cs

/-- The ring holds the ids of `l`, the first of them the `n`th ever pushed. -/
structure Rep (n : ℕ) (q : QueueInner) (l : List ℕ) : Prop where
  le : l.length ≤ 256
  head : q.head = n % 2 ^ 64
  tail : q.tail = (n + l.length) % 2 ^ 64
  buf : ∀ i < l.length, l[i]? = some (q.buf ((n + i) % 256))
  dropped : q.dropped < 2 ^ 64

variable {q : QueueInner} {l : List ℕ} {n : ℕ}

lemma Rep.popped (h : Rep n q l) :
    q.pop.2 = l.head? ∧ q.peek = l.head? ∧ q.pop.1.dropped = q.dropped ∧ ∃ n', Rep n' q.pop.1 l.tail := by
  obtain ⟨hle, hh, ht, hb, hd⟩ := id h
  unfold pop peek
  cases l with
  | nil => simpa [hh, ht] using ⟨n, h⟩
  | cons id l =>
    have hne : q.head ≠ q.tail := by rw [hh, ht]; simp at hle ⊢; omega
    have h0 := hb 0 (by simp)
    have hm : q.head % queueCapacity = (n + 0) % 256 := by rw [queueCapacity]; omega
    rw [if_neg hne, if_neg hne, hm, ← h0]
    refine ⟨rfl, rfl, rfl, n + 1, ?_, ?_, ?_, fun i hi => ?_, hd⟩
    · exact (Nat.le_succ _).trans hle
    · show (q.head + 1) % 2 ^ 64 = (n + 1) % 2 ^ 64
      omega
    · rw [ht]; simp; omega
    · have := hb (i + 1) (by simpa using hi)
      rw [add_assoc, add_comm 1]
      simpa using this

lemma Rep.called (h : Rep n q l) (c : Call) :
    (∃ q' n', q.call c = some (q', answer l c) ∧ Rep n' q' (after l c) ∧ q'.dropped = q.dropped + refused l c) ∨
      q.call c = none ∧ 2 ^ 64 ≤ q.dropped + refused l c := by
  cases c with
  | push id =>
    obtain ⟨hle, hh, ht, hb, hd⟩ := h
    have hlen : (q.tail + 2 ^ 64 - q.head) % 2 ^ 64 = l.length := by omega
    rw [call, push, hlen, queueCapacity, refused, answer, after]
    rcases hle.lt_or_eq with hlt | he
    · refine .inl ⟨_, n, by rw [if_neg hlt.not_ge, decide_eq_true hlt]; rfl, ?_, by simp [hlt]⟩
      rw [if_pos hlt]
      refine ⟨by simp; omega, hh, ?_, fun i hi => ?_, hd⟩
      · simp only [length_append, length_singleton]
        omega
      · show _ = some (update q.buf (q.tail % 256) id ((n + i) % 256))
        rw [length_append, length_singleton] at hi
        rcases Nat.lt_succ_iff_lt_or_eq.mp hi with hi | rfl
        · rw [List.getElem?_append_left hi, hb i hi, update_of_ne (by omega)]
        · rw [List.getElem?_concat_length, show (n + l.length) % 256 = q.tail % 256 by omega, update_self]
    · simp only [he, ge_iff_le, le_refl, if_true, lt_irrefl, decide_false, if_false]
      split_ifs with hlt
      · exact .inl ⟨_, n, rfl, ⟨hle, hh, ht, hb, hlt⟩, rfl⟩
      · exact .inr ⟨rfl, by omega⟩
  | pop =>
    obtain ⟨h1, -, hd, n', h'⟩ := h.popped
    exact .inl ⟨_, n', by rw [call, h1]; rfl, h', hd⟩
  | peek => exact .inl ⟨q, n, by rw [call, h.popped.2.1]; rfl, h, rfl⟩

lemma Rep.runs (h : Rep n q l) (cs : List Call) :
    q.run cs = some (answers l cs) ↔ q.dropped + refusals l cs < 2 ^ 64 := by
  induction cs generalizing q l n with
  | nil => simpa [run, answers, refusals] using h.dropped
  | cons c cs ih =>
    rw [run, answers, refusals, ← add_assoc]
    rcases h.called c with ⟨q', n', hc, h', hd⟩ | ⟨hc, hd⟩
    · rw [← hd, ← ih h', hc]
      simp
    · rw [hc]
      simp
      omega

lemma rep_empty : Rep 0 .empty [] := ⟨by simp, rfl, rfl, by simp, by decide⟩

/-- For every interleaving the answers are those of the FIFO exactly if fewer
than 2^64 pushes are refused; a refused push changes the drop counter only. -/
theorem fifo_iff (cs : List Call) : (empty.run cs = some (answers [] cs) ↔ refusals [] cs < 2 ^ 64) ∧
      ∀ (q : QueueInner) id q', q.push id = some (q', false) → q' = { q with dropped := q.dropped + 1 } := by
  refine ⟨(rep_empty.runs cs).trans (by rw [empty, zero_add]), fun q id q' h => ?_⟩
  unfold push at h
  split_ifs at h <;> cases h
  rfl

lemma refusals_replicate (m : ℕ) (h : l.length ≤ 256) : refusals l (replicate m (.push 0)) = m - (256 - l.length) := by
  induction m generalizing l with
  | zero => exact (Nat.zero_sub _).symm
  | succ m ih =>
    rw [replicate_succ, refusals, after, refused, answer]
    by_cases hl : l.length < 256
    · rw [if_pos hl, ih (by simp; omega)]
      simp [hl]
      omega
    · rw [if_neg hl, ih h]
      simp [hl]
      omega

/-- The queue is filled, and 2^64 more ids are pushed. -/
theorem fifo_overflows : let cs := replicate (256 + 2 ^ 64) (.push 0)
    empty.run cs ≠ some (answers [] cs) := by
  rw [Ne, rep_empty.runs, refusals_replicate _ (by simp)]
  simp

end QueueInner

end LodaxOS.Percpu
