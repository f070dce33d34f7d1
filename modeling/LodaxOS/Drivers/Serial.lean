/-
# The receive ring of COM2

`push_ring` writes at the head and, when that fills the last slot, moves the
tail over the oldest byte. So the ring holds the newest 1023 bytes that were
not read: the byte received as number `i` is in slot `i` modulo 1024.
-/
import Mathlib.Data.Nat.Bitwise

namespace LodaxOS.Serial2

open Function List

def ringSize : ℕ := 1024

def ringMask : ℕ := ringSize - 1

/-- `RING_BUF`, `RING_HEAD` and `RING_TAIL`. -/
structure Ring where
  buf : ℕ → UInt8
  head : ℕ
  tail : ℕ

def Ring.new : Ring := ⟨fun _ => 0, 0, 0⟩

/-- `push_ring`. -/
def pushRing (r : Ring) (byte : UInt8) : Ring :=
  let next := (r.head + 1) &&& ringMask
  { buf := update r.buf r.head byte
    tail := if next = r.tail then (r.tail + 1) &&& ringMask else r.tail
    head := next }

/-- `pop_ring`, all that `read_byte` does under the lock. -/
def popRing (r : Ring) : Ring × Option UInt8 :=
  if r.tail = r.head then (r, none) else ({ r with tail := (r.tail + 1) &&& ringMask }, some (r.buf r.tail))

/-- `irq_handler`: the line status reports the `bytes` one after the other. -/
def irqHandler (r : Ring) (bytes : List UInt8) : Ring := bytes.foldl pushRing r

/-- What happens under `SERIAL2_LOCK`. -/
inductive Event
  | irq (bytes : List UInt8)
  | read

def received : List Event → List UInt8
  | [] => []
  | .irq bytes :: es => bytes ++ received es
  | .read :: es => received es

/-- What `read_byte` returns each time, after how many received bytes; `n` is
their number at the start. -/
def reads (r : Ring) (n : ℕ) : List Event → List (ℕ × Option UInt8)
  | [] => []
  | .irq bytes :: es => reads (irqHandler r bytes) (n + bytes.length) es
  | .read :: es => (n, (popRing r).2) :: reads (popRing r).1 n es

/-- The reads return bytes of `R` from place `next` on, in order. A byte is
skipped only with 1023 later ones before the read, and nothing is returned only
if no byte is left. -/
def InOrder (R : List UInt8) : ℕ → List (ℕ × Option UInt8) → Prop
  | _, [] => True
  | next, (n, none) :: t => n ≤ next ∧ InOrder R next t
  | next, (n, some b) :: t => ∃ p, next ≤ p ∧ p < n ∧ R[p]? = some b ∧
      (∀ i, next ≤ i → i < p → 1023 ≤ n - (i + 1)) ∧ InOrder R (p + 1) t

/-- Of the first `n` bytes of `R` the ring holds those from place `p` on; if
bytes before it are unread, the ring is full. -/
structure Holds (R : List UInt8) (n next p : ℕ) (r : Ring) : Prop where
  head : r.head = n % 1024
  tail : r.tail = p % 1024
  le : p ≤ n
  lt : n < p + 1024
  next_le : next ≤ p
  full : next < p → n = p + 1023
  buf : ∀ i, p ≤ i → i < n → R[i]? = some (r.buf (i % 1024))

lemma and_ringMask (x : ℕ) : x &&& ringMask = x % 1024 := Nat.and_two_pow_sub_one_eq_mod x 10

variable {R : List UInt8} {n next p : ℕ} {r : Ring}

lemma Holds.push (h : Holds R n next p r) {b : UInt8} (hb : R[n]? = some b) :
    ∃ p', Holds R (n + 1) next p' (pushRing r b) := by
  obtain ⟨hh, ht, hle, hlt, hnext, hfull, hbuf⟩ := h
  have hbuf' : ∀ i, p ≤ i → i < n + 1 → R[i]? = some (update r.buf r.head b (i % 1024)) := by
    intro i hi hin
    rcases Nat.lt_succ_iff_lt_or_eq.mp hin with hin | rfl
    · rw [update_of_ne (by omega), hbuf i hi hin]
    · rw [hh, update_self, hb]
  have hh' : (r.head + 1) % 1024 = (n + 1) % 1024 := by omega
  simp only [pushRing, and_ringMask]
  split_ifs with he
  · have ht' : (r.tail + 1) % 1024 = (p + 1) % 1024 := by omega
    exact ⟨p + 1, hh', ht', by omega, by omega, by omega, by omega, fun i hi => hbuf' i (by omega)⟩
  · exact ⟨p, hh', ht, by omega, by omega, hnext, by omega, hbuf'⟩

lemma Holds.irq (bytes : List UInt8) {rest : List UInt8} (h : Holds R n next p r) (hR : R.drop n = bytes ++ rest) :
    ∃ p', Holds R (n + bytes.length) next p' (irqHandler r bytes) := by
  induction bytes generalizing n p r with
  | nil => exact ⟨p, h⟩
  | cons b bytes ih =>
    obtain ⟨p', h'⟩ := h.push (b := b) (by rw [← List.head?_drop, hR]; rfl)
    rw [length_cons, add_comm _ 1, ← add_assoc]
    exact ih h' (by rw [drop_add_one_eq_tail_drop, hR]; rfl)

lemma Holds.inOrder (es : List Event) (h : Holds R n next p r) (hR : R.drop n = received es) :
    InOrder R next (reads r n es) := by
  induction es generalizing n next p r with
  | nil => trivial
  | cons e es ih =>
    cases e with
    | irq bytes =>
      obtain ⟨p', h'⟩ := h.irq bytes hR
      refine ih h' ?_
      rw [← drop_drop, hR]
      exact drop_left
    | read =>
      obtain ⟨hh, ht, hle, hlt, hnext, hfull, hbuf⟩ := id h
      simp only [reads, popRing, and_ringMask]
      split_ifs with he
      · exact ⟨by omega, ih h hR⟩
      · have ht' : (r.tail + 1) % 1024 = (p + 1) % 1024 := by omega
        refine ⟨p, hnext, by omega, ?_, by omega, ih ⟨hh, ht', by omega, by omega, le_rfl, by omega, ?_⟩ hR⟩
        · rw [ht]
          exact hbuf p le_rfl (by omega)
        · exact fun i hi => hbuf i (by omega)

/-- For every interleaving, the reads return the received bytes in order, but
for those that 1023 later ones pushed out. -/
theorem reads_inOrder (es : List Event) : InOrder (received es) 0 (reads .new 0 es) :=
  Holds.inOrder es ⟨rfl, rfl, le_rfl, by decide, le_rfl, by omega, by omega⟩ rfl

end LodaxOS.Serial2
