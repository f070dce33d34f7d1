/-
# Transfers of the AHCI driver (`drivers/src/bin/ahci.rs`)

A read request names a sector, a count and a buffer, each a 64-bit word. The
driver keeps 16 bits of the count and 48 of the sector, cuts the transfer into
pieces of 2 MB for the controller's list (the PRDT), and encodes sector and
count once more in the command (the FIS), where a count of zero stands for
65536. The three agree for counts from 1 to 65535; a multiple of 65536 gets
one piece of 2 MB and a command for 65536 sectors.
-/
import Mathlib.Tactic.NormNum
import Mathlib.Data.Nat.Bitwise

namespace LodaxOS.Ahci

/-- An entry of the PRDT: an address, and a word whose low 22 bits are the
number of bytes less one. -/
structure Prd where
  dba : ℕ
  dbc : ℕ

def prdtCountFinal (count : ℕ) : ℕ :=
  let prdtCount := (count * 512 + 0x1FFFFF) / 0x200000 % 2 ^ 16
  if prdtCount = 0 then 1 else prdtCount

/-- The entry `i` of `n`, with the bit that asks for an interrupt. -/
def prd (count dmaPhys n i : ℕ) : Prd where
  dba := dmaPhys + i * 0x200000
  dbc :=
    (if i = n - 1 then
      let last := count * 512 - i * 0x200000
      if last = 0 then 0x1FFFFF else if last > 0x200000 then 0x1FFFFF else last - 1
    else 0x1FFFFF) ||| 0x80000000

/-- The command, by offset; byte 14 is not written. -/
def fis (sector count : ℕ) (write : Bool) : ℕ → Option ℕ
  | 0 => some 0x27
  | 1 => some 0x80
  | 2 => some (if write then 0x35 else 0x25)
  | 4 => some (sector % 256)
  | 5 => some (sector / 2 ^ 8 % 256)
  | 6 => some (sector / 2 ^ 16 % 256)
  | 7 => some 0x40
  | 8 => some (sector / 2 ^ 24 % 256)
  | 9 => some (sector / 2 ^ 32 % 256)
  | 10 => some (sector / 2 ^ 40 % 256)
  | 12 => some (count % 256)
  | 13 => some (count / 2 ^ 8 % 256)
  | 3 | 11 | 15 => some 0
  | _ => none

/-- What `ahci_op` gives the controller, `none` where a sum overflows; the last
entry has the largest. A count has 16 bits, so nothing saturates. -/
def ahciOp (sector count dmaPhys : ℕ) (write : Bool) : Option (List Prd × (ℕ → Option ℕ)) :=
  let n := prdtCountFinal count
  if dmaPhys + (n - 1) * 0x200000 < 2 ^ 64 then
    some ((List.range n).map (prd count dmaPhys n), fis sector count write)
  else none

/-- The size of the buffer that the driver allocates. -/
def allocSize (count : ℕ) : ℕ := (count % 2 ^ 16 * 512 + 0xFFF) / 0x1000 * 0x1000

/-- The buffer of a request; `dmaAlloc` is the kernel's allocation. -/
def bufferOf (dmaAlloc : ℕ → ℕ) (count buffer : ℕ) : ℕ := if buffer ≠ 0 then buffer else dmaAlloc (allocSize count)

/-- Command 10, once the buffer was accepted. -/
def readRequest (dmaAlloc : ℕ → ℕ) (sector count buffer : ℕ) : Option (List Prd × (ℕ → Option ℕ)) :=
  ahciOp sector (count % 2 ^ 16) (bufferOf dmaAlloc count buffer) false

/-! ### What the controller reads -/

def Prd.bytes (p : Prd) : ℕ := p.dbc % 2 ^ 22 + 1

/-- The entries describe the bytes from `a` to `e`, one after the other. -/
def Covers (a e : ℕ) : List Prd → Prop
  | [] => a = e
  | p :: ps => p.dba = a ∧ Covers (a + p.bytes) e ps

def lbaOf (f : ℕ → Option ℕ) : ℕ :=
  (f 4).getD 0 + (f 5).getD 0 * 2 ^ 8 + (f 6).getD 0 * 2 ^ 16 + (f 8).getD 0 * 2 ^ 24 + (f 9).getD 0 * 2 ^ 32 +
    (f 10).getD 0 * 2 ^ 40

def sectorsOf (f : ℕ → Option ℕ) : ℕ :=
  let c := (f 12).getD 0 + (f 13).getD 0 * 2 ^ 8
  if c = 0 then 65536 else c

structure Confined (dmaAlloc : ℕ → ℕ) (sector count buffer : ℕ) (prdt : List Prd) (f : ℕ → Option ℕ) : Prop where
  covers : Covers (bufferOf dmaAlloc count buffer) (bufferOf dmaAlloc count buffer + count * 512) prdt
  small : ∀ p ∈ prdt, p.bytes ≤ 0x400000
  lba : lbaOf f = sector
  sectors : sectorsOf f = count
  inside : buffer = 0 → count * 512 ≤ allocSize count

lemma lbaOf_fis (sector count : ℕ) (write : Bool) : lbaOf (fis sector count write) = sector % 2 ^ 48 := by
  simp only [lbaOf, fis, Option.getD_some]
  omega

lemma sectorsOf_fis {count : ℕ} (h : count < 2 ^ 16) (sector : ℕ) (write : Bool) :
    sectorsOf (fis sector count write) = if count = 0 then 65536 else count := by
  have hc : count % 256 + count / 2 ^ 8 % 256 * 2 ^ 8 = count := by omega
  simp only [sectorsOf, fis, Option.getD_some, hc]

lemma bytes_prd {count n i : ℕ} (dmaPhys : ℕ) : (prd count dmaPhys n i).bytes =
    if i = n - 1 ∧ 0 < count * 512 - i * 0x200000 ∧ count * 512 - i * 0x200000 ≤ 0x200000 then count * 512 - i * 0x200000
    else 0x200000 := by
  have hor : ∀ x, x ≤ 0x1FFFFF → (x ||| 0x80000000) % 2 ^ 22 = x := by
    intro x hx
    rw [Nat.or_mod_two_pow, show 0x80000000 % 2 ^ 22 = 0 from rfl, Nat.or_zero]
    exact Nat.mod_eq_of_lt (by omega)
  dsimp only [Prd.bytes, prd]
  rw [hor _ (by split_ifs <;> omega)]
  split_ifs <;> omega

/-- The entries from `i` on, of as many as the transfer needs. -/
lemma covers_prdt {count n : ℕ} (dmaPhys : ℕ) (hlow : (n - 1) * 0x200000 < count * 512)
    (hhigh : count * 512 ≤ n * 0x200000) : ∀ j i, i + (j + 1) = n →
      Covers (dmaPhys + i * 0x200000) (dmaPhys + count * 512) ((List.range' i (j + 1)).map (prd count dmaPhys n))
  | 0, i, hi => by
    refine ⟨rfl, ?_⟩
    rw [bytes_prd, if_pos (by omega)]
    change _ = _
    omega
  | j + 1, i, hi => by
    refine ⟨rfl, ?_⟩
    have ih := covers_prdt dmaPhys hlow hhigh j (i + 1) (by omega)
    rw [bytes_prd, if_neg (by omega)]
    rwa [Nat.succ_mul, ← add_assoc] at ih

/-- An accepted request is carried out as it was made exactly for counts from 1
to 65535 and sectors of 48 bits, with a buffer whose pieces have addresses. -/
theorem request_confined_iff (dmaAlloc : ℕ → ℕ) (sector count buffer : ℕ) :
    (∃ prdt f, readRequest dmaAlloc sector count buffer = some (prdt, f) ∧ Confined dmaAlloc sector count buffer prdt f) ↔
      (0 < count ∧ count < 2 ^ 16) ∧ sector < 2 ^ 48 ∧
        bufferOf dmaAlloc count buffer + (count * 512 - 1) / 0x200000 * 0x200000 < 2 ^ 64 := by
  have hn : 0 < count % 2 ^ 16 → prdtCountFinal (count % 2 ^ 16) = (count % 2 ^ 16 * 512 - 1) / 0x200000 + 1 := by
    intro h
    unfold prdtCountFinal
    dsimp only
    split_ifs <;> omega
  have hlt : count % 2 ^ 16 < 2 ^ 16 := Nat.mod_lt _ (by norm_num)
  constructor
  · rintro ⟨prdt, f, hrun, hc⟩
    unfold readRequest ahciOp at hrun
    dsimp only at hrun
    split_ifs at hrun with hsum
    cases hrun
    have hsector := hc.lba
    have hcount := hc.sectors
    rw [lbaOf_fis] at hsector
    rw [sectorsOf_fis hlt] at hcount
    by_cases h0 : count % 2 ^ 16 = 0
    · -- a command for 65536 sectors, and one entry of 2 MB
      rw [if_pos h0] at hcount
      have hcovers := hc.covers
      rw [h0, show prdtCountFinal 0 = 1 from rfl] at hcovers
      obtain ⟨-, hend⟩ := hcovers
      rw [bytes_prd, if_neg (by omega)] at hend
      change _ = _ at hend
      omega
    · rw [if_neg h0] at hcount
      rw [hn (by omega), hcount] at hsum
      refine ⟨by omega, by omega, ?_⟩
      simpa only [Nat.add_sub_cancel] using hsum
  · rintro ⟨⟨hpos, hsmall⟩, hsector, hsum⟩
    have hmod : count % 2 ^ 16 = count := Nat.mod_eq_of_lt hsmall
    rw [hmod] at hn hlt
    have hn := hn hpos
    have hrun : readRequest dmaAlloc sector count buffer = some ((List.range (prdtCountFinal count)).map
        (prd count (bufferOf dmaAlloc count buffer) (prdtCountFinal count)), fis sector count false) := by
      rw [readRequest, hmod, ahciOp]
      exact if_pos (by simpa only [hn, Nat.add_sub_cancel] using hsum)
    refine ⟨_, _, hrun, ?_, fun p hp => ?_, ?_, ?_, fun _ => ?_⟩
    · rw [hn, List.range_eq_range']
      exact covers_prdt (bufferOf dmaAlloc count buffer) (by omega) (by omega) _ 0 (zero_add _)
    · obtain ⟨i, -, rfl⟩ := List.mem_map.mp hp
      rw [bytes_prd]
      split_ifs <;> omega
    · rw [lbaOf_fis]
      omega
    · rw [sectorsOf_fis hlt, if_neg (by omega)]
    · unfold allocSize
      omega

/-- A count of zero: a command for 65536 sectors, and an entry of 2 MB. -/
theorem request_count_zero : ∃ p f, readRequest (fun _ => 0) 0 0 0x100000 = some ([p], f) ∧ p.dba = 0x100000 ∧
    p.bytes = 0x200000 ∧ sectorsOf f = 65536 ∧ ¬ Confined (fun _ => 0) 0 0 0x100000 [p] f := by
  refine ⟨_, _, rfl, rfl, by decide, by decide, fun h => ?_⟩
  exact absurd h.sectors (by decide)

end LodaxOS.Ahci
