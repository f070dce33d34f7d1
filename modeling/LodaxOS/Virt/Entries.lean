/-
# Entries and the hardware's walk

What the bits of an entry are to the hardware (`decode`), the walk of a
virtual address through the tables of a PML4 (`hwWalk`), the physical address
it gives (`hwTranslate`) and the rights that the entries on the way leave
(`Leaf`). This is the x86-64 rule, stated on its own: a leaf is a PT entry, or
a PD or PDP entry with the huge-page bit; its base is its address bits from
the page's size up to bit 51; a page is writable or a user page if every entry
on the way allows it, and executable if none forbids it.
-/
import LodaxOS.Virt.Model

namespace LodaxOS.Virt

open Phys (pageSize)
open Radix Words

/-! ### Bits -/

lemma and_two_pow_eq_zero (x i : ℕ) : x &&& 2 ^ i = 0 ↔ x.testBit i = false := by
  rw [Nat.and_two_pow]
  cases x.testBit i <;> simp

lemma pageSizeBit_eq : pageSizeBit = 2 ^ 7 := rfl

@[simp] lemma and_present (e : ℕ) : e &&& present = 0 ↔ e.testBit 0 = false := and_two_pow_eq_zero e 0

@[simp] lemma and_writable (e : ℕ) : e &&& writable = 0 ↔ e.testBit 1 = false := and_two_pow_eq_zero e 1

@[simp] lemma and_user (e : ℕ) : e &&& user = 0 ↔ e.testBit 2 = false := and_two_pow_eq_zero e 2

@[simp] lemma and_pageSizeBit (e : ℕ) : e &&& pageSizeBit = 0 ↔ e.testBit 7 = false :=
  and_two_pow_eq_zero e 7

@[simp] lemma and_noExecute (e : ℕ) : e &&& noExecute = 0 ↔ e.testBit 63 = false :=
  and_two_pow_eq_zero e 63

lemma present_of_testBit {e : ℕ} (h : e.testBit 0 = true) : ¬ e &&& present = 0 := by
  rw [and_present, h]
  simp

lemma huge_of_testBit {e : ℕ} (h : e.testBit 7 = true) : e &&& pageSizeBit ≠ 0 := by
  rw [ne_eq, and_pageSizeBit, h]
  simp

/-- The guards of the copies: a present entry that is no huge page. -/
lemma guard_table {e : ℕ} : (e &&& present ≠ 0 && e &&& pageSizeBit = 0) = true ↔ e.testBit 0 = true ∧ e.testBit 7 = false := by
  simp

lemma table_of_guard {e : ℕ} (h : ¬ (e &&& present = 0 || e &&& pageSizeBit ≠ 0) = true) :
    e.testBit 0 = true ∧ e.testBit 7 = false := by
  simpa using h

lemma decide_noExecute (e : ℕ) : decide (e &&& noExecute ≠ 0) = e.testBit 63 := by
  simp only [ne_eq, and_noExecute]
  cases e.testBit 63 <;> rfl

/-- The address bits 51:12. -/
lemma and_physAddrMask (e : ℕ) : e &&& physAddrMask = e / 2 ^ 12 % 2 ^ 40 * 2 ^ 12 := and_field 12 40 e

lemma indexForAddr_eq (virt level : ℕ) : indexForAddr virt level = virt / 2 ^ (12 + level * 9) % 512 := by
  rw [indexForAddr, Nat.shiftRight_eq_div_pow]
  exact Nat.and_two_pow_sub_one_eq_mod _ 9

lemma testBit_of_pageSize_dvd {p i : ℕ} (hp : pageSize ∣ p) (hi : i < 12) : p.testBit i = false := by
  obtain ⟨k, rfl⟩ := hp
  rw [show pageSize = 2 ^ 12 from rfl, mul_comm, Nat.testBit_mul_two_pow]
  simp [show ¬ 12 ≤ i by omega]

/-- A page address stands in the address bits of an entry. -/
lemma and_physAddrMask_page {p : ℕ} (hp : pageSize ∣ p) (hlt : p < 2 ^ 52) : p &&& physAddrMask = p := by
  rw [and_physAddrMask]
  obtain ⟨k, rfl⟩ := hp
  simp only [pageSize] at *
  omega

/-- The address of an entry made of a page and flags. -/
lemma entry_addr {p f : ℕ} (hp : pageSize ∣ p) (hlt : p < 2 ^ 52) (hf : f &&& physAddrMask = 0) :
    (p ||| f) &&& physAddrMask = p := by
  rw [Nat.and_or_distrib_right, hf, and_physAddrMask_page hp hlt, Nat.or_zero]

/-- The low flags of an entry made of a page and flags. -/
lemma entry_testBit {p f i : ℕ} (hp : pageSize ∣ p) (hi : i < 12) : (p ||| f).testBit i = f.testBit i := by
  rw [Nat.testBit_or, testBit_of_pageSize_dvd hp hi, Bool.false_or]

lemma entry_testBit_high {p f i : ℕ} (hlt : p < 2 ^ 52) (hi : 52 ≤ i) : (p ||| f).testBit i = f.testBit i := by
  rw [Nat.testBit_or, Nat.testBit_lt_two_pow (lt_of_lt_of_le hlt (Nat.pow_le_pow_right (by norm_num) hi)),
    Bool.false_or]

/-! ### The walk -/

/-- An entry as the walk reads it at level 3 (PML4) to 0 (PT). The huge-page
bit of a PML4 entry is reserved. -/
def decode (level e : ℕ) : Node ℕ :=
  if e &&& present = 0 then .empty
  else if level = 0 then .leaf
  else if e &&& pageSizeBit ≠ 0 then if level = 3 then .empty else .leaf
  else .table (e &&& physAddrMask)

/-- The number of the virtual page, bits 47:12. -/
def vpn (virt : ℕ) : ℕ := virt / 2 ^ 12 % 2 ^ 36

/-- The leaf that the walk of `virt` reaches: its level, its entry, and the
entries above it. -/
def hwWalk (mem : Mem ℕ ℕ) (pml4 virt : ℕ) : Option (ℕ × ℕ × List ℕ) := walk 512 decode mem 3 pml4 (vpn virt)

/-- The base of a leaf of a level: its address bits from the page's size up. -/
def leafBase (level e : ℕ) : ℕ := e / 2 ^ (12 + 9 * level) % 2 ^ (40 - 9 * level) * 2 ^ (12 + 9 * level)

/-- The physical address the hardware gives, if the walk does not fault. -/
def hwTranslate (mem : Mem ℕ ℕ) (pml4 virt : ℕ) : Option ℕ :=
  (hwWalk mem pml4 virt).map fun r => leafBase r.1 r.2.1 + virt % 2 ^ (12 + 9 * r.1)

/-- The PT entry the walk reads, if it gets to a PT. -/
def ptEntry (mem : Mem ℕ ℕ) (pml4 virt : ℕ) : Option ℕ := bottom 512 decode mem 3 pml4 (vpn virt)

/-- Every entry on the way has the bit. -/
def allBits (i : ℕ) (r : ℕ × ℕ × List ℕ) : Bool := r.2.1.testBit i && r.2.2.all fun e => e.testBit i

/-- Some entry on the way has the bit. -/
def anyBit (i : ℕ) (r : ℕ × ℕ × List ℕ) : Bool := r.2.1.testBit i || r.2.2.any fun e => e.testBit i

/-- What a virtual address gives: where it leads and what may be done there. -/
structure Leaf where
  phys : ℕ
  writable : Bool
  user : Bool
  noExecute : Bool
  deriving DecidableEq, Repr

def hwLeaf (mem : Mem ℕ ℕ) (pml4 virt : ℕ) : Option Leaf :=
  (hwWalk mem pml4 virt).map fun r =>
    ⟨leafBase r.1 r.2.1 + virt % 2 ^ (12 + 9 * r.1), allBits 1 r, allBits 2 r, anyBit 63 r⟩

/-- The index of `virt` at a level is a digit of its page number. -/
lemma indexForAddr_vpn {level : ℕ} (virt : ℕ) (hl : level ≤ 3) :
    indexForAddr virt level = vpn virt / 512 ^ level % 512 := by
  rw [indexForAddr_eq, vpn]
  obtain rfl | rfl | rfl | rfl : level = 0 ∨ level = 1 ∨ level = 2 ∨ level = 3 := by omega
  all_goals norm_num
  all_goals omega

lemma indexForAddr_levels (virt : ℕ) : indexForAddr virt 3 = vpn virt / 512 ^ 3 % 512 ∧
    indexForAddr virt 2 = vpn virt / 512 ^ 2 % 512 ∧ indexForAddr virt 1 = vpn virt / 512 ^ 1 % 512 :=
  ⟨indexForAddr_vpn virt le_rfl, indexForAddr_vpn virt (by norm_num), indexForAddr_vpn virt (by norm_num)⟩

lemma decode_zero (e : ℕ) : decode 0 e = if e.testBit 0 then .leaf else .empty := by
  unfold decode
  cases h : e.testBit 0 <;> simp [h]

/-- An entry that is a table. -/
lemma decode_eq_table {level e g : ℕ} : decode level e = .table g ↔
    e.testBit 0 = true ∧ level ≠ 0 ∧ e.testBit 7 = false ∧ e &&& physAddrMask = g := by
  unfold decode
  by_cases h0 : e.testBit 0 <;> by_cases hl : level = 0 <;> by_cases h7 : e.testBit 7 <;>
    by_cases h3 : level = 3 <;> simp [h0, hl, h7, h3]

end LodaxOS.Virt
