/-
# The search for an ACPI table (`kernel/src/acpi/mod.rs`)

`find_sdt` goes through the entries of the root table, eight bytes each in an
XSDT and four in an RSDT, and takes the first that leads to a table with the
signature and a checksum of zero. How many entries there are comes from the
length in the header, less the size of the header. The subtraction is checked,
and nothing before it looks at the length: a length below that of the header is
a panic (`findSdt_short`). So are, in a debug build, a null pointer and an entry
whose address overflows. In all other cases the search is exact
(`findSdt_exact_iff`).
-/
import LodaxOS.Lib.Bytes

namespace LodaxOS.Acpi

open Bytes

/-- The size of `SdtHeader`. -/
def headerSize : ℕ := 36

variable (mem : ℕ → UInt8)

def signatureAt (addr : ℕ) : List UInt8 := (List.range 4).map fun i => mem (addr + i)

def lengthAt (addr : ℕ) : ℕ := le32 mem (addr + 4)

def sdtChecksumValid (addr : ℕ) : Bool := (List.range (lengthAt mem addr)).foldl (fun a i => a + mem (addr + i)) 0 = 0

def isXsdt (addr : ℕ) : Bool := signatureAt mem addr = [0x58, 0x53, 0x44, 0x54]

def entrySize (xsdt : Bool) : ℕ := if xsdt then 8 else 4

def entryAt (xsdt : Bool) (base i : ℕ) : ℕ :=
  if xsdt then le64 mem (base + i * entrySize xsdt) else le32 mem (base + i * entrySize xsdt)

def entryCount (addr : ℕ) : ℕ := (lengthAt mem addr - headerSize) / entrySize (isXsdt mem addr)

/-- The loop of `find_sdt`, with the ranges of the entries it has read; `none`
is the check of `add`. -/
def findLoop (signature : List UInt8) (xsdt : Bool) (base : ℕ) : List ℕ → Option (Option ℕ × List (ℕ × ℕ))
  | [] => some (none, [])
  | i :: is =>
    if 2 ^ 64 ≤ base + i * entrySize xsdt then none
    else
      let entryAddr := entryAt mem xsdt base i
      let read := (base + i * entrySize xsdt, entrySize xsdt)
      if entryAddr ≠ 0 ∧ signatureAt mem entryAddr = signature ∧ sdtChecksumValid mem entryAddr then
        some (some entryAddr, [read])
      else (findLoop signature xsdt base is).map fun r => (r.1, read :: r.2)

/-- `find_sdt`; `none` is a panic. -/
def findSdt (xsdtAddr : ℕ) (signature : List UInt8) : Option (Option ℕ × List (ℕ × ℕ)) :=
  if xsdtAddr = 0 ∨ lengthAt mem xsdtAddr < headerSize ∨ 2 ^ 64 ≤ xsdtAddr + headerSize then none
  else findLoop mem signature (isXsdt mem xsdtAddr) (xsdtAddr + headerSize) (List.range (entryCount mem xsdtAddr))

/-! ### What is to be found -/

/-- The addresses that the root table lists. -/
def listed (addr : ℕ) : List ℕ :=
  (List.range (entryCount mem addr)).map (entryAt mem (isXsdt mem addr) (addr + headerSize))

/-- A table with the signature whose bytes add up to zero. -/
def IsTable (signature : List UInt8) (addr : ℕ) : Prop :=
  addr ≠ 0 ∧ signatureAt mem addr = signature ∧
    256 ∣ ((List.range (lengthAt mem addr)).map fun i => (mem (addr + i)).toNat).sum

instance (signature : List UInt8) (addr : ℕ) : Decidable (IsTable mem signature addr) := inferInstanceAs (Decidable (_ ∧ _))

/-- The search ends without a panic, reads entries inside of the root table
only, and gives the first of the tables that are listed. -/
def Exact (addr : ℕ) (signature : List UInt8) : Prop :=
  ∃ result reads, findSdt mem addr signature = some (result, reads) ∧
    (∀ x ∈ reads, addr ≤ x.1 ∧ x.1 + x.2 ≤ addr + lengthAt mem addr) ∧
    result = (listed mem addr).find? fun a => IsTable mem signature a

/-- The entries that are looked at, up to the first that leads to a table, have
addresses of 64 bits. -/
def Addressed (signature : List UInt8) (xsdt : Bool) (base k n : ℕ) : Prop :=
  ∀ i, k ≤ i → i < k + n → (∀ j, k ≤ j → j < i → ¬ IsTable mem signature (entryAt mem xsdt base j)) →
    base + i * entrySize xsdt < 2 ^ 64

/-! ### The search -/

variable {mem}

lemma toNat_foldl (f : ℕ → UInt8) (l : List ℕ) (a : UInt8) :
    (l.foldl (fun a i => a + f i) a).toNat = (a.toNat + (l.map fun i => (f i).toNat).sum) % 256 := by
  induction l generalizing a with
  | nil => simp
  | cons i l ih =>
    rw [List.foldl_cons, ih, UInt8.toNat_add, List.map_cons, List.sum_cons, Nat.mod_add_mod, Nat.add_assoc]

variable {signature : List UInt8} {xsdt : Bool} {base : ℕ}

lemma isTable_iff {addr : ℕ} : IsTable mem signature addr ↔
    addr ≠ 0 ∧ signatureAt mem addr = signature ∧ sdtChecksumValid mem addr = true := by
  rw [IsTable, sdtChecksumValid, decide_eq_true_eq, ← UInt8.toNat_inj, toNat_foldl, UInt8.toNat_zero, Nat.zero_add,
    Nat.dvd_iff_mod_eq_zero]

/-- What the loop finds and what it reads, if it does not panic. -/
lemma findLoop_eq_some : ∀ {l : List ℕ} {r : Option ℕ × List (ℕ × ℕ)}, findLoop mem signature xsdt base l = some r →
    r.1 = (l.map (entryAt mem xsdt base)).find? (fun a => IsTable mem signature a) ∧
      ∀ x ∈ r.2, ∃ i ∈ l, x = (base + i * entrySize xsdt, entrySize xsdt)
  | [], r, h => by
    obtain rfl := Option.some.inj h
    exact ⟨rfl, nofun⟩
  | i :: l, r, h => by
    rw [findLoop] at h
    obtain ⟨-, h⟩ := Option.ite_none_left_eq_some.mp h
    rw [List.map_cons, List.find?_cons]
    by_cases ht : IsTable mem signature (entryAt mem xsdt base i)
    · obtain rfl := Option.some.inj ((if_pos (isTable_iff.mp ht)).symm.trans h)
      rw [decide_eq_true ht]
      exact ⟨rfl, fun x hx => ⟨i, List.mem_cons_self, List.mem_singleton.mp hx⟩⟩
    · obtain ⟨r', hr', rfl⟩ := Option.map_eq_some_iff.mp ((if_neg (mt isTable_iff.mpr ht)).symm.trans h)
      obtain ⟨hfst, hreads⟩ := findLoop_eq_some hr'
      rw [decide_eq_false ht]
      refine ⟨hfst, fun x hx => ?_⟩
      rcases List.mem_cons.mp hx with rfl | hx
      · exact ⟨i, List.mem_cons_self, rfl⟩
      · obtain ⟨j, hj, hx⟩ := hreads x hx
        exact ⟨j, List.mem_cons_of_mem _ hj, hx⟩

/-- The first entry, and the rest unless it leads to a table. -/
lemma addressed_succ {k n : ℕ} : Addressed mem signature xsdt base k (n + 1) ↔ base + k * entrySize xsdt < 2 ^ 64 ∧
    (¬ IsTable mem signature (entryAt mem xsdt base k) → Addressed mem signature xsdt base (k + 1) n) := by
  constructor
  · intro h
    refine ⟨h k le_rfl (by omega) fun j hl hr => by omega, fun hk i hl hr hbefore => h i (by omega) (by omega) fun j hj hji => ?_⟩
    rcases Nat.eq_or_lt_of_le hj with rfl | hlt
    · exact hk
    · exact hbefore j hlt hji
  · rintro ⟨hk, hrest⟩ i hl hr hbefore
    rcases Nat.eq_or_lt_of_le hl with rfl | hlt
    · exact hk
    · exact hrest (hbefore k le_rfl hlt) i hlt (by omega) fun j hj hji => hbefore j (by omega) hji

lemma isSome_findLoop : ∀ {n k : ℕ},
    (findLoop mem signature xsdt base (List.range' k n)).isSome ↔ Addressed mem signature xsdt base k n
  | 0, k => iff_of_true rfl fun i hl hr => by omega
  | n + 1, k => by
    rw [List.range'_succ, findLoop, addressed_succ, ← isSome_findLoop]
    by_cases hk : 2 ^ 64 ≤ base + k * entrySize xsdt
    · rw [if_pos hk]
      exact iff_of_false Bool.false_ne_true fun h => absurd h.1 (not_lt.mpr hk)
    · rw [if_neg hk, and_iff_right (not_le.mp hk)]
      by_cases ht : IsTable mem signature (entryAt mem xsdt base k)
      · rw [if_pos (isTable_iff.mp ht)]
        exact iff_of_true rfl fun h => absurd ht h
      · rw [if_neg (mt isTable_iff.mpr ht), imp_iff_right ht, Option.isSome_map]

/-- What can go wrong is a panic: for a null pointer, a length below that of
the header, or an address that overflows. -/
theorem findSdt_exact_iff (mem : ℕ → UInt8) (addr : ℕ) (signature : List UInt8) :
    Exact mem addr signature ↔ addr ≠ 0 ∧ headerSize ≤ lengthAt mem addr ∧ addr + headerSize < 2 ^ 64 ∧
      Addressed mem signature (isXsdt mem addr) (addr + headerSize) 0 (entryCount mem addr) := by
  rw [← isSome_findLoop, ← List.range_eq_range']
  constructor
  · rintro ⟨result, reads, h, -⟩
    obtain ⟨hok, h⟩ := Option.ite_none_left_eq_some.mp h
    exact ⟨by omega, by omega, by omega, by rw [h]; rfl⟩
  · rintro ⟨h0, hlen, haddr, hsome⟩
    obtain ⟨⟨result, reads⟩, h⟩ := Option.isSome_iff_exists.mp hsome
    obtain ⟨hresult, hreads⟩ := findLoop_eq_some h
    refine ⟨result, reads, (if_neg (by omega)).trans h, fun x hx => ?_, hresult⟩
    obtain ⟨i, hi, rfl⟩ := hreads x hx
    -- entry `i` is one of those that fit
    have hfit := Nat.mul_le_of_le_div _ _ _ (List.mem_range.mp hi)
    rw [Nat.succ_mul] at hfit
    simp only
    omega

/-- A header that gives the length zero. -/
theorem findSdt_short : findSdt (fun _ => 0) 0x1000 [0x41, 0x50, 0x49, 0x43] = none := by decide

end LodaxOS.Acpi
