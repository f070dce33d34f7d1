/-
# Little-endian fields of a store of bytes

A disk, or a buffer read from it, is a function from offsets to bytes. A
field is read from the two, four or eight bytes at its offset; it depends on these
bytes only (`le16_congr`, `le32_congr`), so a field of a buffer that holds a
window of a disk is the field of the disk at the shifted offset. `blit` is
the copy of a run of bytes into a store.
-/
import Mathlib.Tactic.Ring

namespace LodaxOS.Bytes

/-- The 16-bit field at `o`, lowest byte first. -/
def le16 (b : ℕ → UInt8) (o : ℕ) : ℕ := (b o).toNat + 256 * (b (o + 1)).toNat

/-- The 32-bit field at `o`, lowest byte first. -/
def le32 (b : ℕ → UInt8) (o : ℕ) : ℕ := le16 b o + 65536 * le16 b (o + 2)

/-- The 64-bit field at `o`, lowest byte first. -/
def le64 (b : ℕ → UInt8) (o : ℕ) : ℕ := le32 b o + 2 ^ 32 * le32 b (o + 4)

/-- `dst` with the `len` bytes from `off` on replaced by those of `src`. -/
def blit (dst : ℕ → UInt8) (off len : ℕ) (src : ℕ → UInt8) : ℕ → UInt8 := fun i =>
  if off ≤ i ∧ i < off + len then src (i - off) else dst i

/-- The four bytes of a 32-bit field. -/
def bytes32 (n : ℕ) : List UInt8 := [.ofNat n, .ofNat (n / 256), .ofNat (n / 256 / 256), .ofNat (n / 256 / 256 / 256)]

/-- The bytes of a list, as a store. -/
def ofList (l : List UInt8) : ℕ → UInt8 := fun i => l.getD i 0

lemma le16_lt (b : ℕ → UInt8) (o : ℕ) : le16 b o < 2 ^ 16 := by
  have h0 := (b o).toNat_lt
  have h1 := (b (o + 1)).toNat_lt
  simp only [le16]
  omega

lemma le32_lt (b : ℕ → UInt8) (o : ℕ) : le32 b o < 2 ^ 32 := by
  have h0 := le16_lt b o
  have h1 := le16_lt b (o + 2)
  simp only [le32]
  omega

lemma le16_congr {b c : ℕ → UInt8} {o p : ℕ} (h : ∀ i < 2, b (o + i) = c (p + i)) : le16 b o = le16 c p := by
  have h0 := h 0 (by omega)
  have h1 := h 1 (by omega)
  simp only [Nat.add_zero] at h0
  rw [le16, le16, h0, h1]

lemma le32_congr {b c : ℕ → UInt8} {o p : ℕ} (h : ∀ i < 4, b (o + i) = c (p + i)) : le32 b o = le32 c p := by
  have hlo : le16 b o = le16 c p := le16_congr fun i hi => h i (by omega)
  have hhi : le16 b (o + 2) = le16 c (p + 2) := by
    apply le16_congr
    intro i hi
    rw [Nat.add_assoc, Nat.add_assoc]
    exact h (2 + i) (by omega)
  rw [le32, le32, hlo, hhi]

lemma length_bytes32 (n : ℕ) : (bytes32 n).length = 4 := rfl

lemma le32_bytes32 {n : ℕ} (h : n < 2 ^ 32) (rest : List UInt8) : le32 (ofList (bytes32 n ++ rest)) 0 = n := by
  simp only [le32, le16, ofList, bytes32, List.cons_append, List.getD_cons_zero, List.getD_cons_succ, UInt8.toNat_ofNat']
  omega

variable {dst src : ℕ → UInt8}

lemma blit_of_mem {off len i : ℕ} (hl : off ≤ i) (hr : i < off + len) : blit dst off len src i = src (i - off) :=
  if_pos ⟨hl, hr⟩

lemma blit_of_not_mem {off len i : ℕ} (h : ¬(off ≤ i ∧ i < off + len)) : blit dst off len src i = dst i :=
  if_neg h

end LodaxOS.Bytes
