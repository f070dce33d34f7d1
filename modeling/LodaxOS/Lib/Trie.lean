/-
# Tries in memory

A node is an address with `n` words (`word f i`); 0 is null. The words of a
node of level 0 are values, those of a node above are the addresses of nodes
of the level below. `Holds` says that the node `f` of level `l`, whose keys
are those with the digits `q` above, stores the map `m` in the nodes `N`, and
that no node below it stores nothing. `Below` is the same for a pointer that
may be null.

A change of one child is a change of the node that has it (`Holds.split`), so
the operations are proved along the way of a key.
-/
import LodaxOS.Lib.Radix
import Mathlib.Algebra.BigOperators.Group.Finset.Basic

namespace Trie

open Finset

open Radix (div_pow_eq digit_lt)

variable (n : ℕ)

/-- The value of the key `v`. -/
def find (word : ℕ → ℕ → ℕ) : ℕ → ℕ → ℕ → ℕ
  | 0, f, v => word f (v % n)
  | l + 1, f, v =>
    if word f (v / n ^ (l + 1) % n) = 0 then 0 else find word l (word f (v / n ^ (l + 1) % n)) v

/-- The nodes that are read for it. -/
def way (word : ℕ → ℕ → ℕ) : ℕ → ℕ → ℕ → List ℕ
  | 0, f, _ => [f]
  | l + 1, f, v =>
    f :: if word f (v / n ^ (l + 1) % n) = 0 then [] else way word l (word f (v / n ^ (l + 1) % n)) v

def Holds (word : ℕ → ℕ → ℕ) (m : ℕ → ℕ) : ℕ → ℕ → ℕ → Multiset ℕ → Prop
  | 0, f, q, N => N = {f} ∧ ∀ i < n, word f i = m (q * n + i)
  | l + 1, f, q, N => ∃ Ns : ℕ → Multiset ℕ, N = f ::ₘ ∑ i ∈ Finset.range n, Ns i ∧ ∀ i < n,
      (word f i = 0 ∧ Ns i = 0 ∧ ∀ v, v / n ^ (l + 1) = q * n + i → m v = 0) ∨
      (word f i ≠ 0 ∧ Holds word m l (word f i) (q * n + i) (Ns i) ∧ ∃ v, v / n ^ (l + 1) = q * n + i ∧ m v ≠ 0)

/-- What a pointer to a node of level `l` stores. -/
def Below (word : ℕ → ℕ → ℕ) (m : ℕ → ℕ) (l c q : ℕ) (N : Multiset ℕ) : Prop :=
  (c = 0 ∧ N = 0 ∧ ∀ v, v / n ^ (l + 1) = q → m v = 0) ∨
  (c ≠ 0 ∧ Holds n word m l c q N ∧ ∃ v, v / n ^ (l + 1) = q ∧ m v ≠ 0)

variable {n} {word word' : ℕ → ℕ → ℕ} {m m' : ℕ → ℕ} {v l q i f : ℕ} {N : Multiset ℕ}

/-- The digit of a key that is below a node. -/
lemma div_eq_digit (hv : v / n ^ (l + 1) = q) : v / n ^ l = q * n + v / n ^ l % n := by
  rw [← hv]
  exact div_pow_eq v l

lemma div_eq_of_digit (hi : i < n) (hv : v / n ^ l = q * n + i) : v / n ^ (l + 1) = q := by
  rw [pow_succ, ← Nat.div_div_eq_div_mul, hv, mul_comm, Nat.mul_add_div (Nat.zero_lt_of_lt hi), Nat.div_eq_of_lt hi,
    add_zero]

/-- Different digits lead to different keys. -/
lemma digit_inj {j : ℕ} (hij : q * n + i = q * n + j) : i = j := add_left_cancel hij

namespace Holds

/-- Only the words of the nodes and the keys below matter. -/
lemma congr : ∀ {l f q : ℕ} {N : Multiset ℕ}, Holds n word m l f q N →
    (∀ g ∈ N, ∀ i < n, word' g i = word g i) → (∀ v, v / n ^ (l + 1) = q → m' v = m v) → Holds n word' m' l f q N
  | 0, f, q, N, ⟨hN, h⟩, hw, hm => by
    refine ⟨hN, fun i hi => ?_⟩
    rw [hw f (hN ▸ Multiset.mem_singleton_self f) i hi, h i hi, hm]
    exact div_eq_of_digit hi (by rw [pow_zero, Nat.div_one])
  | l + 1, f, q, N, ⟨Ns, hN, h⟩, hw, hm => by
    refine ⟨Ns, hN, fun i hi => ?_⟩
    rw [hw f (hN ▸ Multiset.mem_cons_self f _) i hi]
    have hkeys : ∀ v, v / n ^ (l + 1) = q * n + i → m' v = m v := fun v hv => hm v (div_eq_of_digit hi hv)
    rcases h i hi with ⟨h1, h2, h3⟩ | ⟨h1, h2, v, h3, h4⟩
    · exact .inl ⟨h1, h2, fun v hv => (hkeys v hv).trans (h3 v hv)⟩
    · refine .inr ⟨h1, congr h2 (fun g hg => hw g ?_) hkeys, v, h3, (hkeys v h3).symm ▸ h4⟩
      rw [hN]
      refine Multiset.mem_cons_of_mem (Multiset.mem_sum.mpr ⟨i, mem_range.mpr hi, hg⟩)

/-- A node of null words. -/
lemma zero (l : ℕ) (hw : ∀ i < n, word f i = 0) (hm : ∀ v, v / n ^ (l + 1) = q → m v = 0) :
    Holds n word m l f q {f} := by
  cases l with
  | zero =>
    refine ⟨rfl, fun i hi => ?_⟩
    rw [hw i hi, hm]
    exact div_eq_of_digit hi (by rw [pow_zero, Nat.div_one])
  | succ =>
    refine ⟨fun _ => 0, by simp, fun i hi => .inl ⟨hw i hi, rfl, fun v hv => hm v (div_eq_of_digit hi hv)⟩⟩

lemma self_mem : ∀ {l f q : ℕ} {N : Multiset ℕ}, Holds n word m l f q N → f ∈ N
  | 0, _, _, _, ⟨hN, _⟩ => hN ▸ Multiset.mem_singleton_self _
  | _ + 1, _, _, _, ⟨_, hN, _⟩ => hN ▸ Multiset.mem_cons_self _ _

lemma find_eq (hn : 0 < n) : ∀ {l f q : ℕ} {N : Multiset ℕ}, Holds n word m l f q N → v / n ^ (l + 1) = q →
    find n word l f v = m v
  | 0, f, q, N, ⟨_, h⟩, hv => by
    have hd := div_eq_digit hv
    rw [pow_zero, Nat.div_one] at hd
    rw [find, h _ (Nat.mod_lt _ hn), ← hd]
  | l + 1, f, q, N, ⟨Ns, _, h⟩, hv => by
    have hd := div_eq_digit hv
    rw [find]
    rcases h _ (digit_lt hn v (l + 1)) with ⟨h1, -, h3⟩ | ⟨h1, h2, -⟩
    · rw [if_pos h1, h3 v hd]
    · rw [if_neg h1, find_eq hn h2 hd]

/-- The child at the digit `i`, and the node with another child there. -/
lemma split (h : Holds n word m (l + 1) f q N) (hi : i < n) :
    ∃ Ni R : Multiset ℕ, N = f ::ₘ (Ni + R) ∧ Below n word m l (word f i) (q * n + i) Ni ∧
      ∀ {word' : ℕ → ℕ → ℕ} {m' : ℕ → ℕ} {Ni' : Multiset ℕ}, (∀ j < n, j ≠ i → word' f j = word f j) →
        (∀ g ∈ R, ∀ j < n, word' g j = word g j) → (∀ v, v / n ^ (l + 1) ≠ q * n + i → m' v = m v) →
        Below n word' m' l (word' f i) (q * n + i) Ni' → Holds n word' m' (l + 1) f q (f ::ₘ (Ni' + R)) := by
  obtain ⟨Ns, hN, h⟩ := h
  have hmem : i ∈ Finset.range n := mem_range.mpr hi
  refine ⟨Ns i, ∑ j ∈ (Finset.range n).erase i, Ns j, ?_, h i hi, fun {word' m' Ni'} hwf hwR hm hB => ?_⟩
  · rw [hN, add_sum_erase _ _ hmem]
  · refine ⟨Function.update Ns i Ni', ?_, fun j hj => ?_⟩
    · rw [← add_sum_erase _ _ hmem, Function.update_self]
      congr 2
      exact sum_congr rfl fun j hj => (Function.update_of_ne (ne_of_mem_erase hj) _ _).symm
    · by_cases hji : j = i
      · subst hji
        rw [Function.update_self]
        exact hB
      · rw [Function.update_of_ne hji, hwf j hj hji]
        have hkeys : ∀ v, v / n ^ (l + 1) = q * n + j → m' v = m v := fun v hv =>
          hm v fun hc => hji (digit_inj (hv.symm.trans hc))
        have hmemR : ∀ g ∈ Ns j, g ∈ ∑ j ∈ (Finset.range n).erase i, Ns j := fun g hg =>
          Multiset.mem_sum.mpr ⟨j, mem_erase.mpr ⟨hji, mem_range.mpr hj⟩, hg⟩
        rcases h j hj with ⟨h1, h2, h3⟩ | ⟨h1, h2, v, h3, h4⟩
        · exact .inl ⟨h1, h2, fun v hv => (hkeys v hv).trans (h3 v hv)⟩
        · exact .inr ⟨h1, h2.congr (fun g hg => hwR g (hmemR g hg)) hkeys, v, h3, (hkeys v h3).symm ▸ h4⟩

/-- Where something is stored, the nodes are those on the ways of its keys. -/
lemma mem_iff (hn : 0 < n) {g : ℕ} : ∀ {l f q : ℕ} {N : Multiset ℕ}, Holds n word m l f q N →
    (∃ v, v / n ^ (l + 1) = q ∧ m v ≠ 0) → (g ∈ N ↔ ∃ v, v / n ^ (l + 1) = q ∧ m v ≠ 0 ∧ g ∈ way n word l f v)
  | 0, f, q, N, ⟨hN, _⟩, ⟨v, hv, hmv⟩ => by
    rw [hN, Multiset.mem_singleton]
    constructor
    · rintro rfl
      exact ⟨v, hv, hmv, List.mem_singleton_self _⟩
    · rintro ⟨_, -, -, hg⟩
      exact List.mem_singleton.mp hg
  | l + 1, f, q, N, ⟨Ns, hN, h⟩, ⟨v, hv, hmv⟩ => by
    rw [hN, Multiset.mem_cons, Multiset.mem_sum]
    constructor
    · rintro (rfl | ⟨i, hi, hg⟩)
      · exact ⟨v, hv, hmv, List.mem_cons_self⟩
      · have hi' := mem_range.mp hi
        rcases h i hi' with ⟨-, h2, -⟩ | ⟨h1, h2, h3⟩
        · rw [h2] at hg
          simp at hg
        · obtain ⟨u, hu, hmu, hgu⟩ := (mem_iff hn h2 h3).mp hg
          have hdig : u / n ^ (l + 1) % n = i := by
            rw [hu, mul_comm, Nat.mul_add_mod, Nat.mod_eq_of_lt hi']
          refine ⟨u, div_eq_of_digit hi' hu, hmu, List.mem_cons_of_mem _ ?_⟩
          rw [hdig, if_neg h1]
          exact hgu
    · rintro ⟨u, hu, hmu, hg⟩
      rw [way] at hg
      rcases List.mem_cons.mp hg with rfl | hg
      · exact .inl rfl
      · have hd := div_eq_digit hu
        have hi := digit_lt hn u (l + 1)
        right
        rcases h _ hi with ⟨h1, -, -⟩ | ⟨h1, h2, h3⟩
        · rw [if_pos h1] at hg
          simp at hg
        · rw [if_neg h1] at hg
          exact ⟨_, mem_range.mpr hi, (mem_iff hn h2 h3).mpr ⟨u, hd, hmu, hg⟩⟩

/-- A node stores something when one of its words is not null. -/
lemma exists_word_iff (hn : 0 < n) (h : Holds n word m l f q N) :
    (∃ i < n, word f i ≠ 0) ↔ ∃ v, v / n ^ (l + 1) = q ∧ m v ≠ 0 := by
  cases l with
  | zero =>
    obtain ⟨-, h⟩ := h
    constructor
    · rintro ⟨i, hi, hw⟩
      exact ⟨q * n + i, div_eq_of_digit hi (by rw [pow_zero, Nat.div_one]), h i hi ▸ hw⟩
    · rintro ⟨v, hv, hm⟩
      have hd := div_eq_digit hv
      rw [pow_zero, Nat.div_one] at hd
      refine ⟨v % n, Nat.mod_lt _ hn, ?_⟩
      rwa [h _ (Nat.mod_lt _ hn), ← hd]
  | succ l =>
    obtain ⟨Ns, -, h⟩ := h
    constructor
    · rintro ⟨i, hi, hw⟩
      obtain ⟨-, -, v, hv, hm⟩ := (h i hi).resolve_left fun hc => hw hc.1
      exact ⟨v, div_eq_of_digit hi hv, hm⟩
    · rintro ⟨v, hv, hm⟩
      have hi := digit_lt hn v (l + 1)
      obtain ⟨hw, -⟩ := (h _ hi).resolve_left fun hc => hm (hc.2.2 v (div_eq_digit hv))
      exact ⟨_, hi, hw⟩

/-- A node of null words has no node below it. -/
lemma eq_singleton (h : Holds n word m l f q N) (hw : ∀ i < n, word f i = 0) : N = {f} := by
  cases l with
  | zero => exact h.1
  | succ =>
    obtain ⟨Ns, hN, h⟩ := h
    rw [hN, sum_eq_zero fun i hi => ?_]
    · rfl
    · have hi' := mem_range.mp hi
      exact ((h i hi').resolve_right fun hc => hc.1 (hw i hi')).2.1

end Holds

end Trie
