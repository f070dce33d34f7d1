/-
# The tables below a table

The tables that a table of a radix tree leads to, itself among them
(`tables`), and those that its first `k` words lead to (`tablesUpTo`), in the
order of a walk through them (`postorder`). In a tree whose tables have places
no table is listed twice, a table is listed exactly if the walk of a key gets
to it, and a new table hung into a word that named none adds itself and
nothing else.
-/
import LodaxOS.Lib.Radix
import Mathlib.Algebra.BigOperators.Group.Finset.Basic

namespace Radix

open Multiset

variable {F W : Type} (n : ℕ) (D : ℕ → W → Node F)

/-- The table `f` of level `l` and all below it. -/
def tables (mem : Mem F W) : ℕ → F → Multiset F
  | 0, f => {f}
  | l + 1, f => f ::ₘ ∑ i ∈ Finset.range n,
    match D (l + 1) (mem f i) with
    | .table g => tables mem l g
    | _ => 0

/-- Those that a word of level `l + 1` leads to. -/
def subtables (mem : Mem F W) (l : ℕ) (w : W) : Multiset F :=
  match D (l + 1) w with
  | .table g => tables n D mem l g
  | _ => 0

/-- The table `f` of level `l + 1` and all below its first `k` words. -/
def tablesUpTo (k : ℕ) (mem : Mem F W) (l : ℕ) (f : F) : Multiset F :=
  f ::ₘ ∑ i ∈ Finset.range k, subtables n D mem l (mem f i)

/-- They in the order of a walk that visits a table after the ones below it. -/
def postorder (mem : Mem F W) : ℕ → F → List F
  | 0, f => [f]
  | l + 1, f => ((List.range n).flatMap fun i =>
    match D (l + 1) (mem f i) with
    | .table g => postorder mem l g
    | _ => []) ++ [f]

/-- Those that a word of level `l + 1` leads to. -/
def subpostorder (mem : Mem F W) (l : ℕ) (w : W) : List F :=
  match D (l + 1) w with
  | .table g => postorder n D mem l g
  | _ => []

def postorderUpTo (k : ℕ) (mem : Mem F W) (l : ℕ) (f : F) : List F :=
  ((List.range k).flatMap fun i => subpostorder n D mem l (mem f i)) ++ [f]

variable {n D} {own : F → Option (ℕ × ℕ)} {mem mem' : Mem F W}

lemma postorder_zero (mem : Mem F W) (f : F) : postorder n D mem 0 f = [f] := rfl

lemma postorder_succ (mem : Mem F W) (l : ℕ) (f : F) : postorder n D mem (l + 1) f = postorderUpTo n D n mem l f := rfl

variable {l v q p b : ℕ} {w : W}

lemma subpostorder_table {g : F} (h : D (l + 1) w = .table g) : subpostorder n D mem l w = postorder n D mem l g := by
  rw [subpostorder, h]

lemma subpostorder_eq_nil (h : ∀ g, D (l + 1) w ≠ .table g) : subpostorder n D mem l w = [] := by
  unfold subpostorder
  split
  · rename_i g hg
    exact absurd hg (h g)
  · rfl

lemma tables_zero (mem : Mem F W) (f : F) : tables n D mem 0 f = {f} := rfl

lemma tables_succ (mem : Mem F W) (l : ℕ) (f : F) : tables n D mem (l + 1) f = tablesUpTo n D n mem l f := rfl

-- levels are numerals, and no proof should unfold the tables of all of them
attribute [irreducible] tables postorder

lemma subtables_table {g : F} (h : D (l + 1) w = .table g) : subtables n D mem l w = tables n D mem l g := by
  rw [subtables, h]

lemma subtables_eq_zero (h : ∀ g, D (l + 1) w ≠ .table g) : subtables n D mem l w = 0 := by
  unfold subtables
  split
  · rename_i g hg
    exact absurd hg (h g)
  · rfl

lemma mem_subtables {t : F} : t ∈ subtables n D mem l w ↔ ∃ g, D (l + 1) w = .table g ∧ t ∈ tables n D mem l g := by
  constructor
  · intro h
    by_cases hg : ∃ g, D (l + 1) w = .table g
    · obtain ⟨g, hg⟩ := hg
      exact ⟨g, hg, subtables_table hg ▸ h⟩
    · rw [subtables_eq_zero (not_exists.mp hg)] at h
      exact absurd h (notMem_zero t)
  · rintro ⟨g, hg, h⟩
    rwa [subtables_table hg]

variable {k : ℕ}

lemma mem_tablesUpTo {f t : F} : t ∈ tablesUpTo n D k mem l f ↔
    t = f ∨ ∃ i < k, ∃ g, D (l + 1) (mem f i) = .table g ∧ t ∈ tables n D mem l g := by
  rw [tablesUpTo, mem_cons, mem_sum]
  simp only [Finset.mem_range, mem_subtables]

lemma self_mem_tables (mem : Mem F W) (f : F) : ∀ l, f ∈ tables n D mem l f
  | 0 => by
    rw [tables_zero]
    exact mem_singleton_self f
  | _ + 1 => by
    rw [tables_succ]
    exact mem_cons_self f _

/-- The walk visits each of the tables. -/
lemma coe_flatMap_range (k : ℕ) (f : ℕ → List F) :
    (((List.range k).flatMap f : List F) : Multiset F) = ∑ i ∈ Finset.range k, (f i : Multiset F) := by
  induction k with
  | zero => rfl
  | succ k ih =>
    rw [List.range_succ, List.flatMap_append, List.flatMap_singleton, ← coe_add, ih, Finset.sum_range_succ]

lemma coe_postorderUpTo_of {f : F} (h : ∀ g, (postorder n D mem l g : Multiset F) = tables n D mem l g) :
    (postorderUpTo n D k mem l f : Multiset F) = tablesUpTo n D k mem l f := by
  rw [postorderUpTo, tablesUpTo, ← coe_add, coe_flatMap_range, coe_singleton, add_comm, singleton_add]
  congr 1
  refine Finset.sum_congr rfl fun i _ => ?_
  by_cases hg : ∃ g, D (l + 1) (mem f i) = .table g
  · obtain ⟨g, hg⟩ := hg
    rw [subpostorder_table hg, subtables_table hg, h]
  · rw [subpostorder_eq_nil (not_exists.mp hg), subtables_eq_zero (not_exists.mp hg)]
    rfl

lemma coe_postorder (mem : Mem F W) : ∀ (l : ℕ) (f : F), (postorder n D mem l f : Multiset F) = tables n D mem l f
  | 0, f => by rw [postorder_zero, tables_zero, coe_singleton]
  | l + 1, f => by
    rw [postorder_succ, tables_succ]
    exact coe_postorderUpTo_of (coe_postorder mem l)

lemma coe_postorderUpTo (k : ℕ) (mem : Mem F W) (l : ℕ) (f : F) :
    (postorderUpTo n D k mem l f : Multiset F) = tablesUpTo n D k mem l f :=
  coe_postorderUpTo_of (coe_postorder mem l)

/-- A table whose words name no table stands alone. -/
lemma tables_eq_singleton {f : F} (h : ∀ i < n, ∀ g, D l (mem f i) ≠ .table g) : tables n D mem l f = {f} := by
  cases l with
  | zero => exact tables_zero mem f
  | succ =>
    rw [tables_succ, tablesUpTo, Finset.sum_eq_zero fun i hi => subtables_eq_zero (h i (Finset.mem_range.mp hi))]
    rfl

/-- The tables that the walk of a key comes to are among them. -/
lemma Down.mem_tables {f t : F} (hn : 0 < n) (h : Down n D mem v l f k t) : t ∈ tables n D mem l f := by
  induction h with
  | here l f => exact self_mem_tables mem f l
  | @step l k f g t hD _ ih =>
    rw [tables_succ, mem_tablesUpTo]
    exact .inr ⟨_, digit_lt hn v (l + 1), g, hD, ih⟩

lemma Down.mem_tablesUpTo {j k : ℕ} {f t : F} (hn : 0 < n) (h : Down n D mem v (l + 1) f j t)
    (hk : v / n ^ (l + 1) % n < k) : t ∈ tablesUpTo n D k mem l f := by
  rw [Radix.mem_tablesUpTo]
  cases h with
  | here => exact .inl rfl
  | step hD hd => exact .inr ⟨_, hk, _, hD, hd.mem_tables hn⟩

namespace Tree

/-! ### Places -/

/-- A table below `f` has a place below that of `f`. -/
lemma placed (ht : Tree n D own mem) {t : F} : ∀ {l q : ℕ} {f : F}, own f = some (l, q) → t ∈ tables n D mem l f →
    ∃ k p, own t = some (k, p) ∧ k ≤ l ∧ p / n ^ (l - k) = q
  | 0, q, f, hf, h => by
    rw [tables_zero] at h
    obtain rfl := mem_singleton.mp h
    exact ⟨0, q, hf, le_rfl, by simp⟩
  | l + 1, q, f, hf, h => by
    rw [tables_succ, mem_tablesUpTo] at h
    rcases h with rfl | ⟨i, hi, g, hD, h⟩
    · exact ⟨l + 1, q, hf, le_rfl, by simp⟩
    · obtain ⟨l', hl, hg⟩ := ht f (l + 1) q i g hf hi hD
      obtain rfl : l = l' := by omega
      obtain ⟨k, p, hown, hk, hp⟩ := ht.placed hg h
      refine ⟨k, p, hown, by omega, ?_⟩
      rw [Nat.succ_sub hk, pow_succ, ← Nat.div_div_eq_div_mul, hp, mul_comm, Nat.mul_add_div (Nat.zero_lt_of_lt hi),
        Nat.div_eq_of_lt hi, add_zero]

/-- A table below a word of `f` has the word's digit in its place. -/
lemma placed_below (ht : Tree n D own mem) {i : ℕ} {f g t : F} (hf : own f = some (l + 1, q)) (hi : i < n)
    (hD : D (l + 1) (mem f i) = .table g) (h : t ∈ tables n D mem l g) :
    ∃ k p, own t = some (k, p) ∧ k ≤ l ∧ p / n ^ (l - k) = q * n + i := by
  obtain ⟨l', hl, hg⟩ := ht f (l + 1) q i g hf hi hD
  obtain rfl : l = l' := by omega
  exact ht.placed hg h

/-- So it is not `f`, -/
lemma ne_of_below (ht : Tree n D own mem) {i : ℕ} {f g t : F} (hf : own f = some (l + 1, q)) (hi : i < n)
    (hD : D (l + 1) (mem f i) = .table g) (h : t ∈ tables n D mem l g) : t ≠ f := by
  rintro rfl
  obtain ⟨k, p, hown, hk, -⟩ := ht.placed_below hf hi hD h
  rw [hf, Option.some.injEq, Prod.mk.injEq] at hown
  omega

/-- and it is below no other word of it. -/
lemma index_unique (ht : Tree n D own mem) {i j : ℕ} {f g g' t : F} (hf : own f = some (l + 1, q)) (hi : i < n)
    (hj : j < n) (hD : D (l + 1) (mem f i) = .table g) (h : t ∈ tables n D mem l g)
    (hD' : D (l + 1) (mem f j) = .table g') (h' : t ∈ tables n D mem l g') : i = j := by
  obtain ⟨k, p, hown, -, hp⟩ := ht.placed_below hf hi hD h
  obtain ⟨k', p', hown', -, hp'⟩ := ht.placed_below hf hj hD' h'
  obtain ⟨rfl, rfl⟩ : k = k' ∧ p = p' := by
    rw [hown] at hown'
    simpa using hown'
  exact add_left_cancel (hp.symm.trans hp')

/-- No table is listed twice, if none below one of the words is. -/
lemma nodup_of_subtables (ht : Tree n D own mem) {k : ℕ} {f : F} (hk : k ≤ n) (hf : own f = some (l + 1, q))
    (h : ∀ i < n, (subtables n D mem l (mem f i)).Nodup) : (tablesUpTo n D k mem l f).Nodup := by
  classical
  rw [tablesUpTo, nodup_cons, mem_sum]
  constructor
  · rintro ⟨i, hi, hmem⟩
    obtain ⟨g, hD, hg⟩ := mem_subtables.mp hmem
    exact ht.ne_of_below hf ((Finset.mem_range.mp hi).trans_le hk) hD hg rfl
  · rw [nodup_iff_count_le_one]
    intro t
    rw [count_sum']
    by_cases hex : ∃ i < k, t ∈ subtables n D mem l (mem f i)
    · obtain ⟨i, hi, hmem⟩ := hex
      obtain ⟨g, hD, hg⟩ := mem_subtables.mp hmem
      rw [Finset.sum_eq_single i]
      · exact nodup_iff_count_le_one.mp (h i (hi.trans_le hk)) t
      · intro j hj hji
        rw [count_eq_zero]
        intro hc
        obtain ⟨g', hD', hg'⟩ := mem_subtables.mp hc
        exact hji (ht.index_unique hf ((Finset.mem_range.mp hj).trans_le hk) (hi.trans_le hk) hD' hg' hD hg)
      · intro hni
        exact absurd (Finset.mem_range.mpr hi) hni
    · rw [Finset.sum_eq_zero]
      · exact Nat.zero_le 1
      · intro i hi
        exact count_eq_zero.mpr fun hc => hex ⟨i, Finset.mem_range.mp hi, hc⟩

lemma nodup_subtables (ht : Tree n D own mem) {i : ℕ} {f : F} (hf : own f = some (l + 1, q)) (hi : i < n)
    (h : ∀ g p, own g = some (l, p) → (tables n D mem l g).Nodup) : (subtables n D mem l (mem f i)).Nodup := by
  by_cases hg : ∃ g, D (l + 1) (mem f i) = .table g
  · obtain ⟨g, hg⟩ := hg
    obtain ⟨l', hl, hown⟩ := ht f (l + 1) q i g hf hi hg
    obtain rfl : l = l' := by omega
    rw [subtables_table hg]
    exact h g _ hown
  · rw [subtables_eq_zero (not_exists.mp hg)]
    exact nodup_zero

lemma nodup_tables (ht : Tree n D own mem) : ∀ {l q : ℕ} {f : F}, own f = some (l, q) → (tables n D mem l f).Nodup
  | 0, _, f, _ => by
    rw [tables_zero]
    exact nodup_singleton f
  | _ + 1, _, _, hf => by
    rw [tables_succ]
    exact ht.nodup_of_subtables le_rfl hf fun _ hi => ht.nodup_subtables hf hi fun _ _ hg => ht.nodup_tables hg

lemma nodup_tablesUpTo (ht : Tree n D own mem) {k : ℕ} {f : F} (hk : k ≤ n) (hf : own f = some (l + 1, q)) :
    (tablesUpTo n D k mem l f).Nodup :=
  ht.nodup_of_subtables hk hf fun _ hi => ht.nodup_subtables hf hi fun _ _ hg => ht.nodup_tables hg

/-- The walk of any key of its place comes to a listed table. -/
lemma down_of_mem (ht : Tree n D own mem) {t : F} {k : ℕ} (hown : own t = some (k, p)) (hv : v / n ^ (k + 1) = p) :
    ∀ {l q : ℕ} {f : F}, own f = some (l, q) → t ∈ tables n D mem l f → Down n D mem v l f k t
  | 0, q, f, hf, h => by
    rw [tables_zero] at h
    obtain rfl := mem_singleton.mp h
    obtain ⟨rfl, -⟩ : 0 = k ∧ q = p := by
      rw [hf] at hown
      simpa using hown
    exact .here 0 t
  | l + 1, q, f, hf, h => by
    rw [tables_succ, mem_tablesUpTo] at h
    rcases h with rfl | ⟨i, hi, g, hD, h⟩
    · obtain ⟨rfl, -⟩ : l + 1 = k ∧ q = p := by
        rw [hf] at hown
        simpa using hown
      exact .here _ _
    · obtain ⟨l', hl, hg⟩ := ht f (l + 1) q i g hf hi hD
      obtain rfl : l = l' := by omega
      obtain ⟨k', p', hown', hk, hp⟩ := ht.placed hg h
      obtain ⟨rfl, rfl⟩ : k = k' ∧ p = p' := by
        rw [hown] at hown'
        simpa using hown'
      have hdig : v / n ^ (l + 1) = q * n + i := by
        rw [← hp, ← hv, Nat.div_div_eq_div_mul, ← pow_add, show k + 1 + (l - k) = l + 1 by omega]
      refine .step (g := g) ?_ (ht.down_of_mem hown hv hg h)
      rwa [hdig, mul_comm, Nat.mul_add_mod, Nat.mod_eq_of_lt hi]

/-- What a listed table names is listed. -/
lemma mem_tables_of_named (ht : Tree n D own mem) {k i : ℕ} {r f g : F} (hr : own r = some (l, q))
    (hmem : f ∈ tables n D mem l r) (hf : own f = some (k, p)) (hi : i < n) (hD : D k (mem f i) = .table g) :
    g ∈ tables n D mem l r := by
  have hn : 0 < n := by omega
  obtain ⟨k, rfl, -⟩ := ht f k p i g hf hi hD
  have hdiv : (p * n + i) * n ^ (k + 1) / n ^ (k + 1) = p * n + i := Nat.mul_div_cancel _ (pow_pos hn _)
  have hup : (p * n + i) * n ^ (k + 1) / n ^ (k + 1 + 1) = p := by
    rw [pow_succ n (k + 1), ← Nat.div_div_eq_div_mul, hdiv, mul_comm p n, Nat.mul_add_div hn, Nat.div_eq_of_lt hi, add_zero]
  have hslot : (p * n + i) * n ^ (k + 1) / n ^ (k + 1) % n = i := by
    rw [hdiv, mul_comm p n, Nat.mul_add_mod, Nat.mod_eq_of_lt hi]
  have hnames : D (k + 1) (mem f ((p * n + i) * n ^ (k + 1) / n ^ (k + 1) % n)) = .table g := by rw [hslot, hD]
  exact ((ht.down_of_mem hf hup hr hmem).snoc hnames).mem_tables hn

end Tree

/-! ### Changes -/

/-- Words that name the same table or none. -/
def SameTables (D : ℕ → W → Node F) (l : ℕ) (w' w : W) : Prop := ∀ g, D l w' = .table g ↔ D l w = .table g

lemma SameTables.refl (l : ℕ) (w : W) : SameTables D l w w := fun _ => Iff.rfl

lemma subtables_congr {w w' : W} (hw : SameTables D (l + 1) w' w)
    (h : ∀ g, D (l + 1) w = .table g → tables n D mem' l g = tables n D mem l g) :
    subtables n D mem' l w' = subtables n D mem l w := by
  by_cases hg : ∃ g, D (l + 1) w = .table g
  · obtain ⟨g, hg⟩ := hg
    rw [subtables_table ((hw g).mpr hg), subtables_table hg, h g hg]
  · have hg' := not_exists.mp hg
    rw [subtables_eq_zero hg', subtables_eq_zero fun g hc => hg' g ((hw g).mp hc)]

lemma tablesUpTo_congr {f : F} (hw : ∀ i < k, SameTables D (l + 1) (mem' f i) (mem f i))
    (h : ∀ i < k, ∀ g, D (l + 1) (mem f i) = .table g → tables n D mem' l g = tables n D mem l g) :
    tablesUpTo n D k mem' l f = tablesUpTo n D k mem l f := by
  unfold tablesUpTo
  congr 1
  exact Finset.sum_congr rfl fun i hi =>
    subtables_congr (hw i (Finset.mem_range.mp hi)) (h i (Finset.mem_range.mp hi))

/-- The tables are the same, if the words of the listed ones name the same. -/
lemma Tree.tables_congr (ht : Tree n D own mem) : ∀ {l q : ℕ} {f : F}, own f = some (l, q) →
    (∀ t k p, t ∈ tables n D mem l f → own t = some (k, p) → ∀ i < n, SameTables D k (mem' t i) (mem t i)) →
    tables n D mem' l f = tables n D mem l f
  | 0, _, _, _, _ => by rw [tables_zero, tables_zero]
  | l + 1, q, f, hf, h => by
    rw [tables_succ, tables_succ]
    refine tablesUpTo_congr (fun i hi => h f _ _ (self_mem_tables mem f (l + 1)) hf i hi) fun i hi g hg => ?_
    obtain ⟨l', hl, hown⟩ := ht f (l + 1) q i g hf hi hg
    obtain rfl : l = l' := by omega
    refine ht.tables_congr hown fun t k p hmem => h t k p ?_
    rw [tables_succ, mem_tablesUpTo]
    exact .inr ⟨i, hi, g, hg, hmem⟩

section Write

variable [DecidableEq F] {t g : F} {i k : ℕ} {w : W} {ws : ℕ → W}

section

variable (ht : Tree n D own mem)

include ht

/-- A write changes nothing below a table that does not lead to it. -/
lemma Tree.tables_write_of_notMem {f : F} (hf : own f = some (l, q))
    (h : t ∉ tables n D mem l f) : tables n D (mem.write t i w) l f = tables n D mem l f := by
  refine ht.tables_congr hf fun s j p hs _ a _ => ?_
  have hst : ¬ (s = t ∧ a = i) := fun hc => h (hc.1 ▸ hs)
  rw [Mem.write_of_ne mem w hst]
  exact SameTables.refl j _

/-- Nor does a write that keeps what the word names. -/
lemma Tree.tablesUpTo_write_same {f : F} (hb : b ≤ n) (hf : own f = some (l + 1, q))
    (hown : own t = some (k, p)) (hw : SameTables D k w (mem t i)) :
    tablesUpTo n D b (mem.write t i w) l f = tablesUpTo n D b mem l f := by
  have hsame : ∀ s j p', own s = some (j, p') → ∀ a, SameTables D j (mem.write t i w s a) (mem s a) := by
    intro s j p' hs a
    by_cases hc : s = t ∧ a = i
    · obtain ⟨rfl, rfl⟩ := hc
      obtain ⟨rfl, -⟩ : k = j ∧ p = p' := by
        rw [hown] at hs
        simpa using hs
      rw [Mem.write_self]
      exact hw
    · rw [Mem.write_of_ne mem w hc]
      exact SameTables.refl j _
  refine tablesUpTo_congr (fun j _ => hsame f _ _ hf j) fun j hj g hg => ?_
  obtain ⟨l', hl, hg'⟩ := ht f (l + 1) q j g hf (hj.trans_le hb) hg
  obtain rfl : l = l' := by omega
  exact ht.tables_congr hg' fun s j p' _ hs a _ => hsame s j p' hs a

/-- A word of `t` that named no table, one of its first `b`, is written. -/
lemma Tree.tablesUpTo_write_self (hb : b ≤ n) (hi : i < b)
    (hown : own t = some (k + 1, q)) (hno : ∀ f, D (k + 1) (mem t i) ≠ .table f)
    (hw : ∀ f, D (k + 1) w = .table f → ∃ p, own f = some (k, p)) :
    tablesUpTo n D b (mem.write t i w) k t = tablesUpTo n D b mem k t + subtables n D mem k w := by
  have hmem : i ∈ Finset.range b := Finset.mem_range.mpr hi
  have hlow : ∀ f p, own f = some (k, p) → tables n D (mem.write t i w) k f = tables n D mem k f := by
    intro f p hf
    refine ht.tables_write_of_notMem hf fun hc => ?_
    obtain ⟨j, _, hj, hjk, -⟩ := ht.placed hf hc
    rw [hown, Option.some.injEq, Prod.mk.injEq] at hj
    omega
  have hrest : ∀ j ∈ (Finset.range b).erase i, subtables n D (mem.write t i w) k (mem.write t i w t j) =
      subtables n D mem k (mem t j) := by
    intro j hj
    obtain ⟨hji, hj⟩ := Finset.mem_erase.mp hj
    rw [Mem.write_of_ne mem w fun hc => hji hc.2]
    refine subtables_congr (SameTables.refl _ _) fun f hf => ?_
    obtain ⟨k', hk, hown'⟩ := ht t (k + 1) q j f hown ((Finset.mem_range.mp hj).trans_le hb) hf
    obtain rfl : k = k' := by omega
    exact hlow f _ hown'
  have hnew : subtables n D (mem.write t i w) k (mem.write t i w t i) = subtables n D mem k w := by
    rw [Mem.write_self]
    refine subtables_congr (SameTables.refl _ _) fun f hf => ?_
    obtain ⟨p, hp⟩ := hw f hf
    exact hlow f p hp
  unfold tablesUpTo
  rw [← Finset.add_sum_erase _ _ hmem, hnew, Finset.sum_congr rfl hrest, ← Finset.add_sum_erase _ _ hmem,
    subtables_eq_zero hno, zero_add, cons_add, add_comm]

/-- A frame without a place is below no table. -/
lemma Tree.tables_fill {f : F} (hf : own f = some (l, q)) (hg : own g = none) :
    tables n D (mem.fill g ws) l f = tables n D mem l f := by
  refine ht.tables_congr hf fun s j p _ hown a _ => ?_
  have hsg : s ≠ g := by
    rintro rfl
    rw [hg] at hown
    simp at hown
  rw [Mem.fill_of_ne mem ws hsg]
  exact SameTables.refl j _

lemma Tree.tables_hang_of_notMem {f : F} (hf : own f = some (l, q))
    (hg : own g = none) (h : t ∉ tables n D mem l f) :
    tables n D (mem.hang t i w g ws) l f = tables n D mem l f := by
  rw [Mem.hang, (ht.fill hg).tables_write_of_notMem hf (by rwa [ht.tables_fill hf hg]), ht.tables_fill hf hg]

end

variable (hg : own g = none) (hws : ∀ j < n, ∀ f, D k (ws j) ≠ .table f) (hw : D (k + 1) w = .table g)
  (hno : ∀ f, D (k + 1) (mem t i) ≠ .table f)

include hg hws hw hno

/-- The new table is hung into a word of `t`, one of its first `b`. -/
lemma Tree.tablesUpTo_hang_self (ht : Tree n D own mem) (hb : b ≤ n) (hi : i < b)
    (hown : own t = some (k + 1, q)) :
    tablesUpTo n D b (mem.hang t i w g ws) k t = g ::ₘ tablesUpTo n D b mem k t := by
  have htg : t ≠ g := by
    rintro rfl
    rw [hg] at hown
    simp at hown
  have hfill : Tree n D own (mem.fill g ws) := ht.fill hg
  have hplace := hfill.place (k, q * n + i) hg fun j hj f => by
    rw [Mem.fill_self]
    exact hws j hj f
  have hown' : Function.update own g (some (k, q * n + i)) t = some (k + 1, q) := by
    rw [Function.update_of_ne htg]
    exact hown
  have hfill : tablesUpTo n D b (mem.fill g ws) k t = tablesUpTo n D b mem k t := by
    refine tablesUpTo_congr (fun j _ => ?_) fun j hj f hf => ?_
    · rw [Mem.fill_of_ne mem ws htg]
      exact SameTables.refl _ _
    · obtain ⟨k', hk, hf'⟩ := ht t (k + 1) q j f hown (hj.trans_le hb) hf
      obtain rfl : k = k' := by omega
      exact ht.tables_fill hf' hg
  rw [Mem.hang, hplace.tablesUpTo_write_self hb hi hown' (by rwa [Mem.fill_of_ne mem ws htg]) fun f hf => ?_, hfill,
    subtables_table hw, tables_eq_singleton fun j hj f => ?_, add_comm, singleton_add]
  · rw [Mem.fill_self]
    exact hws j hj f
  · obtain rfl : g = f := by
      rw [hw] at hf
      simpa using hf
    exact ⟨_, Function.update_self _ _ _⟩

omit hws hw hno in
/-- It is hung into a table below one of the first `b` words of `f`. -/
lemma Tree.tablesUpTo_hang_below (ht : Tree n D own mem) {j : ℕ} {f c : F} (hb : b ≤ n) (hj : j < b)
    (hf : own f = some (l + 1, q)) (hD : D (l + 1) (mem f j) = .table c) (hc : t ∈ tables n D mem l c)
    (h : tables n D (mem.hang t i w g ws) l c = g ::ₘ tables n D mem l c) :
    tablesUpTo n D b (mem.hang t i w g ws) l f = g ::ₘ tablesUpTo n D b mem l f := by
  have hfg : f ≠ g := by
    rintro rfl
    rw [hg] at hf
    simp at hf
  have hft : f ≠ t := (ht.ne_of_below hf (hj.trans_le hb) hD hc).symm
  have hmem : j ∈ Finset.range b := Finset.mem_range.mpr hj
  have hword : ∀ a, mem.hang t i w g ws f a = mem f a := fun a => Mem.hang_of_ne mem w ws hfg fun hc => hft hc.1
  have hrest : ∀ a ∈ (Finset.range b).erase j, subtables n D (mem.hang t i w g ws) l (mem f a) =
      subtables n D mem l (mem f a) := by
    intro a ha
    obtain ⟨haj, ha⟩ := Finset.mem_erase.mp ha
    have han : a < n := (Finset.mem_range.mp ha).trans_le hb
    refine subtables_congr (SameTables.refl _ _) fun c' hc' => ?_
    obtain ⟨l', hl, hown'⟩ := ht f (l + 1) q a c' hf han hc'
    obtain rfl : l = l' := by omega
    exact ht.tables_hang_of_notMem hown' hg fun hmem' =>
      haj (ht.index_unique hf han (hj.trans_le hb) hc' hmem' hD hc)
  unfold tablesUpTo
  simp only [hword]
  rw [← Finset.add_sum_erase _ _ hmem, subtables_table hD, h, Finset.sum_congr rfl hrest,
    ← Finset.add_sum_erase _ _ hmem, subtables_table hD, cons_add, cons_swap]

lemma Tree.tables_hang (ht : Tree n D own mem) (hi : i < n) (hown : own t = some (k + 1, p)) :
    ∀ {l q : ℕ} {f : F}, own f = some (l, q) → t ∈ tables n D mem l f →
      tables n D (mem.hang t i w g ws) l f = g ::ₘ tables n D mem l f
  | 0, q, f, hf, h => by
    rw [tables_zero] at h
    obtain rfl := mem_singleton.mp h
    rw [hown] at hf
    simp at hf
  | l + 1, q, f, hf, h => by
    rw [tables_succ, mem_tablesUpTo] at h
    rw [tables_succ, tables_succ]
    rcases h with rfl | ⟨j, hj, c, hD, hc⟩
    · obtain ⟨rfl, rfl⟩ : k = l ∧ p = q := by
        rw [hown] at hf
        simpa using hf
      exact ht.tablesUpTo_hang_self hg hws hw hno le_rfl hi hf
    · obtain ⟨l', hl, hc'⟩ := ht f (l + 1) q j c hf hj hD
      obtain rfl : l = l' := by omega
      exact ht.tablesUpTo_hang_below hg le_rfl hj hf hD hc (ht.tables_hang hi hown hc' hc)

/-- A new table adds itself and nothing else. -/
lemma Tree.tablesUpTo_hang (ht : Tree n D own mem) (hi : i < n) (hown : own t = some (k + 1, p)) {f : F}
    (hb : b ≤ n) (hf : own f = some (l + 1, q)) (h : t ∈ tablesUpTo n D b mem l f)
    (hif : t = f → i < b) :
    tablesUpTo n D b (mem.hang t i w g ws) l f = g ::ₘ tablesUpTo n D b mem l f := by
  rcases mem_tablesUpTo.mp h with rfl | ⟨j, hj, c, hD, hc⟩
  · obtain ⟨rfl, rfl⟩ : k = l ∧ p = q := by
      rw [hown] at hf
      simpa using hf
    exact ht.tablesUpTo_hang_self hg hws hw hno hb (hif rfl) hf
  · obtain ⟨l', hl, hc'⟩ := ht f (l + 1) q j c hf (hj.trans_le hb) hD
    obtain rfl : l = l' := by omega
    exact ht.tablesUpTo_hang_below hg hb hj hf hD hc (ht.tables_hang hg hws hw hno hi hown hc' hc)

end Write

end Radix
