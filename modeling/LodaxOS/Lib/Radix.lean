/-
# Radix trees in memory

A table is a frame of words; a word read at level `l` is empty, a leaf, or
the address of a table of the level below (`Node`). A walk for the key `v`
reads at each level the word at `v`'s digit, until a leaf or an empty word
(`walk`).

Frames of a tree are told apart by their place: the level and the digits of
the keys above it (`Tree`). So a write at one place changes the walks of the
keys below it only (`Tree.walk_write`), and a new table hung into a place
changes no walk if it walks there as what it replaces (`Tree.walk_hang`).
-/
import Mathlib.Tactic.Ring

namespace Radix

open Function

/-- What a word is to a walk. -/
inductive Node (F : Type)
  | empty
  | leaf
  | table (f : F)

/-- The words of each frame. -/
abbrev Mem (F W : Type) := F → ℕ → W

variable {F W : Type} (n : ℕ) (D : ℕ → W → Node F)

/-- The leaf a walk reaches from a table of level `l`: the level it is found
at, its word, and the words of the tables above it, highest first. -/
def walk (mem : Mem F W) : ℕ → F → ℕ → Option (ℕ × W × List W)
  | 0, f, v =>
    match D 0 (mem f (v % n)) with
    | .leaf => some (0, mem f (v % n), [])
    | _ => none
  | l + 1, f, v =>
    match D (l + 1) (mem f (v / n ^ (l + 1) % n)) with
    | .leaf => some (l + 1, mem f (v / n ^ (l + 1) % n), [])
    | .empty => none
    | .table g => (walk mem l g v).map fun r => (r.1, r.2.1, mem f (v / n ^ (l + 1) % n) :: r.2.2)

/-- The word a walk reads at level 0, if it gets there. -/
def bottom (mem : Mem F W) : ℕ → F → ℕ → Option W
  | 0, f, v => some (mem f (v % n))
  | l + 1, f, v =>
    match D (l + 1) (mem f (v / n ^ (l + 1) % n)) with
    | .table g => bottom mem l g v
    | _ => none

/-- The leaf alone. -/
def find (mem : Mem F W) (l : ℕ) (f : F) (v : ℕ) : Option (ℕ × W) := (walk n D mem l f v).map fun r => (r.1, r.2.1)

/-- The walk of `v` from the table `f` of level `l` comes to the table `g` of
level `k`. -/
inductive Down (mem : Mem F W) (v : ℕ) : ℕ → F → ℕ → F → Prop
  | here (l : ℕ) (f : F) : Down mem v l f l f
  | step {l k : ℕ} {f g h : F} (hD : D (l + 1) (mem f (v / n ^ (l + 1) % n)) = .table g)
      (hd : Down mem v l g k h) : Down mem v (l + 1) f k h

/-- Every frame that `own` places is a table there: the tables its words
point to are placed below it. -/
def Tree (own : F → Option (ℕ × ℕ)) (mem : Mem F W) : Prop :=
  ∀ f l q i g, own f = some (l, q) → i < n → D l (mem f i) = .table g → ∃ l', l = l' + 1 ∧ own g = some (l', q * n + i)

/-- `own'` places all that `own` places. -/
def Extends (own own' : F → Option (ℕ × ℕ)) : Prop := ∀ f p, own f = some p → own' f = some p

lemma Extends.refl (own : F → Option (ℕ × ℕ)) : Extends own own := fun _ _ h => h

lemma Extends.trans {a b c : F → Option (ℕ × ℕ)} (h : Extends a b) (h' : Extends b c) : Extends a c :=
  fun f p hf => h' f p (h f p hf)

variable {n D} {own : F → Option (ℕ × ℕ)} {mem mem' : Mem F W}

/-- Only the frames that have places matter. -/
lemma Tree.congr (ht : Tree n D own mem) (h : ∀ f p, own f = some p → mem' f = mem f) : Tree n D own mem' := by
  intro f l q i g hf hi hD
  rw [h f _ hf] at hD
  exact ht f l q i g hf hi hD

/-- Only tables of a part that names no others. -/
lemma Tree.restrict (ht : Tree n D own mem) {own' : F → Option (ℕ × ℕ)} (hsub : Extends own' own)
    (h : ∀ f l q i g, own' f = some (l, q) → i < n → D l (mem f i) = .table g → own g = own' g) : Tree n D own' mem := by
  intro f l q i g hf hi hD
  rw [← h f l q i g hf hi hD]
  exact ht f l q i g (hsub f _ hf) hi hD

lemma digit_lt (hn : 0 < n) (v l : ℕ) : v / n ^ l % n < n := Nat.mod_lt _ hn

/-- The digits of `v` from level `l` up are those above and the one at `l`. -/
lemma div_pow_eq (v l : ℕ) : v / n ^ l = v / n ^ (l + 1) * n + v / n ^ l % n := by
  rw [pow_succ, ← Nat.div_div_eq_div_mul]
  exact (Nat.div_add_mod' _ _).symm

/-- The table below on the way of a key has the place of the key. -/
lemma Tree.child {f g : F} {l v : ℕ} (hn : 0 < n) (ht : Tree n D own mem) (hf : own f = some (l + 1, v / n ^ (l + 1 + 1)))
    (hD : D (l + 1) (mem f (v / n ^ (l + 1) % n)) = .table g) : own g = some (l, v / n ^ (l + 1)) := by
  obtain ⟨l', hl, hg⟩ := ht f _ _ _ g hf (digit_lt hn v (l + 1)) hD
  obtain rfl : l = l' := by omega
  rwa [← div_pow_eq] at hg

/-- A walk reads only the places of its key: two memories that agree there
walk alike. -/
lemma walk_eq_of_owned (hn : 0 < n) (ht : Tree n D own mem) (v : ℕ) : ∀ (l : ℕ) (f : F),
    own f = some (l, v / n ^ (l + 1)) →
    (∀ g k, own g = some (k, v / n ^ (k + 1)) → mem' g (v / n ^ k % n) = mem g (v / n ^ k % n)) →
    walk n D mem' l f v = walk n D mem l f v
  | 0, f, hf, h => by
    have he := h f 0 hf
    rw [pow_zero, Nat.div_one] at he
    rw [walk, walk, he]
  | l + 1, f, hf, h => by
    have he := h f (l + 1) hf
    rw [walk, walk, he]
    cases hD : D (l + 1) (mem f (v / n ^ (l + 1) % n)) with
    | empty => rfl
    | leaf => rfl
    | table g =>
      have hg := ht.child hn hf hD
      simp only [walk_eq_of_owned hn ht v l g hg h]

/-- A table of empty words leads nowhere. -/
lemma walk_eq_none {f : F} {l : ℕ} (hn : 0 < n) (h : ∀ i < n, D l (mem f i) = .empty) (v : ℕ) :
    walk n D mem l f v = none := by
  cases l with
  | zero => rw [walk, h _ (Nat.mod_lt _ hn)]
  | succ l => rw [walk, h _ (digit_lt hn v (l + 1))]

/-- Memories that agree on the places of a key but for the table `t`, and
walk alike from `t` on, walk alike. -/
lemma walk_eq_of_subwalk (hn : 0 < n) (ht : Tree n D own mem) {v : ℕ} {t : F} {lt : ℕ}
    (hown : own t = some (lt, v / n ^ (lt + 1))) (hsub : walk n D mem' lt t v = walk n D mem lt t v)
    (h : ∀ g k, own g = some (k, v / n ^ (k + 1)) → g ≠ t → mem' g (v / n ^ k % n) = mem g (v / n ^ k % n)) :
    ∀ (l : ℕ) (f : F), own f = some (l, v / n ^ (l + 1)) → walk n D mem' l f v = walk n D mem l f v
  | 0, f, hf => by
    by_cases hft : f = t
    · subst hft
      obtain rfl : lt = 0 := by rw [hown] at hf; simp at hf; exact hf.1
      exact hsub
    · have he := h f 0 hf hft
      rw [pow_zero, Nat.div_one] at he
      rw [walk, walk, he]
  | l + 1, f, hf => by
    by_cases hft : f = t
    · subst hft
      obtain rfl : lt = l + 1 := by rw [hown] at hf; simp at hf; exact hf.1
      exact hsub
    · have he := h f (l + 1) hf hft
      rw [walk, walk, he]
      cases hD : D (l + 1) (mem f (v / n ^ (l + 1) % n)) with
      | empty => rfl
      | leaf => rfl
      | table g =>
        have hg := ht.child hn hf hD
        simp only [walk_eq_of_subwalk hn ht hown hsub h l g hg]

/-! ### Leaves and ways -/

lemma find_zero (mem : Mem F W) (f : F) (v : ℕ) : find n D mem 0 f v =
    match D 0 (mem f (v % n)) with
    | .leaf => some (0, mem f (v % n))
    | _ => none := by
  rw [find, walk]
  cases D 0 (mem f (v % n)) <;> rfl

lemma find_succ (mem : Mem F W) (l : ℕ) (f : F) (v : ℕ) : find n D mem (l + 1) f v =
    match D (l + 1) (mem f (v / n ^ (l + 1) % n)) with
    | .leaf => some (l + 1, mem f (v / n ^ (l + 1) % n))
    | .empty => none
    | .table g => find n D mem l g v := by
  rw [find, walk]
  cases D (l + 1) (mem f (v / n ^ (l + 1) % n)) with
  | empty => rfl
  | leaf => rfl
  | table => simp [find, Function.comp_def]

lemma find_congr {l l' : ℕ} {f f' : F} {v v' : ℕ} (h : walk n D mem' l f v = walk n D mem l' f' v') :
    find n D mem' l f v = find n D mem l' f' v' := by rw [find, find, h]

lemma find_le {v k : ℕ} {w : W} : ∀ {l : ℕ} {f : F}, find n D mem l f v = some (k, w) → k ≤ l
  | 0, f, h => by
    rw [find_zero] at h
    split at h
    · simp at h
      omega
    · simp at h
  | l + 1, f, h => by
    rw [find_succ] at h
    split at h
    · simp at h
      omega
    · simp at h
    · exact (find_le h).trans (Nat.le_succ l)

/-- A leaf of the table's own level is its word. -/
lemma find_self {v l : ℕ} {f : F} {w : W} (h : find n D mem (l + 1) f v = some (l + 1, w)) :
    D (l + 1) (mem f (v / n ^ (l + 1) % n)) = .leaf ∧ mem f (v / n ^ (l + 1) % n) = w := by
  rw [find_succ] at h
  cases hD : D (l + 1) (mem f (v / n ^ (l + 1) % n)) with
  | empty => rw [hD] at h; simp at h
  | leaf => rw [hD] at h; exact ⟨rfl, by simpa using h⟩
  | table =>
    rw [hD] at h
    have := find_le h
    omega

/-- A leaf is the leaf of every key that shares its digits down to it. -/
lemma find_eq_of_div_eq {v u k : ℕ} {w : W} : ∀ {l : ℕ} {f : F}, find n D mem l f v = some (k, w) →
    u / n ^ k = v / n ^ k → find n D mem l f u = some (k, w)
  | 0, f, h, hu => by
    rw [find_zero] at h ⊢
    cases hD : D 0 (mem f (v % n)) with
    | empty => rw [hD] at h; simp at h
    | table => rw [hD] at h; simp at h
    | leaf =>
      rw [hD] at h
      obtain ⟨rfl, rfl⟩ : 0 = k ∧ mem f (v % n) = w := by simpa using h
      rw [pow_zero, Nat.div_one, Nat.div_one] at hu
      rw [hu, hD]
  | l + 1, f, h, hu => by
    rw [find_succ] at h ⊢
    have hdig : k ≤ l + 1 → u / n ^ (l + 1) = v / n ^ (l + 1) := by
      intro hk
      rw [← Nat.add_sub_cancel' hk, pow_add, ← Nat.div_div_eq_div_mul, ← Nat.div_div_eq_div_mul, hu]
    cases hD : D (l + 1) (mem f (v / n ^ (l + 1) % n)) with
    | empty => rw [hD] at h; simp at h
    | leaf =>
      rw [hD] at h
      obtain ⟨rfl, rfl⟩ : l + 1 = k ∧ mem f (v / n ^ (l + 1) % n) = w := by simpa using h
      rw [hdig le_rfl, hD]
    | table =>
      rw [hD] at h
      have hk : k ≤ l := find_le h
      rw [hdig (by omega), hD]
      exact find_eq_of_div_eq h hu

/-- Words that a walk cannot tell apart but by their names for tables. -/
def SameNode (D : ℕ → W → Node F) (l : ℕ) (w' w : W) : Prop := D l w' = D l w ∧ (D l w = .leaf → w' = w)

lemma SameNode.refl (l : ℕ) (w : W) : SameNode D l w w := ⟨rfl, fun _ => rfl⟩

/-- Memories that agree up to `SameNode` on the places of a key find the same
leaf. -/
lemma find_eq_of_sameNode (hn : 0 < n) (ht : Tree n D own mem) (v : ℕ) : ∀ (l : ℕ) (f : F),
    own f = some (l, v / n ^ (l + 1)) →
    (∀ g k, own g = some (k, v / n ^ (k + 1)) → SameNode D k (mem' g (v / n ^ k % n)) (mem g (v / n ^ k % n))) →
    find n D mem' l f v = find n D mem l f v
  | 0, f, hf, h => by
    obtain ⟨hD, hw⟩ := h f 0 hf
    rw [pow_zero, Nat.div_one] at hD hw
    rw [find_zero, find_zero, hD]
    cases hl : D 0 (mem f (v % n)) with
    | leaf => rw [hw hl]
    | empty => rfl
    | table => rfl
  | l + 1, f, hf, h => by
    obtain ⟨hD, hw⟩ := h f (l + 1) hf
    rw [find_succ, find_succ, hD]
    cases hl : D (l + 1) (mem f (v / n ^ (l + 1) % n)) with
    | leaf => rw [hw hl]
    | empty => rfl
    | table g =>
      have hg := ht.child hn hf hl
      exact find_eq_of_sameNode hn ht v l g hg h

namespace Down

variable {v l k : ℕ} {f g : F}

section

variable (h : Down n D mem v l f k g)

include h

lemma le : k ≤ l := by
  induction h with
  | here => exact le_rfl
  | step => omega

/-- What the walk finds, it finds from the lower table. -/
lemma find_eq : find n D mem l f v = find n D mem k g v := by
  induction h with
  | here => rfl
  | step hD _ ih => rw [find_succ, hD]; exact ih

/-- The walk goes on from the lower table, under the words on the way. -/
lemma walk_eq : ∃ us, walk n D mem l f v = (walk n D mem k g v).map fun r => (r.1, r.2.1, us ++ r.2.2) := by
  induction h with
  | here => exact ⟨[], by simp⟩
  | @step l k f g g' hD _ ih =>
    obtain ⟨us, hus⟩ := ih
    refine ⟨mem f (v / n ^ (l + 1) % n) :: us, ?_⟩
    rw [walk, hD]
    simp [hus, Function.comp_def]

omit h in
/-- One table further. -/
lemma snoc {g' : F} (h : Down n D mem v l f (k + 1) g) (hD : D (k + 1) (mem g (v / n ^ (k + 1) % n)) = .table g') :
    Down n D mem v l f k g' := by
  generalize hk : k + 1 = k' at h
  induction h with
  | here => subst hk; exact .step hD (.here _ _)
  | step hD' _ ih => exact .step hD' (ih hD hk)

/-- Keys with the digits of `v` above the lower table go the same way. -/
lemma of_div_eq : ∀ {u : ℕ}, u / n ^ (k + 1) = v / n ^ (k + 1) → Down n D mem u l f k g := by
  induction h with
  | here => exact fun _ => .here _ _
  | @step l k f g g' hD hd ih =>
    intro u hu
    refine .step (g := g) ?_ (ih hu)
    have hk : k ≤ l := hd.le
    have hdiv : ∀ x, x / n ^ (l + 1) = x / n ^ (k + 1) / n ^ (l - k) := by
      intro x
      rw [Nat.div_div_eq_div_mul, ← pow_add, show k + 1 + (l - k) = l + 1 by omega]
    rw [hdiv u, hu, ← hdiv v]
    exact hD

omit h in
/-- The lower table has the place of the key. -/
lemma owned (hn : 0 < n) (ht : Tree n D own mem) (h : Down n D mem v l f k g)
    (hf : own f = some (l, v / n ^ (l + 1))) : own g = some (k, v / n ^ (k + 1)) := by
  induction h with
  | here => exact hf
  | @step l k f g g' hD _ ih =>
    have hg := ht.child hn hf hD
    exact ih hg

/-- A key comes to one table of each level. -/
lemma unique {g' : F} (h' : Down n D mem v l f k g') : g = g' := by
  induction h with
  | here =>
    cases h' with
    | here => rfl
    | step _ hd => exact absurd hd.le (by omega)
  | step hD hd ih =>
    cases h' with
    | here => exact absurd hd.le (by omega)
    | step hD' hd' =>
      rw [hD, Node.table.injEq] at hD'
      subst hD'
      exact ih hd'

end

/-- The way stays, if the words on it still name their tables. -/
lemma congr (hn : 0 < n) (ht : Tree n D own mem) (h : Down n D mem v l f k g)
    (hf : own f = some (l, v / n ^ (l + 1)))
    (hw : ∀ t j h, own t = some (j, v / n ^ (j + 1)) → k < j → D j (mem t (v / n ^ j % n)) = .table h →
      D j (mem' t (v / n ^ j % n)) = .table h) : Down n D mem' v l f k g := by
  induction h with
  | here => exact .here _ _
  | @step l k f g g' hD hd ih =>
    have hg := ht.child hn hf hD
    have hk := hd.le
    exact .step (hw f (l + 1) g hf (by omega) hD) (ih hg hw)

end Down

/-- The words above a leaf are words of placed tables that name tables. -/
lemma Tree.above (hn : 0 < n) (ht : Tree n D own mem) {v k : ℕ} {w : W} : ∀ {l : ℕ} {f : F} {us : List W},
    own f = some (l, v / n ^ (l + 1)) → walk n D mem l f v = some (k, w, us) →
    ∀ e ∈ us, ∃ t j q i g, own t = some (j, q) ∧ i < n ∧ mem t i = e ∧ D j e = .table g
  | 0, f, us, _, h => by
    rw [walk] at h
    split at h
    · obtain ⟨-, -, rfl⟩ : _ ∧ _ ∧ [] = us := by simpa using h
      simp
    · simp at h
  | l + 1, f, us, hf, h => by
    rw [walk] at h
    cases hD : D (l + 1) (mem f (v / n ^ (l + 1) % n)) with
    | empty => rw [hD] at h; simp at h
    | leaf =>
      rw [hD] at h
      obtain ⟨-, -, rfl⟩ : _ ∧ _ ∧ [] = us := by simpa using h
      simp
    | table g =>
      rw [hD] at h
      simp only [Option.map_eq_some_iff, Prod.mk.injEq] at h
      obtain ⟨⟨k', w', us'⟩, h', rfl, rfl, rfl⟩ := h
      have hg := ht.child hn hf hD
      intro e he
      rcases List.mem_cons.mp he with rfl | he
      · exact ⟨f, _, _, _, g, hf, digit_lt hn v (l + 1), rfl, hD⟩
      · exact ht.above hn hg h' e he

/-! ### Writes -/

section Write

variable [DecidableEq F]

/-- One word changed. -/
def Mem.write (mem : Mem F W) (t : F) (i : ℕ) (w : W) : Mem F W :=
  update mem t (update (mem t) i w)

lemma Mem.write_self (mem : Mem F W) (t : F) (i : ℕ) (w : W) : mem.write t i w t i = w := by
  simp [Mem.write]

lemma Mem.write_of_ne (mem : Mem F W) {t f : F} {i j : ℕ} (w : W) (h : ¬ (f = t ∧ j = i)) :
    mem.write t i w f j = mem f j := by
  unfold Mem.write
  by_cases hf : f = t
  · subst hf
    rw [update_self, update_of_ne (fun hj => h ⟨rfl, hj⟩)]
  · rw [update_of_ne hf]

/-- One frame changed. -/
def Mem.fill (mem : Mem F W) (t : F) (ws : ℕ → W) : Mem F W := update mem t ws

lemma Mem.fill_self (mem : Mem F W) (t : F) (ws : ℕ → W) : mem.fill t ws t = ws := by simp [Mem.fill]

lemma Mem.fill_of_ne (mem : Mem F W) {t f : F} (ws : ℕ → W) (h : f ≠ t) : mem.fill t ws f = mem f := by
  simp [Mem.fill, h]

variable {l q i : ℕ} {t : F} {w : W}

/-- A word that points to no table, or to one placed below it. -/
lemma Tree.write (ht : Tree n D own mem) (hown : own t = some (l, q))
    (hw : ∀ g, D l w = .table g → ∃ l', l = l' + 1 ∧ own g = some (l', q * n + i)) :
    Tree n D own (mem.write t i w) := by
  intro f k p j g hf hj hD
  by_cases h : f = t ∧ j = i
  · obtain ⟨rfl, rfl⟩ := h
    obtain ⟨rfl, rfl⟩ : l = k ∧ q = p := by rw [hown] at hf; simpa using hf
    rw [Mem.write_self] at hD
    exact hw g hD
  · rw [Mem.write_of_ne mem w h] at hD
    exact ht f k p j g hf hj hD

variable {f : F}

/-- A write changes only the walks of the keys below its place. -/
lemma Tree.walk_write (hn : 0 < n) (ht : Tree n D own mem)
    (hown : own t = some (l, q)) {v : ℕ} (hv : v / n ^ l ≠ q * n + i) {k : ℕ}
    (hf : own f = some (k, v / n ^ (k + 1))) :
    walk n D (mem.write t i w) k f v = walk n D mem k f v := by
  refine walk_eq_of_owned hn ht v k f hf fun g j hg => Mem.write_of_ne mem w ?_
  rintro ⟨rfl, hi⟩
  obtain ⟨rfl, rfl⟩ : l = j ∧ q = v / n ^ (j + 1) := by rw [hown] at hg; simpa using hg
  exact hv (by rw [← hi, ← div_pow_eq])

variable {ws : ℕ → W}

/-- A frame without a place may be filled. -/
lemma Tree.fill (ht : Tree n D own mem) (hown : own t = none) : Tree n D own (mem.fill t ws) := by
  intro f k p j g hf hj hD
  have hne : f ≠ t := by rintro rfl; rw [hown] at hf; simp at hf
  rw [Mem.fill_of_ne mem ws hne] at hD
  exact ht f k p j g hf hj hD

lemma Tree.walk_fill (hn : 0 < n) (ht : Tree n D own mem) (hown : own t = none)
    {v k : ℕ} (hf : own f = some (k, v / n ^ (k + 1))) :
    walk n D (mem.fill t ws) k f v = walk n D mem k f v := by
  refine walk_eq_of_owned hn ht v k f hf fun g j hg => ?_
  have hne : g ≠ t := by rintro rfl; rw [hown] at hg; simp at hg
  rw [Mem.fill_of_ne mem ws hne]

/-- A frame whose words point to no table may be given a place. -/
lemma Tree.place (ht : Tree n D own mem) (p : ℕ × ℕ) (hown : own t = none)
    (hw : ∀ i < n, ∀ g, D p.1 (mem t i) ≠ .table g) : Tree n D (update own t (some p)) mem := by
  intro f k q j g hf hj hD
  by_cases hft : f = t
  · subst hft
    rw [update_self, Option.some.injEq] at hf
    subst hf
    exact absurd hD (hw j hj g)
  · rw [update_of_ne hft] at hf
    obtain ⟨l', hl, hg⟩ := ht f k q j g hf hj hD
    have hgt : g ≠ t := by rintro rfl; rw [hown] at hg; simp at hg
    exact ⟨l', hl, by rw [update_of_ne hgt]; exact hg⟩

/-- A new table, whose words point to no table, hung into a place. -/
def Mem.hang (mem : Mem F W) (t : F) (i : ℕ) (w : W) (g : F) (ws : ℕ → W) : Mem F W :=
  (mem.fill g ws).write t i w

lemma Mem.hang_of_ne (mem : Mem F W) {t f g : F} {i j : ℕ} (w : W) (ws : ℕ → W) (hg : f ≠ g)
    (h : ¬ (f = t ∧ j = i)) : mem.hang t i w g ws f j = mem f j := by
  rw [Mem.hang, Mem.write_of_ne _ w h, Mem.fill_of_ne mem ws hg]

lemma Mem.hang_self (mem : Mem F W) (t : F) (i : ℕ) (w : W) (g : F) (ws : ℕ → W) :
    mem.hang t i w g ws t i = w := Mem.write_self _ _ _ _

lemma Mem.hang_new (mem : Mem F W) {t g : F} (i : ℕ) (w : W) (ws : ℕ → W) (hgt : g ≠ t) (j : ℕ) :
    mem.hang t i w g ws g j = ws j := by
  rw [Mem.hang, Mem.write_of_ne _ w (fun h => hgt h.1), Mem.fill_self]

/-- Keys that are not below the place walk as before. -/
lemma Tree.walk_hang_of_ne (hn : 0 < n) (ht : Tree n D own mem) {t g : F}
    (hown : own t = some (l + 1, q)) (hg : own g = none) {v : ℕ} (hv : v / n ^ (l + 1) ≠ q * n + i)
    {k : ℕ} (hf : own f = some (k, v / n ^ (k + 1))) :
    walk n D (mem.hang t i w g ws) k f v = walk n D mem k f v := by
  rw [Mem.hang, Tree.walk_write hn (ht.fill hg) hown hv hf, Tree.walk_fill hn ht hg hf]

/-- So do all keys, if the table walks as before. -/
lemma Tree.walk_hang (hn : 0 < n) (ht : Tree n D own mem) {t g : F}
    (hown : own t = some (l + 1, q)) (hg : own g = none) {v : ℕ}
    (hsub : v / n ^ (l + 1) = q * n + i → walk n D (mem.hang t i w g ws) (l + 1) t v = walk n D mem (l + 1) t v)
    {k : ℕ} (hf : own f = some (k, v / n ^ (k + 1))) (hi : i < n) :
    walk n D (mem.hang t i w g ws) k f v = walk n D mem k f v := by
  by_cases hv : v / n ^ (l + 1) = q * n + i
  · have hq : q = v / n ^ (l + 1 + 1) := by
      rw [pow_succ, ← Nat.div_div_eq_div_mul, hv, mul_comm, Nat.mul_add_div hn, Nat.div_eq_of_lt hi, add_zero]
    refine walk_eq_of_subwalk hn ht (by rw [← hq]; exact hown) (hsub hv) (fun f j hf hft => ?_) k f hf
    have hfg : f ≠ g := by rintro rfl; rw [hg] at hf; simp at hf
    exact Mem.hang_of_ne mem w ws hfg fun h => hft h.1
  · exact ht.walk_hang_of_ne hn hown hg hv hf

lemma extends_update (p : ℕ × ℕ) (hown : own t = none) : Extends own (update own t (some p)) := by
  intro f q hf
  have hne : f ≠ t := by rintro rfl; rw [hown] at hf; simp at hf
  rw [update_of_ne hne]
  exact hf

end Write

end Radix
