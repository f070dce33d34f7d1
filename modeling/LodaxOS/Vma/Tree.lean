/-
# The VMA tree is a finite map

The nodes of the tree are a trie in memory (`Trie.Below`), with the areas'
addresses as values. `Inv` says which nodes and boxes the tree has out; what
it needs of the allocators is `Lawful`: memory is handed out to one holder at
a time. `insert` and `remove` change the map at one key and take and give back
exactly the nodes that come and go (`Inv.insert`, `Inv.remove`).

A `Ledger` beside the environment counts what was handed out and given back,
and `contents` is the map that a sequence of calls stands for.
-/
import LodaxOS.Heap.Slabs
import LodaxOS.Lib.Trie
import LodaxOS.Vma.Model

namespace LodaxOS.VmaTree

open Function Multiset State
open Phys (pageSize)
open Heap (Cells)

/-! ### Keys -/

/-- The part of an address that the tree looks at. -/
def key (addr : ℕ) : ℕ := addr / 4096 % 1024 ^ 4

lemma radixIndex_eq (addr : ℕ) {level : ℕ} (hl : level < 4) :
    radixIndex addr level = key addr / 1024 ^ level % 1024 := by
  have hmask : radixMask = 2 ^ 10 - 1 := rfl
  rw [radixIndex, hmask, Nat.and_two_pow_sub_one_eq_mod, Nat.shiftRight_eq_div_pow, radixShift, pageShift, radixBits, key]
  rw [show 4 = level + (1 + (3 - level)) by omega, pow_add 1024 level, pow_add 1024 1, Nat.mod_mul_right_div_self,
    pow_one, Nat.mod_mul_right_mod, Nat.div_div_eq_div_mul]
  congr 2
  rw [pow_add, mul_comm level, pow_mul]
  norm_num

/-- A word that the processor accepts as an address. -/
def Canonical (addr : ℕ) : Prop := addr < 2 ^ 47 ∨ 2 ^ 64 - 2 ^ 47 ≤ addr ∧ addr < 2 ^ 64

variable {b g i f start leaf : ℕ} {mem : Cells}

/-- No two starts share a key. -/
lemma key_inj {a : ℕ} (ha : Canonical a) (hb : Canonical b) (hap : 4096 ∣ a) (hbp : 4096 ∣ b)
    (h : key a = key b) : a = b := by
  obtain ⟨x, rfl⟩ := hap
  obtain ⟨y, rfl⟩ := hbp
  simp only [key, Canonical] at *
  rw [Nat.mul_div_cancel_left _ (by norm_num), Nat.mul_div_cancel_left _ (by norm_num)] at h
  omega

/-- The index of a level is the digit below `q`. -/
lemma radixIndex_digit {l q : ℕ} (hl : l < 4) (hq : key start / 1024 ^ (l + 1) = q) :
    radixIndex start l < 1024 ∧ key start / 1024 ^ l = q * 1024 + radixIndex start l := by
  rw [radixIndex_eq start hl]
  exact ⟨Nat.mod_lt _ (by norm_num), Trie.div_eq_digit hq⟩

lemma key_lt (a : ℕ) : key a / 1024 ^ (3 + 1) = 0 := Nat.div_eq_of_lt (Nat.mod_lt _ (by norm_num))

/-! ### Memory and its holders -/

/-- The word of a node. -/
def word (mem : Cells) (f i : ℕ) : ℕ := mem (entry f i)

/-- An address in one of the nodes. -/
def Inside (N : Multiset ℕ) (a : ℕ) : Prop := ∃ g ∈ N, g ≤ a ∧ a < g + 2 * pageSize

lemma Inside.mono {N N' : Multiset ℕ} {a : ℕ} (h : Inside N a) (hN : ∀ g ∈ N, g ∈ N') : Inside N' a := by
  obtain ⟨g, hg, hga⟩ := h
  exact ⟨g, hN g hg, hga⟩

variable {N : Multiset ℕ}

lemma entry_inside (hg : g ∈ N) (hi : i < 1024) : Inside N (entry g i) := by
  refine ⟨g, hg, ?_⟩
  simp only [entry, pageSize]
  omega

lemma entry_inj {j : ℕ} (hf : 2 * pageSize ∣ f) (hg : 2 * pageSize ∣ g) (hi : i < 1024) (hj : j < 1024)
    (h : entry f i = entry g j) : f = g ∧ i = j := by
  obtain ⟨x, rfl⟩ := hf
  obtain ⟨y, rfl⟩ := hg
  simp only [entry, pageSize] at *
  omega

/-- The nodes `N` and the boxes `B` share no memory. -/
structure Apart (N B : Multiset ℕ) : Prop where
  nodes : ∀ a ∈ N, 2 * pageSize ∣ a ∧ a ≠ 0
  nodup : N.Nodup
  boxes : ∀ b ∈ B, b ≠ 0
  boxNodup : B.Nodup
  boxApart : ∀ b ∈ B, ∀ b' ∈ B, b ≠ b' → b + vmaSize ≤ b' ∨ b' + vmaSize ≤ b
  outside : ∀ a ∈ N, ∀ b ∈ B, b + vmaSize ≤ a ∨ a + 2 * pageSize ≤ b

/-- The words of a node are in no other. -/
lemma Apart.entry_not_inside {X Y B : Multiset ℕ} (h : Apart (X + Y) B) (hg : g ∈ Y) (hi : i < 1024) :
    ¬ Inside X (entry g i) := by
  rintro ⟨x, hx, h1, h2⟩
  have hne : x ≠ g := fun hc => disjoint_left.mp (nodup_add.mp h.nodup).2.2 hx (hc ▸ hg)
  obtain ⟨y, hy⟩ := (h.nodes x (mem_add.mpr (.inl hx))).1
  obtain ⟨z, hz⟩ := (h.nodes g (mem_add.mpr (.inr hg))).1
  simp only [entry, pageSize] at *
  omega

variable {σ : Type} {E : Env σ}

/-- `Out e N B` says that the nodes `N` and the boxes `B` are out. -/
structure Lawful (E : Env σ) (Out : σ → Multiset ℕ → Multiset ℕ → Prop) : Prop where
  apart : ∀ {e N B}, Out e N B → Apart N B
  newNode : ∀ {e N B a}, Out e N B → (E.newNode e).1 = some a → Out (E.newNode e).2 (a ::ₘ N) B
  freeNode : ∀ {e N B a}, Out e (a ::ₘ N) B → Out (E.freeNode a e) N B
  newBox : ∀ {e N B b}, Out e N B → (E.newBox e).1 = some b → Out (E.newBox e).2 N (b ::ₘ B)
  dropBox : ∀ {e N B b}, Out e N (b ::ₘ B) → Out (E.dropBox b e) N B

lemma State.write_mem (s : State σ) (a v : ℕ) : (s.write a v).mem = s.mem.set a v := rfl

/-- A leaf's value changes. -/
lemma holds_leaf {m : ℕ → ℕ} {q : ℕ} (h : Trie.Holds 1024 (word mem) m 0 f q N)
    (hq : key start / 1024 ^ (0 + 1) = q) (p : ℕ) :
    Trie.Holds 1024 (word (mem.set (entry f (radixIndex start 0)) p)) (update m (key start) p) 0 f q N ∧
      ∀ a, ¬ Inside N a → mem.set (entry f (radixIndex start 0)) p a = mem a := by
  obtain ⟨hN, h⟩ := h
  obtain ⟨hi, hkey⟩ := radixIndex_digit (by norm_num) hq
  rw [pow_zero, Nat.div_one] at hkey
  refine ⟨⟨hN, fun i hi' => ?_⟩, fun a ha => ?_⟩
  · by_cases hc : i = radixIndex start 0
    · subst hc
      rw [← hkey, update_self, word, Heap.Cells.set_self]
    · rw [word, Heap.Cells.set_of_ne _ _ (by simp only [entry]; omega), update_of_ne (by omega)]
      exact h i hi'
  · refine Heap.Cells.set_of_ne _ _ fun hc => ha ?_
    rw [hc, hN]
    exact entry_inside (mem_singleton_self f) hi

lemma set_congr {mem mem' : Cells} {a e v : ℕ} (h : mem a = mem' a) : mem.set e v a = mem'.set e v a := by
  simp only [Cells.set, update_apply, h]

lemma cons_add_add (X R R' : Multiset ℕ) : f ::ₘ (X + R) + R' = X + (f ::ₘ (R + R')) := by
  rw [cons_add, add_cons, add_assoc]

/-- The child on the way of a key, and the node with the link `c` to another
child there, when the memory changes in the nodes `Y` besides. -/
lemma relink {m : ℕ → ℕ} {l q : ℕ} (hi : i < 1024) (hkey : key start / 1024 ^ (l + 1) = q * 1024 + i)
    (h : Trie.Holds 1024 (word mem) m (l + 1) f q N) :
    ∃ Ni R : Multiset ℕ, N = f ::ₘ (Ni + R) ∧ Trie.Below 1024 (word mem) m l (mem (entry f i)) (q * 1024 + i) Ni ∧
      ∀ {mem' : Cells} {X Y R' B : Multiset ℕ} {c p : ℕ}, Apart (Y + (f ::ₘ (R + R'))) B →
        (∀ a, ¬ Inside Y a → mem' a = mem.set (entry f i) c a) →
        Trie.Below 1024 (word mem') (update m (key start) p) l c (q * 1024 + i) X →
        Trie.Holds 1024 (word mem') (update m (key start) p) (l + 1) f q (f ::ₘ (X + R)) := by
  obtain ⟨Ni, R, hN, hB, hrebuild⟩ := h.split hi
  refine ⟨Ni, R, hN, hB, fun {mem' X Y R' B c p} hA hframe hX => ?_⟩
  have hf : f ∈ f ::ₘ (R + R') := mem_cons_self _ _
  have hR : ∀ g ∈ R, g ∈ f ::ₘ (R + R') := fun g hg => mem_cons_of_mem (mem_add.mpr (.inl hg))
  have hword : ∀ g ∈ f ::ₘ (R + R'), ∀ j < 1024, mem' (entry g j) = mem.set (entry f i) c (entry g j) :=
    fun g hg j hj => hframe _ (hA.entry_not_inside hg hj)
  have hother : ∀ g ∈ f ::ₘ (R + R'), ∀ j < 1024, ¬ (g = f ∧ j = i) → mem' (entry g j) = mem (entry g j) := by
    intro g hg j hj hne
    have hdiv := fun x hx => (hA.nodes x (mem_add.mpr (.inr hx))).1
    rw [hword g hg j hj, Heap.Cells.set_of_ne _ _ fun hc => hne (entry_inj (hdiv g hg) (hdiv f hf) hj hi hc)]
  have hfR : f ∉ R := fun hc => (nodup_cons.mp (nodup_add.mp hA.nodup).2.1).1 (mem_add.mpr (.inl hc))
  refine hrebuild (fun j hj hji => hother f hf j hj fun hc => hji hc.2)
    (fun g hg j hj => hother g (hR g hg) j hj fun hc => hfR (hc.1 ▸ hg))
    (fun v hv => update_of_ne (fun hc => hv (by rw [hc]; exact hkey)) _ _) ?_
  rw [word, hword f hf i hi, Heap.Cells.set_self]
  exact hX

/-! ### Insertion -/

section

variable {Out : σ → Multiset ℕ → Multiset ℕ → Prop} (hL : Lawful E Out)

include hL

lemma newZeroed_ok {s s' : State σ} {N B : Multiset ℕ} {page : ℕ} (h : Out s.env N B)
    (hr : newZeroed E s = some (page, s')) : Out s'.env (page ::ₘ N) B ∧ s'.root = s.root ∧
    (∀ a, Inside {page} a → s'.mem a = 0) ∧ ∀ a, ¬ Inside {page} a → s'.mem a = s.mem a := by
  have hn := hL.newNode (a := page) h
  unfold newZeroed at hr
  split at hr
  · rename_i p env he
    simp only [Option.some.injEq, Prod.mk.injEq] at hr
    obtain ⟨rfl, rfl⟩ := hr
    rw [he] at hn
    refine ⟨hn rfl, rfl, fun a ha => if_pos ?_, fun a ha => if_neg fun hc => ha ⟨p, mem_singleton_self p, hc⟩⟩
    obtain ⟨g, hg, ha⟩ := ha
    rwa [mem_singleton.mp hg] at ha
  · cases hr

/-- The way down to a leaf, with the nodes that are missing, and the value
there. -/
lemma insertLoop_ok {p : ℕ} (hp : p ≠ 0) {B : Multiset ℕ} {m : ℕ → ℕ} {l q : ℕ} {N R : Multiset ℕ}
    {s s' : State σ} (hl : l < 4) (h : Trie.Holds 1024 (word s.mem) m l f q N) (hq : key start / 1024 ^ (l + 1) = q)
    (ho : Out s.env (N + R) B) (hr : insertLoop E start l f s = some (leaf, s')) :
    ∃ New : Multiset ℕ, Out s'.env (New + N + R) B ∧ s'.root = s.root ∧
      Trie.Holds 1024 (word (s'.mem.set (entry leaf (radixIndex start 0)) p)) (update m (key start) p) l f q
        (New + N) ∧
      ∀ a, ¬ Inside (New + N) a → s'.mem.set (entry leaf (radixIndex start 0)) p a = s.mem a := by
  induction l generalizing f q N R s with
  | zero =>
    simp only [insertLoop, Option.some.injEq, Prod.mk.injEq] at hr
    obtain ⟨rfl, rfl⟩ := hr
    refine ⟨0, by rwa [zero_add], rfl, ?_⟩
    rw [zero_add]
    exact holds_leaf h hq p
  | succ l ih =>
    obtain ⟨hi, hkey⟩ := radixIndex_digit hl hq
    rw [insertLoop] at hr
    generalize radixIndex start (l + 1) = i at *
    obtain ⟨Ni, R', rfl, hB, hdone⟩ := relink hi hkey h
    have hp' : ∃ v, v / 1024 ^ (l + 1) = q * 1024 + i ∧ update m (key start) p v ≠ 0 :=
      ⟨_, hkey, by rwa [update_self]⟩
    split at hr
    · rename_i hzero
      obtain ⟨⟨page, s1⟩, hnew, hr⟩ := Option.bind_eq_some_iff.mp hr
      obtain ⟨-, rfl, hmz⟩ := hB.resolve_right fun hc => hc.1 hzero
      obtain ⟨ho1, hroot, hz, hframe⟩ := newZeroed_ok hL ho hnew
      have hA := hL.apart ho1
      have hpage : page ≠ 0 := (hA.nodes page (mem_cons_self _ _)).2
      rw [← singleton_add] at hA ho1
      have hf := hA.entry_not_inside (mem_add.mpr (.inl h.self_mem)) hi
      -- the link to the new node is outside it
      have hlink : ∀ j < 1024, (s1.write (entry f i) page).mem (entry page j) = 0 := by
        intro j hj
        have hj' := entry_inside (mem_singleton_self page) hj
        have hne : entry page j ≠ entry f i := fun hc => hf (hc ▸ hj')
        rw [write_mem, Heap.Cells.set_of_ne _ _ hne]
        exact hz _ hj'
      obtain ⟨New, ho2, hroot2, hH, hframe2⟩ := ih (N := {page}) (by omega) (Trie.Holds.zero l hlink hmz) hkey ho1 hr
      have hset : ∀ a, ¬ Inside (New + {page}) a →
          s'.mem.set (entry leaf (radixIndex start 0)) p a = s.mem.set (entry f i) page a := fun a ha =>
        (hframe2 a ha).trans (set_congr (hframe a fun hc => ha (hc.mono fun g hg => mem_add.mpr (.inr hg))))
      refine ⟨New + {page}, by rwa [add_assoc], hroot2.trans hroot, ?_, fun a ha => ?_⟩
      · rw [cons_add_add, zero_add] at ho2
        rw [zero_add, add_cons]
        exact hdone (hL.apart ho2) hset (.inr ⟨hpage, hH, hp'⟩)
      · rw [hset a fun hc => ha (hc.mono fun g hg => mem_add.mpr (.inl hg)), Heap.Cells.set_of_ne]
        rintro rfl
        exact ha (entry_inside (mem_add.mpr (.inr h.self_mem)) hi)
    · rename_i hne
      obtain ⟨-, hc, -⟩ := hB.resolve_left fun hc => hne hc.1
      rw [cons_add_add] at ho
      obtain ⟨New, ho2, hroot2, hH, hframe2⟩ := ih (by omega) hc hkey ho hr
      have hsum : New + (f ::ₘ (Ni + R')) = f ::ₘ (New + Ni + R') := by
        rw [add_cons, add_assoc]
      refine ⟨New, ?_, hroot2, ?_, fun a ha => hframe2 a fun hc => ha (hc.mono fun g hg => ?_)⟩
      · rwa [hsum, cons_add_add]
      · rw [hsum]
        refine hdone (hL.apart ho2) (fun a ha => ?_) (.inr ⟨hne, hH, hp'⟩)
        rw [hframe2 a ha, Cells.set, update_eq_self]
      · rw [hsum]
        exact mem_cons_of_mem (mem_add.mpr (.inl hg))

end

/-- The tree stores `m`, the addresses of boxes by keys, in the nodes `N`. -/
structure Inv (Out : σ → Multiset ℕ → Multiset ℕ → Prop) (s : State σ) (m : ℕ → ℕ) (N B : Multiset ℕ) : Prop where
  tree : Trie.Below 1024 (word s.mem) m 3 s.root 0 N
  out : Out s.env N B
  boxes : ∀ v, m v ≠ 0 → v / 1024 ^ (3 + 1) = 0 ∧ m v ∈ B
  inj : ∀ v u, m v ≠ 0 → m v = m u → v = u

namespace Inv

variable {Out : σ → Multiset ℕ → Multiset ℕ → Prop} {s : State σ} {m : ℕ → ℕ} {N B : Multiset ℕ}

/-- No area lies in a node. -/
lemma box_not_inside (hL : Lawful E Out) (h : Inv Out s m N B) {a : ℕ} (hb : b ∈ B) (h1 : b ≤ a)
    (h2 : a < b + vmaSize) : ¬ Inside N a := by
  rintro ⟨g, hg, hg1, hg2⟩
  have := (hL.apart h.out).outside g hg b hb
  omega

/-- A box goes into the tree. -/
lemma insert (hL : Lawful E Out) (h : Inv Out s m N B) {s' : State σ} (hb : b ∈ B) (hnew : ∀ v, m v ≠ b)
    (hr : insert E b s = some s') : ∃ New : Multiset ℕ, Inv Out s' (update m (key (s.mem (startOf b))) b) (New + N) B ∧
      ∀ a, ¬ Inside (New + N) a → s'.mem a = s.mem a := by
  have hb0 : b ≠ 0 := (hL.apart h.out).boxes b hb
  have hkey := key_lt (s.mem (startOf b))
  -- once the root is there
  have hdone : ∀ {s1 q : State σ} {f leaf : ℕ} {N1 : Multiset ℕ}, f ≠ 0 → s1.root = f →
      Trie.Holds 1024 (word s1.mem) m 3 f 0 N1 → Out s1.env N1 B →
      insertLoop E (s.mem (startOf b)) 3 f s1 = some (leaf, q) →
      ∃ New : Multiset ℕ, Inv Out (q.write (entry leaf (radixIndex (s.mem (startOf b)) 0)) b)
          (update m (key (s.mem (startOf b))) b) (New + N1) B ∧
        ∀ a, ¬ Inside (New + N1) a → (q.write (entry leaf (radixIndex (s.mem (startOf b)) 0)) b).mem a = s1.mem a := by
    intro s1 q f leaf N1 hf hroot hH ho hr
    obtain ⟨New, ho', hroot', hH', hframe⟩ := insertLoop_ok hL hb0 (R := 0) (by norm_num) hH hkey
      (by rwa [add_zero]) hr
    rw [add_zero] at ho'
    refine ⟨New, ⟨.inr ⟨?_, ?_, _, hkey, by rwa [update_self]⟩, ho', fun v hv => ?_, fun v u hv hvu => ?_⟩, hframe⟩
    · change q.root ≠ 0
      rwa [hroot', hroot]
    · change Trie.Holds _ _ _ _ q.root _ _
      rw [hroot', hroot]
      exact hH'
    · by_cases hvk : v = key (s.mem (startOf b))
      · rw [hvk, update_self]
        exact ⟨hkey, hb⟩
      · rw [update_of_ne hvk] at hv ⊢
        exact h.boxes v hv
    · by_cases hvk : v = key (s.mem (startOf b))
      · by_cases huk : u = key (s.mem (startOf b))
        · exact hvk.trans huk.symm
        · rw [hvk, update_self, update_of_ne huk] at hvu
          exact absurd hvu.symm (hnew u)
      · rw [update_of_ne hvk] at hv hvu
        by_cases huk : u = key (s.mem (startOf b))
        · rw [huk, update_self] at hvu
          exact absurd hvu (hnew v)
        · rw [update_of_ne huk] at hvu
          exact h.inj v u hv hvu
  unfold VmaTree.insert at hr
  obtain ⟨⟨f, s1⟩, hroot, hr⟩ := Option.bind_eq_some_iff.mp hr
  obtain ⟨⟨leaf, q⟩, hloop, hr⟩ := Option.bind_eq_some_iff.mp hr
  cases hr
  unfold withRoot at hroot
  rcases h.tree with ⟨hc, rfl, hz⟩ | ⟨hc, hH, -⟩
  · rw [if_pos hc] at hroot
    obtain ⟨⟨f', s2⟩, hpage, he⟩ := Option.map_eq_some_iff.mp hroot
    obtain ⟨rfl, rfl⟩ : f' = f ∧ _ = s1 := by simpa using he
    obtain ⟨ho1, -, hzero, hframe⟩ := newZeroed_ok hL h.out hpage
    have hf : f' ≠ 0 := ((hL.apart ho1).nodes f' (mem_cons_self _ _)).2
    have hH : Trie.Holds 1024 (word s2.mem) m 3 f' 0 {f'} :=
      Trie.Holds.zero 3 (fun i hi => hzero _ (entry_inside (mem_singleton_self f') hi)) hz
    obtain ⟨New, hI, hframe'⟩ := @hdone { s2 with root := f' } q f' leaf {f'} hf rfl hH ho1 hloop
    refine ⟨New + {f'}, by rwa [add_zero], fun a ha => ?_⟩
    rw [add_zero] at ha
    rw [hframe' a ha]
    exact hframe a fun hc => ha (hc.mono fun g hg => mem_add.mpr (.inr hg))
  · rw [if_neg hc] at hroot
    obtain ⟨rfl, rfl⟩ : s.root = f ∧ s = s1 := by simpa using hroot
    exact hdone hc rfl hH h.out hloop

end Inv

/-! ### Removal -/

/-- The way of `start` from `f` down to the leaf, as `remove` records it. -/
def OnWay (mem : Cells) (start : ℕ) (path : ℕ → ℕ × ℕ) (leaf : ℕ) : ℕ → ℕ → Prop
  | 0, f => leaf = f
  | l + 1, f => path (l + 1) = (f, radixIndex start (l + 1)) ∧
    OnWay mem start path leaf l (mem (entry f (radixIndex start (l + 1))))

lemma removeLoop_onWay {path' : ℕ → ℕ × ℕ} : ∀ {l f : ℕ} {path : ℕ → ℕ × ℕ},
    removeLoop mem start l f path = some (leaf, path') → OnWay mem start path' leaf l f ∧ ∀ j > l, path' j = path j
  | 0, f, path, h => by
    simp only [removeLoop, Option.some.injEq, Prod.mk.injEq] at h
    obtain ⟨rfl, rfl⟩ := h
    exact ⟨rfl, fun _ _ => rfl⟩
  | l + 1, f, path, h => by
    rw [removeLoop] at h
    split at h
    · cases h
    · obtain ⟨h1, h2⟩ := removeLoop_onWay h
      refine ⟨⟨?_, h1⟩, fun j hj => ?_⟩
      · rw [h2 (l + 1) (Nat.lt_succ_self l), update_self]
      · rw [h2 j (by omega), update_of_ne (by omega)]

lemma removeLoop_fst : ∀ {l f : ℕ} (path : ℕ → ℕ × ℕ),
    (removeLoop mem start l f path).map Prod.fst = lookupLoop mem start l f
  | 0, f, path => rfl
  | l + 1, f, path => by
    rw [removeLoop, lookupLoop]
    split
    · rfl
    · exact removeLoop_fst _

/-- What the loops find. -/
lemma lookupLoop_find (addr : ℕ) : ∀ {l f : ℕ}, l < 4 → Trie.find 1024 (word mem) l f (key addr) =
      ((lookupLoop mem addr l f).map fun leaf => mem (entry leaf (radixIndex addr 0))).getD 0
  | 0, f, _ => by
    rw [Trie.find, lookupLoop, radixIndex_eq addr (by norm_num), pow_zero, Nat.div_one]
    rfl
  | l + 1, f, hl => by
    rw [Trie.find, lookupLoop, ← radixIndex_eq addr hl]
    by_cases hz : mem (entry f (radixIndex addr (l + 1))) = 0
    · rw [if_pos hz, if_pos (show word mem f _ = 0 from hz)]
      rfl
    · rw [if_neg hz, if_neg (show word mem f _ ≠ 0 from hz)]
      exact lookupLoop_find addr (by omega)

lemma hasEntries_iff : hasEntries mem f = true ↔ ∃ i < 1024, word mem f i ≠ 0 := by
  rw [hasEntries, List.any_eq_true]
  have hsize : radixSize = 1024 := rfl
  simp only [hsize, List.mem_range, decide_eq_true_eq, word]

/-- A node without entries stores nothing. -/
lemma holds_empty {m : ℕ → ℕ} {l q : ℕ} (h : Trie.Holds 1024 (word mem) m l f q N)
    (he : hasEntries mem f = false) : N = {f} ∧ ∀ v, v / 1024 ^ (l + 1) = q → m v = 0 := by
  have hzero : ∀ i < 1024, word mem f i = 0 := by
    intro i hi
    by_contra hne
    exact Bool.eq_false_iff.mp he (hasEntries_iff.mpr ⟨i, hi, hne⟩)
  refine ⟨h.eq_singleton hzero, fun v hv => ?_⟩
  by_contra hne
  obtain ⟨i, hi, hw⟩ := (h.exists_word_iff (by norm_num)).mpr ⟨v, hv, hne⟩
  exact hw (hzero i hi)

section

variable {path : ℕ → ℕ × ℕ} {n level node : ℕ} {s : State σ}

lemma freeUp_stop (h : hasEntries s.mem node = true) : freeUp E path (n + 1) level node s = s := by
  rw [freeUp, if_pos h]

lemma freeUp_step (h : hasEntries s.mem node = false) (hl : level + 1 < 4) : freeUp E path (n + 1) level node s =
    freeUp E path n (level + 1) (path (level + 1)).1
      (write { s with env := E.freeNode node s.env } (entry (path (level + 1)).1 (path (level + 1)).2) 0) := by
  rw [freeUp, if_neg (Bool.eq_false_iff.mp h)]
  exact if_pos hl

/-- A run of the loop that has come to `node`. -/
lemma freeUp_cases {s' : State σ} (h : s' = freeUp E path (n + 1) level node s) :
    (hasEntries s.mem node = true ∧ s' = s) ∨
      (hasEntries s.mem node = false ∧ s' = freeUp E path (n + 1) level node s) := by
  rcases Bool.eq_false_or_eq_true (hasEntries s.mem node) with hc | hc
  · exact .inl ⟨hc, h.trans (freeUp_stop hc)⟩
  · exact .inr ⟨hc, h⟩

end

section

variable {Out : σ → Multiset ℕ → Multiset ℕ → Prop} (hL : Lawful E Out)

include hL

/-- After the value of `start` was cleared, the loop frees the nodes on its
way that are empty. It stops at one that is not, or it gets to `f`. -/
lemma freeUp_ok {path : ℕ → ℕ × ℕ} {B : Multiset ℕ} {m : ℕ → ℕ} {s : State σ}
    (hs : s.mem = mem.set (entry leaf (radixIndex start 0)) 0) (hm : m (key start) ≠ 0) {l q j : ℕ} {N R : Multiset ℕ}
    (hl : l < 4) (h : Trie.Holds 1024 (word mem) m l f q N) (hq : key start / 1024 ^ (l + 1) = q)
    (ho : Out s.env (N + R) B) (hway : OnWay mem start path leaf l f) :
    ∃ s' : State σ, s'.root = s.root ∧ (∀ a, ¬ Inside N a → s'.mem a = mem a) ∧ ∃ N' : Multiset ℕ,
      Out s'.env (N' + R) B ∧ Trie.Holds 1024 (word s'.mem) (update m (key start) 0) l f q N' ∧
      ((hasEntries s'.mem f = true ∧ freeUp E path (j + l + 1) 0 leaf s = s') ∨
        (hasEntries s'.mem f = false ∧ freeUp E path (j + l + 1) 0 leaf s = freeUp E path (j + 1) l f s')) := by
  induction l generalizing f q N R j with
  | zero =>
    obtain rfl : leaf = f := hway
    obtain ⟨hH, hframe⟩ := holds_leaf h hq 0
    rw [← hs] at hH hframe
    exact ⟨s, rfl, hframe, N, ho, hH, freeUp_cases rfl⟩
  | succ l ih =>
    obtain ⟨hi, hkey⟩ := radixIndex_digit hl hq
    obtain ⟨hpath, hway⟩ := hway
    generalize radixIndex start (l + 1) = i at *
    obtain ⟨Ni, R', rfl, hB, hdone⟩ := relink hi hkey h
    obtain ⟨hc0, hc, -⟩ := hB.resolve_left fun hc => hm (hc.2.2 _ hkey)
    rw [cons_add_add] at ho
    obtain ⟨s1, hroot, hframe, N1, ho1, hH, hstop⟩ := ih (j := j + 1) (by omega) hc hkey ho hway
    rw [show j + 1 + l + 1 = j + (l + 1) + 1 by omega] at hstop
    have hA := hL.apart ho
    have hNi : ∀ a, ¬ Inside (f ::ₘ (Ni + R')) a → ¬ Inside Ni a := fun a ha hc =>
      ha (hc.mono fun g hg => mem_cons_of_mem (mem_add.mpr (.inl hg)))
    rcases hstop with ⟨hent, hstop⟩ | ⟨hent, hstop⟩
    · -- the child stays, and so does this node
      have hlink : s1.mem (entry f i) = mem (entry f i) := hframe _ (hA.entry_not_inside (mem_cons_self _ _) hi)
      refine ⟨s1, hroot, fun a ha => hframe a (hNi a ha), _, by rw [cons_add_add]; exact ho1, ?_, ?_⟩
      · refine hdone hA (fun a ha => ?_) (.inr ⟨hc0, hH, (hH.exists_word_iff (by norm_num)).mp (hasEntries_iff.mp hent)⟩)
        rw [hframe a ha, Cells.set, update_eq_self]
      · exact .inl ⟨hasEntries_iff.mpr ⟨i, hi, fun hc => hc0 (hlink.symm.trans hc)⟩, hstop⟩
    · -- the child is freed and its link cleared
      obtain ⟨rfl, hkeys⟩ := holds_empty hH hent
      rw [freeUp_step hent hl, hpath] at hstop
      rw [singleton_add] at ho1
      refine ⟨write { s1 with env := E.freeNode (word mem f i) s1.env } (entry f i) 0, hroot, fun a ha => ?_, _, ?_,
        hdone (X := 0) hA (fun a ha => set_congr (hframe a ha)) (.inl ⟨rfl, rfl, hkeys⟩), freeUp_cases hstop⟩
      · rw [write_mem, Heap.Cells.set_of_ne]
        · exact hframe a (hNi a ha)
        · rintro rfl
          exact ha (entry_inside h.self_mem hi)
      · rw [cons_add_add, zero_add]
        exact hL.freeNode ho1

end

lemma freeUp_root {path : ℕ → ℕ × ℕ} {node : ℕ} {s : State σ} (h : hasEntries s.mem node = false) :
    freeUp E path 1 3 node s = { s with env := E.freeNode node s.env, root := 0 } := by
  rw [freeUp, if_neg (Bool.eq_false_iff.mp h)]
  exact if_neg (by simp [radixLevels])

namespace Inv

variable {Out : σ → Multiset ℕ → Multiset ℕ → Prop} {s : State σ} {m : ℕ → ℕ} {N B : Multiset ℕ}

/-- What the walk of `lookup` and `remove` finds. -/
lemma find_eq (h : Inv Out s m N B) (hroot : s.root ≠ 0) (addr : ℕ) :
    ((lookupLoop s.mem addr 3 s.root).map fun leaf => s.mem (entry leaf (radixIndex addr 0))).getD 0 = m (key addr) := by
  obtain ⟨-, hH, -⟩ := h.tree.resolve_left fun hc => hroot hc.1
  rw [← lookupLoop_find addr (by norm_num)]
  exact hH.find_eq (by norm_num) (key_lt addr)

lemma map_zero (h : Inv Out s m N B) (hroot : s.root = 0) (v : ℕ) : m v = 0 := by
  obtain ⟨-, -, hz⟩ := h.tree.resolve_right fun hc => hc.1 hroot
  by_contra hne
  exact hne (hz v (h.boxes v hne).1)

lemma lookup (h : Inv Out s m N B) (addr : ℕ) :
    lookup addr s = if m (key addr) = 0 then none else some (m (key addr)) := by
  unfold VmaTree.lookup
  by_cases hroot : s.root = 0
  · rw [if_pos hroot, if_pos (h.map_zero hroot _)]
  · have hf := h.find_eq hroot addr
    rw [if_neg hroot]
    change (lookupLoop s.mem addr 3 s.root).bind _ = _
    cases hloop : lookupLoop s.mem addr 3 s.root with
    | none =>
      rw [hloop] at hf
      rw [if_pos (show m (key addr) = 0 from hf.symm)]
      rfl
    | some leaf =>
      rw [hloop] at hf
      rw [← hf]
      rfl

lemma remove (hL : Lawful E Out) (h : Inv Out s m N B) (start : ℕ) :
    (remove E start s).1 = decide (m (key start) ≠ 0) ∧ (∀ a, ¬ Inside N a → (remove E start s).2.mem a = s.mem a) ∧
    ∃ N' B' : Multiset ℕ, B' ≤ B ∧ Inv Out (remove E start s).2 (update m (key start) 0) N' B' := by
  -- nothing is there: the state stays as it is
  have hnone : m (key start) = 0 → VmaTree.remove E start s = (false, s) →
      (VmaTree.remove E start s).1 = decide (m (key start) ≠ 0) ∧
      (∀ a, ¬ Inside N a → (VmaTree.remove E start s).2.mem a = s.mem a) ∧
      ∃ N' B' : Multiset ℕ, B' ≤ B ∧ Inv Out (VmaTree.remove E start s).2 (update m (key start) 0) N' B' := by
    intro hm he
    rw [he, hm]
    refine ⟨by simp, fun _ _ => rfl, N, B, le_rfl, ?_⟩
    rw [← hm, update_eq_self]
    exact h
  by_cases hroot : s.root = 0
  · exact hnone (h.map_zero hroot _) (by rw [VmaTree.remove, if_pos hroot])
  have hf := h.find_eq hroot start
  cases hloop : removeLoop s.mem start 3 s.root fun _ => (0, 0) with
  | none =>
    have hl : lookupLoop s.mem start 3 s.root = none := by
      rw [← removeLoop_fst fun _ => (0, 0), hloop]
      rfl
    rw [hl] at hf
    refine hnone hf.symm ?_
    rw [VmaTree.remove, if_neg hroot]
    simp only [radixLevels, hloop]
  | some r =>
    obtain ⟨leaf, path⟩ := r
    have hl : lookupLoop s.mem start 3 s.root = some leaf := by
      rw [← removeLoop_fst fun _ => (0, 0), hloop]
      rfl
    rw [hl] at hf
    replace hf : s.mem (entry leaf (radixIndex start 0)) = m (key start) := hf
    by_cases hm : m (key start) = 0
    · refine hnone hm ?_
      rw [VmaTree.remove, if_neg hroot]
      simp only [radixLevels, hloop]
      have hset : s.mem.set (entry leaf (radixIndex start 0)) 0 = s.mem := update_eq_self_iff.mpr (hf.trans hm).symm
      rw [if_pos (hf.trans hm), write, hset]
    · obtain ⟨-, hbox⟩ := h.boxes _ hm
      obtain ⟨B', rfl⟩ := exists_cons_of_mem hbox
      obtain ⟨-, hH, -⟩ := h.tree.resolve_left fun hc => hroot hc.1
      obtain ⟨hway, -⟩ := removeLoop_onWay hloop
      have ho := hL.dropBox h.out
      have hfree := freeUp_ok hL (s := write { s with env := E.dropBox (m (key start)) s.env }
        (entry leaf (radixIndex start 0)) 0) (j := 0) (show _ = s.mem.set _ 0 from rfl) hm (by norm_num) hH
        (key_lt start)
        (by rw [add_zero]; exact ho) hway
      obtain ⟨s', hroot', hframe, N', ho', hH', hstop⟩ := hfree
      rw [add_zero] at ho'
      have he : VmaTree.remove E start s = (true, freeUp E path (0 + 3 + 1) 0 leaf
          (write { s with env := E.dropBox (m (key start)) s.env } (entry leaf (radixIndex start 0)) 0)) := by
        rw [VmaTree.remove, if_neg hroot]
        simp only [radixLevels, hloop]
        rw [if_neg (show s.mem (entry leaf (radixIndex start 0)) ≠ 0 from hf ▸ hm), hf]
        rfl
      have hboxes : ∀ v, update m (key start) 0 v ≠ 0 → v / 1024 ^ (3 + 1) = 0 ∧ update m (key start) 0 v ∈ B' := by
        intro v hv
        have hvk : v ≠ key start := fun hc => hv (by rw [hc, update_self])
        rw [update_of_ne hvk] at hv ⊢
        refine ⟨(h.boxes v hv).1, (mem_cons.mp (h.boxes v hv).2).resolve_left fun hc => hvk ?_⟩
        exact h.inj v _ hv hc
      have hinj : ∀ v u, update m (key start) 0 v ≠ 0 →
          update m (key start) 0 v = update m (key start) 0 u → v = u := by
        intro v u hv hvu
        have hvk : v ≠ key start := fun hc => hv (by rw [hc, update_self])
        have huk : u ≠ key start := fun hc => hv (by rw [hvu, hc, update_self])
        rw [update_of_ne hvk] at hv hvu
        rw [update_of_ne huk] at hvu
        exact h.inj v u hv hvu
      rw [he, decide_eq_true hm]
      rcases hstop with ⟨hent, hstop⟩ | ⟨hent, hstop⟩
      · rw [hstop]
        refine ⟨rfl, hframe, N', B', le_cons_self _ _, ?_, ho', hboxes, hinj⟩
        rw [hroot']
        exact .inr ⟨hroot, hH', (hH'.exists_word_iff (by norm_num)).mp (hasEntries_iff.mp hent)⟩
      · -- the root is empty too
        rw [hstop, freeUp_root hent]
        obtain ⟨rfl, hkeys⟩ := holds_empty hH' hent
        exact ⟨rfl, hframe, 0, B', le_cons_self _ _, .inl ⟨rfl, rfl, hkeys⟩, hL.freeNode ho', hboxes, hinj⟩

end Inv

end LodaxOS.VmaTree
