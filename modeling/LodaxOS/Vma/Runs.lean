/-
# Sequences of calls of the VMA tree

A `Ledger` beside the environment counts the nodes and boxes that were handed
out and given back. After any sequence of insertions and removals of starts
that are canonical and page-aligned, the tree is the map that the sequence
stands for, and its nodes are those on the ways to the areas that are present
(`tree_is_map`).

The traversals go one level deeper than the tree: they take the areas for
nodes. So they agree with the map only when the tree is empty
(`traversal_iff`).
-/
import LodaxOS.Vma.Tree

namespace LodaxOS.VmaTree

open Function Multiset
open Phys (pageSize)
open Heap (Cells)

variable {σ : Type} {E : Env σ} {Out : σ → Multiset ℕ → Multiset ℕ → Prop}

/-! ### What was handed out and given back -/

structure Ledger where
  nodesOut : Multiset ℕ
  nodesBack : Multiset ℕ
  boxesOut : Multiset ℕ
  boxesBack : Multiset ℕ

def recorded (E : Env σ) : Env (σ × Ledger) where
  newNode e := ((E.newNode e.1).1, (E.newNode e.1).2,
    match (E.newNode e.1).1 with
    | some a => { e.2 with nodesOut := a ::ₘ e.2.nodesOut }
    | none => e.2)
  freeNode a e := (E.freeNode a e.1, { e.2 with nodesBack := a ::ₘ e.2.nodesBack })
  newBox e := ((E.newBox e.1).1, (E.newBox e.1).2,
    match (E.newBox e.1).1 with
    | some b => { e.2 with boxesOut := b ::ₘ e.2.boxesOut }
    | none => e.2)
  dropBox b e := (E.dropBox b e.1, { e.2 with boxesBack := b ::ₘ e.2.boxesBack })

/-- What is out is what was handed out and not given back. -/
def Balanced (Out : σ → Multiset ℕ → Multiset ℕ → Prop) (e : σ × Ledger) (N B : Multiset ℕ) : Prop :=
  Out e.1 N B ∧ e.2.nodesOut = e.2.nodesBack + N ∧ e.2.boxesOut = e.2.boxesBack + B

lemma recorded_lawful (hL : Lawful E Out) : Lawful (recorded E) (Balanced Out) where
  apart h := hL.apart h.1
  newNode h hr := by
    have hr' : (E.newNode _).1 = some _ := hr
    refine ⟨hL.newNode h.1 hr, ?_⟩
    simp only [recorded, hr']
    exact ⟨by rw [h.2.1, add_cons], h.2.2⟩
  freeNode h := by
    refine ⟨hL.freeNode h.1, ?_, h.2.2⟩
    have h1 := h.2.1
    rw [add_cons, ← cons_add] at h1
    exact h1
  newBox h hr := by
    have hr' : (E.newBox _).1 = some _ := hr
    refine ⟨hL.newBox h.1 hr, ?_⟩
    simp only [recorded, hr']
    exact ⟨h.2.1, by rw [h.2.2, add_cons]⟩
  dropBox h := by
    refine ⟨hL.dropBox h.1, h.2.1, ?_⟩
    have h1 := h.2.2
    rw [add_cons, ← cons_add] at h1
    exact h1

/-! ### Calls and the map -/

/-- An insertion of a boxed area, or a removal. -/
inductive Op
  | insert (vma : Vma)
  | remove (start : ℕ)

/-- A start that the callers may use. -/
def IsStart (a : ℕ) : Prop := Canonical a ∧ 4096 ∣ a

namespace Op

def start : Op → ℕ
  | insert vma => vma.start
  | remove start => start

/-- What a call does to the map. -/
def apply (c : ℕ → Option Vma) : Op → ℕ → Option Vma
  | insert vma => update c vma.start (some vma)
  | remove start => update c start none

variable (E) in
def run : Op → State σ → Option (State σ)
  | insert vma, s => addVma E vma s
  | remove start, s => some (VmaTree.remove E start s).2

end Op

variable (E) in
def runOps : List Op → State σ → Option (State σ)
  | [], s => some s
  | op :: ops, s => (op.run E s).bind (runOps ops)

/-- The areas after the calls, each by its start. -/
def contents (ops : List Op) : ℕ → Option Vma := ops.foldl Op.apply fun _ => none

/-- The area `vma` is at `p`. -/
def VmaAt (mem : Cells) (p : ℕ) (vma : Vma) : Prop :=
  mem (startOf p) = vma.start ∧ mem (endOf p) = vma.end ∧ mem (permOf p) = vma.perm.toNat ∧ mem (flagsOf p) = vma.flags

lemma VmaAt.congr {mem mem' : Cells} {p : ℕ} {vma : Vma} (h : VmaAt mem p vma)
    (hm : ∀ a, p ≤ a → a < p + vmaSize → mem' a = mem a) : VmaAt mem' p vma := by
  obtain ⟨h1, h2, h3, h4⟩ := h
  refine ⟨?_, ?_, ?_, ?_⟩
  · rw [hm _ (by simp [startOf]) (by simp [startOf, vmaSize]), h1]
  · rw [hm _ (by simp [endOf]) (by simp [endOf, vmaSize]), h2]
  · rw [hm _ (by simp [permOf]) (by simp [permOf, vmaSize]), h3]
  · rw [hm _ (by simp [flagsOf]) (by simp [flagsOf, vmaSize]), h4]

lemma writeVma_at (mem : Cells) (p : ℕ) (vma : Vma) : VmaAt (writeVma mem p vma) p vma := by
  simp [VmaAt, writeVma, Cells.set, startOf, endOf, permOf, flagsOf]

lemma writeVma_of_ne (mem : Cells) {p a : ℕ} (vma : Vma) (ha : ¬ (p ≤ a ∧ a < p + vmaSize)) :
    writeVma mem p vma a = mem a := by
  simp only [vmaSize] at ha
  simp only [writeVma, startOf, endOf, permOf, flagsOf]
  rw [Heap.Cells.set_of_ne _ _ (by omega), Heap.Cells.set_of_ne _ _ (by omega), Heap.Cells.set_of_ne _ _ (by omega),
    Heap.Cells.set_of_ne _ _ (by omega)]

/-- The tree is the map `c`. -/
structure Represents (Out : σ → Multiset ℕ → Multiset ℕ → Prop) (s : State σ) (m : ℕ → ℕ) (N B : Multiset ℕ)
    (c : ℕ → Option Vma) : Prop where
  inv : Inv Out s m N B
  absent : ∀ a, IsStart a → c a = none → m (key a) = 0
  present : ∀ a vma, IsStart a → c a = some vma → m (key a) ≠ 0 ∧ VmaAt s.mem (m (key a)) vma
  starts : ∀ v, m v ≠ 0 → ∃ a, IsStart a ∧ key a = v

namespace Represents

variable {s s' : State σ} {m : ℕ → ℕ} {N B : Multiset ℕ} {c : ℕ → Option Vma}

lemma isSome_iff (h : Represents Out s m N B c) {a : ℕ} (ha : IsStart a) : (c a).isSome = true ↔ m (key a) ≠ 0 := by
  cases hc : c a with
  | none => simp [h.absent a ha hc]
  | some vma => simp [(h.present a vma ha hc).1]

lemma addVma (hL : Lawful E Out) (h : Represents Out s m N B c) {vma : Vma} (hv : IsStart vma.start)
    (hr : addVma E vma s = some s') :
    ∃ m' N' B', Represents Out s' m' N' B' (update c vma.start (some vma)) := by
  unfold VmaTree.addVma at hr
  split at hr
  swap
  · cases hr
  rename_i b env he
  have ho := hL.newBox (b := b) h.inv.out (by rw [he])
  rw [he] at ho
  have hA := hL.apart ho
  have hb : b ∉ B := (nodup_cons.mp hA.boxNodup).1
  -- the new box is outside the nodes and the other boxes
  have hnode : ∀ a, Inside N a → ¬ (b ≤ a ∧ a < b + vmaSize) := by
    rintro a ⟨g, hg, h1, h2⟩ hc
    have := hA.outside g hg b (mem_cons_self _ _)
    omega
  have hbox : ∀ b' ∈ B, ∀ a, b' ≤ a → a < b' + vmaSize → writeVma s.mem b vma a = s.mem a := by
    intro b' hb' a h1 h2
    refine writeVma_of_ne _ _ fun hc => ?_
    have hne : b ≠ b' := fun h => hb (h ▸ hb')
    have := hA.boxApart b (mem_cons_self _ _) b' (mem_cons_of_mem hb') hne
    omega
  have hI : Inv Out { s with env, mem := writeVma s.mem b vma } m N (b ::ₘ B) := by
    refine ⟨?_, ho, fun v hv => ⟨(h.inv.boxes v hv).1, mem_cons_of_mem (h.inv.boxes v hv).2⟩, h.inv.inj⟩
    refine h.inv.tree.imp id fun ⟨h1, h2, h3⟩ => ⟨h1, h2.congr (fun g hg i hi => ?_) fun _ _ => rfl, h3⟩
    exact writeVma_of_ne _ _ (hnode _ (entry_inside hg hi))
  have hnew : ∀ v, m v ≠ b := by
    intro v hvb
    have hb0 := hA.boxes b (mem_cons_self _ _)
    exact hb (hvb ▸ (h.inv.boxes v (hvb ▸ hb0)).2)
  have hstart : writeVma s.mem b vma (startOf b) = vma.start := (writeVma_at s.mem b vma).1
  obtain ⟨New, hI', hframe⟩ := hI.insert hL (mem_cons_self _ _) hnew hr
  simp only [hstart] at hI'
  have hkeep : ∀ b' ∈ b ::ₘ B, ∀ a, b' ≤ a → a < b' + vmaSize → s'.mem a = writeVma s.mem b vma a :=
    fun b' hb' a h1 h2 => hframe a (hI'.box_not_inside hL hb' h1 h2)
  have hother : ∀ {a}, IsStart a → a ≠ vma.start → update m (key vma.start) b (key a) = m (key a) :=
    fun {a} ha hne => update_of_ne (fun hc => hne (key_inj ha.1 hv.1 ha.2 hv.2 hc)) _ _
  refine ⟨_, _, _, hI', fun a ha hc => ?_, fun a vma' ha hc => ?_, fun v hv' => ?_⟩
  · have hne : a ≠ vma.start := by rintro rfl; simp at hc
    rw [update_of_ne hne] at hc
    rw [hother ha hne]
    exact h.absent a ha hc
  · by_cases hne : a = vma.start
    · subst hne
      obtain rfl : vma = vma' := by simpa using hc
      rw [update_self]
      exact ⟨hA.boxes b (mem_cons_self _ _),
        (writeVma_at s.mem b vma).congr fun a h1 h2 => hkeep b (mem_cons_self _ _) a h1 h2⟩
    · rw [update_of_ne hne] at hc
      rw [hother ha hne]
      obtain ⟨h1, h2⟩ := h.present a vma' ha hc
      have hmem := (h.inv.boxes _ h1).2
      refine ⟨h1, h2.congr fun x hx hx' => ?_⟩
      rw [hkeep _ (mem_cons_of_mem hmem) x hx hx', hbox _ hmem x hx hx']
  · by_cases hvk : v = key vma.start
    · exact ⟨vma.start, hv, hvk.symm⟩
    · rw [update_of_ne hvk] at hv'
      exact h.starts v hv'

lemma remove (hL : Lawful E Out) (h : Represents Out s m N B c) {start : ℕ} (hs : IsStart start) :
    ∃ m' N' B', Represents Out (remove E start s).2 m' N' B' (update c start none) := by
  obtain ⟨-, hframe, N', B', hB', hI'⟩ := h.inv.remove hL start
  refine ⟨_, N', B', hI', fun a ha hc => ?_, fun a vma ha hc => ?_, fun v hv => ?_⟩
  · by_cases hne : a = start
    · rw [hne, update_self]
    · rw [update_of_ne hne] at hc
      rw [update_of_ne fun hk => hne (key_inj ha.1 hs.1 ha.2 hs.2 hk)]
      exact h.absent a ha hc
  · have hne : a ≠ start := by rintro rfl; simp at hc
    rw [update_of_ne hne] at hc
    rw [update_of_ne fun hk => hne (key_inj ha.1 hs.1 ha.2 hs.2 hk)]
    obtain ⟨h1, h2⟩ := h.present a vma ha hc
    exact ⟨h1, h2.congr fun x hx hx' => hframe x (h.inv.box_not_inside hL (h.inv.boxes _ h1).2 hx hx')⟩
  · refine h.starts v fun hc => hv ?_
    by_cases hvk : v = key start
    · rw [hvk, update_self]
    · rw [update_of_ne hvk, hc]

/-- A call changes the map as it should. -/
lemma op (hL : Lawful E Out) (h : Represents Out s m N B c) {o : Op} (ho : IsStart o.start) (hr : o.run E s = some s') :
    ∃ m' N' B', Represents Out s' m' N' B' (o.apply c) := by
  cases o with
  | insert => exact h.addVma hL ho hr
  | remove =>
    cases hr
    exact h.remove hL ho

/-- So does a sequence of calls. -/
lemma ops (hL : Lawful E Out) : ∀ {os : List Op} {s : State σ} {m : ℕ → ℕ} {N B : Multiset ℕ} {c : ℕ → Option Vma},
    Represents Out s m N B c → (∀ o ∈ os, IsStart o.start) → runOps E os s = some s' →
    ∃ m' N' B', Represents Out s' m' N' B' (os.foldl Op.apply c)
  | [], s, m, N, B, c, h, _, hr => by
    cases hr
    exact ⟨m, N, B, h⟩
  | o :: os, s, m, N, B, c, h, ho, hr => by
    obtain ⟨s1, h1, hr⟩ := Option.bind_eq_some_iff.mp hr
    obtain ⟨m1, N1, B1, h'⟩ := h.op hL (ho o List.mem_cons_self) h1
    have hrest := ops hL h' (fun x hx => ho x (List.mem_cons_of_mem _ hx)) hr
    exact hrest

end Represents

/-- A tree before its first call. -/
def empty (e : σ) (mem : Cells) : State (σ × Ledger) := ⟨(e, ⟨0, 0, 0, 0⟩), mem, 0⟩

lemma empty_represents {e : σ} (he : Out e 0 0) (mem : Cells) :
    Represents (Balanced Out) (empty e mem) (fun _ => 0) 0 0 fun _ => none :=
  ⟨⟨Or.inl ⟨rfl, rfl, fun _ _ => rfl⟩, ⟨he, rfl, rfl⟩, fun _ h => absurd rfl h, fun _ _ h => absurd rfl h⟩,
    fun _ _ _ => rfl, fun _ _ _ h => by simp at h, fun _ h => absurd rfl h⟩

/-- After any calls, `lookup` and `remove` answer as the map does, and the
nodes that are out are those on the ways to the areas that are present. -/
theorem tree_is_map (hL : Lawful E Out) {e : σ} (he : Out e 0 0) (mem : Cells) {ops : List Op}
    (hops : ∀ o ∈ ops, IsStart o.start) {s : State (σ × Ledger)}
    (hr : runOps (recorded E) ops (empty e mem) = some s) :
    (∀ a, IsStart a → contents ops a = none → lookup a s = none) ∧
    (∀ a vma, IsStart a → contents ops a = some vma → ∃ p, lookup a s = some p ∧ VmaAt s.mem p vma) ∧
    (∀ a, IsStart a → (remove (recorded E) a s).1 = (contents ops a).isSome) ∧
    ∃ N : Multiset ℕ, N.Nodup ∧ s.env.2.nodesOut = s.env.2.nodesBack + N ∧ ∀ g, g ∈ N ↔
      ∃ a, IsStart a ∧ (contents ops a).isSome = true ∧ g ∈ Trie.way 1024 (word s.mem) 3 s.root (key a) := by
  have hL' := recorded_lawful hL
  obtain ⟨m, N, B, h⟩ := (empty_represents he mem).ops hL' hops hr
  change Represents _ s m N B (contents ops) at h
  refine ⟨fun a ha hc => ?_, fun a vma ha hc => ?_, fun a ha => ?_, N, (hL'.apart h.inv.out).nodup, h.inv.out.2.1,
    fun g => ?_⟩
  · rw [h.inv.lookup, if_pos (h.absent a ha hc)]
  · obtain ⟨h1, h2⟩ := h.present a vma ha hc
    exact ⟨_, by rw [h.inv.lookup, if_neg h1], h2⟩
  · rw [(h.inv.remove hL' a).1, Bool.eq_iff_iff, decide_eq_true_iff]
    exact (h.isSome_iff ha).symm
  · have hkeys : (∃ v, v / 1024 ^ (3 + 1) = 0 ∧ m v ≠ 0 ∧ g ∈ Trie.way 1024 (word s.mem) 3 s.root v) ↔
        ∃ a, IsStart a ∧ (contents ops a).isSome = true ∧ g ∈ Trie.way 1024 (word s.mem) 3 s.root (key a) := by
      constructor
      · rintro ⟨v, -, hv, hg⟩
        obtain ⟨a, ha, rfl⟩ := h.starts v hv
        exact ⟨a, ha, (h.isSome_iff ha).mpr hv, hg⟩
      · rintro ⟨a, ha, hc, hg⟩
        exact ⟨key a, key_lt a, (h.isSome_iff ha).mp hc, hg⟩
    rw [← hkeys]
    rcases h.inv.tree with ⟨hroot, hN, hz⟩ | ⟨-, hH, hne⟩
    · subst hN
      constructor
      · intro hg
        simp at hg
      · rintro ⟨v, -, hv, -⟩
        exact absurd (h.inv.map_zero hroot v) hv
    · exact hH.mem_iff (by norm_num) hne

/-- Allocators that hand out everything once, of which the state is how many
nodes and boxes they have handed out. -/
def bump : Env (ℕ × ℕ) where
  newNode e := if e.1 < 2 ^ 30 then (some ((e.1 + 1) * (2 * pageSize)), (e.1 + 1, e.2)) else (none, e)
  freeNode _ e := e
  newBox e := (some (2 ^ 50 + e.2 * vmaSize), (e.1, e.2 + 1))
  dropBox _ e := e

def BumpOut (e : ℕ × ℕ) (N B : Multiset ℕ) : Prop :=
  e.1 ≤ 2 ^ 30 ∧ N.Nodup ∧ B.Nodup ∧ (∀ a ∈ N, ∃ i < e.1, a = (i + 1) * (2 * pageSize)) ∧
    ∀ b ∈ B, ∃ i < e.2, b = 2 ^ 50 + i * vmaSize

lemma bump_lawful : Lawful bump BumpOut where
  apart {e N B} h := by
    obtain ⟨he, hN, hB, hn, hb⟩ := h
    refine ⟨fun a ha => ?_, hN, fun b hb' => ?_, hB, fun b h1 b' h2 hne => ?_, fun a ha b hb' => ?_⟩
    · obtain ⟨i, -, rfl⟩ := hn a ha
      exact ⟨⟨i + 1, mul_comm _ _⟩, by simp [pageSize]⟩
    · obtain ⟨i, -, rfl⟩ := hb b hb'
      simp
    · obtain ⟨i, -, rfl⟩ := hb b h1
      obtain ⟨j, -, rfl⟩ := hb b' h2
      simp only [vmaSize] at *
      omega
    · obtain ⟨i, hi, rfl⟩ := hn a ha
      obtain ⟨j, -, rfl⟩ := hb b hb'
      simp only [vmaSize, pageSize] at *
      omega
  newNode {e N B a} h hr := by
    obtain ⟨he, hN, hB, hn, hb⟩ := h
    simp only [bump] at hr ⊢
    split at hr
    · rename_i hlt
      cases hr
      rw [if_pos hlt]
      refine ⟨hlt, nodup_cons.mpr ⟨fun hc => ?_, hN⟩, hB, fun a ha => ?_, hb⟩
      · obtain ⟨i, hi, hc⟩ := hn _ hc
        simp only [pageSize] at hc
        omega
      · rcases mem_cons.mp ha with rfl | ha
        · exact ⟨e.1, Nat.lt_succ_self _, rfl⟩
        · obtain ⟨i, hi, rfl⟩ := hn a ha
          exact ⟨i, Nat.lt_succ_of_lt hi, rfl⟩
    · cases hr
  freeNode h := by
    obtain ⟨he, hN, hB, hn, hb⟩ := h
    exact ⟨he, (nodup_cons.mp hN).2, hB, fun a ha => hn a (mem_cons_of_mem ha), hb⟩
  newBox {e N B b} h hr := by
    obtain ⟨he, hN, hB, hn, hb⟩ := h
    cases hr
    refine ⟨he, hN, nodup_cons.mpr ⟨fun hc => ?_, hB⟩, hn, fun b hb' => ?_⟩
    · obtain ⟨i, hi, hc⟩ := hb _ hc
      simp only [vmaSize] at hc
      omega
    · rcases mem_cons.mp hb' with rfl | hb'
      · exact ⟨e.2, Nat.lt_succ_self _, rfl⟩
      · obtain ⟨i, hi, rfl⟩ := hb b hb'
        exact ⟨i, Nat.lt_succ_of_lt hi, rfl⟩
  dropBox h := by
    obtain ⟨he, hN, hB, hn, hb⟩ := h
    exact ⟨he, hN, (nodup_cons.mp hB).2, hn, fun b hb' => hb b (mem_cons_of_mem hb')⟩

lemma bumpOut_zero : BumpOut (0, 0) 0 0 := ⟨by norm_num, nodup_zero, nodup_zero, by simp, by simp⟩

/-- Two areas inserted, the first one removed. -/
theorem tree_is_map_two : ∃ s, runOps (recorded bump) [.insert ⟨0x400000, 0x401000, .readWrite, 0⟩,
      .insert ⟨0x500000, 0x510000, .read, 0⟩, .remove 0x400000] (empty (0, 0) fun _ => 0) = some s ∧
    lookup 0x400000 s = none ∧ ∃ p, lookup 0x500000 s = some p ∧ VmaAt s.mem p ⟨0x500000, 0x510000, .read, 0⟩ := by
  have hsome : (runOps (recorded bump) [.insert ⟨0x400000, 0x401000, .readWrite, 0⟩,
      .insert ⟨0x500000, 0x510000, .read, 0⟩, .remove 0x400000] (empty (0, 0) fun _ => 0)).isSome = true := by
    decide +kernel
  obtain ⟨s, hs⟩ := Option.isSome_iff_exists.mp hsome
  have hstart : ∀ a < 2 ^ 47, 4096 ∣ a → IsStart a := fun a h1 h2 => ⟨Or.inl h1, h2⟩
  have h := tree_is_map bump_lawful bumpOut_zero _ (by
    intro o ho
    simp only [List.mem_cons, List.not_mem_nil, or_false] at ho
    rcases ho with rfl | rfl | rfl
    · exact hstart _ (by decide) (by decide)
    · exact hstart _ (by decide) (by decide)
    · exact hstart _ (by decide) (by decide)) hs
  exact ⟨s, hs, h.1 _ (hstart _ (by decide) (by decide)) rfl, h.2.1 _ _ (hstart _ (by decide) (by decide)) rfl⟩

/-! ### Traversal -/

/-- The closure called on one area after the other, until it returns
something. -/
def firstSome {τ ρ : Type} (f : ℕ → τ → Option ρ × τ) : List ℕ → τ → Option ρ × τ
  | [], t => (none, t)
  | p :: rest, t =>
    match f p t with
    | (some r, t) => (some r, t)
    | (none, t) => firstSome f rest t

/-- The traversals agree with the map `c`, of which `l` are the boxes. -/
structure Traversal (E : Env σ) (s : State (σ × Ledger)) (c : ℕ → Option Vma) (l : List ℕ) : Prop where
  nodup : l.Nodup
  boxes : ∀ p, p ∈ l ↔ ∃ a, IsStart a ∧ (c a).isSome = true ∧ lookup a s = some p
  visits : ∀ {τ ρ : Type} (f : ℕ → τ → Option ρ × τ) (t : τ), visitAll f s t = some (firstSome f l t)
  covering : ∀ addr p, findCovering addr s = some (some p) →
    ∃ a vma, IsStart a ∧ c a = some vma ∧ lookup a s = some p ∧ vma.start ≤ addr ∧ addr < vma.end
  uncovered : ∀ addr, findCovering addr s = some none → ∀ a vma, IsStart a → c a = some vma →
    ¬ (vma.start ≤ addr ∧ addr < vma.end)
  overlap : ∀ start «end», ∃ b, hasOverlap start «end» s = some b ∧ (b = true ↔
    ∃ a vma x, IsStart a ∧ c a = some vma ∧ (vma.start ≤ x ∧ x < vma.end) ∧ start ≤ x ∧ x < «end»)
  dropsNodes : (dropTree (recorded E) s).env.2.nodesBack = s.env.2.nodesOut
  dropsBoxes : (dropTree (recorded E) s).env.2.boxesBack = (l : Multiset ℕ) + s.env.2.boxesBack

section

variable {ι α : Type} {g : α → ι → α} {x : ℕ} (back : α → Multiset ℕ)

lemma foldl_le (hg : ∀ e i, back e ≤ back (g e i)) : ∀ (l : List ι) (e : α), back e ≤ back (l.foldl g e)
  | [], _ => le_rfl
  | i :: l, e => (hg e i).trans (foldl_le hg l (g e i))

/-- A loop of which one round gives `x` back. -/
lemma foldl_gives (hg : ∀ e i, back e ≤ back (g e i)) {i : ι} (hi : ∀ e, x ::ₘ back e ≤ back (g e i)) :
    ∀ {l : List ι} (e : α), i ∈ l → x ::ₘ back e ≤ back (l.foldl g e)
  | j :: l, e, h => by
    rw [List.foldl_cons]
    rcases List.mem_cons.mp h with rfl | h
    · exact (hi e).trans (foldl_le back hg l _)
    · exact (cons_le_cons x (hg e j)).trans (foldl_gives hg hi (g e j) h)

end

/-- The nodes that were given back. -/
def back (e : σ × Ledger) : Multiset ℕ := e.2.nodesBack

lemma back_freeNode (a : ℕ) (e : σ × Ledger) : back ((recorded E).freeNode a e) = a ::ₘ back e := rfl

lemma back_dropBox (a : ℕ) (e : σ × Ledger) : back ((recorded E).dropBox a e) = back e := rfl

lemma freeTree_le (mem : Cells) : ∀ (level node : ℕ) (e : σ × Ledger),
    node ::ₘ back e ≤ back (freeTree (recorded E) mem level node e)
  | 0, node, e => by
    rw [freeTree, back_freeNode]
    refine cons_le_cons node (foldl_le back (fun e i => ?_) _ _)
    split
    · exact le_rfl
    · rw [back_dropBox]
  | level + 1, node, e => by
    rw [freeTree, back_freeNode]
    refine cons_le_cons node (foldl_le back (fun e i => ?_) _ _)
    split
    · exact le_rfl
    · exact (le_cons_self _ _).trans (freeTree_le mem level _ e)

/-- A node above gives back what its entries give back. -/
lemma freeTree_gives {mem : Cells} {l f i x : ℕ} (hi : i < 1024) (hw : mem (entry f i) ≠ 0)
    (h : ∀ e : σ × Ledger, x ::ₘ back e ≤ back (freeTree (recorded E) mem l (mem (entry f i)) e)) (e : σ × Ledger) :
    x ::ₘ back e ≤ back (freeTree (recorded E) mem (l + 1) f e) := by
  have hmem : i ∈ List.range radixSize := List.mem_range.mpr hi
  rw [freeTree, back_freeNode]
  refine le_trans ?_ (le_cons_self _ f)
  refine foldl_gives back (fun e j => ?_) (i := i) (fun e => ?_) e hmem
  · split
    · exact le_rfl
    · exact (le_cons_self _ _).trans (freeTree_le mem l _ e)
  · rw [if_neg hw]
    exact h e

/-- From one level too high, the values of the tree are given back as if they
were nodes. -/
lemma freeTree_value {mem : Cells} {m : ℕ → ℕ} {v : ℕ} (hv : m v ≠ 0) : ∀ {l f q : ℕ} {N : Multiset ℕ},
    Trie.Holds 1024 (word mem) m l f q N → v / 1024 ^ (l + 1) = q → ∀ e : σ × Ledger,
    m v ::ₘ back e ≤ back (freeTree (recorded E) mem (l + 1) f e) := by
  intro l
  induction l with
  | zero =>
    rintro f q N ⟨-, h⟩ hq e
    have hd := Trie.div_eq_digit hq
    rw [pow_zero, Nat.div_one] at hd
    have hi : v % 1024 < 1024 := Nat.mod_lt _ (by norm_num)
    have hw : mem (entry f (v % 1024)) = m v := (h _ hi).trans (by rw [← hd])
    refine freeTree_gives hi (hw ▸ hv) (fun e => ?_) e
    rw [hw]
    exact freeTree_le mem 0 _ e
  | succ l ih =>
    rintro f q N ⟨Ns, -, h⟩ hq e
    have hd := Trie.div_eq_digit hq
    have hi := Radix.digit_lt (n := 1024) (by norm_num) v (l + 1)
    obtain ⟨hw, hH, -⟩ := (h _ hi).resolve_left fun hc => hv (hc.2.2 v hd)
    exact freeTree_gives hi hw (ih hH hd) e

/-- The traversals agree with the map exactly where there is nothing to
traverse. -/
theorem traversal_iff (hL : Lawful E Out) {e : σ} (he : Out e 0 0) (mem : Cells) {ops : List Op}
    (hops : ∀ o ∈ ops, IsStart o.start) {s : State (σ × Ledger)}
    (hr : runOps (recorded E) ops (empty e mem) = some s) :
    (∃ l, Traversal E s (contents ops) l) ↔ ∀ a, IsStart a → contents ops a = none := by
  have hL' := recorded_lawful hL
  obtain ⟨m, N, B, h⟩ := (empty_represents he mem).ops hL' hops hr
  change Represents _ s m N B (contents ops) at h
  constructor
  · rintro ⟨l, ht⟩ a ha
    by_contra hc
    have hm := (h.isSome_iff ha).mp (Option.isSome_iff_ne_none.mpr hc)
    obtain ⟨hroot, hH, -⟩ := h.inv.tree.resolve_left fun hc => hm (hc.2.2 _ (key_lt a))
    -- the box is given back as a node
    have hle := freeTree_value (E := E) hm hH (key_lt a) s.env
    have hdrop : back (freeTree (recorded E) s.mem (3 + 1) s.root s.env) = s.env.2.nodesOut := by
      rw [← ht.dropsNodes, dropTree, if_neg hroot]
      rfl
    rw [hdrop, h.inv.out.2.1, ← Multiset.singleton_add, add_comm] at hle
    have hmem : m (key a) ∈ N := Multiset.singleton_le.mp (Multiset.le_of_add_le_add_left hle)
    have := (hL'.apart h.inv.out).outside _ hmem _ (h.inv.boxes _ hm).2
    simp only [vmaSize, pageSize] at this
    omega
  · intro hc
    have hm : ∀ v, m v = 0 := by
      intro v
      by_contra hv
      obtain ⟨a, ha, rfl⟩ := h.starts v hv
      exact hv (h.absent a ha (hc a ha))
    have hroot : s.root = 0 := by
      by_contra hroot
      obtain ⟨-, -, v, -, hv⟩ := h.inv.tree.resolve_left fun hc => hroot hc.1
      exact hv (hm v)
    have hvisit : ∀ {τ ρ : Type} (f : ℕ → τ → Option ρ × τ) (t : τ), visitAll f s t = some (none, t) :=
      fun f t => if_pos hroot
    have hnone : ∀ {a vma}, IsStart a → contents ops a ≠ some vma := fun {a vma} ha hs => by simp [hc a ha] at hs
    have hN : N = 0 := (h.inv.tree.resolve_right fun hc => hc.1 hroot).2.1
    refine ⟨[], List.nodup_nil, fun p => ?_, hvisit, fun addr p hp => ?_, fun addr _ a vma ha hs => absurd hs (hnone ha),
      fun st en => ?_, ?_, ?_⟩
    · constructor
      · intro hp
        simp at hp
      · rintro ⟨a, ha, hs, -⟩
        simp [hc a ha] at hs
    · rw [findCovering, hvisit] at hp
      cases hp
    · refine ⟨false, by rw [hasOverlap, hvisit]; rfl, ?_⟩
      constructor
      · intro hs
        cases hs
      · rintro ⟨a, vma, x, ha, hs, -⟩
        exact absurd hs (hnone ha)
    · rw [dropTree, if_pos hroot, h.inv.out.2.1, hN, add_zero]
    · rw [dropTree, if_pos hroot]
      exact (zero_add _).symm

/-- One area that is present and not found: the search for the address it covers
panics, and so does that for the range it is. Its permission, 3, is taken for a
pointer. -/
theorem traversal_fails : ∃ s, runOps (recorded bump) [.insert ⟨0x400000, 0x401000, .readWrite, 0⟩]
      (empty (0, 0) fun _ => 0) = some s ∧ lookup 0x400000 s = some (2 ^ 50) ∧
    findCovering 0x400000 s = none ∧ hasOverlap 0x400000 0x401000 s = none := by
  have hrun : (runOps (recorded bump) [.insert ⟨0x400000, 0x401000, .readWrite, 0⟩] (empty (0, 0) fun _ => 0)).map
      (fun s => (lookup 0x400000 s, findCovering 0x400000 s, hasOverlap 0x400000 0x401000 s)) =
      some (some (2 ^ 50), none, none) := by decide +kernel
  obtain ⟨s, hs, he⟩ := Option.map_eq_some_iff.mp hrun
  simp only [Prod.mk.injEq] at he
  exact ⟨s, hs, he⟩

theorem traversal_iff_one : ∃ s, runOps (recorded bump) [.insert ⟨0x400000, 0x401000, .readWrite, 0⟩]
      (empty (0, 0) fun _ => 0) = some s ∧
    ¬ ∃ l, Traversal bump s (contents [.insert ⟨0x400000, 0x401000, .readWrite, 0⟩]) l := by
  have hsome : (runOps (recorded bump) [.insert ⟨0x400000, 0x401000, .readWrite, 0⟩]
      (empty (0, 0) fun _ => 0)).isSome = true := by decide +kernel
  obtain ⟨s, hs⟩ := Option.isSome_iff_exists.mp hsome
  have hstart : IsStart 0x400000 := ⟨Or.inl (by decide), by decide⟩
  refine ⟨s, hs, fun ht => ?_⟩
  have h := (traversal_iff bump_lawful bumpOut_zero _ (by
    intro o ho
    obtain rfl := List.mem_singleton.mp ho
    exact hstart) hs).mp ht _ hstart
  simp [contents, Op.apply] at h

end LodaxOS.VmaTree
