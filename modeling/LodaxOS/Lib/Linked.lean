/-
# Linked lists in a memory

A singly linked list is a head and a function that gives each node its
successor (`Chain`); a doubly linked one has a function for the predecessor
too (`Dlist`). Both only look at the nodes they hold, so a change of the
memory is described by what it does to those nodes. `nil` ends a list; it is
no node.
-/
import Mathlib.Data.List.Nodup

namespace Linked

open List

variable {α : Type} {nil : α} {next next' prev prev' : α → α} {head x : α} {l : List α}

/-- The nodes from `head` on, as `next` links them. -/
def Chain (nil : α) (next : α → α) : α → List α → Prop
  | head, [] => head = nil
  | head, x :: l => head = x ∧ x ≠ nil ∧ Chain nil next (next x) l

/-- Each node knows the one before it, the first one `before`. -/
def Backed (prev : α → α) : α → List α → Prop
  | _, [] => True
  | before, x :: l => prev x = before ∧ Backed prev x l

/-- A doubly linked list. -/
structure Dlist (nil : α) (next prev : α → α) (head : α) (l : List α) : Prop where
  chain : Chain nil next head l
  back : Backed prev nil l

namespace Chain

lemma ne_nil : ∀ {head : α} {l : List α}, Chain nil next head l → ∀ y ∈ l, y ≠ nil
  | _, _ :: _, ⟨_, h0, h⟩, y, hy => by
    rcases mem_cons.mp hy with rfl | hy
    · exact h0
    · exact h.ne_nil y hy

lemma eq_nil_iff (h : Chain nil next head l) : head = nil ↔ l = [] := by
  cases l with
  | nil => exact ⟨fun _ => rfl, fun _ => h⟩
  | cons =>
    obtain ⟨rfl, h0, -⟩ := h
    simp [h0]

lemma congr : ∀ {head : α} {l : List α}, Chain nil next head l → (∀ y ∈ l, next' y = next y) → Chain nil next' head l
  | _, [], h, _ => h
  | _, y :: l, ⟨hy, h0, h⟩, hn => by
    refine ⟨hy, h0, ?_⟩
    rw [hn y mem_cons_self]
    exact h.congr fun w hw => hn w (mem_cons_of_mem _ hw)

/-- The successor of a node. -/
lemma next_eq {l1 l2 : List α} : ∀ {head : α}, Chain nil next head (l1 ++ x :: l2) → Chain nil next (next x) l2 := by
  induction l1 with
  | nil => exact fun h => h.2.2
  | cons y l1 ih => exact fun h => ih h.2.2

end Chain

lemma Backed.congr : ∀ {b : α} {l : List α}, Backed prev b l → (∀ y ∈ l, prev' y = prev y) → Backed prev' b l
  | _, [], _, _ => trivial
  | _, y :: _, ⟨hy, h⟩, hp =>
    ⟨(hp y mem_cons_self).trans hy, h.congr fun w hw => hp w (mem_cons_of_mem _ hw)⟩

/-- The node before `x`. -/
lemma Backed.prev_mem {l2 : List α} : ∀ {b : α} {l1 : List α}, Backed prev b (l1 ++ x :: l2) → prev x ∈ b :: l1
  | _, [], h => h.1 ▸ mem_cons_self
  | _, _ :: _, h => mem_cons_of_mem _ (Backed.prev_mem h.2)

namespace Dlist

lemma congr (h : Dlist nil next prev head l) (hn : ∀ y ∈ l, next' y = next y) (hp : ∀ y ∈ l, prev' y = prev y) :
    Dlist nil next' prev' head l :=
  ⟨h.chain.congr hn, h.back.congr hp⟩

/-- A new first node. -/
lemma push (h : Dlist nil next prev head l) (hx : x ≠ nil) (hnx : next' x = head) (hpx : prev' x = nil)
    (hn : ∀ y ∈ l, next' y = next y) (hp : ∀ y ∈ l, y ≠ head → prev' y = prev y) (hh : head ≠ nil → prev' head = x)
    (hnd : l.Nodup) : Dlist nil next' prev' x (x :: l) := by
  refine ⟨⟨rfl, hx, hnx ▸ h.chain.congr hn⟩, hpx, ?_⟩
  cases l with
  | nil => trivial
  | cons =>
    obtain ⟨rfl, h0, -⟩ := h.chain
    refine ⟨hh h0, h.back.2.congr fun w hw => hp w (mem_cons_of_mem _ hw) ?_⟩
    rintro rfl
    exact (nodup_cons.mp hnd).1 hw

/-- What unlinking `x` from the part of a list after `b` leaves. -/
lemma unlink_aux [DecidableEq α] {l2 : List α} : ∀ {l1 : List α} {head b : α}, Chain nil next head (l1 ++ x :: l2) →
    Backed prev b (l1 ++ x :: l2) → (l1 ++ x :: l2).Nodup → b ∉ l1 ++ x :: l2 →
    (∀ y ∈ l1 ++ l2, next' y = if y = prev x then next x else next y) →
    (∀ y ∈ l1 ++ l2, prev' y = if y = next x then prev x else prev y) →
    Chain nil next' (if prev x = b then next x else head) (l1 ++ l2) ∧ Backed prev' b (l1 ++ l2)
  | [], head, b, hc, hb, hnd, hbl, hn, hp => by
    simp only [nil_append] at *
    obtain ⟨rfl, h0, hc⟩ := hc
    obtain ⟨rfl, hb⟩ := hb
    rw [if_pos rfl]
    have hnd' := nodup_cons.mp hnd
    refine ⟨hc.congr fun y hy => ?_, ?_⟩
    · rw [hn y hy, if_neg]
      rintro rfl
      exact hbl (mem_cons_of_mem _ hy)
    · cases l2 with
      | nil => trivial
      | cons y =>
        obtain ⟨hy, hb⟩ := hb
        refine ⟨?_, hb.congr fun w hw => ?_⟩
        · rw [hp y mem_cons_self, if_pos hc.1.symm]
        · rw [hp w (mem_cons_of_mem _ hw), if_neg]
          rintro rfl
          exact (nodup_cons.mp hnd'.2).1 (hc.1 ▸ hw)
  | y :: l1, head, b, hc, hb, hnd, hbl, hn, hp => by
    simp only [cons_append] at *
    obtain ⟨rfl, h0, hc⟩ := hc
    obtain ⟨rfl, hb⟩ := hb
    have hnd' := nodup_cons.mp hnd
    obtain ⟨ihc, ihb⟩ := unlink_aux hc hb hnd'.2 hnd'.1 (fun w hw => hn w (mem_cons_of_mem _ hw))
      fun w hw => hp w (mem_cons_of_mem _ hw)
    -- the node before `x` is in this part of the list, so not `b`
    have hpx : prev x ≠ prev head := by
      intro he
      have hmem := he ▸ hb.prev_mem
      refine hbl ?_
      rw [mem_cons] at hmem ⊢
      exact hmem.imp_right fun h => mem_append_left _ h
    rw [if_neg hpx]
    refine ⟨⟨rfl, h0, ?_⟩, ?_, ihb⟩
    · rw [hn head mem_cons_self]
      by_cases he : head = prev x
      · rw [if_pos he]
        rwa [if_pos he.symm] at ihc
      · rw [if_neg he]
        rwa [if_neg (Ne.symm he)] at ihc
    · rw [hp head mem_cons_self, if_neg]
      intro he
      have hx := hc.next_eq
      rw [← he] at hx
      cases l2 with
      | nil => exact h0 hx
      | cons =>
        obtain ⟨rfl, -⟩ := hx
        exact hnd'.1 (by simp)

/-- A node taken out. -/
lemma unlink [DecidableEq α] (h : Dlist nil next prev head l) (next' prev' : α → α) (hnd : l.Nodup) (hx : x ∈ l)
    (hn : ∀ y ∈ l, y ≠ x → next' y = if y = prev x then next x else next y)
    (hp : ∀ y ∈ l, y ≠ x → prev' y = if y = next x then prev x else prev y) :
    Dlist nil next' prev' (if prev x = nil then next x else head) (l.erase x) := by
  obtain ⟨l1, l2, rfl⟩ := append_of_mem hx
  have hne : ∀ y ∈ l1 ++ l2, y ≠ x ∧ y ∈ l1 ++ x :: l2 := by
    intro y hy
    have hnd' := nodup_middle.mp hnd
    refine ⟨?_, by rw [mem_append] at *; simp only [mem_cons]; tauto⟩
    rintro rfl
    exact (nodup_cons.mp hnd').1 hy
  have hx1 : x ∉ l1 := fun hc => (nodup_append.mp hnd).2.2 x hc x mem_cons_self rfl
  rw [erase_append_right _ hx1, erase_cons_head]
  obtain ⟨hc, hb⟩ := unlink_aux h.chain h.back hnd (fun hc => h.chain.ne_nil _ hc rfl)
    (fun y hy => hn y (hne y hy).2 (hne y hy).1) fun y hy => hp y (hne y hy).2 (hne y hy).1
  exact ⟨hc, hb⟩

end Dlist

/-! ### Walking a list -/

/-- The first node from `cur` on that `p` accepts, looking at `fuel` nodes at
most. -/
def walk [DecidableEq α] (nil : α) (next : α → α) (p : α → Bool) : ℕ → α → α
  | 0, _ => nil
  | fuel + 1, cur =>
    if cur = nil then nil else if p cur then cur else walk nil next p fuel (next cur)

lemma walk_eq_find [DecidableEq α] {p : α → Bool} : ∀ {fuel : ℕ} {l : List α} {head : α}, Chain nil next head l →
    l.length ≤ fuel → walk nil next p fuel head = (l.find? p).getD nil
  | 0, [], _, _, _ => rfl
  | 0, _ :: _, _, _, hl => by simp at hl
  | fuel + 1, [], head, h, _ => by
    obtain rfl : head = nil := h
    simp [walk]
  | fuel + 1, y :: l, head, ⟨hy, h0, h⟩, hl => by
    subst hy
    rw [walk, if_neg h0, List.find?_cons]
    split
    · rename_i hp
      rw [hp]
      rfl
    · rename_i hp
      rw [Bool.not_eq_true] at hp
      rw [hp]
      exact walk_eq_find h (by simpa using hl)

end Linked
