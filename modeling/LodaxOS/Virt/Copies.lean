/-
# Copies of tables

What `copy_table_recursive` leaves: the tables that were there keep their
words, and the copy consists of new tables only, whose entries are those of
the source but for the addresses of tables and, with `cow`, the write
permission of user pages (`CopyOf`). So every walk through the copy finds what
the walk through the source finds (`CopyOf.walk_eq`). The pages of the new
tables are exactly those taken from the allocator (`Grew`).
-/
import LodaxOS.Lib.Forest
import LodaxOS.Phys.Runs
import LodaxOS.Virt.Walkers

namespace LodaxOS.Virt

open Phys (pageSize Inv)
open Radix Partial Function Option

variable {z : Phys.State} {own own' own'' : Owners} {M M' M'' : Multiset ℕ} {m m' m'' : Machine}

/-! ### Pages taken -/

/-- The pages `N` were taken from the allocator, one at a time: each has count
1 or none. -/
structure Took (s : Phys.State) (N : Multiset ℕ) (s' : Phys.State) : Prop where
  free : s'.free + N = s.free
  counted : ∀ p ∈ N, Phys.counted s' p = true
  counts : ∀ p, p ∉ N → s'.refcounts p = s.refcounts p

variable {s phys : Phys.State} {t w c k g : ℕ} {mem mem' : Mem ℕ ℕ} {isPt : Bool} {copyChild : ℕ → Op (Option ℕ)}

lemma Took.trans {s' s'' : Phys.State} {N N' : Multiset ℕ} (h : Took s N s') (h' : Took s' N' s'') :
    Took s (N + N') s'' where
  free := by
    calc s''.free + (N + N') = s''.free + N' + N := by abel
      _ = s'.free + N := by rw [h'.free]
      _ = s.free := h.free
  counted p hp := by
    by_cases hc : p ∈ N'
    · exact h'.counted p hc
    · have hN : p ∈ N := (Multiset.mem_add.mp hp).resolve_right hc
      have hp' := h.counted p hN
      unfold Phys.counted at hp' ⊢
      rwa [h'.counts p hc]
  counts p hp := by
    rw [Multiset.mem_add, not_or] at hp
    rw [h'.counts p hp.2, h.counts p hp.1]

lemma Fresh.took {page : ℕ} (h : Fresh z own M s page phys) : Took s {page / pageSize} phys := by
  have hrun := Phys.allocOrder_run s (Nat.zero_le Phys.maxOrder)
  rw [show (Phys.allocOrder 0).run s = (some page, phys) from h.taken] at hrun
  cases hb : Phys.nextBlock s 0 with
  | none =>
    rw [hb] at hrun
    exact absurd (congrArg Prod.fst hrun) (by simp)
  | some a =>
    rw [hb] at hrun
    obtain ⟨ha, hfree, hcounts⟩ := hrun
    obtain rfl : page = a := Option.some.inj ha
    have hone : Phys.rangePages page (2 ^ 0) = {page / pageSize} := by simp [Phys.rangePages]
    rw [hone] at hfree
    simp only [Phys.allocCounts, if_true, Phys.resetRefcount] at hcounts
    refine ⟨hfree, fun p hp => ?_, fun p hp => ?_⟩
    · obtain rfl := Multiset.mem_singleton.mp hp
      by_cases hlt : page / pageSize < Phys.refcountMaxPages
      · rw [if_pos hlt] at hcounts
        simp [Phys.counted, hcounts]
      · simp [Phys.counted, not_lt.mp hlt]
    · rw [Multiset.mem_singleton] at hp
      rw [hcounts]
      split
      · exact update_of_ne hp _ _
      · rfl

/-- The pages of tables. -/
def pages (N : Multiset ℕ) : Multiset ℕ := N.map (· / pageSize)

@[simp] lemma pages_zero : pages 0 = 0 := rfl

@[simp] lemma pages_add (N N' : Multiset ℕ) : pages (N + N') = pages N + pages N' := Multiset.map_add _ _ _

@[simp] lemma pages_cons (f : ℕ) (N : Multiset ℕ) : pages (f ::ₘ N) = f / pageSize ::ₘ pages N := Multiset.map_cons _ _ _

@[simp] lemma pages_singleton (f : ℕ) : pages {f} = {f / pageSize} := Multiset.map_singleton _ _

/-! ### New tables -/

/-- The tables `N` are new, and nothing was written to the others. If `plain`,
no count was touched but those of their pages. -/
structure Grew (z : Phys.State) (plain : Prop) (own : ℕ → Option (ℕ × ℕ)) (M : Multiset ℕ) (m : Machine)
    (own' : ℕ → Option (ℕ × ℕ)) (M' : Multiset ℕ) (m' : Machine) (N : Multiset ℕ) : Prop where
  tables : Tables z own' M' m'
  grown : Grown own M m own' M' m'
  frame : ∀ f p, own f = some p → m'.mem f = m.mem f
  fresh : ∀ f ∈ N, own f = none
  held : M' = pages N + M
  took : plain → Took m.phys (pages N) m'.phys

namespace Grew

variable {plain : Prop} {N N' : Multiset ℕ}

variable (h : Grew z plain own M m own' M' m' N)

include h

lemma trans (h' : Grew z plain own' M' m' own'' M'' m'' N') : Grew z plain own M m own'' M'' m'' (N + N') where
  tables := h'.tables
  grown := h.grown.trans h'.grown
  frame f p hf := (h'.frame f p (h.grown.ext _ _ hf)).trans (h.frame f p hf)
  fresh f hf := by
    rcases Multiset.mem_add.mp hf with hf | hf
    · exact h.fresh f hf
    · rw [eq_none_iff_forall_ne_some]
      intro p hp
      have hc := h.grown.ext f p hp
      rw [h'.fresh f hf] at hc
      simp at hc
  held := by
    rw [h'.held, h.held, pages_add]
    abel
  took hp := by
    rw [pages_add]
    exact (h.took hp).trans (h'.took hp)

omit h in
/-- A new page becomes an empty table. -/
lemma place (hT : Tables z own M m) {page : ℕ} (l q : ℕ) (hp : Fresh z own M m.phys page phys) :
    Grew z plain own M m (update own page (some (l, q))) (page / pageSize ::ₘ M)
      { m with mem := m.mem.fill page newZeroed, phys } {page} where
  tables := hT.place hp (fun _ _ => sane_zero l) fun i _ f => decode_newZeroed l i f
  grown := hp.grown _ _
  frame _ _ hf := Mem.fill_of_ne _ _ (hp.ne hf)
  fresh f hf := by
    obtain rfl := Multiset.mem_singleton.mp hf
    exact hp.unowned
  held := by rw [pages_singleton, Multiset.singleton_add]
  took _ := by
    rw [pages_singleton]
    exact hp.took

/-- A word of a new table is written. -/
lemma write {l q i : ℕ} (hnew : own t = none) (ht : own' t = some (l, q)) (hs : Sane l w)
    (hw : ∀ g, decode l w = .table g → ∃ l', l = l' + 1 ∧ own' g = some (l', q * 512 + i)) :
    Grew z plain own M m own' M' { m' with mem := m'.mem.write t i w } N where
  tables := h.tables.write ht hs hw
  grown := ⟨h.grown.ext, h.grown.held, h.grown.regs⟩
  frame f p hf := by
    refine (update_of_ne ?_ _ _).trans (h.frame f p hf)
    rintro rfl
    rw [hnew] at hf
    simp at hf
  fresh := h.fresh
  held := h.held
  took := h.took

/-- Counts may be touched if that is not ruled out. -/
lemma setPhys (hplain : ¬ plain) (hI : Inv z phys M') : Grew z plain own M m own' M' { m' with phys } N :=
  ⟨h.tables.setPhys le_rfl hI, ⟨h.grown.ext, h.grown.held, h.grown.regs⟩, h.frame, h.fresh, h.held,
    fun hp => absurd hp hplain⟩

end Grew

/-! ### The entries of a copy -/

/-- A leaf as `copy_table_recursive` writes it. -/
def copyWord (cowFlag : Bool) (w : ℕ) : ℕ :=
  if cowFlag && (w &&& writable ≠ 0) && (w &&& user ≠ 0) then (w &&& (2 ^ 64 - 1 - writable)) ||| cow else w

/-- The copy `w'` of an entry `w`; `P` relates the tables they name. -/
def EntryCopy (cowFlag : Bool) (P : ℕ → ℕ → Prop) (l w w' : ℕ) : Prop :=
  match decode l w with
  | .empty => decode l w' = .empty
  | .leaf => w' = copyWord cowFlag w
  | .table g => ∃ c, w' = c ||| (w &&& entryFlagMask) ∧ decode l w' = .table c ∧ P g c

/-- The table `t` of level `l` in `mem'` is a copy of `s` in `mem`. -/
def CopyOf (cowFlag : Bool) (mem mem' : Mem ℕ ℕ) : ℕ → ℕ → ℕ → Prop
  | 0, s, t => ∀ i < 512, EntryCopy cowFlag (fun _ _ => False) 0 (mem s i) (mem' t i)
  | l + 1, s, t => ∀ i < 512, EntryCopy cowFlag (CopyOf cowFlag mem mem' l) (l + 1) (mem s i) (mem' t i)

/-- The copies of the tables below a table of level `l`. -/
def CopyBelow (cowFlag : Bool) (mem mem' : Mem ℕ ℕ) : ℕ → ℕ → ℕ → Prop
  | 0, _, _ => False
  | l + 1, s, t => CopyOf cowFlag mem mem' l s t

variable {cowFlag : Bool}

lemma copyOf_iff {l s : ℕ} : CopyOf cowFlag mem mem' l s t ↔
    ∀ i < 512, EntryCopy cowFlag (CopyBelow cowFlag mem mem' l) l (mem s i) (mem' t i) := by
  cases l with
  | zero => rfl
  | succ l => rfl

lemma EntryCopy.mono {P Q : ℕ → ℕ → Prop} {l w' : ℕ} (h : EntryCopy cowFlag P l w w')
    (hPQ : ∀ g c, decode l w = .table g → decode l w' = .table c → P g c → Q g c) : EntryCopy cowFlag Q l w w' := by
  unfold EntryCopy at h ⊢
  cases hD : decode l w with
  | empty => rw [hD] at h; exact h
  | leaf => rw [hD] at h; exact h
  | table g =>
    rw [hD] at h
    obtain ⟨c, hw, hc, hP⟩ := h
    exact ⟨c, hw, hc, hPQ g c hD hc hP⟩

/-- Only the tables below the source and the copy matter. -/
lemma CopyOf.congr {mem1 mem2 mem1' mem2' : Mem ℕ ℕ} {own1 own2 : Owners}
    (ht1 : Tree 512 decode own1 mem1) (ht2 : Tree 512 decode own2 mem2) : ∀ {l s t q p : ℕ},
    own1 s = some (l, q) → own2 t = some (l, p) →
    (∀ f k x, own1 f = some (k, x) → k ≤ l → mem1' f = mem1 f) →
    (∀ f k x, own2 f = some (k, x) → k ≤ l → mem2' f = mem2 f) →
    CopyOf cowFlag mem1 mem2 l s t → CopyOf cowFlag mem1' mem2' l s t
  | 0, s, t, q, p, hs, ht, h1, h2, h => by
    intro i hi
    rw [h1 s 0 q hs le_rfl, h2 t 0 p ht le_rfl]
    exact h i hi
  | l + 1, s, t, q, p, hs, ht, h1, h2, h => by
    intro i hi
    rw [h1 s _ q hs le_rfl, h2 t _ p ht le_rfl]
    refine (h i hi).mono fun g c hg hc hcopy => ?_
    obtain ⟨l1, hl1, hg'⟩ := ht1 s _ q i g hs hi hg
    obtain ⟨l2, hl2, hc'⟩ := ht2 t _ p i c ht hi hc
    obtain rfl : l = l1 := by omega
    obtain rfl : l = l2 := by omega
    exact CopyOf.congr ht1 ht2 hg' hc' (fun f k x hf hk => h1 f k x hf (by omega))
      (fun f k x hf hk => h2 f k x hf (by omega)) hcopy

/-! ### Walks through a copy -/

/-- What of a walk the hardware uses: the leaf, and the flags of the entries
above it. -/
def sight (r : ℕ × ℕ × List ℕ) : ℕ × ℕ × List ℕ := (r.1, r.2.1, r.2.2.map (· &&& entryFlagMask))

lemma testBit_copyWord (cowFlag : Bool) (w : ℕ) {i : ℕ} (hi : i < 64) (h1 : i ≠ 1) (h11 : i ≠ 11) :
    (copyWord cowFlag w).testBit i = w.testBit i := by
  unfold copyWord
  split
  · have hmask : (2 ^ 64 - 1 - writable : ℕ).testBit i = true := by
      rw [show (2 ^ 64 - 1 - writable : ℕ) = 2 ^ 64 - (2 ^ 1 + 1) from rfl,
        Nat.testBit_two_pow_sub_succ (by norm_num), Nat.testBit_two_pow]
      simp [hi, h1.symm]
    have hcow : cow.testBit i = false := by
      rw [show cow = 2 ^ 11 from rfl, Nat.testBit_two_pow]
      simp [h11.symm]
    rw [Nat.testBit_or, Nat.testBit_and, hmask, hcow, Bool.and_true, Bool.or_false]
  · rfl

lemma decode_congr {l w' : ℕ} (h0 : w'.testBit 0 = w.testBit 0) (h7 : w'.testBit 7 = w.testBit 7)
    (h : decode l w = .leaf) : decode l w' = .leaf := by
  unfold decode at h ⊢
  simp only [and_present, ne_eq, and_pageSizeBit, h0, h7] at h ⊢
  split at h
  · simp at h
  · rename_i hp
    rw [if_neg hp]
    split at h
    · rename_i hl
      rw [if_pos hl]
    · rename_i hl
      rw [if_neg hl]
      split at h
      · rename_i hh
        rw [if_pos hh, h]
      · simp at h

lemma decode_copyWord (cowFlag : Bool) {l : ℕ} (h : decode l w = .leaf) : decode l (copyWord cowFlag w) = .leaf :=
  decode_congr (testBit_copyWord cowFlag w (by norm_num) (by norm_num) (by norm_num))
    (testBit_copyWord cowFlag w (by norm_num) (by norm_num) (by norm_num)) h

/-- The copy of an entry that names a table has its flags. -/
lemma flags_copy {l : ℕ} (h : decode l (c ||| (w &&& entryFlagMask)) = .table c) :
    (c ||| (w &&& entryFlagMask)) &&& entryFlagMask = w &&& entryFlagMask := by
  have hc : c &&& entryFlagMask = 0 := by
    rw [← (decode_eq_table.mp h).2.2.2, Nat.and_assoc, show physAddrMask &&& entryFlagMask = 0 by decide, Nat.and_zero]
  rw [Nat.and_or_distrib_right, hc, Nat.zero_or, Nat.and_assoc, Nat.and_self]

/-- The sight of a walk whose leaf is copied. -/
def copySight (cowFlag : Bool) (r : ℕ × ℕ × List ℕ) : ℕ × ℕ × List ℕ := sight (r.1, copyWord cowFlag r.2.1, r.2.2)

/-- The walk through the copy of an entry, if the tables below walk alike. -/
lemma EntryCopy.walk_eq {P : ℕ → ℕ → Prop} {v l s : ℕ} (hP : ∀ g c, P g c →
      (walk 512 decode mem' l c v).map sight = (walk 512 decode mem l g v).map (copySight cowFlag))
    (h : EntryCopy cowFlag P (l + 1) (mem s (v / 512 ^ (l + 1) % 512)) (mem' t (v / 512 ^ (l + 1) % 512))) :
    (walk 512 decode mem' (l + 1) t v).map sight = (walk 512 decode mem (l + 1) s v).map (copySight cowFlag) := by
  unfold EntryCopy at h
  rw [walk, walk]
  cases hD : decode (l + 1) (mem s (v / 512 ^ (l + 1) % 512)) with
  | empty =>
    rw [hD] at h
    rw [h]
    rfl
  | leaf =>
    rw [hD] at h
    have hw : mem' t (v / 512 ^ (l + 1) % 512) = copyWord cowFlag (mem s (v / 512 ^ (l + 1) % 512)) := h
    rw [hw, decode_copyWord cowFlag hD]
    rfl
  | table g =>
    rw [hD] at h
    obtain ⟨c, hw, hc, hcopy⟩ := h
    have ih := hP g c hcopy
    have hflags := flags_copy (hw ▸ hc)
    rw [hc]
    simp only [map_map]
    cases h1 : walk 512 decode mem' l c v with
    | none =>
      rw [h1, map_none] at ih
      rw [map_none, map_eq_none_iff.mp ih.symm, map_none]
    | some r =>
      rw [h1, map_some] at ih
      obtain ⟨r', h2, hr⟩ := map_eq_some_iff.mp ih.symm
      rw [h2, map_some, map_some]
      simp only [copySight, sight, Prod.mk.injEq, Function.comp_apply, List.map_cons, Option.some.injEq,
        List.cons.injEq] at hr ⊢
      exact ⟨hr.1.symm, hr.2.1.symm, hw ▸ hflags, hr.2.2.symm⟩

/-- The walk through a copy. -/
lemma CopyOf.walk_eq (v : ℕ) : ∀ {l s t : ℕ}, CopyOf cowFlag mem mem' l s t →
    (walk 512 decode mem' l t v).map sight = (walk 512 decode mem l s v).map (copySight cowFlag)
  | 0, s, t, h => by
    have he := h (v % 512) (Nat.mod_lt _ (by norm_num))
    unfold EntryCopy at he
    rw [walk, walk]
    cases hD : decode 0 (mem s (v % 512)) with
    | empty =>
      rw [hD] at he
      rw [he]
      rfl
    | leaf =>
      rw [hD] at he
      have hw : mem' t (v % 512) = copyWord cowFlag (mem s (v % 512)) := he
      rw [hw, decode_copyWord cowFlag hD]
      rfl
    | table g => exact absurd rfl (decode_eq_table.mp hD).2.1
  | _ + 1, _, _, h => EntryCopy.walk_eq (fun _ _ => CopyOf.walk_eq v) (h _ (Nat.mod_lt _ (by norm_num)))

lemma copySight_false : copySight false = sight := rfl

/-- What the address `a` gives if its walk is `r`. -/
def leafOf (a : ℕ) (r : ℕ × ℕ × List ℕ) : Leaf :=
  ⟨leafBase r.1 r.2.1 + a % 2 ^ (12 + 9 * r.1), allBits 1 r, allBits 2 r, anyBit 63 r⟩

lemma hwLeaf_eq_map (mem : Mem ℕ ℕ) (r a : ℕ) : hwLeaf mem r a = (hwWalk mem r a).map (leafOf a) := rfl

lemma leafOf_sight (a : ℕ) (x : ℕ × ℕ × List ℕ) : leafOf a (sight x) = leafOf a x := by
  have hbit : ∀ i, entryFlagMask.testBit i = true →
      allBits i (sight x) = allBits i x ∧ anyBit i (sight x) = anyBit i x := by
    intro i hi
    simp [allBits, anyBit, sight, List.all_map, List.any_map, Function.comp_def, Nat.testBit_and, hi]
  unfold leafOf
  rw [(hbit 1 (by decide)).1, (hbit 2 (by decide)).1, (hbit 63 (by decide)).2]
  rfl

/-- What the hardware sees decides what it finds. -/
lemma hwLeaf_congr {r r' a : ℕ}
    (h : (hwWalk mem' r' a).map sight = (hwWalk mem r a).map sight) : hwLeaf mem' r' a = hwLeaf mem r a := by
  have hsight : ∀ o : Option (ℕ × ℕ × List ℕ), o.map (leafOf a) = (o.map sight).map (leafOf a) := by
    intro o
    rw [map_map]
    exact congrArg (fun f => o.map f) (funext fun x => (leafOf_sight a x).symm)
  calc hwLeaf mem' r' a = ((hwWalk mem' r' a).map sight).map (leafOf a) := hsight _
    _ = ((hwWalk mem r a).map sight).map (leafOf a) := by rw [h]
    _ = hwLeaf mem r a := (hsight _).symm

/-! ### Copying a table -/

/-- The table `new` was made as a copy of `src`, for the place `(l, q)`. -/
structure Copied (z : Phys.State) (cowFlag : Bool) (l src new q : ℕ) (own : ℕ → Option (ℕ × ℕ)) (M : Multiset ℕ)
    (m : Machine) (own' : ℕ → Option (ℕ × ℕ)) (M' : Multiset ℕ) (m' : Machine) : Prop where
  grew : Grew z (cowFlag = false) own M m own' M' m' (tables 512 decode m'.mem l new)
  placed : own' new = some (l, q)
  copy : CopyOf cowFlag m.mem m'.mem l src new

/-- The first `i` entries are copied, and the rest is empty. -/
structure Copying (z : Phys.State) (cowFlag : Bool) (l src new q i : ℕ) (own : ℕ → Option (ℕ × ℕ)) (M : Multiset ℕ)
    (m : Machine) (own' : ℕ → Option (ℕ × ℕ)) (M' : Multiset ℕ) (m' : Machine) : Prop where
  grew : Grew z (cowFlag = false) own M m own' M' m' (tables 512 decode m'.mem l new)
  placed : own' new = some (l, q)
  words : ∀ j < i, EntryCopy cowFlag (CopyBelow cowFlag m.mem m'.mem l) l (m.mem src j) (m'.mem new j)
  rest : ∀ j, i ≤ j → m'.mem new j = 0

lemma decode_zero_word (l : ℕ) : decode l 0 = .empty := decode_absent (by simp)

namespace Copying

variable {cowFlag : Bool} {l src new q i : ℕ}

lemma start (hT : Tables z own M m) (hp : Fresh z own M m.phys new phys) :
    Copying z cowFlag l src new q 0 own M m (update own new (some (l, q))) (new / pageSize ::ₘ M)
      { m with mem := m.mem.fill new newZeroed, phys } where
  grew := by
    have hone : tables 512 decode (m.mem.fill new newZeroed) l new = {new} := tables_eq_singleton fun j _ g => by
      rw [Mem.fill_self]
      exact decode_newZeroed l j g
    change Grew _ _ _ _ _ _ _ _ (tables 512 decode (m.mem.fill new newZeroed) l new)
    rw [hone]
    exact Grew.place hT l q hp
  placed := update_self _ _ _
  words j hj := absurd hj (Nat.not_lt_zero j)
  rest j _ := congrFun (Mem.fill_self m.mem new newZeroed) j

section

variable (h : Copying z cowFlag l src new q i own M m own' M' m')

include h

lemma newly : own new = none :=
  h.grew.fresh new (self_mem_tables _ _ _)

/-- The source is as it was. -/
lemma source (hsrc : own src = some (l, q)) : m'.mem src = m.mem src :=
  h.grew.frame src _ hsrc

omit h in
/-- Copies below `new` are not touched when tables of lower levels stay. -/
lemma below (hT : Tables z own M m) (hsrc : own src = some (l, q))
    (h : Copying z cowFlag l src new q i own M m own' M' m') (hi : i ≤ 512)
    (hmem : ∀ f k x, own' f = some (k, x) → k < l → mem f = m'.mem f) {j : ℕ} (hj : j < i) :
    EntryCopy cowFlag (CopyBelow cowFlag m.mem mem l) l (m.mem src j) (m'.mem new j) := by
  refine (h.words j hj).mono fun g c hg hc hcopy => ?_
  cases l with
  | zero => exact hcopy
  | succ k =>
    obtain ⟨k1, hk1, hg'⟩ := hT.tree src _ q j g hsrc (by omega) hg
    obtain ⟨k2, hk2, hc'⟩ := h.grew.tables.tree new _ q j c h.placed (by omega) hc
    obtain rfl : k = k1 := by omega
    obtain rfl : k = k2 := by omega
    exact CopyOf.congr hT.tree h.grew.tables.tree hg' hc' (fun _ _ _ _ _ => rfl)
      (fun f k' x hf hk => hmem f k' x hf (by omega)) hcopy

/-- An entry that is not present is left out. -/
lemma skip (hD : decode l (m.mem src i) = .empty) : Copying z cowFlag l src new q (i + 1) own M m own' M' m' where
  grew := h.grew
  placed := h.placed
  words j hj := by
    rcases Nat.lt_succ_iff_lt_or_eq.mp hj with hj | rfl
    · exact h.words j hj
    · rw [EntryCopy, hD, h.rest j le_rfl]
      exact decode_zero_word l
  rest j hj := h.rest j (by omega)

/-- An entry that names no table adds none. -/
lemma tables_put (hno : ∀ g, decode l w ≠ .table g) :
    tables 512 decode (m'.mem.write new i w) l new = tables 512 decode m'.mem l new := by
  refine h.grew.tables.tree.tables_congr h.placed fun f k p _ hf j _ => ?_
  by_cases hc : f = new ∧ j = i
  · obtain ⟨rfl, rfl⟩ := hc
    obtain ⟨rfl, -⟩ : l = k ∧ q = p := by
      rw [h.placed] at hf
      simpa using hf
    rw [Mem.write_self, h.rest j le_rfl]
    exact fun g => ⟨fun hg => absurd hg (hno g), fun hg => by rw [decode_zero_word] at hg; simp at hg⟩
  · rw [Mem.write_of_ne _ _ hc]
    exact SameTables.refl k _

omit h in
/-- An entry that names no table is written. -/
lemma put (hT : Tables z own M m) (hsrc : own src = some (l, q))
    (h : Copying z cowFlag l src new q i own M m own' M' m') (hi : i < 512) (hs : Sane l w)
    (hno : ∀ g, decode l w ≠ .table g)
    (hw : EntryCopy cowFlag (CopyBelow cowFlag m.mem (m'.mem.write new i w) l) l (m.mem src i) w) :
    Copying z cowFlag l src new q (i + 1) own M m own' M' { m' with mem := m'.mem.write new i w } where
  grew := by
    change Grew _ _ _ _ _ _ _ _ (tables 512 decode (m'.mem.write new i w) l new)
    rw [h.tables_put hno]
    exact h.grew.write h.newly h.placed hs fun g hg => absurd hg (hno g)
  placed := h.placed
  words j hj := by
    change EntryCopy cowFlag _ l (m.mem src j) (m'.mem.write new i w new j)
    rcases Nat.lt_succ_iff_lt_or_eq.mp hj with hj | rfl
    · rw [Mem.write_of_ne _ _ fun hc => by omega]
      refine h.below hT hsrc (by omega) (fun f k x hf hk => ?_) hj
      refine update_of_ne ?_ _ _
      rintro rfl
      rw [h.placed, Option.some.injEq, Prod.mk.injEq] at hf
      omega
    · rw [Mem.write_self]
      exact hw
  rest j hj := (Mem.write_of_ne _ _ fun hc => by omega).trans (h.rest j (by omega))

/-- Counts may be touched with `cow`. -/
lemma setPhys (hcow : cowFlag = true)
    (hI : Inv z phys M') : Copying z cowFlag l src new q i own M m own' M' { m' with phys } :=
  ⟨h.grew.setPhys (by simp [hcow]) hI, h.placed, h.words, h.rest⟩

end

/-- The copy that an entry names is added. -/
lemma tables_child (h : Copying z cowFlag (k + 1) src new q i own M m own' M' m') (hi : i < 512)
    (hc : Copied z cowFlag k g c (q * 512 + i) own' M' m' own'' M'' m'') (hDw : decode (k + 1) w = .table c) :
    tables 512 decode (m''.mem.write new i w) (k + 1) new =
      tables 512 decode m'.mem (k + 1) new + tables 512 decode m''.mem k c := by
  have hwords : ∀ j, m''.mem new j = m'.mem new j := fun j => congrFun (hc.grew.frame new _ h.placed) j
  have hbefore : tables 512 decode m''.mem (k + 1) new = tables 512 decode m'.mem (k + 1) new := by
    refine h.grew.tables.tree.tables_congr h.placed fun f k' p _ hf j _ => ?_
    rw [hc.grew.frame f _ hf]
    exact SameTables.refl k' _
  rw [tables_succ, hc.grew.tables.tree.tablesUpTo_write_self le_rfl hi (hc.grew.grown.ext _ _ h.placed), ← tables_succ,
    hbefore, subtables_table hDw]
  · intro g hg
    rw [hwords, h.rest i le_rfl, decode_zero_word] at hg
    simp at hg
  · intro f hf
    obtain rfl : c = f := by
      rw [hDw] at hf
      simpa using hf
    exact ⟨_, hc.placed⟩

/-- An entry that names a table: the table is copied, and the copy named. -/
lemma child (hT : Tables z own M m) (hsrc : own src = some (k + 1, q))
    (h : Copying z cowFlag (k + 1) src new q i own M m own' M' m') (hi : i < 512)
    (hD : decode (k + 1) (m.mem src i) = .table g) (hc : Copied z cowFlag k g c (q * 512 + i) own' M' m' own'' M'' m'')
    (hw : w = c ||| (m.mem src i &&& entryFlagMask)) (hDw : decode (k + 1) w = .table c) (hs : Sane (k + 1) w) :
    Copying z cowFlag (k + 1) src new q (i + 1) own M m own'' M'' { m'' with mem := m''.mem.write new i w } := by
  have hnew' : own'' new = some (k + 1, q) := hc.grew.grown.ext _ _ h.placed
  have hwords : ∀ j, m''.mem new j = m'.mem new j := fun j => congrFun (hc.grew.frame new _ h.placed) j
  -- what is written to `new` is not seen below it
  have hlow : ∀ f k' x, own'' f = some (k', x) → k' < k + 1 → m''.mem.write new i w f = m''.mem f := by
    intro f k' x hf hk
    refine update_of_ne ?_ _ _
    rintro rfl
    rw [hnew', Option.some.injEq, Prod.mk.injEq] at hf
    omega
  refine ⟨?_, hnew', fun j hj => ?_, fun j hj => ?_⟩
  · change Grew _ _ _ _ _ _ _ _ (tables 512 decode (m''.mem.write new i w) (k + 1) new)
    rw [h.tables_child hi hc hDw]
    refine (h.grew.trans hc.grew).write h.newly hnew' hs fun f hf => ?_
    obtain rfl : c = f := by
      rw [hDw] at hf
      simpa using hf
    exact ⟨k, rfl, hc.placed⟩
  · change EntryCopy cowFlag _ (k + 1) (m.mem src j) (m''.mem.write new i w new j)
    rcases Nat.lt_succ_iff_lt_or_eq.mp hj with hj | rfl
    · rw [Mem.write_of_ne _ _ fun hc => by omega, hwords]
      refine h.below hT hsrc (by omega) (fun f k' x hf hk => ?_) hj
      exact (hlow f k' x (hc.grew.grown.ext _ _ hf) hk).trans (hc.grew.frame f _ hf)
    · rw [Mem.write_self, EntryCopy, hD]
      refine ⟨c, hw, hDw, ?_⟩
      obtain ⟨k1, hk1, hg⟩ := hT.tree src _ q j g hsrc hi hD
      obtain rfl : k = k1 := by omega
      exact CopyOf.congr (hT.tree.congr h.grew.frame) hc.grew.tables.tree hg hc.placed
        (fun f k' x hf _ => (h.grew.frame f _ hf).symm) (fun f k' x hf hk => hlow f k' x hf (by omega)) hc.copy
  · change m''.mem.write new i w new j = 0
    rw [Mem.write_of_ne _ _ fun hc => by omega, hwords]
    exact h.rest j (by omega)

lemma done (h : Copying z cowFlag l src new q 512 own M m own' M' m') :
    Copied z cowFlag l src new q own M m own' M' m' :=
  ⟨h.grew, h.placed, copyOf_iff.mpr fun j hj => h.words j hj⟩

end Copying

/-! ### The loops -/

/-- A loop that ran to its end, with what holds before each index. -/
lemma forIndices_run {f : ℕ → Op Bool} {J : ℕ → Machine → Prop} {n : ℕ}
    (hf : ∀ i m m', i < n → J i m → f i m = some (true, m') → J (i + 1) m') :
    ∀ (k s : ℕ) {m : Machine}, s + k = n → J s m → forIndices f (List.range' s k) m = some (true, m') → J n m'
  | 0, s, m, hs, hJ, h => by
    obtain rfl := (pure_eq_some.mp h).2
    obtain rfl : s = n := by omega
    exact hJ
  | k + 1, s, m, hs, hJ, h => by
    rw [List.range'_succ, forIndices] at h
    obtain ⟨b, m1, h1, h2⟩ := bind_eq_some.mp h
    cases b with
    | false => exact absurd (pure_eq_some.mp h2).1 (by simp)
    | true => exact forIndices_run hf k (s + 1) (by omega) (hf s m m1 (by omega) hJ h1) h2

lemma Sane.copyWord {l : ℕ} (cowFlag : Bool) (hs : Sane l w) (hD : decode l w = .leaf) : Sane l (copyWord cowFlag w) := by
  have hbit : ∀ i, i = 0 ∨ i = 7 → (Virt.copyWord cowFlag w).testBit i = w.testBit i := fun i hi =>
    testBit_copyWord cowFlag w (by omega) (by omega) (by omega)
  intro h0
  rw [hbit 0 (.inl rfl)] at h0
  rw [hbit 7 (.inr rfl)]
  refine ⟨fun hl => (hs h0).1 hl, fun hl h7 => ?_⟩
  -- a leaf above the PTs has the huge-page bit
  rw [decode_eq_table.mpr ⟨h0, by omega, h7, rfl⟩] at hD
  simp at hD

/-- What copying a leaf does to the counts: with `cow`, a writable user page is
counted once more. -/
def leafPhys (cowFlag : Bool) (w : ℕ) (s : Phys.State) : Phys.State :=
  if cowFlag && (w &&& writable ≠ 0) && (w &&& user ≠ 0) then ((Phys.refPage ((w &&& physAddrMask) / pageSize)).run s).2 else s

lemma copyLeaf_eq_some {cowFlag b : Bool} {new i : ℕ} : copyLeaf cowFlag new i w m = some (b, m') ↔
    b = true ∧ m' = { m with phys := leafPhys cowFlag w m.phys, mem := m.mem.write new i (copyWord cowFlag w) } := by
  have hrun : copyLeaf cowFlag new i w m =
      some (true, { m with phys := leafPhys cowFlag w m.phys, mem := m.mem.write new i (copyWord cowFlag w) }) := by
    unfold copyLeaf leafPhys copyWord
    by_cases hc : (cowFlag && (w &&& writable ≠ 0) && (w &&& user ≠ 0)) = true
    · rw [if_pos hc, if_pos hc, if_pos hc]
      rfl
    · rw [if_neg hc, if_neg hc, if_neg hc]
      rfl
  rw [hrun]
  simp [eq_comm]

lemma leafPhys_inv (cowFlag : Bool) (w : ℕ) (hI : Inv z s M) : Inv z (leafPhys cowFlag w s) M := by
  unfold leafPhys
  split
  · exact refPage_inv hI _
  · exact hI

section

variable {cowFlag : Bool} {l src new q i : ℕ} (hT : Tables z own M m) (hsrc : own src = some (l, q))

include hT hsrc

lemma leaf_copying (h : Copying z cowFlag l src new q i own M m own' M' m') (hi : i < 512)
    (hD : decode l (m.mem src i) = .leaf) :
    Copying z cowFlag l src new q (i + 1) own M m own' M' { m' with
      phys := leafPhys cowFlag (m.mem src i) m'.phys
      mem := m'.mem.write new i (copyWord cowFlag (m.mem src i)) } := by
  have hs := (hT.sane src l q i hsrc hi).copyWord cowFlag hD
  have hno : ∀ g, decode l (copyWord cowFlag (m.mem src i)) ≠ .table g := by
    intro g
    rw [decode_copyWord cowFlag hD]
    simp
  have hentry : ∀ P, EntryCopy cowFlag P l (m.mem src i) (copyWord cowFlag (m.mem src i)) := by
    intro P
    rw [EntryCopy, hD]
  by_cases hcow : cowFlag = true
  · have hcounts := h.setPhys hcow (leafPhys_inv cowFlag (m.mem src i) h.grew.tables.alloc)
    exact hcounts.put hT hsrc hi hs hno (hentry _)
  · have hsame : leafPhys cowFlag (m.mem src i) m'.phys = m'.phys := by simp [leafPhys, hcow]
    rw [hsame]
    exact h.put hT hsrc hi hs hno (hentry _)

/-- The name of a copied table. -/
lemma copy_name (hz : z.zone.top ≤ directMapSize) {p : ℕ} (hl : l ≠ 0) (hi : i < 512)
    (h0 : (m.mem src i).testBit 0 = true) (h7 : (m.mem src i).testBit 7 = false) (hT' : Tables z own' M' m')
    (hc : own' c = some (k, p)) :
    decode l (c ||| (m.mem src i &&& entryFlagMask)) = .table c ∧ Sane l (c ||| (m.mem src i &&& entryFlagMask)) := by
  have hf := nameFlags_copy (hT.sane src l q i hsrc hi) h0 hl h7
  have hd := (hT'.page c _ hc).1
  have hlt := lt_address (hT'.lt hz hc)
  have hp : (m.mem src i &&& entryFlagMask).testBit 0 = true := by
    rw [Nat.testBit_and, h0, show entryFlagMask.testBit 0 = true by decide, Bool.and_self]
  refine ⟨decode_name hd hlt hf hl hp, fun _ => ⟨fun _ => ?_, fun _ _ => ⟨?_, ?_⟩⟩⟩
  · rw [entry_testBit hd (by norm_num), hf.huge]
  · rw [entry_testBit hd (by norm_num), hf.writable]
  · rw [entry_testBit_high hlt (by norm_num), hf.nx]

/-- What copying one entry is: nothing, a leaf, or a table and its name. -/
lemma copyEntry_cases {b : Bool} (hpt : isPt = true ↔ l = 0) (hi : i < 512)
    (hmem : m'.mem src = m.mem src) (hrun : copyEntry isPt copyChild cowFlag src new i m' = some (b, m'')) :
    (decode l (m.mem src i) = .empty ∧ b = true ∧ m'' = m') ∨
    (decode l (m.mem src i) = .leaf ∧ b = true ∧ m'' = { m' with
      phys := leafPhys cowFlag (m.mem src i) m'.phys
      mem := m'.mem.write new i (copyWord cowFlag (m.mem src i)) }) ∨
    ∃ k g, l = k + 1 ∧ decode l (m.mem src i) = .table g ∧ own g = some (k, q * 512 + i) ∧
      (copyChild g m' = some (none, m'') ∧ b = false ∨ ∃ c m1, copyChild g m' = some (some c, m1) ∧ b = true ∧
          m'' = { m1 with mem := m1.mem.write new i (c ||| (m.mem src i &&& entryFlagMask)) }) := by
  obtain ⟨e, m1, hread, h1⟩ := bind_eq_some.mp hrun
  obtain ⟨rfl, rfl⟩ := readEntry_eq_some.mp hread
  rw [hmem] at h1
  have hs := hT.sane src l q i hsrc hi
  split at h1
  · rename_i h0
    obtain ⟨rfl, rfl⟩ := pure_eq_some.mp h1
    exact .inl ⟨decode_absent ((and_present _).mp h0), rfl, rfl⟩
  · rename_i h0
    rw [and_present, Bool.not_eq_false] at h0
    split at h1
    · rename_i hc
      rw [Bool.or_eq_true, hpt, decide_eq_true_eq, ne_eq, and_pageSizeBit, Bool.not_eq_false] at hc
      refine .inr (.inl ⟨?_, copyLeaf_eq_some.mp h1⟩)
      unfold decode
      rw [if_neg (present_of_testBit h0)]
      by_cases hl : l = 0
      · rw [if_pos hl]
      · have h7 := hc.resolve_left hl
        have hl3 : l ≠ 3 := fun hl3 => absurd (((hs h0).1 (by omega)).symm.trans h7) (by simp)
        rw [if_neg hl, if_pos (huge_of_testBit h7), if_neg hl3]
    · rename_i hc
      rw [Bool.or_eq_true, hpt, decide_eq_true_eq, ne_eq, and_pageSizeBit, Bool.not_eq_false, not_or,
        Bool.not_eq_true] at hc
      obtain ⟨hl, h7⟩ := hc
      have hD : decode l (m.mem src i) = .table _ := decode_eq_table.mpr ⟨h0, hl, h7, rfl⟩
      obtain ⟨k, rfl, hg⟩ := hT.tree src l q i _ hsrc hi hD
      obtain ⟨r, m2, h2, h3⟩ := bind_eq_some.mp h1
      refine .inr (.inr ⟨k, _, rfl, hD, hg, ?_⟩)
      cases r with
      | none =>
        obtain ⟨rfl, rfl⟩ := pure_eq_some.mp h3
        exact .inl ⟨h2, rfl⟩
      | some c =>
        obtain ⟨_, m3, hw, h4⟩ := bind_eq_some.mp h3
        obtain ⟨rfl, rfl⟩ := pure_eq_some.mp h4
        exact .inr ⟨c, m2, h2, rfl, (writeEntry_eq_some.mp hw).symm⟩

/-- The name of a copied table is written. -/
lemma child_copying (hz : z.zone.top ≤ directMapSize) {m1 : Machine}
    (h : Copying z cowFlag l src new q i own M m own' M' m') (hl : l = k + 1) (hi : i < 512)
    (hD : decode l (m.mem src i) = .table g) (hc : Copied z cowFlag k g c (q * 512 + i) own' M' m' own'' M'' m1) :
    Copying z cowFlag l src new q (i + 1) own M m own'' M''
      { m1 with mem := m1.mem.write new i (c ||| (m.mem src i &&& entryFlagMask)) } := by
  subst hl
  obtain ⟨h0, hl, h7, -⟩ := decode_eq_table.mp hD
  obtain ⟨hDw, hsw⟩ := copy_name hT hsrc hz hl hi h0 h7 hc.grew.tables hc.placed
  exact h.child hT hsrc hi hD hc rfl hDw hsw

lemma copyEntry_copying (hz : z.zone.top ≤ directMapSize) (hpt : isPt = true ↔ l = 0)
    (hchild : ∀ k g p, l = k + 1 → ∀ (own : Owners) M m c m', own g = some (k, p) → Tables z own M m →
      copyChild g m = some (some c, m') → ∃ own' M', Copied z cowFlag k g c p own M m own' M' m')
    (h : Copying z cowFlag l src new q i own M m own' M' m') (hi : i < 512)
    (hrun : copyEntry isPt copyChild cowFlag src new i m' = some (true, m'')) :
    ∃ own'' M'', Copying z cowFlag l src new q (i + 1) own M m own'' M'' m'' := by
  rcases copyEntry_cases hT hsrc hpt hi (h.source hsrc) hrun with
    ⟨hD, -, rfl⟩ | ⟨hD, -, rfl⟩ | ⟨k, g, hl, hD, hg, ⟨-, hb⟩ | ⟨c, m1, hc, -, rfl⟩⟩
  · exact ⟨own', M', h.skip hD⟩
  · exact ⟨own', M', leaf_copying hT hsrc h hi hD⟩
  · cases hb
  · obtain ⟨own2, M2, hcopied⟩ := hchild k g _ hl _ _ _ _ _ (h.grew.grown.ext _ _ hg) h.grew.tables hc
    exact ⟨own2, M2, child_copying hT hsrc hz h hl hi hD hcopied⟩

/-- There may be no page for the new table. -/
lemma copyTable_cases (hz : z.zone.top ≤ directMapSize) {r : Option ℕ} (hrun : copyTable isPt copyChild cowFlag src m = some (r, m')) :
    (r = none ∧ (Phys.allocPage.run m.phys).1 = none) ∨
    ∃ new phys done, Fresh z own M m.phys new phys ∧ r = (if done then some new else none) ∧
      forIndices (copyEntry isPt copyChild cowFlag src new) (List.range' 0 512)
        { m with mem := m.mem.fill new newZeroed, phys } = some (done, m') := by
  obtain ⟨src', m1, h1, h2⟩ := bind_eq_some.mp hrun
  obtain ⟨p, m2, h3, h4⟩ := bind_eq_some.mp h2
  obtain ⟨rfl, rfl⟩ := hT.toVirtual hz hsrc h1
  rcases newTable_cases hT hz h3 with ⟨rfl, -, hnone⟩ | ⟨page, phys, rfl, hp, rfl⟩
  · obtain ⟨rfl, -⟩ := pure_eq_some.mp h4
    exact .inl ⟨rfl, hnone⟩
  · obtain ⟨done, m6, hloop, hfin⟩ := bind_eq_some.mp h4
    obtain ⟨rfl, rfl⟩ := finishCopy_eq_some.mp hfin
    rw [List.range_eq_range'] at hloop
    exact .inr ⟨page, phys, done, hp, rfl, hloop⟩

lemma copyTable_copied (hz : z.zone.top ≤ directMapSize) (hpt : isPt = true ↔ l = 0)
    (hchild : ∀ k g p, l = k + 1 → ∀ (own : Owners) M m c m', own g = some (k, p) → Tables z own M m →
      copyChild g m = some (some c, m') → ∃ own' M', Copied z cowFlag k g c p own M m own' M' m')
    (hrun : copyTable isPt copyChild cowFlag src m = some (some c, m')) :
    ∃ own' M', Copied z cowFlag l src c q own M m own' M' m' := by
  rcases copyTable_cases hT hsrc hz hrun with ⟨hr, -⟩ | ⟨new, phys, done, hp, hr, hloop⟩
  · cases hr
  · cases done with
    | false => cases hr
    | true =>
      obtain rfl : c = new := by simpa using hr
      obtain ⟨own', M', h⟩ := forIndices_run (n := 512)
        (J := fun i m' => ∃ own' M', Copying z cowFlag l src c q i own M m own' M' m')
        (fun i m7 m8 hi ⟨_, _, h⟩ hrun => copyEntry_copying hT hsrc hz hpt hchild h hi hrun) 512 0 rfl
        ⟨_, _, Copying.start hT hp⟩ hloop
      exact ⟨own', M', h.done⟩

end

/-- What `copy_table_recursive` returns is a copy. -/
lemma copyTableRecursive_copied (hz : z.zone.top ≤ directMapSize) (cowFlag : Bool) : ∀ (level : ℕ) {src q c : ℕ}
    {own : Owners} {M : Multiset ℕ} {m m' : Machine}, own src = some (level, q) → Tables z own M m →
    copyTableRecursive cowFlag level src m = some (some c, m') →
    ∃ own' M', Copied z cowFlag level src c q own M m own' M' m'
  | 0, _, _, _, _, _, _, _, hsrc, hT, h =>
    copyTable_copied hT hsrc hz (by simp) (fun k g p hl => by omega) h
  | level + 1, _, _, _, _, _, _, _, hsrc, hT, h =>
    copyTable_copied hT hsrc hz (by simp) (fun k g p hl own M m c m' hg hT hrun => by
      obtain rfl : level = k := by omega
      exact copyTableRecursive_copied hz cowFlag level hg hT hrun) h

end LodaxOS.Virt
