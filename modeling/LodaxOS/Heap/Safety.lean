/-
# The slab heap is safe in every interleaving

`KmemCache::alloc` and `KmemCache::free` are safe (`Sections.Prog.Safe`) for
the invariant of the heap: between its sections a call holds the pages it has
not made a slab of, the slab it has not put on a list, or the pages of a slab
that it took off one. A `Ledger` beside the environment counts how often each
page was handed out and given back.
-/
import LodaxOS.Heap.Sections
import LodaxOS.Phys.Buddy
import Mathlib.Algebra.BigOperators.Pi

namespace LodaxOS.Heap

open Phys (pageSize rangePages RangesDisjoint)
open Multiset (disjoint_left mem_add mem_bind mem_map nodup_bind)
open Multiset (map_bind map_coe map_cons map_map nodup_add singleton_add)
open Virt (higherHalf)
open Sections Prog Keeps Desc Safe

variable {ε : Type} {E : Env ε} {Dead : ε → Prop} {Owns : ε → Multiset (ℕ × Bool) → Prop}

/-- The invariant between sections. -/
def Guarded (Dead : ε → Prop) (Owns : ε → Multiset (ℕ × Bool) → Prop) (s : State ε) (M : Holding) : Prop :=
  Dead s.env ∨ ∃ D, Holds Owns s D M

lemma holding_add (P : Multiset (ℕ × Bool)) (V : Multiset Desc) (O : Multiset (ℕ × ℕ)) (F : Holding) :
    (P, V, O) + F = (P + F.1, V + F.2.1, O + F.2.2) := rfl

/-- What a call that returns the object `o`, or null, leaves to its caller. -/
def objHolding (i o : ℕ) : Holding := if o = 0 then 0 else (0, 0, {(i, o)})

/-- One page twice, which nobody holds. -/
def twice : Holding := ({(0, false), (0, false)}, 0, 0)

section

variable (hL : Lawful E Dead Owns)

include hL

lemma dead_of_twice (s : State ε) (F : Holding) (h : Guarded Dead Owns s (twice + F)) : Dead s.env := by
  refine h.resolve_right ?_
  rintro ⟨D, h⟩
  have hnd := hL.nodup h.owned
  rw [Multiset.map_add, nodup_add] at hnd
  have := hnd.2.1
  change ((({(0, false), (0, false)} : Multiset (ℕ × Bool)) + F.1).map Prod.fst).Nodup at this
  rw [Multiset.map_add, nodup_add] at this
  simp at this

omit hL in
lemma guarded_of_dead (s : State ε) (M : Holding) (h : Dead s.env) : Guarded Dead Owns s M := .inl h

variable {M : Holding}

/-- A section and what follows, from a state in which the heap holds its slabs. -/
lemma alive_safe {α β : Type} {f : State ε → β × State ε} {g : β → Prog (State ε) α} {r : α → Holding}
    (hkeeps : Keeps (fun s : State ε => Dead s.env) (Prog.atomically f >>= g))
    (hs : ∀ s F D, Holds Owns s D (M + F) → Keeps (fun s : State ε => Dead s.env) (g (f s).1) →
      Dead (f s).2.env ∨ ∃ M', Guarded Dead Owns (f s).2 (M' + F) ∧
        Safe (Guarded Dead Owns) (g (f s).1) M' fun a h => h = r a) :
    Safe (Guarded Dead Owns) (Prog.atomically f >>= g) M fun a h => h = r a := by
  refine alive (K := fun s : State ε => Dead s.env) (dead_of_twice hL) guarded_of_dead (fun _ => exists_eq) hkeeps
    fun s F hk hI hg => ?_
  obtain ⟨D, hD⟩ := hI.resolve_left hk
  exact hs s F D hD hg

/-! ### What every section keeps -/

omit hL in
lemma takeExisting_frame (i : ℕ) (s : State ε) :
    (takeExisting i s).2.env = s.env ∧ (takeExisting i s).2.initialized = s.initialized := by
  unfold takeExisting
  simp only
  split
  · exact ⟨rfl, rfl⟩
  · split <;> exact ⟨rfl, rfl⟩

omit hL in
lemma takeOrInstall_frame (i slab : ℕ) (full : Bool) (s : State ε) :
    (takeOrInstall i slab full s).2.env = s.env ∧ (takeOrInstall i slab full s).2.initialized = s.initialized := by
  have h := takeExisting_frame i s
  unfold takeOrInstall
  split
  · rename_i heq
    rw [heq] at h
    exact h
  · exact ⟨rfl, rfl⟩

omit hL in
lemma reclaim_frame (E : Env ε) (i slab : ℕ) (s : State ε) (r : Cache × Cells) :
    (reclaim E i slab s r).2.initialized = s.initialized ∧
    ∃ vs : List ℕ, (reclaim E i slab s r).2.env = vs.foldl (fun e v => E.unmap v e) s.env := by
  refine ⟨rfl, (List.range (1 <<< (removeFromAnyList r.1 r.2 slab).2 (Slab.order slab))).map fun p =>
    (removeFromAnyList r.1 r.2 slab).2 (Slab.slabBase slab) + p * pageSize, ?_⟩
  rw [List.foldl_map]
  rfl

omit hL in
/-- The section of `KmemCache::free` calls nothing but `unmap`. -/
lemma freeSection_frame (E : Env ε) (i o : ℕ) (s : State ε) : (freeSection E i o s).2.initialized = s.initialized ∧
    ∃ vs : List ℕ, (freeSection E i o s).2.env = vs.foldl (fun e v => E.unmap v e) s.env := by
  unfold freeSection
  simp only
  split
  · exact ⟨rfl, [], rfl⟩
  · split
    · exact reclaim_frame E i _ s _
    · exact ⟨rfl, [], rfl⟩

omit hL in
/-- A property of the environment and of `initialized` that all calls of the
environment keep. -/
structure Stable (E : Env ε) (K : State ε → Prop) : Prop where
  alloc : ∀ {s k}, K s → K (s.setEnv (E.allocOrder k s.env).2)
  map : ∀ {s a n}, K s → K (s.setEnv (E.mapContiguous a n s.env))
  unmap : ∀ {s v}, K s → K (s.setEnv (E.unmap v s.env))
  free : ∀ {s a n}, K s → K (s.setEnv (E.freePages a n s.env))
  frame : ∀ {s s'}, s'.env = s.env ∧ s'.initialized = s.initialized → K s → K s'

/-- No call brings the machine back. -/
lemma dead_stable : Stable E fun s => Dead s.env where
  alloc h := (hL.deadAlloc h).2
  map h := hL.deadMap h
  unmap h := hL.deadUnmap h
  free h := hL.deadFree h
  frame he h := he.1 ▸ h

namespace Stable

omit hL

variable {K : State ε → Prop} (hK : Stable E K)

include hK

lemma freeSection {i o : ℕ} {s : State ε} (h : K s) : K (freeSection E i o s).2 := by
  obtain ⟨hi, vs, he⟩ := freeSection_frame E i o s
  have hfold : K (s.setEnv (vs.foldl (fun e v => E.unmap v e) s.env)) :=
    List.foldlRecOn vs (motive := fun e => K (s.setEnv e)) _ h fun e he v _ => hK.unmap he
  exact hK.frame (s := s.setEnv _) ⟨he, hi⟩ hfold

lemma unmapPages (b : ℕ) : ∀ l : List ℕ, Keeps K (unmapPages E b l)
  | [] => pure
  | _ :: l => bind (atomically fun _ h => hK.unmap h) fun _ => unmapPages b l

lemma cacheAlloc (i : ℕ) : Keeps K (cacheAlloc E i) := by
  unfold Heap.cacheAlloc
  refine bind (atomically fun s h => hK.frame (takeExisting_frame i s) h) fun r => ?_
  cases r with
  | some => exact pure
  | none =>
    refine bind (atomically fun s h => h) fun order => ?_
    refine bind (atomically fun s h => hK.alloc h) fun r => ?_
    cases r with
    | none => exact pure
    | some =>
      refine bind (atomically fun s h => hK.map h) fun _ => ?_
      refine bind (atomically fun s h => hK.frame (s := s) ⟨rfl, rfl⟩ h) fun obj => ?_
      refine bind (atomically fun s h => hK.frame (takeOrInstall_frame i _ _ s) h) fun r => ?_
      cases r with
      | none => exact pure
      | some =>
        refine bind (hK.unmapPages _ _) fun _ => ?_
        exact bind (atomically fun s h => hK.free h) fun _ => pure

lemma cacheFree (i o : ℕ) : Keeps K (cacheFree E i o) := by
  refine bind (atomically fun s h => hK.freeSection h) fun r => ?_
  cases r with
  | none => exact pure
  | some => exact atomically fun s h => hK.free h

end Stable

/-! ### The calls -/

omit hL in
/-- A call of the environment, from a state that is not dead. -/
lemma onEnv_safe {f : ε → ε} {P R : Multiset (ℕ × Bool)} (hf : ∀ e, Dead e → Dead (f e))
    (h : ∀ e M, Owns e (P + M) → Dead (f e) ∨ Owns (f e) (R + M)) :
    Safe (Guarded Dead Owns) (onEnv f) (P, 0, 0) fun _ h => h = (R, 0, 0) := by
  refine modify fun s F hI => ⟨(R, 0, 0), ?_, rfl⟩
  rcases hI with hd | ⟨D, hD⟩
  · exact .inl (hf _ hd)
  · rw [holding_add] at hD
    have ho := hD.owned
    rw [add_left_comm] at ho
    refine (h _ _ ho).imp id fun ho' => ⟨D, hD.setEnv ?_⟩
    rw [add_left_comm]
    exact ho'

/-- The pages of a slab that nobody sees are unmapped. -/
lemma unmapPages_safe {b p : ℕ} (hb : b = higherHalf + p * pageSize) : ∀ l : List ℕ,
    Safe (Guarded Dead Owns) (unmapPages E b l) ((l : Multiset ℕ).map fun k => (p + k, true), 0, 0)
      fun _ h => h = ((l : Multiset ℕ).map fun k => (p + k, false), 0, 0)
  | [] => pure rfl
  | k :: l => by
    have haddr : b + k * pageSize = higherHalf + (p + k) * pageSize := by rw [hb]; ring
    have hone : Safe (Guarded Dead Owns) (onEnv (E.unmap (b + k * pageSize))) ({(p + k, true)}, 0, 0)
        fun _ h => h = ({(p + k, false)}, 0, 0) := by
      refine onEnv_safe (fun e h => hL.deadUnmap h) fun e M ho => ?_
      rw [haddr]
      exact hL.unmap ho
    have hsplit : ∀ t, (((k :: l : List ℕ) : Multiset ℕ).map (fun k => (p + k, t)), 0, 0) =
        (({(p + k, t)}, 0, 0) : Holding) + ((l : Multiset ℕ).map fun k => (p + k, t), 0, 0) := by
      intro t
      rw [← Multiset.cons_coe, map_cons, ← singleton_add]
      rfl
    unfold unmapPages
    rw [hsplit]
    refine (hone.frame _).bind ?_
    rintro - _ ⟨_, rfl, rfl⟩
    rw [add_comm]
    refine ((unmapPages_safe hb l).frame _).mono ?_
    rintro - _ ⟨_, rfl, rfl⟩
    rw [hsplit, add_comm]

lemma cacheFree_safe (i o : ℕ) : Safe (Guarded Dead Owns) (cacheFree E i o) (0, 0, {(i, o)}) fun _ h => h = 0 := by
  unfold cacheFree
  refine alive_safe hL ((dead_stable hL).cacheFree i o) fun s F D hD _ => ?_
  rw [holding_add, zero_add, zero_add, singleton_add] at hD
  obtain ⟨p, l, D0, -, ⟨hr, -, h⟩ | ⟨-, hr, hp, h⟩⟩ := hD.freeSection hL
  · right
    rw [hr]
    refine ⟨0, .inr ⟨⟨i, p, o :: l⟩ ::ₘ D0, ?_⟩, pure rfl⟩
    rw [zero_add]
    exact h
  · refine h.imp id fun h => ?_
    rw [hr]
    refine ⟨(marked false p (2 ^ slabOrder i), 0, 0), .inr ⟨D0, ?_⟩, ?_⟩
    · rw [holding_add, zero_add, zero_add]
      exact h
    · refine onEnv_safe (fun e h => hL.deadFree h) fun e M ho => ?_
      rw [zero_add]
      exact hL.free hp ho

omit hL in
lemma marked_eq (t : Bool) (a n : ℕ) :
    marked t a n = ((List.range n : List ℕ) : Multiset ℕ).map fun k => (a / pageSize + k, t) := by
  rw [marked, rangePages, List.range'_eq_map_range, ← map_coe, map_map]
  rfl

/-- A slab that lost the double check: its pages go back. -/
lemma giveBack_safe {phys n i real : ℕ} (hp : pageSize ∣ phys) : Safe (Guarded Dead Owns) (do
        unmapPages E (higherHalf + phys) (List.range n)
        onEnv (E.freePages phys n)
        pure real)
      (marked true phys n, 0, {(i, real)}) fun r h => r = real ∧ h = (0, 0, {(i, real)}) := by
  have hb : higherHalf + phys = higherHalf + phys / pageSize * pageSize := by rw [Nat.div_mul_cancel hp]
  have hsplit : ((marked true phys n, 0, {(i, real)}) : Holding) = (marked true phys n, 0, 0) + (0, 0, {(i, real)}) := by
    rw [holding_add, add_zero, zero_add, zero_add]
  rw [hsplit, marked_eq]
  refine ((unmapPages_safe hL hb _).frame _).bind ?_
  rintro - _ ⟨_, rfl, rfl⟩
  rw [← marked_eq]
  have hfree : Safe (Guarded Dead Owns) (onEnv (E.freePages phys n)) (marked false phys n, 0, 0) fun _ h => h = 0 :=
    onEnv_safe (fun e h => hL.deadFree h) fun e M ho => by
      rw [zero_add]
      exact hL.free hp ho
  refine (hfree.frame _).bind ?_
  rintro - _ ⟨_, rfl, rfl⟩
  exact pure ⟨rfl, zero_add _⟩

omit hL in
lemma Holds.obj_ne_zero {s : State ε} {D : Multiset Desc} (h : Holds Owns s D M) {i o : ℕ}
    (ho : (i, o) ∈ M.2.2) : o ≠ 0 := by
  rw [h.objs] at ho
  obtain ⟨d, hd, hlive⟩ := mem_bind.mp ho
  obtain ⟨rfl, hs, -⟩ := mem_live.mp hlive
  have := (mem_slots_bounds (h.slabs d (mem_add.mpr (.inl hd))).cache hs).1
  simp only [slabSize] at this
  omega

omit hL in
lemma objHolding_of_ne {i o : ℕ} (h : o ≠ 0) : objHolding i o = (0, 0, {(i, o)}) := if_neg h

/-- An object that the cache has. -/
lemma takeExisting_some {i : ℕ} (hi : i < 9) {s : State ε} {D : Multiset Desc} (h : Holds Owns s D M) :
    (takeExisting i s = (none, s)) ∨ ∃ o, (takeExisting i s).1 = some o ∧ o ≠ 0 ∧ ∃ p l D0, D = ⟨i, p, o :: l⟩ ::ₘ D0 ∧
      Holds Owns (takeExisting i s).2 (⟨i, p, l⟩ ::ₘ D0) (M.1, M.2.1, (i, o) ::ₘ M.2.2) := by
  by_cases hp : (s.caches i).partialSlabs = 0
  · exact .inl (h.takeExisting_none hi hp)
  · right
    obtain ⟨p, o, l, D0, hD, rfl, hD'⟩ := h.takePartial hL hi hp
    have he : takeExisting i s = (some (takePartial (s.caches i) s.mem).1,
        s.setCache i (takePartial (s.caches i) s.mem).2) := by
      unfold takeExisting
      simp only [ne_eq, hp, not_false_eq_true, if_true]
    rw [he]
    exact ⟨_, rfl, hD'.obj_ne_zero (Multiset.mem_cons_self _ _), p, l, D0, hD, hD'⟩

omit hL in
/-- A new slab of which the first object was taken. -/
lemma live_tail {i : ℕ} (hi : i < 9) (p : ℕ) : (slots i (higherHalf + p)).tail.length < totalObjs i ∧
    live ⟨i, p, (slots i (higherHalf + p)).tail⟩ = {(i, slot i (higherHalf + p) 0)} := by
  have hlen : (slots i (higherHalf + p)).length = totalObjs i := by rw [slots, List.length_map, List.length_range]
  have hpos := (params hi).total
  have hslots : slots i (higherHalf + p) = slot i (higherHalf + p) 0 :: (slots i (higherHalf + p)).tail := slots_eq_cons hi
  have hnd := slots_nodup (b := higherHalf + p) hi
  have hall : live ⟨i, p, slots i (higherHalf + p)⟩ = 0 := live_empty hnd (fun o ho => ho) hlen
  refine ⟨by rw [List.length_tail]; omega, ?_⟩
  rw [hslots] at hnd
  rw [live_cons hi (hslots ▸ List.mem_cons_self) (List.nodup_cons.mp hnd).1, ← hslots, hall]
  rfl

/-- The slow path from its pages on. -/
lemma installNew_safe {i phys : ℕ} (hi : i < 9) (hp : pageSize ∣ phys) {p : Prog (State ε) ℕ} (hprog : p = do
      onEnv (E.mapContiguous phys (1 <<< slabOrder i))
      let obj ← atomically (newSlab i (higherHalf + phys))
      match ← atomically (takeOrInstall i (higherHalf + phys) obj.2) with
      | some real => do
        unmapPages E (higherHalf + phys) (List.range (1 <<< slabOrder i))
        onEnv (E.freePages phys (1 <<< slabOrder i))
        pure real
      | none => pure obj.1)
    (hkeeps : Keeps (fun s : State ε => Dead s.env) p) :
    Safe (Guarded Dead Owns) p (marked false phys (2 ^ slabOrder i), 0, 0) fun o h => h = objHolding i o := by
  subst hprog
  rw [Nat.one_shiftLeft] at *
  refine alive_safe hL hkeeps fun s F D hD hkeeps => ?_
  rw [holding_add, zero_add, zero_add] at hD
  have ho := hD.owned
  rw [add_left_comm] at ho
  refine (hL.map hp ho).imp id fun ho => ⟨(marked true phys (2 ^ slabOrder i), 0, 0), .inr ⟨D, ?_⟩, ?_⟩
  · rw [holding_add, zero_add, zero_add]
    refine hD.setEnv ?_
    rw [add_left_comm]
    exact ho
  clear hD ho
  refine alive_safe hL hkeeps fun s F D hD hkeeps => .inr ?_
  rw [holding_add, zero_add, zero_add] at hD
  obtain ⟨he, hD'⟩ := hD.newSlab hL hi hp
  refine ⟨(0, {⟨i, phys, (slots i (higherHalf + phys)).tail⟩}, 0), .inr ⟨D, ?_⟩, ?_⟩
  · rw [holding_add, zero_add, zero_add, singleton_add]
    exact hD'
  rw [he] at hkeeps ⊢
  clear hD he hD'
  refine alive_safe hL hkeeps fun s F D hD hkeeps => .inr ?_
  rw [holding_add, zero_add, zero_add, singleton_add] at hD
  rcases takeExisting_some hL hi hD with he | ⟨o, he, ho, p', l, D0, -, hD'⟩
  · have he' : takeOrInstall i (higherHalf + phys) (slots i (higherHalf + phys)).tail.isEmpty s = (none,
        s.setCache i (install (s.caches i) s.mem (higherHalf + phys) (slots i (higherHalf + phys)).tail.isEmpty)) := by
      unfold takeOrInstall
      rw [he]
    obtain ⟨hlen, hlive⟩ := live_tail hi phys
    refine ⟨objHolding i (slot i (higherHalf + phys) 0),
      .inr ⟨⟨i, phys, (slots i (higherHalf + phys)).tail⟩ ::ₘ D, ?_⟩, ?_⟩
    · rw [objHolding_of_ne (by simp [slot, slabSize]), holding_add, zero_add, zero_add, he', ← hlive]
      exact hD.install hL hlen
    · simp only [he']
      exact pure rfl
  · have he' : (takeOrInstall i (higherHalf + phys) (slots i (higherHalf + phys)).tail.isEmpty s) = takeExisting i s := by
      unfold takeOrInstall
      rw [← Prod.mk.eta (p := takeExisting i s), he]
    refine ⟨(marked true phys (2 ^ slabOrder i), 0, {(i, o)}), .inr ⟨⟨i, p', l⟩ ::ₘ D0, ?_⟩, ?_⟩
    · rw [he', holding_add, zero_add, singleton_add]
      exact hD'.discard
    · simp only [he', he]
      refine (giveBack_safe hL hp).mono ?_
      rintro _ _ ⟨rfl, rfl⟩
      exact (objHolding_of_ne ho).symm

lemma cacheAlloc_safe {i : ℕ} (hi : i < 9) :
    Safe (Guarded Dead Owns) (cacheAlloc E i) 0 fun o h => h = objHolding i o := by
  have hkeeps := (dead_stable hL).cacheAlloc i
  unfold cacheAlloc at *
  refine alive_safe hL hkeeps fun s F D hD hkeeps => .inr ?_
  rw [zero_add] at hD
  rcases takeExisting_some hL hi hD with he | ⟨o, he, ho, p', l, D0, -, hD'⟩
  swap
  · rw [he]
    refine ⟨objHolding i o, .inr ⟨⟨i, p', l⟩ ::ₘ D0, ?_⟩, pure rfl⟩
    rw [objHolding_of_ne ho, holding_add, zero_add, zero_add, singleton_add]
    exact hD'
  rw [he] at hkeeps ⊢
  refine ⟨0, by rw [zero_add]; exact .inr ⟨D, hD⟩, ?_⟩
  -- the lock is released: what follows starts from any state
  clear hD he
  refine alive_safe hL hkeeps fun s F D hD hkeeps => .inr ⟨0, .inr ⟨D, hD⟩, ?_⟩
  simp only [(hD.params i hi).2.1] at hkeeps ⊢
  clear hD
  refine alive_safe hL hkeeps fun s F D hD hkeeps => .inr ?_
  rw [zero_add] at hD
  cases hr : (E.allocOrder (slabOrder i) s.env).1 with
  | none =>
    refine ⟨0, .inr ⟨D, ?_⟩, ?_⟩
    · rw [zero_add]
      exact hD.setEnv (hL.allocNone hD.owned hr)
    · exact pure rfl
  | some phys =>
    obtain ⟨hblock, ho⟩ := hL.alloc hD.owned hr
    have hp : pageSize ∣ phys := dvd_trans (Phys.pageSize_dvd_blockSize _) hblock
    refine ⟨(marked false phys (2 ^ slabOrder i), 0, 0), .inr ⟨D, ?_⟩, ?_⟩
    · rw [holding_add, zero_add, zero_add]
      refine hD.setEnv ?_
      rw [add_left_comm]
      exact ho
    · simp only [hr] at hkeeps
      exact installNew_safe hL hi hp rfl hkeeps

end

/-! ### What was handed out and given back -/

/-- The pages that the allocator handed out and those that it got back, each as
often as it was. -/
structure Ledger where
  out : Multiset ℕ
  back : Multiset ℕ

/-- The environment with a ledger beside it. -/
def recorded (E : Env ε) : Env (ε × Ledger) where
  allocOrder k e := ((E.allocOrder k e.1).1, (E.allocOrder k e.1).2,
    match (E.allocOrder k e.1).1 with
    | some a => { e.2 with out := rangePages a (2 ^ k) + e.2.out }
    | none => e.2)
  freePages a n e := (E.freePages a n e.1, { e.2 with back := rangePages a n + e.2.back })
  mapContiguous a n e := (E.mapContiguous a n e.1, e.2)
  unmap v e := (E.unmap v e.1, e.2)

/-- What the heap holds is what it got and did not give back. -/
def Balanced (Owns : ε → Multiset (ℕ × Bool) → Prop) (e : ε × Ledger) (M : Multiset (ℕ × Bool)) : Prop :=
  Owns e.1 M ∧ e.2.out = e.2.back + M.map Prod.fst

lemma marked_fst (t : Bool) (a n : ℕ) : (marked t a n).map Prod.fst = rangePages a n := by
  rw [marked, map_map]
  exact Multiset.map_id' _

lemma recorded_lawful (hL : Lawful E Dead Owns) : Lawful (recorded E) (fun e => Dead e.1) (Balanced Owns) where
  nodup h := hL.nodup h.1
  lt h := hL.lt h.1
  alloc h hr := by
    obtain ⟨hd, ho⟩ := hL.alloc h.1 hr
    refine ⟨hd, ho, ?_⟩
    have hr' : (E.allocOrder _ _).1 = some _ := hr
    simp only [recorded, hr', Multiset.map_add, marked_fst, h.2]
    rw [add_left_comm]
  allocNone h hr := by
    have hr' : (E.allocOrder _ _).1 = none := hr
    refine ⟨hL.allocNone h.1 hr, ?_⟩
    simp only [recorded, hr', h.2]
  map hp h := by
    refine (hL.map hp h.1).imp id fun ho => ⟨ho, ?_⟩
    rw [Multiset.map_add, marked_fst, ← marked_fst false, ← Multiset.map_add]
    exact h.2
  unmap h := by
    refine (hL.unmap h.1).imp id fun ho => ⟨ho, ?_⟩
    rw [map_cons]
    have := h.2
    rwa [map_cons] at this
  free hp h := by
    refine (hL.free hp h.1).imp id fun ho => ⟨ho, ?_⟩
    have := h.2
    rw [Multiset.map_add, marked_fst, ← add_assoc, add_comm _ (rangePages _ _)] at this
    exact this
  deadAlloc h := hL.deadAlloc h
  deadMap h := hL.deadMap h
  deadUnmap h := hL.deadUnmap h
  deadFree h := hL.deadFree h

/-! ### Any number of processors -/

/-- What the processors do: calls of the caches, writes into objects that they
own, and calls of the allocator and the page tables by others. -/
inductive Request (Dead : ε → Prop) (Owns : ε → Multiset (ℕ × Bool) → Prop)
  | alloc (i : Fin 9)
  | free (i o : ℕ)
  | write (i o : ℕ) (w : Cells → Cells)
  | other (g : ε → ε) (dead : ∀ e, Dead e → Dead (g e)) (owns : ∀ e M, Owns e M → Dead (g e) ∨ Owns (g e) M)

/-- A write of an object. -/
def writeObj (i o : ℕ) (w : Cells → Cells) (s : State ε) : State ε :=
  { s with mem := fun a => if o ≤ a ∧ a < o + objSize i then w s.mem a else s.mem a }

namespace Request

variable (E) in
def prog : Request Dead Owns → Prog (State (ε × Ledger)) ℕ
  | alloc i => cacheAlloc (recorded E) i
  | free i o => do
    cacheFree (recorded E) i o
    pure 0
  | write i o w => do
    modify (writeObj i o w)
    pure 0
  | other g _ _ => do
    onEnv fun e => (g e.1, e.2)
    pure 0

def takes : Request Dead Owns → Multiset (ℕ × ℕ)
  | alloc _ => 0
  | free i o => {(i, o)}
  | write i o _ => {(i, o)}
  | other _ _ _ => 0

def gives : Request Dead Owns → ℕ → Multiset (ℕ × ℕ)
  | alloc i, o => if o = 0 then 0 else {(i.val, o)}
  | free _ _, _ => 0
  | write i o _, _ => {(i, o)}
  | other _ _ _, _ => 0

lemma safe (hL : Lawful E Dead Owns) (k : Request Dead Owns) :
    Safe (Guarded (fun e : ε × Ledger => Dead e.1) (Balanced Owns)) (k.prog E) (0, 0, k.takes)
      fun r h => h = (0, 0, k.gives r) := by
  have hL' := recorded_lawful hL
  cases k with
  | alloc i =>
    refine (cacheAlloc_safe hL' i.isLt).mono ?_
    rintro o _ rfl
    by_cases ho : o = 0
    · simp only [objHolding, gives, if_pos ho]
      rfl
    · simp only [objHolding, gives, if_neg ho]
  | free i o =>
    refine (cacheFree_safe hL' i o).bind ?_
    rintro - _ rfl
    exact pure rfl
  | write i o =>
    refine bind (Q := fun _ h => h = (0, 0, {(i, o)})) (modify fun s F hI => ⟨_, ?_, rfl⟩) ?_
    · refine hI.imp id fun ⟨D, hD⟩ => ⟨D, ?_⟩
      rw [takes, holding_add, zero_add, zero_add, singleton_add] at hD
      rw [holding_add, zero_add, zero_add, singleton_add]
      exact hD.write hL' (M := (F.1, F.2.1, 0)) (fun a ha => if_neg ha)
    · rintro - _ rfl
      exact pure rfl
  | other g dead owns =>
    refine bind (Q := fun _ h => h = (0, 0, 0)) ?_ ?_
    · refine onEnv_safe (fun e h => dead e.1 h) fun e M ho => ?_
      rw [zero_add] at ho ⊢
      exact (owns _ _ ho.1).imp id fun h => ⟨h, ho.2⟩
    · rintro - _ rfl
      exact pure rfl

end Request

/-- The callers own objects, each with its cache. -/
def client (E : Env ε) (Dead : ε → Prop) (Owns : ε → Multiset (ℕ × Bool) → Prop) :
    Client (State (ε × Ledger)) ℕ Holding where
  Call := Request Dead Owns
  Tok := ℕ × ℕ
  prog := Request.prog E
  takes := Request.takes
  gives := Request.gives
  cost t := (0, 0, {t})
  Ok _ := True

lemma sum_objs (ts : Multiset (ℕ × ℕ)) : (ts.map fun t => ((0, 0, {t}) : Holding)).sum = (0, 0, ts) := by
  induction ts using Multiset.induction with
  | empty => rfl
  | cons t ts ih => rw [map_cons, Multiset.sum_cons, ih, holding_add, zero_add, zero_add, singleton_add]

lemma client_safe (hL : Lawful E Dead Owns) :
    (client E Dead Owns).Safe (Guarded (fun e : ε × Ledger => Dead e.1) (Balanced Owns)) := by
  intro (k : Request Dead Owns) _
  have h := k.safe hL
  rw [← sum_objs k.takes] at h
  exact h.mono fun r h hr => ⟨hr.trans (sum_objs (k.gives r)).symm, fun _ _ => trivial⟩

/-- The slabs, each with its cache and its address, the objects that are out
and the pages that calls hold in the middle. -/
structure Sound (s : State (ε × Ledger)) (slabs live : Multiset (ℕ × ℕ)) (flight : Multiset ℕ) : Prop where
  bases : (slabs.map Prod.snd).Nodup
  header : ∀ x ∈ slabs, x.1 < 9 ∧ s.mem (Slab.slabBase x.2) = x.2 ∧ s.mem (Slab.order x.2) = slabOrder x.1 ∧
    s.mem (Slab.totalObjs x.2) = totalObjs x.1
  used : ∀ x ∈ slabs, s.mem (Slab.freeObjs x.2) < s.mem (Slab.totalObjs x.2) ∧ ∃ o, (x.1, o) ∈ live ∧ Region x.1 x.2 o
  partials : ∀ i < 9, ∃ l : List ℕ, Listed s.mem (s.caches i).partialSlabs l ∧ ∀ b, b ∈ l ↔
    (i, b) ∈ slabs ∧ 0 < s.mem (Slab.freeObjs b) ∧ s.mem (Slab.freeObjs b) < s.mem (Slab.totalObjs b)
  fulls : ∀ i < 9, ∃ l : List ℕ, Listed s.mem (s.caches i).fullSlabs l ∧ ∀ b, b ∈ l ↔
    (i, b) ∈ slabs ∧ s.mem (Slab.freeObjs b) = 0
  frees : ∀ i < 9, (s.caches i).freeSlabs = 0
  objects : ∀ x ∈ live, ∃ b, (x.1, b) ∈ slabs ∧ b + slabSize ≤ x.2 ∧ x.2 + objSize x.1 ≤ b + slabBytes x.1
  distinct : live.Nodup
  disjoint : ∀ x ∈ live, ∀ y ∈ live, x ≠ y → RangesDisjoint (x.2, objSize x.1) (y.2, objSize y.1)
  ledger : s.env.2.out = s.env.2.back + (slabs.bind fun x => rangePages (x.2 - higherHalf) (2 ^ slabOrder x.1)) + flight

/-- The pages of what calls hold in the middle, as slabs or not. -/
def flightPages : Holding →+ Multiset ℕ where
  toFun M := M.1.map Prod.fst + (M.2.1.bind Desc.pages).map Prod.fst
  map_zero' := rfl
  map_add' M M' := by
    rw [Prod.fst_add, Prod.snd_add, Prod.fst_add, Multiset.add_bind, Multiset.map_add, Multiset.map_add]
    abel

namespace Holds

section

variable {s : State ε} {D : Multiset Desc} {M : Holding}

variable (hL : Lawful E Dead Owns)

include hL

/-- The slabs have different pages. -/
lemma pages_disjoint (h : Holds Owns s D M) :
    D.Pairwise fun d d' => Disjoint (d.pages.map Prod.fst) (d'.pages.map Prod.fst) := by
  have hnd := hL.nodup h.owned
  rw [add_assoc, Multiset.map_add, nodup_add, map_bind] at hnd
  exact (nodup_bind.mp hnd.1).2

lemma bases_nodup (h : Holds Owns s D M) : (D.map base).Nodup := by
  obtain ⟨l, hl, hp⟩ := h.pages_disjoint hL
  rw [hl, map_coe, Multiset.coe_nodup]
  refine List.pairwise_map.mpr (hp.imp fun {d d'} hd hb => ?_)
  have hphys : d.phys = d'.phys := add_left_cancel hb
  have hfirst : ∀ d : Desc, d.phys / pageSize ∈ d.pages.map Prod.fst := fun d => by
    rw [pages, marked_fst, Phys.mem_rangePages]
    exact ⟨le_rfl, Nat.lt_add_of_pos_right (Nat.two_pow_pos _)⟩
  exact disjoint_left.mp hd (hfirst d) (hphys ▸ hfirst d')

lemma live_nodup (h : Holds Owns s D M) : (D.bind live).Nodup := by
  obtain ⟨l, hl, hp⟩ := h.pages_disjoint hL
  have hS : ∀ d ∈ l, SlabAt s.mem d.cache d.base d.chain := fun d hd =>
    h.slabs d (mem_add.mpr (.inl (hl ▸ hd)))
  refine nodup_bind.mpr ⟨fun d hd => Desc.live_nodup (hS d (hl ▸ hd : d ∈ (l : Multiset Desc))).cache, l, hl, ?_⟩
  refine hp.imp_of_mem fun {d d'} hd hd' hdis => disjoint_left.mpr fun {x} hx hx' => ?_
  obtain ⟨hc, ho, -⟩ := mem_live.mp hx
  obtain ⟨hc', ho', -⟩ := mem_live.mp hx'
  exact disjoint_left.mp hdis (mem_pages_of_region (hS d hd).aligned (mem_slots_region (hS d hd).cache ho))
    (mem_pages_of_region (hS d' hd').aligned (mem_slots_region (hS d' hd').cache ho'))

end

/-- The invariant in terms of the memory. -/
lemma sound (hL : Lawful E Dead Owns) {s : State (ε × Ledger)} {D : Multiset Desc} {M : Holding}
    (h : Holds (Balanced Owns) s D M) :
    Sound s (D.map fun d => (d.cache, d.base)) M.2.2 (flightPages M) := by
  have hL' := recorded_lawful hL
  have hS : ∀ d ∈ D, SlabAt s.mem d.cache d.base d.chain := fun d hd => h.slabs d (mem_add.mpr (.inl hd))
  have hmem : ∀ {i b : ℕ}, (i, b) ∈ D.map (fun d => (d.cache, d.base)) ↔ ∃ d ∈ D, d.cache = i ∧ d.base = b := by
    intro i b
    simp only [mem_map, Prod.mk.injEq]
  have hall : ∀ {p : ℕ × ℕ → Prop}, (∀ d ∈ D, p (d.cache, d.base)) → ∀ x ∈ D.map (fun d => (d.cache, d.base)), p x := by
    intro p hp x hx
    obtain ⟨d, hd, rfl⟩ := mem_map.mp hx
    exact hp d hd
  have hlist : ∀ i < 9, ∀ full, ∃ l : List ℕ, Listed s.mem ((s.caches i).head full) l ∧
      ∀ b, b ∈ l ↔ ∃ d ∈ D, d.cache = i ∧ d.base = b ∧ d.chain.isEmpty = full := by
    intro i hi full
    obtain ⟨l, hl, he⟩ := h.lists i hi full
    refine ⟨l, hl, fun b => ?_⟩
    rw [← Multiset.mem_coe, he, mem_slabsOf]
    simp only [and_comm, and_left_comm]
  have hlive : ∀ x ∈ M.2.2, ∃ d ∈ D, x.1 = d.cache ∧ x.2 ∈ slots d.cache d.base := by
    intro x hx
    rw [h.objs] at hx
    obtain ⟨d, hd, hx⟩ := mem_bind.mp hx
    obtain ⟨h1, h2, -⟩ := mem_live.mp hx
    exact ⟨d, hd, h1, h2⟩
  refine ⟨?_, hall fun d hd => ⟨(hS d hd).cache, (hS d hd).base, (hS d hd).order, (hS d hd).total⟩,
    hall fun d hd => ?_, fun i hi => ?_, fun i hi => ?_, fun i hi => (h.params i hi).2.2, fun x hx => ?_,
    h.objs ▸ h.live_nodup hL', fun x hx y hy hne a h1 h2 hc => ?_, ?_⟩
  · rw [map_map]
    exact h.bases_nodup hL'
  · -- some object is on no free list
    rw [(hS d hd).free, (hS d hd).total]
    refine ⟨h.used d hd, ?_⟩
    have hex : ∃ o ∈ slots d.cache d.base, o ∉ d.chain := by
      by_contra hc
      push Not at hc
      have := ((slots_nodup (hS d hd).cache).subperm hc).length_le
      rw [slots, List.length_map, List.length_range] at this
      exact absurd (h.used d hd) (by omega)
    obtain ⟨o, ho, hol⟩ := hex
    refine ⟨o, ?_, mem_slots_region (hS d hd).cache ho⟩
    rw [h.objs]
    exact mem_bind.mpr ⟨d, hd, mem_live.mpr ⟨rfl, ho, hol⟩⟩
  · obtain ⟨l, hl, he⟩ := hlist i hi false
    refine ⟨l, hl, fun b => ?_⟩
    rw [he, hmem]
    constructor
    · rintro ⟨d, hd, hc, rfl, hf⟩
      refine ⟨⟨d, hd, hc, rfl⟩, ?_, ?_⟩
      · rw [(hS d hd).free]
        exact List.length_pos_of_ne_nil (List.isEmpty_eq_false_iff.mp hf)
      · rw [(hS d hd).free, (hS d hd).total]
        exact h.used d hd
    · rintro ⟨⟨d, hd, hc, rfl⟩, hpos, -⟩
      rw [(hS d hd).free] at hpos
      exact ⟨d, hd, hc, rfl, List.isEmpty_eq_false_iff.mpr (List.ne_nil_of_length_pos hpos)⟩
  · obtain ⟨l, hl, he⟩ := hlist i hi true
    refine ⟨l, hl, fun b => ?_⟩
    rw [he, hmem]
    constructor
    · rintro ⟨d, hd, hc, rfl, hf⟩
      refine ⟨⟨d, hd, hc, rfl⟩, ?_⟩
      rw [(hS d hd).free, List.isEmpty_iff.mp hf, List.length_nil]
    · rintro ⟨⟨d, hd, hc, rfl⟩, hz⟩
      rw [(hS d hd).free] at hz
      exact ⟨d, hd, hc, rfl, List.isEmpty_iff.mpr (List.length_eq_zero_iff.mp hz)⟩
  · obtain ⟨d, hd, hc, ho⟩ := hlive x hx
    obtain ⟨h1, h2⟩ := mem_slots_bounds (hS d hd).cache ho
    rw [hc]
    exact ⟨d.base, hmem.mpr ⟨d, hd, rfl, rfl⟩, h1, h2⟩
  · obtain ⟨d, hd, hcx, hx'⟩ := hlive x hx
    obtain ⟨d', hd', hcy, hy'⟩ := hlive y hy
    obtain ⟨hx1, hx2⟩ := mem_slots_bounds (hS d hd).cache hx'
    obtain ⟨hy1, hy2⟩ := mem_slots_bounds (hS d' hd').cache hy'
    simp only [hcx, hcy] at h1 h2 hc
    -- the slabs share the address, and so are one
    obtain rfl := h.region_unique hL' (mem_add.mpr (.inl hd)) (mem_add.mpr (.inl hd')) (a := a)
      ⟨by omega, by omega⟩ ⟨by omega, by omega⟩
    exact slots_disjoint hx' hy' (fun he => hne (Prod.ext (hcx.trans hcy.symm) he)) ⟨h1, h2⟩ hc
  · have hledger := h.owned.2
    rw [Multiset.map_add, Multiset.map_add, map_bind] at hledger
    have hpages : (D.map fun d => (d.cache, d.base)).bind
        (fun x => rangePages (x.2 - higherHalf) (2 ^ slabOrder x.1)) = D.bind fun d => d.pages.map Prod.fst := by
      rw [Multiset.bind_map]
      refine Multiset.bind_congr fun d _ => ?_
      rw [pages, marked_fst, base, Nat.add_sub_cancel_left]
    rw [hpages, hledger]
    change _ = _ + _ + (M.1.map Prod.fst + (M.2.1.bind pages).map Prod.fst)
    abel

end Holds

/-- The heap before its first call. -/
def start (e : ε) (mem : Cells) (caches : ℕ → Cache) : State (ε × Ledger) :=
  State.init ⟨(e, ⟨0, 0⟩), mem, caches, false⟩

lemma start_guarded {e : ε} (he : Owns e 0) (mem : Cells) (caches : ℕ → Cache) :
    Guarded (fun e : ε × Ledger => Dead e.1) (Balanced Owns) (start e mem caches) 0 := by
  have hcaches : ∀ i < 9, (start e mem caches).caches i = Cache.newConst (objSize i) (slabOrder i) (totalObjs i) := by
    intro i hi
    have hs : sizes[i]? = some (objSize i) := by
      rw [objSize, List.getD_eq_getElem?_getD, List.getElem?_eq_getElem (show i < sizes.length from hi)]
      rfl
    unfold start State.init
    rw [if_neg Bool.false_ne_true]
    simp only [hs]
    rfl
  refine .inr ⟨0, fun i hi => ?_, fun d hd => ?_, fun d hd => ?_, fun i hi full => ⟨[], ?_, ?_⟩, ?_, ?_⟩
  · rw [hcaches i hi]
    exact ⟨rfl, rfl, rfl⟩
  · simp at hd
  · simp at hd
  · rw [hcaches i hi]
    cases full <;> exact ⟨⟨rfl, trivial⟩, List.nodup_nil, by simp⟩
  · simp [slabsOf]
  · simp
  · exact ⟨he, by simp [start, State.init]⟩

/-- The objects that the callers own. -/
def ownedObjs {Cpu : Type} (P : Pool (client E Dead Owns) Cpu) : Multiset (ℕ × ℕ) := P.owned

/-- Whatever the processors do, the slabs are on the lists where they belong,
the objects lie apart inside them, and every page that was handed out is in a
slab in use, was given back, or is held by a call that has not returned. -/
theorem slabs_sound {Cpu : Type} [Fintype Cpu] [DecidableEq Cpu] (hL : Lawful E Dead Owns) {e : ε} (he : Owns e 0)
    (mem : Cells) (caches : ℕ → Cache) {P : Pool (client E Dead Owns) Cpu}
    (hr : Pool.Reach (Pool.idle (start e mem caches)) P) :
    Dead P.shared.env.1 ∨ ∃ (slabs : Multiset (ℕ × ℕ)) (objs : Cpu → Multiset (ℕ × ℕ)) (pages : Cpu → Multiset ℕ),
      (∀ c, P.cpus c = none → objs c = 0 ∧ pages c = 0) ∧
      Sound P.shared slabs (ownedObjs P + ∑ c, objs c) (∑ c, pages c) := by
  have hinv := Pool.reach_inv (client_safe hL) hr (Pool.idle_inv (start_guarded he mem caches))
  obtain ⟨held, h0, hI⟩ := hinv.shared_held
  refine hI.imp id fun ⟨D, hD⟩ => ⟨D.map fun d => (d.cache, d.base), fun c => (held c).2.2,
    fun c => flightPages (held c), fun c hc => ?_, ?_⟩
  · simp only [h0 c hc]
    exact ⟨rfl, map_zero _⟩
  · rw [show (client E Dead Owns).total P.owned = (0, 0, ownedObjs P) from sum_objs P.owned] at hD
    have hflight : flightPages ((0, 0, ownedObjs P) + ∑ c, held c) = ∑ c, flightPages (held c) := by
      rw [map_add, map_sum]
      exact zero_add _
    have hobjs : (((0, 0, ownedObjs P) : Holding) + ∑ c, held c).2.2 = ownedObjs P + ∑ c, (held c).2.2 := by
      rw [Prod.snd_add, Prod.snd_add, Prod.snd_sum, Prod.snd_sum]
    rw [← hflight, ← hobjs]
    exact hD.sound hL

/-- An allocator that hands out every page once, of which the state is the
first page that is left. -/
def bump : Env ℕ where
  allocOrder k e :=
    let a := (e + 2 ^ k - 1) / 2 ^ k * 2 ^ k
    if a + 2 ^ k ≤ 2 ^ 35 then (some (a * pageSize), a + 2 ^ k) else (none, e)
  freePages _ _ e := e
  mapContiguous _ _ e := e
  unmap _ e := e

def BumpOwns (e : ℕ) (M : Multiset (ℕ × Bool)) : Prop := e ≤ 2 ^ 35 ∧ (M.map Prod.fst).Nodup ∧ ∀ p ∈ M.map Prod.fst, p < e

lemma bump_lawful : Lawful bump (fun _ => False) BumpOwns where
  nodup h := h.2.1
  lt h x hx := lt_of_lt_of_le (h.2.2 _ (Multiset.mem_map_of_mem _ hx)) h.1
  alloc {e M k a} h hr := by
    have hge : e ≤ (e + 2 ^ k - 1) / 2 ^ k * 2 ^ k := by
      have := Nat.div_add_mod (e + 2 ^ k - 1) (2 ^ k)
      have := Nat.mod_lt (e + 2 ^ k - 1) (Nat.two_pow_pos k)
      rw [mul_comm]
      omega
    simp only [bump] at hr ⊢
    generalize (e + 2 ^ k - 1) / 2 ^ k = q at *
    split at hr
    · rename_i hle
      cases hr
      rw [if_pos hle]
      have hpages : (marked false (q * 2 ^ k * pageSize) (2 ^ k) + M).map Prod.fst =
          rangePages (q * 2 ^ k * pageSize) (2 ^ k) + M.map Prod.fst := by
        rw [Multiset.map_add, marked_fst]
      have hmem : ∀ p ∈ rangePages (q * 2 ^ k * pageSize) (2 ^ k), q * 2 ^ k ≤ p ∧ p < q * 2 ^ k + 2 ^ k := by
        intro p hp
        rwa [Phys.mem_rangePages, Nat.mul_div_cancel _ (by simp [pageSize])] at hp
      refine ⟨⟨q, by rw [Phys.blockSize_eq]; ring⟩, hle, ?_, fun p hp => ?_⟩
      · rw [hpages, nodup_add]
        refine ⟨List.nodup_range', h.2.1, disjoint_left.mpr fun {p} hp hp' => ?_⟩
        have h1 := (hmem p hp).1
        have h2 := h.2.2 p hp'
        omega
      · rw [hpages, mem_add] at hp
        rcases hp with hp | hp
        · exact (hmem p hp).2
        · have h2 := h.2.2 p hp
          have h3 := Nat.two_pow_pos k
          simp only
          omega
    · cases hr
  allocNone {e M k} h hr := by
    simp only [bump] at hr ⊢
    split at hr
    · cases hr
    · rename_i hle
      rwa [if_neg hle]
  map _ h := .inr ⟨h.1, by rw [Multiset.map_add, marked_fst, ← marked_fst false, ← Multiset.map_add]; exact h.2⟩
  unmap h := .inr ⟨h.1, by rw [map_cons]; have := h.2; rwa [map_cons] at this⟩
  free _ h := by
    refine .inr ⟨h.1, ?_⟩
    have h2 := h.2
    rw [Multiset.map_add, nodup_add] at h2
    exact ⟨h2.1.2.1, fun p hp => h2.2 p (mem_add.mpr (.inr hp))⟩
  deadAlloc h := h.elim
  deadMap h := h.elim
  deadUnmap h := h.elim
  deadFree h := h.elim

/-- Two processors, of which one has allocated an object of 32 bytes. -/
theorem slabs_sound_two_cpus : ∃ P : Pool (client bump (fun _ => False) BumpOwns) (Fin 2),
    Pool.Reach (Pool.idle (start 0 (fun _ => 0) fun _ => Cache.newConst 0 0 0)) P ∧
    ownedObjs P = {(0, higherHalf + 40)} ∧
    ∃ (slabs : Multiset (ℕ × ℕ)) (objs : Fin 2 → Multiset (ℕ × ℕ)) (pages : Fin 2 → Multiset ℕ),
      (∀ c, P.cpus c = none → objs c = 0 ∧ pages c = 0) ∧
      Sound P.shared slabs (ownedObjs P + ∑ c, objs c) (∑ c, pages c) := by
  have hr := Pool.reach_call (P := (Pool.idle (start 0 (fun _ => 0) fun _ => Cache.newConst 0 0 0) :
    Pool (client bump (fun _ => False) BumpOwns) (Fin 2))) (c := 0)
    (Request.alloc 0) 0 rfl rfl
  refine ⟨_, hr, ?_, (slabs_sound bump_lawful ⟨by norm_num, by simp, by simp⟩ _ _ hr).resolve_left id⟩
  have hrun : ((cacheAlloc (recorded bump) 0).run (start 0 (fun _ => 0) fun _ => Cache.newConst 0 0 0)).1 =
      higherHalf + 40 := by decide +kernel
  exact congrArg (fun o => Request.gives (Request.alloc 0 : Request (fun _ => False) BumpOwns) o + 0) hrun

end LodaxOS.Heap
