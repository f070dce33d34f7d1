/-
# The sections of the caches

What each section does to the slabs: an object is taken from the first slab of
the partial list (`Holds.takePartial`), pages become a slab with one object
taken (`Holds.newSlab`), such a slab goes on a list (`Holds.install`) or is
given up (`Holds.discard`), and an object is given back, with which its slab
may leave the heap (`Holds.freeSection`).
-/
import LodaxOS.Heap.Invariant

namespace LodaxOS.Heap

open Phys (pageSize rangePages)
open Virt (higherHalf)
open Linked Multiset Desc Slab

variable {ε : Type} {E : Env ε} {Dead : ε → Prop} {Owns : ε → Multiset (ℕ × Bool) → Prop} (hL : Lawful E Dead Owns)
  {s : State ε} {D : Multiset Desc} {M : Holding}

variable {l : List ℕ} {mem : Cells} {i o : ℕ} {d : Desc} {P : Multiset (ℕ × Bool)} {V : Multiset Desc}
  {O : Multiset (ℕ × ℕ)}

/-- A search for something of which there is one. -/
lemma find_eq_ite {p : ℕ → Bool} {b : ℕ} (h : ∀ y ∈ l, p y = true ↔ y = b) :
    l.find? p = if b ∈ l then some b else none := by
  induction l with
  | nil => rfl
  | cons y l ih =>
    have hy := h y List.mem_cons_self
    rw [List.find?_cons]
    by_cases hyb : y = b
    · subst hyb
      rw [hy.mpr rfl, if_pos List.mem_cons_self]
    · rw [Bool.eq_false_iff.mpr (mt hy.mp hyb), ih fun w hw => h w (List.mem_cons_of_mem _ hw)]
      simp only [List.mem_cons, Ne.symm hyb, false_or]

lemma contains_iff {b : ℕ} (h : SlabAt mem i b l) : contains mem o b = true ↔ Region i b o := by
  rw [contains, h.base, h.order, Bool.and_eq_true, decide_eq_true_eq, decide_eq_true_eq]
  rfl

namespace Holds

include hL

/-- The first free object of a slab on the partial list. -/
lemma takePartial (h : Holds Owns s D M) (hi : i < 9) (hp : (s.caches i).partialSlabs ≠ 0) :
    ∃ p o l D0, D = ⟨i, p, o :: l⟩ ::ₘ D0 ∧ (Heap.takePartial (s.caches i) s.mem).1 = o ∧
      Holds Owns (s.setCache i (Heap.takePartial (s.caches i) s.mem).2) (⟨i, p, l⟩ ::ₘ D0) (M.1, M.2.1, (i, o) ::ₘ M.2.2) := by
  obtain ⟨ps, hps, hpeq⟩ := h.lists i hi false
  obtain ⟨b, ps, rfl⟩ := List.exists_cons_of_ne_nil (mt hps.head_eq_zero_iff.mpr hp)
  have hhead : (s.caches i).partialSlabs = b := hps.list.chain.1
  obtain ⟨⟨j, p, chain⟩, hd, hj, hne, hbase⟩ := mem_slabsOf.mp (hpeq ▸ mem_coe.mpr List.mem_cons_self : b ∈ _)
  obtain rfl : i = j := hj.symm
  obtain ⟨o, l, rfl⟩ := List.exists_cons_of_ne_nil (l := chain) (by rintro rfl; simp at hne)
  obtain ⟨D0, rfl⟩ := exists_cons_of_mem hd
  have hS := h.slabs _ (mem_add.mpr (.inl hd))
  obtain ⟨ho, hS', hframe⟩ := allocObj_ok hS
  obtain ⟨h0, -, -, -, -, -, h36⟩ := field_mod hS.aligned
  simp only [hbase] at ho hS' hframe h0 h36
  have hm : ∀ a, ¬ Region i b a ∨ a % 32 = 16 ∨ a % 32 = 24 → (allocObj s.mem b).2 a = s.mem a := by
    rintro a (ha | ha)
    · rw [hbase] at hS
      exact hframe a (fun hc => ha (hc ▸ hS.header_region (by simp [freeHead]) (by simp [freeHead, slabSize])))
        fun hc => ha (hc ▸ hS.header_region (by simp [freeObjs]) (by simp [freeObjs, slabSize]))
    · exact hframe a (by omega) (by omega)
  have hfull : isFull (allocObj s.mem b).2 b = l.isEmpty := by
    rw [isFull, hS'.free]
    cases l <;> simp
  have hlive : (i, o) ::ₘ M.2.2 + live ⟨i, p, o :: l⟩ = M.2.2 + live ⟨i, p, l⟩ := by
    rw [live_cons hi (hS.slots o List.mem_cons_self) (List.nodup_cons.mp hS.nodup).1, cons_add, add_cons]
  have hlen : l.length < totalObjs i := Nat.lt_of_succ_lt (h.used _ hd)
  refine ⟨p, o, l, D0, rfl, ?_⟩
  cases l with
  | cons =>
    have he : Heap.takePartial (s.caches i) s.mem = (o, s.caches i, (allocObj s.mem b).2) := by
      simp only [Heap.takePartial, hhead, hfull, ho]
      rfl
    rw [he]
    exact ⟨rfl, h.replace_stay hL ⟨rfl, rfl⟩ rfl (hbase ▸ hS') hlen (hbase ▸ hm) hlive⟩
  | nil =>
    have he : Heap.takePartial (s.caches i) s.mem = (o, pushFullPtr (removePartialPtr (s.caches i) (allocObj s.mem b).2 b).1
        (removePartialPtr (s.caches i) (allocObj s.mem b).2 b).2 b) := by
      simp only [Heap.takePartial, hhead, hfull, ho]
      rfl
    rw [he]
    subst hbase
    exact ⟨rfl, h.replace_move hL false ⟨rfl, rfl⟩ rfl rfl hS' hlen hm ⟨rfl, rfl, rfl⟩ rfl rfl hlive⟩

omit hL in
lemma takeExisting_none (h : Holds Owns s D M) (hi : i < 9) (hp : (s.caches i).partialSlabs = 0) :
    takeExisting i s = (none, s) := by
  unfold takeExisting
  simp only [hp, (h.params i hi).2.2, ne_eq, not_true_eq_false, if_false]

/-- A slab that a call holds goes on its list. -/
lemma install (h : Holds Owns s D (P, d ::ₘ V, O)) (hlen : d.chain.length < totalObjs d.cache) :
    Holds Owns (s.setCache d.cache (Heap.install (s.caches d.cache) s.mem d.base d.chain.isEmpty)) (d ::ₘ D)
      (P, V, d.live + O) := by
  have hdm : d ∈ D + d ::ₘ V := mem_add.mpr (.inr (mem_cons_self _ _))
  have hS := h.slabs d hdm
  have hX : D + (d ::ₘ V) = (d ::ₘ D) + V := by rw [add_cons, cons_add]
  obtain ⟨l, hl, he⟩ := h.lists d.cache hS.cache d.chain.isEmpty
  have hnot : ∀ {j g y}, y ∈ slabsOf D j g → y ≠ d.base := by
    rintro j g y hy rfl
    obtain ⟨x, hx, -, -, hb⟩ := mem_slabsOf.mp hy
    -- the slab would be in `D` and held beside it
    obtain ⟨D1, hD1⟩ := exists_cons_of_mem hx
    have hX' : D + (d ::ₘ V) = x ::ₘ (D1 + (d ::ₘ V)) := by rw [hD1, cons_add]
    refine absurd (hS.header_region le_rfl (by simp [slabSize]))
      (h.apart hL hX' (mem_add.mpr (.inr (mem_cons_self _ _))) ?_)
    rw [← hb]
    exact (h.slabs x (mem_add.mpr (.inl hx))).header_region le_rfl (by simp [slabSize])
  have hnl : d.base ∉ l := fun hc => hnot (he ▸ mem_coe.mpr hc : d.base ∈ _) rfl
  have hb0 : d.base ≠ 0 := by simp [base, higherHalf]
  obtain ⟨h₁, hr⟩ := hl.pushSlab_ok hS.aligned hb0 hnl
  have hlinks : ∀ {j g}, (j ≠ d.cache ∨ g ≠ d.chain.isEmpty) → ∀ y ∈ slabsOf D j g, y ∉ d.base :: l := by
    intro j g hj y hy hc
    rcases List.mem_cons.mp hc with hc | hc
    · exact hnot hy hc
    · obtain ⟨h1, h2⟩ := h.lists_disjoint hL hy (he ▸ mem_coe.mpr hc)
      exact hj.elim (fun hj => hj h1) fun hj => hj h2
  have heq : Heap.install (s.caches d.cache) s.mem d.base d.chain.isEmpty =
      (if d.chain.isEmpty then { s.caches d.cache with fullSlabs := d.base }
        else { s.caches d.cache with partialSlabs := d.base },
        pushSlab ((s.caches d.cache).head d.chain.isEmpty) s.mem d.base) := by
    cases d.chain.isEmpty <;> rfl
  rw [heq]
  refine h.setCache ?_ (fun x hx => ?_) (fun x hx => ?_) (fun g => ?_) (fun j hj g => ?_) (fun x hx hxc => ?_) ?_ ?_
  · cases d.chain.isEmpty <;> exact ⟨rfl, rfl, rfl⟩
  · exact (h.slabs x (hX ▸ hx)).congr_cells fun a _ => hr.cells a
  · rcases mem_cons.mp hx with rfl | hx
    · exact hlen
    · exact h.used x hx
  · by_cases hg : g = d.chain.isEmpty
    · subst hg
      refine ⟨d.base :: l, ?_, ?_⟩
      · cases hc : d.chain.isEmpty <;> rw [hc] at h₁ <;> exact h₁
      · rw [slabsOf_cons, if_pos ⟨rfl, rfl⟩, ← cons_coe, he]
    · obtain ⟨l', hl', he'⟩ := h.lists d.cache hS.cache g
      refine ⟨l', ?_, ?_⟩
      · have hl'' := hl'.congr_relinked hr fun y hy => hlinks (.inr hg) y (he' ▸ mem_coe.mpr hy)
        cases hc : d.chain.isEmpty <;> cases g <;> simp_all [Cache.head]
      · rw [slabsOf_cons, if_neg fun hc => hg hc.2.symm, he']
  · rw [slabsOf_cons, if_neg fun hc => hj hc.1.symm]
  · exact hr.others x.base (h.slabs x (mem_add.mpr (.inl hx))).aligned
      (hlinks (.inl hxc) _ (mem_slabsOf.mpr ⟨x, hx, rfl, rfl, rfl⟩))
  · rw [cons_bind, ← h.objs]
  · have := h.owned
    rw [cons_bind] at this ⊢
    rwa [← add_assoc, add_comm (D.bind pages) d.pages] at this

/-- Pages that a call mapped become a slab with one object taken. -/
lemma newSlab {p : ℕ} (hi : i < 9)
    (hp : pageSize ∣ p) (h : Holds Owns s D (marked true p (2 ^ slabOrder i) + P, V, O)) :
    (Heap.newSlab i (higherHalf + p) s).1 = (slot i (higherHalf + p) 0, (slots i (higherHalf + p)).tail.isEmpty) ∧
    Holds Owns (Heap.newSlab i (higherHalf + p) s).2 D (P, ⟨i, p, (slots i (higherHalf + p)).tail⟩ ::ₘ V, O) := by
  have hb : (higherHalf + p) % 4096 = 0 := by
    obtain ⟨k, rfl⟩ := hp
    simp only [higherHalf, pageSize]
    omega
  obtain ⟨hbase, hS, hframe⟩ := init_ok hi hb s.mem
  rw [slots_eq_cons hi] at hS
  obtain ⟨ho, hS', hframe'⟩ := allocObj_ok hS
  have hm : ∀ a, ¬ Region i (higherHalf + p) a →
      (allocObj (init s.mem (higherHalf + p) (slabOrder i) (objSize i)).2 (higherHalf + p)).2 a = s.mem a := by
    intro a ha
    rw [hframe' a (fun hc => ha (hc ▸ hS.header_region (by simp [freeHead]) (by simp [freeHead, slabSize])))
      fun hc => ha (hc ▸ hS.header_region (by simp [freeObjs]) (by simp [freeObjs, slabSize])), hframe a ha]
  -- the pages of the new slab are in no other slab
  have hapart : ∀ d ∈ D + V, ∀ a, Region d.cache d.base a → ¬ Region i (higherHalf + p) a := by
    intro d hd a ha ha'
    have hnd := hL.nodup h.owned
    rw [← add_bind, map_add, nodup_add] at hnd
    obtain ⟨x, hx, hx'⟩ := mem_map.mp (mem_pages_of_region (h.slabs d hd).aligned ha)
    refine disjoint_left.mp hnd.2.2 (mem_map.mpr ⟨x, mem_bind.mpr ⟨d, hd, hx⟩, hx'⟩) ?_
    rw [map_add]
    exact mem_add.mpr (.inl (mem_pages_of_region (d := ⟨i, p, []⟩) hb ha'))
  have he : Heap.newSlab i (higherHalf + p) s = ((slot i (higherHalf + p) 0, (slots i (higherHalf + p)).tail.isEmpty),
      { s with mem := (allocObj (init s.mem (higherHalf + p) (slabOrder i) (objSize i)).2 (higherHalf + p)).2 }) := by
    have hfull : isFull (allocObj (init s.mem (higherHalf + p) (slabOrder i) (objSize i)).2 (higherHalf + p)).2
        (higherHalf + p) = (slots i (higherHalf + p)).tail.isEmpty := by
      rw [isFull, hS'.free]
      cases (slots i (higherHalf + p)).tail <;> simp
    unfold Heap.newSlab
    simp only [(h.params i hi).1, (h.params i hi).2.1, hbase, ho, hfull]
  rw [he]
  refine ⟨rfl, ⟨h.params, fun d hd => ?_, h.used, fun j hj g => ?_, h.objs, ?_⟩⟩
  · rw [add_cons] at hd
    rcases mem_cons.mp hd with rfl | hd
    · exact hS'
    · exact (h.slabs d hd).congr_cells fun a ha _ _ => hm a (hapart d hd a ha)
  · obtain ⟨l, hl, hle⟩ := h.lists j hj g
    refine ⟨l, hl.congr fun y hy => ?_, hle⟩
    obtain ⟨d, hd, -, -, rfl⟩ := mem_slabsOf.mp (hle ▸ mem_coe.mpr hy : y ∈ slabsOf D j g)
    have hdm : d ∈ D + V := mem_add.mpr (.inl hd)
    exact ⟨hm _ (hapart d hdm _ ((h.slabs d hdm).header_region (by simp [next]) (by simp [next, slabSize]))),
      hm _ (hapart d hdm _ ((h.slabs d hdm).header_region (by simp [prev]) (by simp [prev, slabSize])))⟩
  · have := h.owned
    rw [cons_bind]
    rw [← add_assoc] at this
    change Owns _ (D.bind pages + (marked true p (2 ^ slabOrder i) + V.bind pages) + P)
    rwa [add_comm (marked true p (2 ^ slabOrder i)), ← add_assoc]

omit hL in
/-- A slab that a call holds is nothing but its pages to it. -/
lemma discard (h : Holds Owns s D (P, d ::ₘ V, O)) : Holds Owns s D (d.pages + P, V, O) := by
  refine ⟨h.params, fun x hx => h.slabs x ?_, h.used, h.lists, h.objs, ?_⟩
  · rw [add_cons]
    exact mem_cons_of_mem hx
  · have := h.owned
    rw [cons_bind] at this
    rwa [add_comm d.pages, ← add_assoc, add_assoc (D.bind pages + V.bind pages)] at this

/-! ### Giving an object back -/

/-- An address lies in one slab. -/
lemma region_unique (h : Holds Owns s D M) {d' : Desc} (hd : d ∈ D + M.2.1) (hd' : d' ∈ D + M.2.1) {a : ℕ}
    (ha : Region d.cache d.base a) (ha' : Region d'.cache d'.base a) : d' = d := by
  obtain ⟨X, hX⟩ := exists_cons_of_mem hd
  rcases mem_cons.mp (hX ▸ hd') with he | hd'
  · exact he
  · exact absurd ha' (h.apart hL hX hd' ha)

/-- A search for one slab finds it on the list it is on. -/
lemma search_eq (h : Holds Owns s D M) (hd : d ∈ D) (hm : ∀ a, a % 32 = 16 ∨ a % 32 = 24 → mem a = s.mem a) {p : ℕ → Bool}
    (hp : ∀ x ∈ D, p x.base = true ↔ x.base = d.base) (g : Bool) :
    searchList mem p ((s.caches d.cache).head g) = if g = d.chain.isEmpty then d.base else 0 := by
  obtain ⟨l, hl, he⟩ := h.lists d.cache (h.slabs d (mem_add.mpr (.inl hd))).cache g
  have hin : ∀ {y}, y ∈ l ↔ y ∈ slabsOf D d.cache g := fun {y} => by rw [← he, mem_coe]
  rw [(hl.congr_cells hm).searchList_eq fun y hy => by
    obtain ⟨x, hx, -, -, rfl⟩ := mem_slabsOf.mp (hin.mp hy)
    exact h.base_bounds hL (mem_add.mpr (.inl hx))]
  rw [find_eq_ite (b := d.base) fun y hy => by
    obtain ⟨x, hx, -, -, rfl⟩ := mem_slabsOf.mp (hin.mp hy)
    exact hp x hx]
  by_cases hg : g = d.chain.isEmpty
  · rw [if_pos hg, if_pos (hin.mpr (mem_slabsOf.mpr ⟨d, hd, rfl, hg.symm, rfl⟩))]
    rfl
  · rw [if_neg hg, if_neg fun hc => hg (h.lists_disjoint hL (hin.mp hc) (mem_slabsOf.mpr ⟨d, hd, rfl, rfl, rfl⟩)).2]
    rfl

/-- The slab of an object is found. -/
lemma findSlabPtr_eq (h : Holds Owns s D M) (hd : d ∈ D) (ho : o ∈ slots d.cache d.base) :
    findSlabPtr (s.caches d.cache) s.mem o = d.base := by
  have hdm : d ∈ D + M.2.1 := mem_add.mpr (.inl hd)
  have hr := mem_slots_region (h.slabs d hdm).cache ho
  have hsearch := h.search_eq hL hd (fun a _ => (rfl : s.mem a = _)) (p := contains s.mem o) fun x hx => by
    have hxm : x ∈ D + M.2.1 := mem_add.mpr (.inl hx)
    rw [contains_iff (h.slabs x hxm)]
    constructor
    · exact fun hr' => by rw [h.region_unique hL hdm hxm hr hr']
    · intro hb
      rwa [h.base_inj hL hxm hdm hb]
  have hb0 : d.base ≠ 0 := by simp [base, higherHalf]
  have hp := hsearch false
  have hf := hsearch true
  simp only [Cache.head, Bool.false_eq_true, if_false, if_true] at hp hf
  unfold findSlabPtr
  rw [hp, hf]
  cases d.chain.isEmpty
  · simp [hb0]
  · simp

variable {D₀ : Multiset Desc}

/-- A slab of which no object is out leaves its list: its pages are left to the
caller. -/
lemma remove (h : Holds Owns s (d ::ₘ D0) M)
    (hm : ∀ a, ¬ Region d.cache d.base a ∨ a % 32 = 16 ∨ a % 32 = 24 → mem a = s.mem a) (ho : M.2.2 = d.live + O) :
    Holds Owns (s.setCache d.cache (removeFromAnyList (s.caches d.cache) mem d.base)) D0 (d.pages + M.1, M.2.1, O) ∧
    ∀ a, a % 32 ≠ 16 → a % 32 ≠ 24 → (removeFromAnyList (s.caches d.cache) mem d.base).2 a = mem a := by
  have hd : d ∈ d ::ₘ D0 := mem_cons_self _ _
  have hdm : d ∈ (d ::ₘ D0) + M.2.1 := mem_add.mpr (.inl hd)
  have hX : (d ::ₘ D0) + M.2.1 = d ::ₘ (D0 + M.2.1) := cons_add _ _ _
  have hi := (h.slabs d hdm).cache
  have hb0 : d.base ≠ 0 := by simp [base, higherHalf]
  obtain ⟨l, hl, he⟩ := h.lists d.cache hi d.chain.isEmpty
  have hin : ∀ {y}, y ∈ l → y ∈ slabsOf (d ::ₘ D0) d.cache d.chain.isEmpty := fun hy => he ▸ mem_coe.mpr hy
  have hmem : d.base ∈ l := by
    rw [← mem_coe, he]
    exact mem_slabsOf.mpr ⟨d, hd, rfl, rfl, rfl⟩
  have hl1 := hl.congr_cells fun a ha => hm a (.inr ha)
  obtain ⟨hl2, hr⟩ := hl1.unlinkSlab_ok hmem
  -- the search finds the slab on the list it is on
  have hsearch := h.search_eq hL hd (fun a ha => hm a (.inr ha)) (p := fun cur => cur = d.base) fun x _ => by simp
  have heq : removeFromAnyList (s.caches d.cache) mem d.base = (if d.chain.isEmpty then
          { s.caches d.cache with fullSlabs := (unlinkSlab ((s.caches d.cache).head d.chain.isEmpty) mem d.base).1 }
        else { s.caches d.cache with partialSlabs := (unlinkSlab ((s.caches d.cache).head d.chain.isEmpty) mem d.base).1 },
        (unlinkSlab ((s.caches d.cache).head d.chain.isEmpty) mem d.base).2) := by
    have hp := hsearch false
    have hf := hsearch true
    simp only [Cache.head, Bool.false_eq_true, if_false, if_true] at hp hf
    unfold removeFromAnyList
    rw [hp, hf]
    cases d.chain.isEmpty
    · simp [hb0, removePartialPtr, Cache.head]
    · simp [hb0, removeFullPtr, Cache.head]
  rw [heq]
  refine ⟨h.setCache ?_ (fun x hx => ?_) (fun x hx => h.used x (mem_cons_of_mem hx)) (fun g => ?_)
    (fun j hj g => ?_) (fun x hx hxc => ?_) ?_ ?_, hr.cells⟩
  · cases d.chain.isEmpty <;> exact ⟨rfl, rfl, rfl⟩
  · exact h.slab_frame hL hX (fun a ha h1 h2 => (hr.cells a h1 h2).trans (hm a (.inl ha))) x hx
  · by_cases hg : g = d.chain.isEmpty
    · subst hg
      refine ⟨l.erase d.base, ?_, ?_⟩
      · cases hc : d.chain.isEmpty <;> rw [hc] at hl2 <;> exact hl2
      · rw [← coe_erase, he, slabsOf_cons, if_pos ⟨rfl, rfl⟩, erase_cons_head]
    · obtain ⟨l', hl', he'⟩ := h.lists d.cache hi g
      have hl'' := (hl'.congr_cells fun a ha => hm a (.inr ha)).congr_relinked hr fun y hy hyl =>
        hg (h.lists_disjoint hL (he' ▸ mem_coe.mpr hy) (hin hyl)).2
      refine ⟨l', ?_, ?_⟩
      · cases hc : d.chain.isEmpty <;> cases g <;> simp_all [Cache.head]
      · rw [he', slabsOf_cons, if_neg fun hc => hg hc.2.symm]
  · rw [slabsOf_cons, if_neg fun hc => hj hc.1.symm]
  · have hS := h.slabs x (mem_add.mpr (.inl hx))
    obtain ⟨-, -, h16, h24, -⟩ := field_mod hS.aligned
    obtain ⟨h1, h2⟩ := hr.others x.base hS.aligned fun hc =>
      hxc (h.lists_disjoint hL (mem_slabsOf.mpr ⟨x, hx, rfl, rfl, rfl⟩) (hin hc)).1
    exact ⟨h1.trans (hm _ (.inr (.inl h16))), h2.trans (hm _ (.inr (.inr h24)))⟩
  · have hobjs := h.objs
    rw [ho, cons_bind] at hobjs
    exact add_left_cancel hobjs
  · have howned := h.owned
    rw [cons_bind] at howned
    have he : D0.bind pages + M.2.1.bind pages + (d.pages + M.1) =
        d.pages + D0.bind pages + M.2.1.bind pages + M.1 := by abel
    rw [he]
    exact howned

/-- Pages that are unmapped one after the other. -/
lemma unmap_range {e : ε} {p : ℕ} (hp : pageSize ∣ p) : ∀ n : ℕ, Owns e (marked true p n + P) →
    Dead ((List.range n).foldl (fun e k => E.unmap (higherHalf + p + k * pageSize) e) e) ∨
      Owns ((List.range n).foldl (fun e k => E.unmap (higherHalf + p + k * pageSize) e) e) (marked false p n + P) := by
  intro n
  induction n generalizing P with
  | zero => exact .inr
  | succ n ih =>
    intro h
    have hm : ∀ t, marked t p (n + 1) = marked t p n + {(p / pageSize + n, t)} := by
      intro t
      rw [marked, Phys.rangePages_add, map_add, marked, Phys.rangePages_succ, Phys.add_pages_div]
      rfl
    rw [hm, add_assoc] at h
    rw [List.range_succ, List.foldl_append]
    simp only [List.foldl_cons, List.foldl_nil]
    rcases ih h with hd | ho
    · exact .inl (hL.deadUnmap hd)
    · have haddr : higherHalf + p + n * pageSize = higherHalf + (p / pageSize + n) * pageSize := by
        rw [add_mul, Nat.div_mul_cancel hp, add_assoc]
      rw [add_left_comm, singleton_add] at ho
      rw [haddr, hm]
      refine (hL.unmap ho).imp_right fun h' => ?_
      rw [← singleton_add, add_left_comm, ← add_assoc] at h'
      exact h'

omit hL in
/-- The environment changed, and with it the pages a call holds. -/
lemma setEnv (h : Holds Owns s D M) {e : ε}
    (he : Owns e (D.bind pages + M.2.1.bind pages + P)) : Holds Owns (s.setEnv e) D (P, M.2.1, M.2.2) :=
  ⟨h.params, h.slabs, h.used, h.lists, h.objs, he⟩

/-- The last object of a slab comes back: the slab leaves the heap and its
pages are unmapped. -/
lemma reclaim (h : Holds Owns s (d ::ₘ D0) (P, V, d.live + O)) (hS : SlabAt mem d.cache d.base l)
    (hm : ∀ a, ¬ Region d.cache d.base a ∨ a % 32 = 16 ∨ a % 32 = 24 → mem a = s.mem a) :
    (Heap.reclaim E d.cache d.base s (s.caches d.cache, mem)).1 = some (d.phys, 2 ^ slabOrder d.cache) ∧
    pageSize ∣ d.phys ∧ (Dead (Heap.reclaim E d.cache d.base s (s.caches d.cache, mem)).2.env ∨
      Holds Owns (Heap.reclaim E d.cache d.base s (s.caches d.cache, mem)).2 D0
        (marked false d.phys (2 ^ slabOrder d.cache) + P, V, O)) := by
  obtain ⟨hr, hcells⟩ := h.remove hL hm rfl
  obtain ⟨-, h8, -, -, h32, -⟩ := field_mod hS.aligned
  have hphys : pageSize ∣ d.phys := by
    have := hS.aligned
    simp only [base, higherHalf] at this
    exact Nat.dvd_of_mod_eq_zero (by simp only [pageSize]; omega)
  have hbase : (removeFromAnyList (s.caches d.cache) mem d.base).2 (slabBase d.base) = higherHalf + d.phys :=
    (hcells _ (by omega) (by omega)).trans hS.base
  have horder : 1 <<< (removeFromAnyList (s.caches d.cache) mem d.base).2 (order d.base) = 2 ^ slabOrder d.cache := by
    rw [hcells _ (by omega) (by omega), hS.order, Nat.one_shiftLeft]
  unfold Heap.reclaim
  simp only [hbase, horder, Nat.add_sub_cancel_left]
  refine ⟨trivial, hphys, ?_⟩
  have howned := hr.owned
  have he : D0.bind pages + V.bind pages + (d.pages + P) =
      marked true d.phys (2 ^ slabOrder d.cache) + (D0.bind pages + V.bind pages + P) := by
    rw [pages]
    abel
  rw [he] at howned
  refine (unmap_range hL hphys _ howned).imp_right fun ho => hr.setEnv ?_
  rwa [← add_left_comm]

/-- The section of `KmemCache::free` for an object that is out: the object is
again the first free one of its slab, or it was the last one that was out and
the slab leaves the heap. -/
lemma freeSection (h : Holds Owns s D (P, V, (i, o) ::ₘ O)) : ∃ p l D0, D = ⟨i, p, l⟩ ::ₘ D0 ∧
    (((Heap.freeSection E i o s).1 = none ∧ (Heap.freeSection E i o s).2.env = s.env ∧
      Holds Owns (Heap.freeSection E i o s).2 (⟨i, p, o :: l⟩ ::ₘ D0) (P, V, O)) ∨
    (live ⟨i, p, l⟩ = {(i, o)} ∧ (Heap.freeSection E i o s).1 = some (p, 2 ^ slabOrder i) ∧ pageSize ∣ p ∧
      (Dead (Heap.freeSection E i o s).2.env ∨
        Holds Owns (Heap.freeSection E i o s).2 D0 (marked false p (2 ^ slabOrder i) + P, V, O)))) := by
  have hmem : (i, o) ∈ D.bind live := h.objs ▸ mem_cons_self _ _
  obtain ⟨⟨j, p, l⟩, hd, hlive⟩ := mem_bind.mp hmem
  obtain ⟨hj, ho, hol⟩ := mem_live.mp hlive
  obtain rfl : i = j := hj
  have hS := h.slabs _ (mem_add.mpr (.inl hd))
  have hi := hS.cache
  obtain ⟨D0, rfl⟩ := exists_cons_of_mem hd
  have hfind := h.findSlabPtr_eq hL hd ho
  obtain ⟨hS', hframe⟩ := freeObj_ok hS ho hol
  obtain ⟨h0, -, -, -, -, -, h36⟩ := field_mod hS.aligned
  have hmod := mem_slots_mod hi hS.aligned ho
  have hm : ∀ a, ¬ Region i (base ⟨i, p, l⟩) a ∨ a % 32 = 16 ∨ a % 32 = 24 →
      freeObj s.mem (base ⟨i, p, l⟩) o a = s.mem a := by
    rintro a (ha | ha)
    · exact hframe a (fun hc => ha (hc ▸ hS.header_region (by simp [freeHead]) (by simp [freeHead, slabSize])))
        (fun hc => ha (hc ▸ hS.header_region (by simp [freeObjs]) (by simp [freeObjs, slabSize])))
        fun hc => ha (hc ▸ mem_slots_region hi ho)
    · exact hframe a (by omega) (by omega) (by omega)
  have hfull : isFull s.mem (base ⟨i, p, l⟩) = l.isEmpty := by
    rw [isFull, hS.free]
    cases l <;> simp
  have hempty : isEmpty (freeObj s.mem (base ⟨i, p, l⟩) o) (base ⟨i, p, l⟩) =
      decide (l.length + 1 = totalObjs i) := by
    rw [isEmpty, hS'.free, hS'.total, List.length_cons]
  have hb0 : base ⟨i, p, l⟩ ≠ 0 := by simp [base, higherHalf]
  have hcons := live_cons hi ho hol
  have hlen : l.length < totalObjs i := h.used _ hd
  simp only at hfind
  refine ⟨p, l, D0, rfl, ?_⟩
  unfold Heap.freeSection
  simp only [hfind, hfull, hempty, if_neg hb0]
  by_cases hlast : l.length + 1 = totalObjs i
  · -- no other object of the slab is out
    have hlive0 : live ⟨i, p, o :: l⟩ = 0 := live_empty hS'.nodup hS'.slots hlast
    have hone : (i, o) ::ₘ O = live ⟨i, p, l⟩ + O := by
      rw [hcons, hlive0, cons_add, zero_add]
    rw [hone] at h
    obtain ⟨h1, h2, h3⟩ := h.reclaim hL hS' hm
    simp only [hlast, decide_true, Bool.not_true, Bool.and_false, Bool.false_eq_true, if_false, if_true]
    exact .inr ⟨by rw [hcons, hlive0]; rfl, h1, h2, h3⟩
  · have hlen' : (o :: l).length < totalObjs i := by
      rw [List.length_cons]
      omega
    have hout : O + live ⟨i, p, l⟩ = (i, o) ::ₘ O + live ⟨i, p, o :: l⟩ := by
      rw [hcons, add_cons, cons_add]
    simp only [hlast, decide_false, Bool.not_false, Bool.and_true, Bool.false_eq_true, if_false]
    refine .inl ⟨trivial, rfl, ?_⟩
    cases l with
    | nil => exact h.replace_move hL true ⟨rfl, rfl⟩ rfl rfl hS' hlen' hm ⟨rfl, rfl, rfl⟩ rfl rfl hout
    | cons => exact h.replace_stay hL ⟨rfl, rfl⟩ rfl hS' hlen' hm hout

/-- The holder of an object writes into it. -/
lemma write (h : Holds Owns s D (M.1, M.2.1, (i, o) ::ₘ O))
    (hm : ∀ a, ¬ (o ≤ a ∧ a < o + objSize i) → mem a = s.mem a) :
    Holds Owns { s with mem } D (M.1, M.2.1, (i, o) ::ₘ O) := by
  have hmem : (i, o) ∈ D.bind live := h.objs ▸ mem_cons_self _ _
  obtain ⟨d, hd, hlive⟩ := mem_bind.mp hmem
  obtain ⟨rfl, ho, hol⟩ := mem_live.mp hlive
  have hdm : d ∈ D + M.2.1 := mem_add.mpr (.inl hd)
  have hi := (h.slabs d hdm).cache
  obtain ⟨hb1, hb2⟩ := mem_slots_bounds hi ho
  have hother : ∀ x ∈ D + M.2.1, ∀ a, Region x.cache x.base a → x ≠ d → mem a = s.mem a := by
    intro x hx a ha hne
    refine hm a fun hc => hne (h.region_unique hL hdm hx ⟨?_, ?_⟩ ha)
    · omega
    · omega
  have hheader : ∀ x ∈ D + M.2.1, ∀ a, x.base ≤ a → a < x.base + slabSize → mem a = s.mem a := by
    intro x hx a ha ha'
    by_cases hxd : x = d
    · subst hxd
      exact hm a fun hc => by omega
    · exact hother x hx a ((h.slabs x hx).header_region ha ha') hxd
  refine ⟨h.params, fun x hx => ?_, h.used, fun j hj full => ?_, h.objs, h.owned⟩
  · refine (h.slabs x hx).congr_region (hheader x hx) fun y hy => ?_
    have hyS := (h.slabs x hx).slots y hy
    by_cases hxd : x = d
    · subst hxd
      have hyo : y ≠ o := fun hc => hol (hc ▸ hy)
      refine hm y fun hc => slots_disjoint ho hyS hyo.symm hc ⟨le_rfl, ?_⟩
      exact Nat.lt_add_of_pos_right (Heap.params hi).size.2
    · exact hother x hx y (mem_slots_region (h.slabs x hx).cache hyS) hxd
  · obtain ⟨l, hl, he⟩ := h.lists j hj full
    refine ⟨l, hl.congr fun y hy => ?_, he⟩
    obtain ⟨x, hx, -, -, rfl⟩ := mem_slabsOf.mp (he ▸ mem_coe.mpr hy : y ∈ slabsOf D j full)
    have hxm : x ∈ D + M.2.1 := mem_add.mpr (.inl hx)
    exact ⟨hheader x hxm _ (by simp [next]) (by simp [next, slabSize]),
      hheader x hxm _ (by simp [prev]) (by simp [prev, slabSize])⟩

end Holds

end LodaxOS.Heap
