/-
# Ownership of DMA buffers

If `alloc_pages` returns frames that are in no buffer that is still out, then
the buffers recorded with services are disjoint and are just those that were
returned and not yet handed back (`Owned`). Every call of `free_pages` is for one
of them, and a service that crashes or is stopped has none left.
-/
import LodaxOS.Gdf.Services

namespace LodaxOS.Gdf

open List Option Function Services

open Traces (Run exec)

/-! ### Buffers that are out -/

/-- The frames of two buffers are disjoint. -/
def Buffer.Apart (b b' : Buffer) : Prop := b.phys + b.pages * 0x1000 ≤ b'.phys ∨ b'.phys + b'.pages * 0x1000 ≤ b.phys

instance (b b' : Buffer) : Decidable (b.Apart b') := inferInstanceAs (Decidable (_ ∨ _))

lemma Buffer.Apart.symm {b b' : Buffer} (h : b.Apart b') : b'.Apart b := Or.symm h

/-- The buffers that were returned to services and not handed back, with the
slot of the service. There is no such list if `free_pages` was called for
anything else than one of them, or, when a buffer is not returned, for frames of
one of them. -/
def ledger : List Happening → Option (List (ℕ × Buffer))
  | [] => some []
  | .issue i b :: log => (ledger log).map ((i, b) :: ·)
  | .hand b :: log => (ledger log).bind fun out => (out.find? fun x => x.2 = b).map fun x => out.erase x
  | .undo b :: log => (ledger log).bind fun out => if ∀ x ∈ out, x.2.Apart b then some out else none
  | _ :: log => ledger log

variable {log : List Happening} {r : Registry}

lemma ledger_congr {log' : List Happening} : ∀ (l : List Happening), ledger log = ledger log' → ledger (l ++ log) = ledger (l ++ log')
  | [], h => h
  | x :: l, h => by
    have ih := ledger_congr l h
    cases x with
    | crash => exact ih
    | attempt => exact ih
    | issue => simp only [cons_append, ledger, ih]
    | undo => simp only [cons_append, ledger, ih]
    | hand => simp only [cons_append, ledger, ih]

/-- Disjoint buffers. -/
structure Separate (out : List (ℕ × Buffer)) : Prop where
  apart : out.Pairwise fun x y => x.2.Apart y.2
  sized : ∀ x ∈ out, 0 < x.2.phys ∧ 0 < x.2.pages

namespace Separate

variable {out out' : List (ℕ × Buffer)} {x y : ℕ × Buffer} {i : ℕ} {b : Buffer}

variable (h : Separate out)

include h

lemma nodup : out.Nodup := by
  refine h.apart.imp_of_mem fun {x y} hx _ hxy heq => ?_
  subst heq
  have hpos := (h.sized x hx).2
  rcases hxy with hle | hle
  · omega
  · omega

lemma apart_of_ne (hx : x ∈ out) (hy : y ∈ out) (hne : x ≠ y) : x.2.Apart y.2 := by
  have : Std.Symm fun x y : ℕ × Buffer => x.2.Apart y.2 := ⟨fun _ _ => Buffer.Apart.symm⟩
  exact h.apart.forall hx hy hne

/-- An address is the base of one buffer at most. -/
lemma unique (hx : x ∈ out) (hy : y ∈ out) (heq : x.2.phys = y.2.phys) : x = y := by
  by_contra hne
  have hx' := (h.sized x hx).2
  have hy' := (h.sized y hy).2
  rcases h.apart_of_ne hx hy hne with hle | hle
  · omega
  · omega

lemma sublist (hs : out'.Sublist out) : Separate out' :=
  ⟨h.apart.sublist hs, fun x hx => h.sized x (hs.subset hx)⟩

lemma cons (hpos : 0 < b.phys ∧ 0 < b.pages) (hb : ∀ x ∈ out, b.Apart x.2) : Separate ((i, b) :: out) := by
  refine ⟨pairwise_cons.mpr ⟨hb, h.apart⟩, fun x hx => ?_⟩
  rcases mem_cons.mp hx with rfl | hx
  · exact hpos
  · exact h.sized x hx

end Separate

/-- Buffers that are out are handed back. -/
lemma ledger_hands {out : List (ℕ × Buffer)} (hl : ledger log = some out) (hs : Separate out) :
    ∀ {bs : List Buffer}, bs.Nodup → (∀ b ∈ bs, ∃ i, (i, b) ∈ out) →
    ∃ out', ledger (bs.map .hand ++ log) = some out' ∧ out'.Sublist out ∧ ∀ x, x ∈ out' ↔ x ∈ out ∧ x.2 ∉ bs
  | [], _, _ => ⟨out, hl, List.Sublist.refl out, by simp⟩
  | b :: bs, hnodup, hmem => by
    obtain ⟨hb, hnodup⟩ := nodup_cons.mp hnodup
    obtain ⟨out', hl', hsub, hout'⟩ := ledger_hands hl hs hnodup fun b' hb' => hmem b' (mem_cons_of_mem b hb')
    obtain ⟨i, hi⟩ := hmem b mem_cons_self
    have hi' : (i, b) ∈ out' := (hout' (i, b)).mpr ⟨hi, hb⟩
    have hs' := hs.sublist hsub
    have hfind : out'.find? (fun x => x.2 = b) = some (i, b) := by
      cases hf : out'.find? fun x => x.2 = b with
      | none =>
        have := List.find?_eq_none.mp hf (i, b) hi'
        simp at this
      | some x =>
        have hx : x.2 = b := of_decide_eq_true (List.find?_some (p := fun x : ℕ × Buffer => decide (x.2 = b)) hf)
        rw [hs'.unique (mem_of_find?_eq_some hf) hi' (by rw [hx])]
    refine ⟨out'.erase (i, b), ?_, erase_sublist.trans hsub, fun x => ?_⟩
    · rw [map_cons, cons_append, ledger, hl', bind_some, hfind, map_some]
    · rw [hs'.nodup.mem_erase_iff, hout' x, mem_cons, not_or]
      constructor
      · intro ⟨hne, hx, hbs⟩
        refine ⟨hx, fun heq => hne (hs.unique hx hi (by rw [heq])), hbs⟩
      · intro ⟨hx, hne, hbs⟩
        exact ⟨fun heq => hne (by rw [heq]), hx, hbs⟩

/-! ### The invariant -/

/-- `alloc_pages` returns frames, not the first one, that are in no buffer that
is out. -/
def Unowned (s : History) : LifeEvent → Prop
  | .dmaAlloc _ size (some phys) =>
    0 < phys ∧ 0x1000 ∣ phys ∧ ∀ out, ledger s.log = some out → ∀ x ∈ out, Buffer.Apart ⟨phys, dmaPages size⟩ x.2
  | _ => True

def UnownedStep (s : History) (e : LifeEvent) (s' : History) : Prop := Unowned s e ∧ s.step e = some s'

/-- The buffers that are out are just those recorded. -/
structure Owned (s : History) (out : List (ℕ × Buffer)) : Prop where
  ledger : ledger s.log = some out
  separate : Separate out
  member : ∀ i b, (i, b) ∈ out ↔ ∃ svc, s.now.services.entries i = some svc ∧ b ∈ svc.dma
  tidy : ∀ i svc, s.now.services.entries i = some svc → svc.dma.Nodup ∧ svc.dma.length ≤ maxDma

/-- What `sys_dma_free` does if it does anything. -/
lemma sysDmaFree_some {t : Services} (v phys : ℕ)
    (htidy : ∀ i svc, t.entries i = some svc → svc.dma.Nodup ∧ svc.dma.length ≤ maxDma) :
    sysDmaFree t v phys = ⟨t, u64Max, []⟩ ∨ ∃ i svc b svc', t.ofVcpu v = some (i, svc) ∧ b ∈ svc.dma ∧ b.phys = phys ∧
      (sysDmaFree t v phys).rax = 0 ∧ (sysDmaFree t v phys).freed = [b] ∧
      (sysDmaFree t v phys).services.entries = Function.update t.entries i (some svc') ∧ svc'.dma.Perm (svc.dma.erase b) := by
  rcases sysDmaFree_cases t v phys with heq | ⟨i, svc, k, pages, hv, hk, hrax, hfreed, hentries⟩
  · exact Or.inl heq
  · have hn := (htidy i svc (ofVcpu_eq_some.mp hv).2).1
    obtain ⟨hlt, hget⟩ := List.getElem?_eq_some_iff.mp hk
    refine Or.inr ⟨i, svc, ⟨phys, pages⟩, _, hv, mem_of_getElem? hk, rfl, hrax, hfreed, hentries, ?_⟩
    rw [← hget, hn.erase_getElem k hlt]
    exact Slots.swapRemove_perm hlt

namespace Owned

variable {s s' : History} {out : List (ℕ × Buffer)} {i v : ℕ} {svc : Service}

/-- All buffers of a service are handed to `free_pages` when it goes. -/
lemma handed (h : Owned s out) (hi : s.now.services.entries i = some svc) : Registry.handed svc = svc.dma := by
  refine filter_eq_self.mpr fun b hb => ?_
  obtain ⟨hphys, hpages⟩ := h.separate.sized (i, b) ((h.member i b).mpr ⟨svc, hi, hb⟩)
  simp only [Bool.and_eq_true, decide_eq_true_eq]
  exact ⟨hphys.ne', hpages⟩

section

variable (h : Owned s out)

include h

/-- A slot changes, and its buffers that are no longer recorded are handed back. -/
lemma update {bs : List Buffer} {o : Option Service}
    (hi : s.now.services.entries i = some svc) (hentries : r.services.entries = Function.update s.now.services.entries i o)
    (hlog : Gdf.ledger log = Gdf.ledger (bs.map .hand ++ s.log)) (hbs : bs.Nodup) (hsub : bs ⊆ svc.dma)
    (ho : ∀ b, (∃ svc', o = some svc' ∧ b ∈ svc'.dma) ↔ b ∈ svc.dma ∧ b ∉ bs) (hnodup : ∀ svc', o = some svc' → svc'.dma.Nodup) :
    ∃ out', Owned ⟨r, log⟩ out' := by
  have hmem : ∀ b ∈ bs, (i, b) ∈ out := fun b hb => (h.member i b).mpr ⟨svc, hi, hsub hb⟩
  obtain ⟨out', hl, hs, hout'⟩ := ledger_hands h.ledger h.separate hbs fun b hb => ⟨i, hmem b hb⟩
  refine ⟨out', hlog.trans hl, h.separate.sublist hs, fun j b => ?_, fun j svc' hj => ?_⟩
  · rw [hout' (j, b), h.member j b]
    change _ ↔ ∃ svc', r.services.entries j = some svc' ∧ b ∈ svc'.dma
    rw [hentries]
    by_cases hj : j = i
    · subst hj
      rw [update_self, ho b]
      refine and_congr_left fun _ => ?_
      rw [hi]
      simp
    · rw [update_of_ne hj]
      refine and_iff_left_of_imp fun ⟨svc', hsvc', hb⟩ hbad => hj ?_
      have hj' : (j, b) ∈ out := (h.member j b).mpr ⟨svc', hsvc', hb⟩
      exact congrArg Prod.fst (h.separate.unique hj' (hmem b hbad) rfl)
  · change r.services.entries j = some svc' at hj
    rw [hentries] at hj
    by_cases hji : j = i
    · rw [hji, update_self] at hj
      have hsubset : svc'.dma ⊆ svc.dma := fun b hb => ((ho b).mp ⟨svc', hj, hb⟩).1
      exact ⟨hnodup svc' hj, ((hnodup svc' hj).subperm hsubset).length_le.trans (h.tidy i svc hi).2⟩
    · rw [update_of_ne hji] at hj
      exact h.tidy j svc' hj

/-- A service that crashes or is stopped. -/
lemma leaves {o : Option Service}
    (hi : s.now.services.entries i = some svc) (hentries : r.services.entries = Function.update s.now.services.entries i o)
    (hlog : Gdf.ledger log = Gdf.ledger ((Registry.handed svc).map .hand ++ s.log)) (ho : ∀ svc', o = some svc' → svc'.dma = []) :
    ∃ out', Owned ⟨r, log⟩ out' ∧ ∀ b, (i, b) ∉ out' := by
  rw [h.handed hi] at hlog
  have hgone : ∀ b, (∃ svc', o = some svc' ∧ b ∈ svc'.dma) ↔ b ∈ svc.dma ∧ b ∉ svc.dma := by
    refine fun b => ⟨fun ⟨svc', hsvc, hmem⟩ => ?_, fun ⟨hb, hno⟩ => absurd hb hno⟩
    rw [ho svc' hsvc] at hmem
    cases hmem
  obtain ⟨out', hout'⟩ := h.update hi hentries hlog (h.tidy i svc hi).1 (List.Subset.refl _) hgone
    fun svc' hsvc => ho svc' hsvc ▸ nodup_nil
  refine ⟨out', hout', fun b hb => ?_⟩
  obtain ⟨svc', hsvc, hmem⟩ := (hout'.member i b).mp hb
  change r.services.entries i = some svc' at hsvc
  rw [hentries, update_self] at hsvc
  rw [ho svc' hsvc] at hmem
  cases hmem

lemma start (name : Name) (o : Services.Start)
    (hr : r.services = (s.now.services.startService name o).1) (hlog : Gdf.ledger log = Gdf.ledger s.log) : Owned ⟨r, log⟩ out := by
  rcases startService_cases s.now.services name o with heq | ⟨i, svc, hnone, heq, hdma, -⟩
  · refine ⟨hlog.trans h.ledger, h.separate, ?_, ?_⟩
    · change ∀ i b, _ ↔ ∃ svc, r.services.entries i = some svc ∧ _
      rw [hr, heq]
      exact h.member
    · change ∀ i svc, r.services.entries i = some svc → _
      rw [hr, heq]
      exact h.tidy
  · have hentries : r.services.entries = Function.update s.now.services.entries i (some svc) := hr ▸ heq
    refine ⟨hlog.trans h.ledger, h.separate, fun j b => ?_, fun j svc' hj => ?_⟩
    · rw [h.member j b]
      change _ ↔ ∃ svc, r.services.entries j = some svc ∧ _
      rw [hentries]
      by_cases hji : j = i
      · subst hji
        rw [update_self, hnone]
        simp [hdma]
      · rw [update_of_ne hji]
    · change r.services.entries j = some svc' at hj
      rw [hentries] at hj
      by_cases hji : j = i
      · rw [hji, update_self, Option.some.injEq] at hj
        rw [← hj, hdma]
        exact ⟨nodup_nil, Nat.zero_le _⟩
      · rw [update_of_ne hji] at hj
        exact h.tidy j svc' hj

lemma crash (hstep : s.step (.crash v) = some s') :
    ∃ out', Owned s' out' ∧ ∀ i svc, s.now.services.ofVcpu v = some (i, svc) → ∀ b, (i, b) ∉ out' := by
  obtain ⟨⟨r, log⟩, hcrash, rfl⟩ := map_eq_some_iff.mp hstep
  rcases Registry.handleCrash_cases hcrash with ⟨hnone, rfl, rfl⟩ | ⟨i, svc, -, -, hv, -, -, -, rfl, ⟨o, hentries, ho⟩, -⟩
  · refine ⟨out, h, fun i svc hv => ?_⟩
    rw [hnone] at hv
    cases hv
  · have hi := (ofVcpu_eq_some.mp hv).2
    have hlog : ∀ p, Gdf.ledger ((Registry.handed svc).map .hand ++ [.crash i svc.name.cut p] ++ s.log) =
        Gdf.ledger ((Registry.handed svc).map .hand ++ s.log) := by
      intro p
      rw [append_assoc]
      exact ledger_congr _ rfl
    obtain ⟨out', hout', hnot⟩ := h.leaves hi hentries (hlog _) fun svc' hsvc => (ho svc' hsvc).1
    refine ⟨out', hout', fun j svc' hv' b => ?_⟩
    obtain ⟨rfl, -⟩ := Prod.mk.inj (mem_unique hv hv')
    exact hnot b

lemma stop (hstep : s.step (.stop i) = some s') : ∃ out', Owned s' out' ∧ ∀ b, (i, b) ∉ out' := by
  simp only [History.step, Option.some.injEq] at hstep
  subst hstep
  cases hi : s.now.services.entries i with
  | none =>
    refine ⟨out, ?_, fun b hb => ?_⟩
    · rw [stopService_none hi]
      exact h
    · obtain ⟨svc, hsvc, -⟩ := (h.member i b).mp hb
      rw [hi] at hsvc
      cases hsvc
  | some =>
    obtain ⟨hentries, hfreed⟩ := stopService_some hi
    refine h.leaves hi hentries ?_ fun svc' hsvc => Option.some.inj hsvc ▸ rfl
    rw [hfreed]
    rfl

/-- A buffer is returned. -/
lemma issue {b : Buffer} (hi : s.now.services.entries i = some svc)
    (hentries : r.services.entries = Function.update s.now.services.entries i (some { svc with dma := svc.dma ++ [b] }))
    (hpos : 0 < b.phys ∧ 0 < b.pages) (hapart : ∀ x ∈ out, b.Apart x.2) (hroom : svc.dma.length < maxDma) :
    Owned ⟨r, .issue i b :: s.log⟩ ((i, b) :: out) := by
  have hnew : ∀ j, (j, b) ∉ out := by
    intro j hj
    have hself := hapart (j, b) hj
    rcases hself with hle | hle
    · dsimp only at hle
      omega
    · dsimp only at hle
      omega
  refine ⟨by rw [Gdf.ledger, h.ledger, map_some], h.separate.cons hpos hapart, fun j b' => ?_, fun j svc' hj => ?_⟩
  · change _ ↔ ∃ svc, r.services.entries j = some svc ∧ _
    rw [mem_cons, hentries, h.member j b']
    by_cases hji : j = i
    · subst hji
      rw [update_self, hi]
      simp [or_comm]
    · rw [update_of_ne hji]
      simp [hji]
  · change r.services.entries j = some svc' at hj
    rw [hentries] at hj
    by_cases hji : j = i
    · rw [hji, update_self, Option.some.injEq] at hj
      subst hj
      refine ⟨List.Nodup.append (h.tidy i svc hi).1 (nodup_singleton b) ?_, ?_⟩
      · rw [disjoint_singleton]
        exact fun hb => hnew i ((h.member i b).mpr ⟨svc, hi, hb⟩)
      · rw [length_append, length_singleton]
        exact hroom
    · rw [update_of_ne hji] at hj
      exact h.tidy j svc' hj

lemma dmaFree {phys size : ℕ} (hstep : s.step (.dmaFree v phys size) = some s') : ∃ out', Owned s' out' := by
  simp only [History.step, Option.some.injEq] at hstep
  subst hstep
  rcases sysDmaFree_some v phys h.tidy with heq | ⟨i, svc, b, svc', hv, hb, -, -, hfreed, hentries, hperm⟩
  · rw [heq]
    exact ⟨out, h⟩
  · have hi := (ofVcpu_eq_some.mp hv).2
    have hnodup := (h.tidy i svc hi).1
    rw [hfreed]
    refine h.update hi hentries rfl (nodup_singleton _) (fun b' hb' => mem_singleton.mp hb' ▸ hb) (fun b' => ?_)
      fun svc'' hsvc => ?_
    · rw [mem_singleton, and_comm, ← hnodup.mem_erase_iff, ← hperm.mem_iff]
      simp
    · cases hsvc
      exact hperm.nodup_iff.mpr (hnodup.erase b)

omit h in
lemma dmaPages_pos (size : ℕ) : 0 < dmaPages size := by
  unfold dmaPages u64Max
  omega

/-- The buffer that is returned is recorded, and one that is not is freed. -/
lemma dmaAlloc (v size : ℕ) (phys : Option ℕ) (hun : Unowned s (.dmaAlloc v size phys)) :
    ∃ out', Owned ⟨{ s.now with services := (sysDmaAlloc s.now.services v size phys).services },
      History.allocLog s.now.services v size (sysDmaAlloc s.now.services v size phys) ++ s.log⟩ out' := by
  cases phys with
  | none => exact ⟨out, h⟩
  | some p =>
    obtain ⟨hpos, hdvd, hapart⟩ := hun
    rcases sysDmaAlloc_cases s.now.services v size p with ⟨heq, -⟩ | ⟨i, svc, hv, hroom, heq⟩
    · rw [heq]
      refine ⟨out, ?_, h.separate, h.member, h.tidy⟩
      change (Gdf.ledger s.log).bind _ = _
      rw [h.ledger, bind_some, if_pos fun x hx => (hapart out h.ledger x hx).symm]
    · have hne : p ≠ u64Max := by
        unfold u64Max
        omega
      obtain ⟨hslot, hi⟩ := ofVcpu_eq_some.mp hv
      rw [heq, History.allocLog, map_nil, nil_append, if_neg hne, hslot, getD_some, singleton_append]
      exact ⟨_, h.issue hi rfl ⟨hpos, dmaPages_pos size⟩ (hapart out h.ledger) hroom⟩

lemma step {e : LifeEvent} (hstep : UnownedStep s e s') : ∃ out', Owned s' out' := by
  obtain ⟨hun, hstep⟩ := hstep
  cases e with
  | load i name elf cls o =>
    cases hstep
    exact ⟨out, h.start name o rfl rfl⟩
  | crash =>
    obtain ⟨out', hout', -⟩ := h.crash hstep
    exact ⟨out', hout'⟩
  | restart o =>
    obtain ⟨⟨r, log⟩, hrestart, rfl⟩ := map_eq_some_iff.mp hstep
    unfold Registry.restart at hrestart
    split at hrestart
    · cases hrestart
    · obtain ⟨q, -, heq⟩ := map_eq_some_iff.mp hrestart
      cases heq
      exact ⟨out, h.start q.name o rfl rfl⟩
  | stop =>
    obtain ⟨out', hout', -⟩ := h.stop hstep
    exact ⟨out', hout'⟩
  | dmaAlloc v size phys =>
    simp only [History.step, Option.some.injEq] at hstep
    subst hstep
    exact h.dmaAlloc v size phys hun
  | dmaFree => exact h.dmaFree hstep

end

lemma run {tr : List LifeEvent} (hr : Run UnownedStep s tr s') {out : List (ℕ × Buffer)} (h : Owned s out) :
    ∃ out', Owned s' out' := by
  induction hr generalizing out with
  | nil => exact ⟨out, h⟩
  | cons hstep hr ih =>
    obtain ⟨out', h'⟩ := h.step hstep
    exact ih h'

lemma init : Owned .start [] where
  ledger := rfl
  separate := ⟨List.Pairwise.nil, fun _ hx => (nomatch hx)⟩
  member := fun _ _ => ⟨nofun, fun ⟨_, h, _⟩ => (nomatch h)⟩
  tidy := fun _ _ h => (nomatch h)

end Owned

/-! ### Ownership -/

variable {s : History}

/-- `sys_dma_free` succeeds for the bases of the caller's buffers. -/
lemma sysDmaFree_rax {t : Services} {v phys : ℕ} : (sysDmaFree t v phys).rax = 0 ↔
    ∃ i svc, t.ofVcpu v = some (i, svc) ∧ ∃ b ∈ svc.dma, b.phys = phys := by
  unfold sysDmaFree
  cases ht : t.untrackDma v phys with
  | none =>
    have hno := untrackDma_eq_none.mp ht
    refine iff_of_false (Nat.succ_ne_zero _) ?_
    rintro ⟨i, svc, hv, b, hb, hphys⟩
    exact hno i svc hv b hb hphys
  | some r =>
    obtain ⟨t', pages⟩ := r
    obtain ⟨i, svc, k, hv, hk, -⟩ := untrackDma_eq_some ht
    exact iff_of_true rfl ⟨i, svc, hv, _, mem_of_getElem? hk, rfl⟩

/-- In every run in which `alloc_pages` returns only unowned frames: there is a
ledger, that is, each buffer that was returned is handed to `free_pages` at most
once; its buffers are those recorded, which are disjoint, at most 8 of a service;
`sys_dma_alloc` returns and records what was allocated, or frees it;
`sys_dma_free` succeeds just for the bases of the caller's buffers, hands the
recorded pages to `free_pages` and leaves all other records; and once a service
crashed or is stopped, all buffers that were returned to it have been handed
back. -/
theorem dma_owned {tr : List LifeEvent} (h : Run UnownedStep .start tr s) : ∃ out, ledger s.log = some out ∧
      (∀ i b, (i, b) ∈ out ↔ ∃ svc, s.now.services.entries i = some svc ∧ b ∈ svc.dma) ∧
      (∀ i svc, s.now.services.entries i = some svc → svc.dma.Nodup ∧ svc.dma.length ≤ maxDma) ∧
      (∀ i j svc svc' b b', s.now.services.entries i = some svc → s.now.services.entries j = some svc' → b ∈ svc.dma →
        b' ∈ svc'.dma → (i, b) ≠ (j, b') → b.Apart b') ∧
      (∀ v size, sysDmaAlloc s.now.services v size none = ⟨s.now.services, u64Max, []⟩) ∧
      (∀ v size phys, (sysDmaAlloc s.now.services v size (some phys) = ⟨s.now.services, u64Max, [⟨phys, dmaPages size⟩]⟩ ∧
          ∀ i svc, s.now.services.ofVcpu v = some (i, svc) → svc.dma.length = maxDma) ∨
        ∃ i svc, s.now.services.ofVcpu v = some (i, svc) ∧ svc.dma.length < maxDma ∧
          sysDmaAlloc s.now.services v size (some phys) =
            ⟨s.now.services.set i { svc with dma := svc.dma ++ [⟨phys, dmaPages size⟩] }, phys, []⟩) ∧
      (∀ v phys, (sysDmaFree s.now.services v phys).rax = 0 ↔
        ∃ i svc, s.now.services.ofVcpu v = some (i, svc) ∧ ∃ b ∈ svc.dma, b.phys = phys) ∧
      (∀ v phys, (sysDmaFree s.now.services v phys).rax = 0 → ∃ i svc b svc', s.now.services.ofVcpu v = some (i, svc) ∧
        b ∈ svc.dma ∧ b.phys = phys ∧ (sysDmaFree s.now.services v phys).freed = [b] ∧
        (sysDmaFree s.now.services v phys).services.entries = Function.update s.now.services.entries i (some svc') ∧
        svc'.dma.Perm (svc.dma.erase b)) ∧
      (∀ v s' i svc, s.step (.crash v) = some s' → s.now.services.ofVcpu v = some (i, svc) →
        ∃ out', ledger s'.log = some out' ∧ ∀ b, (i, b) ∉ out') ∧
      ∀ i s', s.step (.stop i) = some s' → ∃ out', ledger s'.log = some out' ∧ ∀ b, (i, b) ∉ out' := by
  obtain ⟨out, ho⟩ := Owned.run h Owned.init
  refine ⟨out, ho.ledger, ho.member, ho.tidy, ?_, fun v size => rfl, ?_, fun v phys => sysDmaFree_rax, ?_, ?_, ?_⟩
  · intro i j svc svc' b b' hi hj hb hb' hne
    exact ho.separate.apart_of_ne ((ho.member i b).mpr ⟨svc, hi, hb⟩) ((ho.member j b').mpr ⟨svc', hj, hb'⟩) hne
  · intro v size phys
    refine (sysDmaAlloc_cases s.now.services v size phys).imp_left fun ⟨heq, hfull⟩ => ⟨heq, fun i svc hv => ?_⟩
    exact le_antisymm (ho.tidy i svc (ofVcpu_eq_some.mp hv).2).2 (hfull i svc hv)
  · intro v phys hrax
    rcases sysDmaFree_some v phys ho.tidy with heq | ⟨i, svc, b, svc', hv, hb, hphys, -, hrest⟩
    · rw [heq] at hrax
      exact absurd hrax (Nat.succ_ne_zero _)
    · exact ⟨i, svc, b, svc', hv, hb, hphys, hrest⟩
  · intro v s' i svc hstep hv
    obtain ⟨out', hout', hnot⟩ := ho.crash hstep
    exact ⟨out', hout'.ledger, hnot i svc hv⟩
  · intro i s' hstep
    obtain ⟨out', hout', hnot⟩ := ho.stop hstep
    exact ⟨out', hout'.ledger, hnot⟩

/-- A service gets a buffer of two pages and crashes. -/
def bufferEvents : List LifeEvent :=
  [.load 0 (0x61 :: List.replicate 31 0) [] .hardware ⟨true, some 1, true⟩, .dmaAlloc 1 0x1001 (some 0x100000)]

theorem dma_owned_crash : ∃ s s' out', Run UnownedStep .start bufferEvents s ∧ s.step (.crash 1) = some s' ∧
    ledger s'.log = some out' ∧ ∀ b, (0, b) ∉ out' := by
  have hexec : ((exec History.step .start bufferEvents).bind fun s => (s.step (.crash 1)).map fun _ =>
      (s.now.services.ofVcpu 1).map Prod.fst) = some (some 0) := by decide +kernel
  obtain ⟨s, hs, hcrash⟩ := Option.bind_eq_some_iff.mp hexec
  obtain ⟨s', hstep, hv⟩ := Option.map_eq_some_iff.mp hcrash
  obtain ⟨⟨i, svc⟩, hv, rfl⟩ := Option.map_eq_some_iff.mp hv
  have hrun : Run UnownedStep .start bufferEvents s := by
    obtain ⟨s₁, h₁, hs⟩ := Option.bind_eq_some_iff.mp hs
    obtain ⟨s₂, h₂, hs⟩ := Option.bind_eq_some_iff.mp hs
    cases hs
    refine .cons ⟨trivial, h₁⟩ (.cons ⟨⟨by decide, by decide, fun out hout x hx => ?_⟩, h₂⟩ (.nil _))
    cases h₁
    obtain rfl : [] = out := Option.some.inj hout
    cases hx
  obtain ⟨-, -, -, -, -, -, -, -, -, hgone, -⟩ := dma_owned hrun
  obtain ⟨out', hout', hnot⟩ := hgone 1 s' _ svc hstep hv
  exact ⟨s, s', out', hrun, hstep, hout', hnot⟩

end LodaxOS.Gdf
