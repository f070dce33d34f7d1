/-
# New address spaces

`init` and `fork_pml4` build PML4s: what they leave is again well-formed
tables. A copied table gets the place of the one it is copied from, so the two
address spaces may share the tables of the kernel half. The programs are taken
together from their parts: a part that runs where some tables are in place
leaves them there (`Does`).
-/
import LodaxOS.Virt.Mapping

namespace LodaxOS.Virt

open Phys (pageSize Inv)
open Radix Partial Function Multiset

variable {z : Phys.State} {own own' own'' : Owners} {M M' M'' : Multiset ℕ} {m m' m'' : Machine}

/-- A run from `m` to `m'` keeps the tables; `Q` says what it placed. -/
def Leads (z : Phys.State) (own : ℕ → Option (ℕ × ℕ)) (M : Multiset ℕ) (m m' : Machine)
    (Q : (ℕ → Option (ℕ × ℕ)) → Prop) : Prop :=
  ∃ own' M', Tables z own' M' m' ∧ Grown own M m own' M' m' ∧ Q own'

variable {Q : Owners → Prop}

lemma Leads.refl (hT : Tables z own M m) (hQ : Q own) : Leads z own M m m Q :=
  ⟨own, M, hT, Grown.refl own M m, hQ⟩

lemma Leads.after (hG : Grown own M m own' M' m') (h : Leads z own' M' m' m'' Q) : Leads z own M m m'' Q := by
  obtain ⟨own'', M'', hT, hG', hQ⟩ := h
  exact ⟨own'', M'', hT, hG.trans hG', hQ⟩

/-- Run one part, then the rest. -/
lemma Leads.bind {Q R : Owners → Prop} (h : Leads z own M m m' Q)
    (hrest : ∀ own' M', Tables z own' M' m' → Grown own M m own' M' m' → Q own' → Leads z own' M' m' m'' R) :
    Leads z own M m m'' R := by
  obtain ⟨own', M', hT, hG, hQ⟩ := h
  exact (hrest own' M' hT hG hQ).after hG

lemma Leads.write (hT : Tables z own M m) {t l q i w : ℕ} (ht : own t = some (l, q)) (hs : Sane l w)
    (hw : ∀ g, decode l w = .table g → ∃ l', l = l' + 1 ∧ own g = some (l', q * 512 + i)) (hQ : Q own) :
    Leads z own M m { m with mem := m.mem.write t i w } Q :=
  ⟨own, M, hT.write ht hs hw, ⟨Extends.refl own, le_rfl, rfl, rfl, rfl⟩, hQ⟩

/-- Flags of an entry that names a table. -/
structure NameFlags (f : ℕ) : Prop where
  mask : f &&& physAddrMask = 0
  huge : f.testBit 7 = false
  writable : f.testBit 1 = true
  nx : f.testBit 63 = false

lemma nameFlags_writable : NameFlags (writable ||| present) := ⟨by decide, by decide, by decide, by decide⟩

variable {g page e new flags src : ℕ} {s : Phys.State} {cowFlag fromKernel : Bool}

lemma decode_name {l f : ℕ} (hd : pageSize ∣ g) (hlt : g < 2 ^ 52) (hf : NameFlags f) (hl : l ≠ 0)
    (h0 : f.testBit 0 = true) : decode l (g ||| f) = .table g :=
  decode_eq_table.mpr ⟨by rw [entry_testBit hd (by norm_num), h0], hl, by rw [entry_testBit hd (by norm_num), hf.huge],
    entry_addr hd hlt hf.mask⟩

/-- An entry that names a table of the place below. -/
lemma Leads.name (hz : z.zone.top ≤ directMapSize) (hT : Tables z own M m) {t l q i f : ℕ} (hf : NameFlags f)
    (ht : own t = some (l + 1, q)) (hg : own g = some (l, q * 512 + i)) :
    Leads z own M m { m with mem := m.mem.write t i (g ||| f) } fun _ => True := by
  have hd := (hT.page g _ hg).1
  have hlt := lt_address (hT.lt hz hg)
  refine Leads.write hT ht (fun _ => ⟨fun _ => ?_, fun _ _ => ⟨?_, ?_⟩⟩) (fun g' hg' => ?_) trivial
  · rw [entry_testBit hd (by norm_num), hf.huge]
  · rw [entry_testBit hd (by norm_num), hf.writable]
  · rw [entry_testBit_high hlt (by norm_num), hf.nx]
  · obtain rfl : g = g' := by rw [← (decode_eq_table.mp hg').2.2.2, entry_addr hd hlt hf.mask]
    exact ⟨l, rfl, hg⟩

/-- A new page filled with words that name no table. -/
lemma Leads.place (hT : Tables z own M m) {l q : ℕ} {phys : Phys.State} {ws : ℕ → ℕ}
    (hp : Fresh z own M s page phys) (hs : ∀ i < 512, Sane l (ws i)) (hws : ∀ i < 512, ∀ f, decode l (ws i) ≠ .table f) :
    Leads z own M m { m with mem := m.mem.fill page ws, phys } fun own' => own' page = some (l, q) :=
  ⟨_, _, hT.place hp hs hws, hp.grown _ _, update_self _ _ _⟩

/-- A page that is held becomes an empty table. -/
lemma Leads.fillZeroed (hT : Tables z own M m) (l q : ℕ) (hd : pageSize ∣ page)
    (hM : page / pageSize ∈ M) (hown : own page = none) :
    Leads z own M m { m with mem := m.mem.fill page newZeroed }
      fun own' => own' page = some (l, q) ∧ ∀ f, f ≠ page → own' f = own f :=
  ⟨_, _, hT.fill hd hM hown (fun _ _ => sane_zero l) fun i _ f => decode_newZeroed l i f,
    ⟨extends_update _ hown, le_rfl, rfl, rfl, rfl⟩, update_self _ _ _, fun _ hf => update_of_ne hf _ _⟩

lemma Leads.placeZeroed (hT : Tables z own M m) (l q : ℕ) {phys : Phys.State} (hp : Fresh z own M s page phys) :
    Leads z own M m { m with mem := m.mem.fill page newZeroed, phys } fun own' => own' page = some (l, q) :=
  Leads.place hT hp (fun _ _ => sane_zero l) fun i _ f => decode_newZeroed l i f

/-! ### Programs -/

lemma refPage_inv (hI : Inv z s M) (pn : ℕ) : Inv z ((Phys.refPage pn).run s).2 M := by
  rw [← zero_add M] at hI
  obtain ⟨held, hI', rfl⟩ := (Phys.safe_inv (z := z) fun J hJ => Phys.refPage_safe hJ pn 0).run hI
  rwa [zero_add] at hI'

/-- A page that is given back. -/
lemma freePage_inv (hd : pageSize ∣ page) (hI : Inv z s (page / pageSize ::ₘ M)) :
    Inv z ((Phys.freePage page).run s).2 M := by
  have hb : Phys.blockSize 0 ∣ page := by rwa [Phys.blockSize_eq, pow_zero, one_mul]
  have he : Phys.rangePages page (2 ^ 0) + M = page / pageSize ::ₘ M := by simp [Phys.rangePages]
  rw [← he] at hI
  obtain ⟨held, hI', rfl⟩ := (Phys.safe_inv (z := z) fun J hJ => Phys.freeOrder_safe hJ (Nat.zero_le _) hb).run hI
  rwa [zero_add] at hI'

/-- A new, empty table is made if there is a page for it. -/
lemma newTable_cases (hT : Tables z own M m) (hz : z.zone.top ≤ directMapSize) {r : Option (ℕ × ℕ)} (hrun : newTable m = some (r, m')) :
    (r = none ∧ m' = { m with phys := (Phys.allocPage.run m.phys).2 } ∧ (Phys.allocPage.run m.phys).1 = none) ∨
    ∃ page phys, r = some (page, page) ∧ Fresh z own M m.phys page phys ∧
      m' = { m with mem := m.mem.fill page newZeroed, phys } := by
  obtain ⟨a, m1, ha, h⟩ := bind_eq_some.mp hrun
  cases a with
  | none =>
    obtain ⟨rfl, rfl⟩ := pure_eq_some.mp h
    obtain ⟨hnone, rfl⟩ := tryAllocPage_eq_some.mp ha
    exact .inl ⟨rfl, rfl, hnone⟩
  | some page =>
    obtain ⟨t, m2, ht, h⟩ := bind_eq_some.mp h
    obtain ⟨_, m3, hw, h⟩ := bind_eq_some.mp h
    obtain ⟨rfl, rfl⟩ := pure_eq_some.mp h
    obtain ⟨phys, hp, rfl⟩ := hT.fresh hz ha
    obtain ⟨rfl, rfl⟩ := reaching_toVirtual _ _ _ _ hp.aligned hp.lt ht
    exact .inr ⟨t, phys, rfl, hp, (writeTable_eq_some.mp hw).symm⟩

/-- A program that keeps the tables, wherever those that `own` places are there;
`Q` says what it returns and places. -/
def Does (z : Phys.State) (own : ℕ → Option (ℕ × ℕ)) {α : Type} (x : Op α)
    (Q : α → (ℕ → Option (ℕ × ℕ)) → Prop) : Prop :=
  ∀ own1 M m a m', Extends own own1 → Tables z own1 M m → x m = some (a, m') → Leads z own1 M m m' (Q a)

/-- It keeps the tables. -/
abbrev KeepsTables (z : Phys.State) (own : ℕ → Option (ℕ × ℕ)) {α : Type} (x : Op α) : Prop := Does z own x fun _ _ => True

namespace Does

variable {α β : Type} {x : Op α} {f : α → Op β} {Q : α → Owners → Prop}
  {R : β → Owners → Prop} {t l q i w : ℕ}

lemma ret {a : α} (hQ : ∀ own', Extends own own' → Q a own') : Does z own (pure a) Q := by
  intro own1 M m b m' hE hT h
  obtain ⟨rfl, rfl⟩ := pure_eq_some.mp h
  exact Leads.refl hT (hQ own1 hE)

lemma bind (hx : Does z own x Q) (hf : ∀ a own', Extends own own' → Q a own' → Does z own' (f a) R) :
    Does z own (x >>= f) R := by
  intro own1 M m b m' hE hT h
  obtain ⟨a, m1, h1, h2⟩ := bind_eq_some.mp h
  refine (hx own1 M m a m1 hE hT h1).bind fun own' M' hT' hG hQ => ?_
  exact hf a own' (hE.trans hG.ext) hQ own' M' m1 b m' (Extends.refl _) hT' h2

lemma done (hx : Does z own x Q) (b : β) : KeepsTables z own (x >>= fun _ => pure b) :=
  hx.bind fun _ _ _ _ => .ret fun _ _ => trivial

/-- An entry of a table is read: it is sane, and names a table of the place below. -/
lemma read {g : ℕ → Op β} (ht : own t = some (l, q)) (hi : i < 512) (hg : ∀ e own', Extends own own' → Sane l e →
      (∀ c, decode l e = .table c → ∃ l', l = l' + 1 ∧ own' c = some (l', q * 512 + i)) → Does z own' (g e) R) :
    Does z own (readEntry t i >>= g) R := by
  intro own1 M m b m' hE hT h
  obtain ⟨e, m1, hread, h⟩ := bind_eq_some.mp h
  obtain ⟨rfl, rfl⟩ := readEntry_eq_some.mp hread
  have ht1 := hE _ _ ht
  exact hg _ own1 hE (hT.sane t l q i ht1 hi) (fun c hc => hT.tree t l q i c ht1 hi hc) own1 M m b m' (Extends.refl _) hT h

lemma write (ht : own t = some (l, q)) (hs : Sane l w)
    (hw : ∀ g, decode l w = .table g → ∃ l', l = l' + 1 ∧ own g = some (l', q * 512 + i)) : KeepsTables z own (writeEntry t i w) := by
  intro own1 M m u m' hE hT h
  obtain rfl := writeEntry_eq_some.mp h
  refine Leads.write hT (hE _ _ ht) hs (fun g hg => ?_) trivial
  obtain ⟨l', hl, hg⟩ := hw g hg
  exact ⟨l', hl, hE _ _ hg⟩

lemma ref (pn : ℕ) : KeepsTables z own (refPage pn) := by
  intro own1 M m u m' hE hT h
  obtain rfl : { m with phys := ((Phys.refPage pn).run m.phys).2 } = m' := by simpa [refPage] using h
  exact ⟨own1, M, hT.setPhys le_rfl (refPage_inv hT.alloc pn), Grown.setPhys own1 m _ le_rfl, trivial⟩

/-- Over the indices. -/
lemma forIndices {g : ℕ → Op Bool} : ∀ (is : List ℕ) {own : Owners}, (∀ i ∈ is, i < 512) →
    (∀ i < 512, ∀ own', Extends own own' → KeepsTables z own' (g i)) → KeepsTables z own (forIndices g is)
  | [], _, _, _ => .ret fun _ _ => trivial
  | i :: rest, own, hi, hg => by
    rw [Virt.forIndices]
    refine (hg i (hi i List.mem_cons_self) own (Extends.refl own)).bind fun b own1 hE _ => ?_
    split
    · exact forIndices rest (fun j hj => hi j (List.mem_cons_of_mem _ hj)) fun j hj own' hE' => hg j hj own' (hE.trans hE')
    · exact .ret fun _ _ => trivial

section

variable (hz : z.zone.top ≤ directMapSize)

include hz

lemma reach {p : ℕ × ℕ} (ht : own t = some p) : Does z own (toVirtual t) fun x _ => x = t := by
  intro own1 M m x m' hE hT h
  obtain ⟨rfl, rfl⟩ := hT.toVirtual hz (hE _ _ ht) h
  exact Leads.refl hT rfl

/-- An entry that names a table of the place below is written. -/
lemma name (he : NameFlags e) (ht : own t = some (l + 1, q)) (hg : own g = some (l, q * 512 + i)) :
    KeepsTables z own (writeEntry t i (g ||| e)) := by
  intro own1 M m u m' hE hT h
  obtain rfl := writeEntry_eq_some.mp h
  exact Leads.name hz hT he (hE _ _ ht) (hE _ _ hg)

/-- A fresh empty table, for the place `(l, q)`. -/
lemma newTable (l q : ℕ) : Does z own newTable fun r own' => ∀ p ∈ r, p.2 = p.1 ∧ own' p.1 = some (l, q) := by
  intro own1 M m r m' hE hT h
  rcases newTable_cases hT hz h with ⟨rfl, rfl, hnone⟩ | ⟨page, phys, rfl, hp, rfl⟩
  · obtain ⟨hT', hG⟩ := hT.alloc_none (tryAllocPage_eq_some.mpr ⟨hnone, rfl⟩)
    exact ⟨own1, M, hT', hG, by simp⟩
  · refine (Leads.placeZeroed hT l q hp).bind fun own' M' hT' _ hown => Leads.refl hT' ?_
    simpa using hown

/-- A copy is made, and named if the memory lasted. -/
lemma child {y : Op (Option ℕ)} (he : NameFlags e) (hnew : own new = some (l + 1, q))
    (hy : Does z own y fun r own' => ∀ n ∈ r, own' n = some (l, q * 512 + i)) :
    KeepsTables z own (do
      match ← y with
      | none => pure false
      | some child => do
        writeEntry new i (child ||| e)
        pure true) := by
  refine hy.bind fun r own1 hE hr => ?_
  cases r with
  | none => exact .ret fun _ _ => trivial
  | some child => exact (name hz he (hE _ _ hnew) (hr child rfl)).done _

end

end Does

/-! ### Boot -/

section Boot

variable (hz : z.zone.top ≤ directMapSize) {r : ℕ}

include hz

lemma idMapPage_keeps {virt phys : ℕ} (hr : Root own r) : KeepsTables z own (idMapPage r virt phys flags) := by
  intro own1 M m u m' hE hT h
  obtain ⟨own', M', hM⟩ := idMapPage_mapped hz hT (hr.mono hE) h
  exact ⟨own', M', hM.tables, hM.grown, trivial⟩

lemma idMapPages_keeps {bound : ℕ} : ∀ (fuel addr : ℕ) {own : Owners}, Root own r →
    KeepsTables z own (idMapPages r flags bound fuel addr)
  | 0, _, _, _ => .ret fun _ _ => trivial
  | fuel + 1, addr, own, hr => by
    rw [idMapPages]
    split
    · exact (idMapPage_keeps hz hr).bind fun _ _ hE _ => idMapPages_keeps fuel _ (hr.mono hE)
    · exact .ret fun _ _ => trivial

lemma idMapHuges_keeps {regionEnd : ℕ} : ∀ (fuel addr : ℕ) {own : Owners}, Root own r →
    KeepsTables z own (idMapHuges r flags regionEnd fuel addr)
  | 0, _, _, _ => .ret fun _ _ => trivial
  | fuel + 1, addr, own, hr => by
    have hhuge : KeepsTables z own (idMapHuge2mb r (higherHalf + addr) addr flags) := by
      intro own1 M m u m' hE hT h
      obtain ⟨own', M', hM⟩ := idMapHuge2mb_mapped hz hT (hr.mono hE) h
      exact ⟨own', M', hM.tables, hM.grown, trivial⟩
    rw [idMapHuges]
    split
    · exact hhuge.bind fun _ _ hE _ => idMapHuges_keeps fuel _ (hr.mono hE)
    · exact .ret fun _ _ => trivial

lemma mapHigherHalf_keeps {start size : ℕ} (hr : Root own r) : KeepsTables z own (mapHigherHalf r flags start size) := by
  unfold mapHigherHalf
  refine (idMapPages_keeps hz _ _ hr).bind fun _ own1 hE1 _ => ?_
  refine (idMapHuges_keeps hz _ _ (hr.mono hE1)).bind fun _ own2 hE2 _ => ?_
  exact (idMapPages_keeps hz _ _ ((hr.mono hE1).mono hE2)).done _

lemma mapRegions_keeps : ∀ (regions : List (ℕ × ℕ)) {own : Owners}, Root own r →
    KeepsTables z own (mapRegions r regions)
  | [], _, _ => .ret fun _ _ => trivial
  | _ :: rest, _, hr =>
    (mapHigherHalf_keeps hz hr).bind fun _ _ hE _ => mapRegions_keeps rest (hr.mono hE)

lemma mapFramebuffer_keeps {fbBase : ℕ} : ∀ (ps : List ℕ) {own : Owners}, Root own r →
    KeepsTables z own (mapFramebuffer r fbBase ps)
  | [], _, _ => .ret fun _ _ => trivial
  | _ :: rest, _, hr => (idMapPage_keeps hz hr).bind fun _ _ hE _ => mapFramebuffer_keeps rest (hr.mono hE)

omit hz in
lemma testBit_identityWords (pdpIdx i : ℕ) : (identityWords pdpIdx i).testBit 7 = true := by
  simp only [identityWords]
  rw [Nat.testBit_or]
  split
  · rw [show (writable ||| present ||| pageSizeBit ||| cacheDisable).testBit 7 = true by decide, Bool.or_true]
  · rw [show (writable ||| present ||| pageSizeBit).testBit 7 = true by decide, Bool.or_true]

omit hz in
/-- Words with the huge-page bit name no tables. -/
lemma decode_ne_table {l w : ℕ} (h7 : w.testBit 7 = true) (g : ℕ) : decode l w ≠ .table g := fun h =>
  absurd (h7.symm.trans (decode_eq_table.mp h).2.2.1) (by simp)

omit hz in
lemma sane_pd {w : ℕ} (h7 : w.testBit 7 = true) : Sane 1 w :=
  fun _ => ⟨by omega, fun _ hc => absurd (h7.symm.trans hc) (by simp)⟩

omit hz in
/-- The PDs for some GBs are there, in entries of the PDP, and nothing else was
written to tables. -/
structure GbTables (pdp : ℕ) (ps : List ℕ) (own : ℕ → Option (ℕ × ℕ)) (m m' : Machine) : Prop where
  frame : ∀ f p, own f = some p → f ≠ pdp → m'.mem f = m.mem f
  others : ∀ j, j ∉ ps → m'.mem pdp j = m.mem pdp j
  pds : ∀ j ∈ ps, ∃ pd, decode 2 (m'.mem pdp j) = .table pd ∧ m'.mem pd = identityWords j

lemma identityPds_tables {pdp q : ℕ} {u : Unit} : ∀ (ps : List ℕ) {own : Owners} {M : Multiset ℕ}
    {m : Machine}, ps.Nodup → own pdp = some (2, q) → Tables z own M m → identityPds pdp ps m = some (u, m') →
    Leads z own M m m' fun _ => GbTables pdp ps own m m'
  | [], own, M, m, _, hr, hT, h => by
    obtain rfl := (pure_eq_some.mp h).2
    exact Leads.refl hT ⟨fun _ _ _ _ => rfl, fun _ _ => rfl, by simp⟩
  | p :: rest, own, M, m, hn, hpdp, hT, h => by
    rw [identityPds] at h
    obtain ⟨pd, m1, h1, h⟩ := bind_eq_some.mp h
    obtain ⟨_, m2, h2, h⟩ := bind_eq_some.mp h
    obtain ⟨_, m3, h3, h4⟩ := bind_eq_some.mp h
    obtain ⟨phys, hp, rfl⟩ := hT.fresh hz (allocPage_eq_some.mp h1)
    obtain rfl := writeTable_eq_some.mp h2
    obtain rfl := writeEntry_eq_some.mp h3
    have hne : ∀ f p, own f = some p → f ≠ pd := fun _ _ => hp.ne
    refine (Leads.place (l := 1) (q := q * 512 + p) hT hp (fun i _ => sane_pd (testBit_identityWords p i))
      fun i _ g => decode_ne_table (testBit_identityWords p i) g).bind fun own1 M1 hT1 hG1 hpd => ?_
    rw [Nat.or_assoc] at h4
    refine (Leads.name hz hT1 nameFlags_writable (hG1.ext _ _ hpdp) hpd).bind fun own2 M2 hT2 hG2 _ => ?_
    have hext := hG1.ext.trans hG2.ext
    refine (identityPds_tables rest hn.of_cons (hext _ _ hpdp) hT2 h4).bind fun own3 M3 hT3 hG3 hQ => ?_
    refine Leads.refl hT3 ⟨fun f p' hf hfp => ?_, fun j hj => ?_, fun j hj => ?_⟩
    · rw [hQ.frame f p' (hext _ _ hf) hfp]
      exact (update_of_ne hfp _ _).trans (Mem.fill_of_ne _ _ (hne f p' hf))
    · rw [List.mem_cons, not_or] at hj
      rw [hQ.others j hj.2]
      exact (Mem.write_of_ne _ _ fun h => hj.1 h.2).trans (congrFun (Mem.fill_of_ne _ _ (hne _ _ hpdp)) j)
    · rcases List.mem_cons.mp hj with rfl | hj
      · refine ⟨pd, ?_, ?_⟩
        · rw [hQ.others j (List.nodup_cons.mp hn).1]
          exact (congrArg _ (Mem.write_self _ _ _ _)).trans
            (decode_name hp.aligned (lt_address hp.lt) nameFlags_writable (by norm_num) rfl)
        · rw [hQ.frame pd _ (hG2.ext _ _ hpd) (hne _ _ hpdp).symm]
          exact (update_of_ne (hne _ _ hpdp).symm _ _).trans (Mem.fill_self _ _ _)
      · exact hQ.pds j hj

omit hz in
/-- The lower 512 GB lead to a PDP with the PDs of 4 GB, and nothing else was
written to tables. -/
structure IdentityTables (r : ℕ) (own : ℕ → Option (ℕ × ℕ)) (m m' : Machine) : Prop where
  frame : ∀ f p, own f = some p → f ≠ r → m'.mem f = m.mem f
  others : ∀ j, j ≠ 0 → m'.mem r j = m.mem r j
  pdp : ∃ pdp, decode 3 (m'.mem r 0) = .table pdp ∧ (∀ j, 4 ≤ j → m'.mem pdp j = 0) ∧
    ∀ j < 4, ∃ pd, decode 2 (m'.mem pdp j) = .table pd ∧ m'.mem pd = identityWords j

lemma mapIdentity_tables {u : Unit} (hr : Root own r) (hT : Tables z own M m)
    (h : mapIdentity r m = some (u, m')) : Leads z own M m m' fun _ => IdentityTables r own m m' := by
  unfold mapIdentity at h
  obtain ⟨pdp, m1, h1, h⟩ := bind_eq_some.mp h
  obtain ⟨_, m2, h2, h⟩ := bind_eq_some.mp h
  obtain ⟨_, m3, h3, h4⟩ := bind_eq_some.mp h
  obtain ⟨phys, hp, rfl⟩ := hT.fresh hz (allocPage_eq_some.mp h1)
  obtain rfl := writeTable_eq_some.mp h2
  have hne : ∀ f p, own f = some p → f ≠ pdp := fun _ _ => hp.ne
  refine (Leads.placeZeroed hT 2 0 hp).bind fun own1 M1 hT1 hG1 hpdp => ?_
  refine (identityPds_tables hz _ List.nodup_range hpdp hT1 h3).bind fun own2 M2 hT2 hG2 hQ => ?_
  obtain rfl := writeEntry_eq_some.mp h4
  rw [Nat.or_assoc]
  have hr2 : own2 r = some (3, 0) := hG2.ext _ _ (hG1.ext _ _ hr)
  have hpdp2 : own2 pdp = some (2, 0 * 512 + 0) := hG2.ext _ _ hpdp
  refine (Leads.name hz hT2 nameFlags_writable hr2 hpdp2).bind fun own3 M3 hT3 _ _ => ?_
  have hframe : ∀ f p, own f = some p → m3.mem f = m.mem f := fun f p hf =>
    (hQ.frame f p (hG1.ext _ _ hf) (hne f p hf)).trans (Mem.fill_of_ne _ _ (hne f p hf))
  refine Leads.refl hT3 ⟨fun f p hf hfr => ?_, fun j hj => ?_, pdp, ?_, fun j hj => ?_, fun j hj => ?_⟩
  · exact (update_of_ne hfr _ _).trans (hframe f p hf)
  · exact (Mem.write_of_ne _ _ fun h => hj h.2).trans (congrFun (hframe r _ hr) j)
  · exact (congrArg _ (Mem.write_self _ _ _ _)).trans
      (decode_name hp.aligned (lt_address hp.lt) nameFlags_writable (by norm_num) rfl)
  · refine (Mem.write_of_ne _ _ fun h => hne _ _ hr h.1.symm).trans ?_
    rw [hQ.others j (by simp; omega)]
    exact congrFun (Mem.fill_self _ _ _) j
  · obtain ⟨pd, hpd, hws⟩ := hQ.pds j (List.mem_range.mpr hj)
    refine ⟨pd, ?_, ?_⟩
    · exact (congrArg _ (Mem.write_of_ne _ _ fun h => hne _ _ hr h.1.symm)).trans hpd
    · refine (update_of_ne ?_ _ _).trans hws
      rintro rfl
      obtain ⟨l', hl', hc⟩ := hT2.tree pdp 2 _ j pd hpdp2 (by omega) hpd
      rw [hc] at hr2
      simp at hr2
      omega

/-- The PML4 that `init` builds. -/
lemma buildTables_tables {regions : List (ℕ × ℕ)} {fb kernel : Option (ℕ × ℕ)} (hT : Tables z own M m)
    (h : buildTables regions fb kernel m = some (r, m')) : Leads z own M m m' fun own' => Root own' r := by
  unfold buildTables at h
  obtain ⟨pml4, m1, h1, h⟩ := bind_eq_some.mp h
  obtain ⟨_, m2, h2, h⟩ := bind_eq_some.mp h
  obtain ⟨phys, hp, rfl⟩ := hT.fresh hz (allocPage_eq_some.mp h1)
  obtain rfl := writeTable_eq_some.mp h2
  refine (Leads.placeZeroed hT 3 0 hp).bind fun own1 M1 hT1 _ hr => ?_
  have himage : ∀ own', Root own' pml4 → KeepsTables z own' (mapKernelImage pml4 kernel) := by
    intro own' hr'
    cases kernel with
    | none => exact .ret fun _ _ => trivial
    | some k => exact mapHigherHalf_keeps hz hr'
  have hfb : ∀ own', Root own' pml4 → KeepsTables z own' (mapFb pml4 fb) := by
    intro own' hr'
    cases fb with
    | none => exact .ret fun _ _ => trivial
    | some k => exact mapFramebuffer_keeps hz _ hr'
  have hident : ∀ own', Root own' pml4 → KeepsTables z own' (mapIdentity pml4) := fun own' hr' own1 M m u m' hE hT h =>
    (mapIdentity_tables hz (hr'.mono hE) hT h).bind fun _ _ hT' _ _ => Leads.refl hT' trivial
  have hrest : Does z own1 (do
      mapRegions pml4 regions
      mapKernelImage pml4 kernel
      mapIdentity pml4
      mapFb pml4 fb
      pure pml4) fun r own' => Root own' r := by
    refine (mapRegions_keeps hz regions hr).bind fun _ own2 hE2 _ => ?_
    have hr2 : Root own2 pml4 := hE2 _ _ hr
    refine (himage own2 hr2).bind fun _ own3 hE3 _ => (hident own3 (hr2.mono hE3)).bind fun _ own4 hE4 _ => ?_
    have hr4 := (hr2.mono hE3).mono hE4
    exact (hfb own4 hr4).bind fun _ own5 hE5 _ => .ret fun _ hE => (hr4.mono hE5).mono hE
  exact hrest own1 M1 _ r m' (Extends.refl _) hT1 h

end Boot

/-! ### Copies -/

lemma Does.leaf {t l q i w : ℕ} (ht : own t = some (l, q)) (hw : l = 0 ∨ l = 1 ∧ w.testBit 7 = true) :
    KeepsTables z own (writeEntry t i w) := by
  rcases hw with rfl | ⟨rfl, h7⟩
  · exact .write ht (sane_pt w) fun _ hg => absurd rfl (decode_eq_table.mp hg).2.1
  · exact .write ht (sane_pd h7) fun g hg => absurd hg (decode_ne_table h7 g)

lemma testBit_cow (h7 : e.testBit 7 = true) : ((e &&& (2 ^ 64 - 1 - writable)) ||| cow).testBit 7 = true := by
  have hmask : (2 ^ 64 - 1 - writable : ℕ).testBit 7 = true := by decide
  rw [Nat.testBit_or, Nat.testBit_and, h7, hmask]
  rfl

lemma copyLeaf_keeps {l q i : ℕ} (hn : own new = some (l, q))
    (he : l = 0 ∨ l = 1 ∧ e.testBit 7 = true) : KeepsTables z own (copyLeaf cowFlag new i e) := by
  unfold copyLeaf
  split
  · refine (Does.ref _).bind fun _ own1 hE _ => (Does.leaf (hE _ _ hn) ?_).done _
    exact he.imp_right fun h => ⟨h.1, testBit_cow h.2⟩
  · exact (Does.leaf hn he).done _

/-- The flags of an entry that named a table. -/
lemma nameFlags_copy {l : ℕ} (hs : Sane l e) (h0 : e.testBit 0 = true) (hl : l ≠ 0) (h7 : e.testBit 7 = false) :
    NameFlags (e &&& entryFlagMask) := by
  obtain ⟨h1, hx⟩ := (hs h0).2 (by omega) h7
  refine ⟨?_, ?_, ?_, ?_⟩
  · rw [Nat.and_assoc, show entryFlagMask &&& physAddrMask = 0 by decide, Nat.and_zero]
  · rw [Nat.testBit_and, h7, Bool.false_and]
  · rw [Nat.testBit_and, h1, show entryFlagMask.testBit 1 = true by decide, Bool.and_self]
  · rw [Nat.testBit_and, hx, Bool.false_and]

lemma finishCopy_eq_some {done : Bool} {r : Option ℕ} :
    finishCopy new done m = some (r, m') ↔ (if done then some new else none) = r ∧ m = m' := by
  unfold finishCopy
  exact pure_eq_some

lemma finishCopy_does {l q : ℕ} (done : Bool) (hn : own new = some (l, q)) :
    Does z own (finishCopy new done) fun r own' => ∀ n ∈ r, own' n = some (l, q) := by
  refine .ret fun own' hE n hr => ?_
  cases done
  · simp at hr
  · obtain rfl : new = n := by simpa using hr
    exact hE _ _ hn

section Copies

variable (hz : z.zone.top ≤ directMapSize)

include hz

variable {copyChild : ℕ → Op (Option ℕ)}

/-- The copy of an entry of the table `src` into `new`, which has its place. -/
lemma copyEntry_keeps {isPt : Bool} {l q i : ℕ} (hi : i < 512) (hpt : isPt = true ↔ l = 0)
    (hchild : ∀ l' q' c own', l = l' + 1 → own' c = some (l', q') →
      Does z own' (copyChild c) fun r own' => ∀ n ∈ r, own' n = some (l', q'))
    (hsrc : own src = some (l, q)) (hnew : own new = some (l, q)) :
    KeepsTables z own (copyEntry isPt copyChild cowFlag src new i) := by
  unfold copyEntry
  refine .read hsrc hi fun e own1 hE hs htree => ?_
  split
  · exact .ret fun _ _ => trivial
  · rename_i h0
    rw [and_present, Bool.not_eq_false] at h0
    split
    · rename_i hc
      refine copyLeaf_keeps (hE _ _ hnew) ?_
      rw [Bool.or_eq_true, hpt, decide_eq_true_eq, ne_eq, and_pageSizeBit, Bool.not_eq_false] at hc
      by_cases hl : l = 0
      · exact Or.inl hl
      · have h7 := hc.resolve_left hl
        refine Or.inr ⟨?_, h7⟩
        by_contra hl1
        exact absurd (((hs h0).1 (by omega)).symm.trans h7) (by simp)
    · rename_i hc
      rw [Bool.or_eq_true, hpt, decide_eq_true_eq, ne_eq, and_pageSizeBit, Bool.not_eq_false, not_or,
        Bool.not_eq_true] at hc
      obtain ⟨hl, h7⟩ := hc
      obtain ⟨l', rfl, hg⟩ := htree _ (decode_eq_table.mpr ⟨h0, hl, h7, rfl⟩)
      exact .child hz (nameFlags_copy hs h0 hl h7) (hE _ _ hnew) (hchild l' _ _ own1 rfl hg)

/-- What `copy_table_recursive` does at each level: a table is copied entry by
entry into a new one. -/
abbrev copyTable (isPt : Bool) (copyChild : ℕ → Op (Option ℕ)) (cowFlag : Bool) (src : ℕ) : Op (Option ℕ) := do
  let src ← toVirtual src
  match ← newTable with
  | none => pure none
  | some (newPhys, new) => do
    let done ← forIndices (copyEntry isPt copyChild cowFlag src new) (List.range 512)
    finishCopy newPhys done

lemma copyTable_does {isPt : Bool} {l q : ℕ} (hpt : isPt = true ↔ l = 0)
    (hchild : ∀ l' q' c own', l = l' + 1 → own' c = some (l', q') →
      Does z own' (copyChild c) fun r own' => ∀ n ∈ r, own' n = some (l', q')) (hsrc : own src = some (l, q)) :
    Does z own (copyTable isPt copyChild cowFlag src) fun r own' => ∀ n ∈ r, own' n = some (l, q) := by
  refine (Does.reach hz hsrc).bind fun src' own1 hE1 hx => ?_
  obtain rfl : src' = src := hx
  refine (Does.newTable hz l q).bind fun p own2 hE2 hp => ?_
  cases p with
  | none => exact .ret fun _ _ => by simp
  | some p =>
    obtain ⟨newPhys, new⟩ := p
    obtain ⟨hnn, hnew⟩ := hp _ rfl
    obtain rfl : new = newPhys := hnn
    refine (Does.forIndices _ (fun i hi => List.mem_range.mp hi) fun i hi own' hE => ?_).bind fun done own3 hE3 _ =>
      finishCopy_does done (hE3 _ _ hnew)
    exact copyEntry_keeps hz hi hpt hchild (hE _ _ (hE2 _ _ (hE1 _ _ hsrc))) (hE _ _ hnew)

/-- A copied table gets the place of its source. -/
lemma copyTableRecursive_does (cowFlag : Bool) : ∀ (level : ℕ) {src q : ℕ} {own : Owners}, own src = some (level, q) →
    Does z own (copyTableRecursive cowFlag level src) fun r own' => ∀ n ∈ r, own' n = some (level, q)
  | 0, _, _, _, hsrc => copyTable_does hz (by simp) (fun l' q' c own' hl => by omega) hsrc
  | level + 1, _, _, _, hsrc => by
    refine copyTable_does hz (by simp) (fun l' q' c own' hl hc => ?_) hsrc
    obtain rfl : level = l' := by omega
    exact copyTableRecursive_does cowFlag level hc

/-- An entry of the kernel's first PD. -/
lemma copyLowEntry_keeps {srcPd newPd q i : ℕ} (hi : i < 512) (hsrc : own srcPd = some (1, q))
    (hnew : own newPd = some (1, q)) : KeepsTables z own (copyLowEntry srcPd newPd i) := by
  unfold copyLowEntry
  refine .read hsrc hi fun e own1 hE hs htree => ?_
  split
  · rename_i hc
    rw [guard_table] at hc
    obtain ⟨l', hl, hg⟩ := htree _ (decode_eq_table.mpr ⟨hc.1, by norm_num, hc.2, rfl⟩)
    obtain rfl : l' = 0 := by omega
    exact .child hz (nameFlags_copy hs hc.1 (by norm_num) hc.2) (hE _ _ hnew) (copyTableRecursive_does hz false 0 hg)
  · rename_i hc
    refine (Does.write (hE _ _ hnew) hs fun g hg => ?_).done _
    -- an entry that named a table was copied above
    obtain ⟨h0, -, h7, -⟩ := decode_eq_table.mp hg
    simp [h0, h7] at hc

lemma fillLowIdentity_tables {dst e4 e3 newPdp newPd srcPd : ℕ} {b : Bool} (hT : Tables z own M m)
    (hdst : own dst = some (3, 0)) (hsrc : own srcPd = some (1, 0)) (he3 : e3 &&& physAddrMask = srcPd)
    (hf4 : NameFlags (e4 &&& entryFlagMask)) (hf3 : NameFlags (e3 &&& entryFlagMask))
    (hd : pageSize ∣ newPdp) (hM : newPdp / pageSize ∈ M) (hown : own newPdp = none)
    (hd' : pageSize ∣ newPd) (hM' : newPd / pageSize ∈ M) (hown' : own newPd = none) (hne : newPd ≠ newPdp)
    (h : fillLowIdentity dst e4 e3 newPdp newPd m = some (b, m')) : Leads z own M m m' fun _ => True := by
  unfold fillLowIdentity at h
  obtain ⟨pdp, m1, h1, h⟩ := bind_eq_some.mp h
  obtain ⟨pd, m2, h2, h⟩ := bind_eq_some.mp h
  obtain ⟨_, m3, h3, h⟩ := bind_eq_some.mp h
  obtain ⟨_, m4, h4, h⟩ := bind_eq_some.mp h
  obtain ⟨rfl, rfl⟩ := reaching_toVirtual _ _ _ _ hd (held_lt hz hT.alloc hd hM) h1
  obtain ⟨rfl, rfl⟩ := reaching_toVirtual _ _ _ _ hd' (held_lt hz hT.alloc hd' hM') h2
  obtain rfl := writeTable_eq_some.mp h3
  obtain rfl := writeTable_eq_some.mp h4
  refine (Leads.fillZeroed hT 2 0 hd hM hown).bind fun own1 M1 hT1 hG1 ⟨hpdp, hrest⟩ => ?_
  refine (Leads.fillZeroed hT1 1 0 hd' (mem_of_le hG1.held hM')
    ((hrest pd hne).trans hown')).bind fun own2 M2 hT2 hG2 ⟨hpd, _⟩ => ?_
  -- from here on the new tables have their places
  rw [he3] at h
  have hsrc2 := hG2.ext _ _ (hG1.ext _ _ hsrc)
  refine Does.bind (R := fun _ _ => True) (Does.reach hz hsrc2) (fun srcPd' own3 hE3 hx => ?_) own2 M2 _ b m' (Extends.refl _) hT2 h
  obtain rfl : srcPd' = srcPd := hx
  have hsrc3 := hE3 _ _ hsrc2
  have hdst3 := hE3 _ _ (hG2.ext _ _ (hG1.ext _ _ hdst))
  have hpdp3 := hE3 _ _ (hG2.ext _ _ hpdp)
  refine (Does.forIndices _ (fun i hi => lt_of_lt_of_le (List.mem_range.mp hi) (by decide)) fun i hi own' hE =>
    copyLowEntry_keeps hz hi (hE _ _ hsrc3) (hE _ _ (hE3 _ _ hpd))).bind fun done own4 hE4 _ => ?_
  split
  · refine (Does.name hz hf3 (hE4 _ _ hpdp3) (i := 0) ?_).bind fun _ own5 hE5 _ => (Does.name hz hf4 (hE5 _ _ (hE4 _ _ hdst3)) ?_).done _
    · simpa using hE4 _ _ (hE3 _ _ hpd)
    · simpa using hE5 _ _ (hE4 _ _ hpdp3)
  · exact .ret fun _ _ => trivial

lemma copyKernelLowIdentity_keeps {dst : ℕ} (hsrc : Root own src) (hdst : Root own dst) :
    KeepsTables z own (copyKernelLowIdentity src dst) := by
  unfold copyKernelLowIdentity
  refine .read hsrc (by norm_num) fun e4 own1 hE1 hs4 htree => ?_
  split
  · exact .ret fun _ _ => trivial
  · rename_i hc
    replace hc := table_of_guard hc
    obtain ⟨l', hl, hg⟩ := htree _ (decode_eq_table.mpr ⟨hc.1, by norm_num, hc.2, rfl⟩)
    obtain rfl : l' = 2 := by omega
    refine (Does.reach hz hg).bind fun srcPdp own2 hE2 hx => ?_
    obtain rfl : srcPdp = _ := hx
    refine .read (hE2 _ _ hg) (by norm_num) fun e3 own3 hE3 hs3 htree3 => ?_
    split
    · exact .ret fun _ _ => trivial
    · rename_i hc3
      replace hc3 := table_of_guard hc3
      obtain ⟨l', hl', hg3⟩ := htree3 _ (decode_eq_table.mpr ⟨hc3.1, by norm_num, hc3.2, rfl⟩)
      obtain rfl : l' = 1 := by omega
      intro own M m b m' hE hT h
      obtain ⟨a, m4, h5, h6⟩ := bind_eq_some.mp h
      cases a with
      | none =>
        obtain rfl := (pure_eq_some.mp h6).2
        obtain ⟨hT', hG⟩ := hT.alloc_none h5
        exact ⟨own, M, hT', hG, trivial⟩
      | some newPdp =>
        obtain ⟨phys, hp, rfl⟩ := hT.fresh hz h5
        have hT1 := hT.setPhys (le_cons_self _ _) hp.alloc
        obtain ⟨c, m5, h7, h8⟩ := bind_eq_some.mp h6
        cases c with
        | none =>
          -- no second page: the first goes back
          obtain ⟨_, m6, h9, h10⟩ := bind_eq_some.mp h8
          obtain rfl := (pure_eq_some.mp h10).2
          obtain ⟨hr, rfl⟩ := tryAllocPage_eq_some.mp h7
          obtain rfl : _ = m6 := by simpa [freePage] using h9
          exact ⟨own, M, hT.setPhys le_rfl (freePage_inv hp.aligned (alloc_none_inv hp.alloc hr)),
            Grown.setPhys own _ _ le_rfl, trivial⟩
        | some newPd =>
          obtain ⟨phys', hp', rfl⟩ := hT1.fresh hz h7
          have hT2 := hT1.setPhys (le_cons_self _ _) hp'.alloc
          have hne : newPd ≠ newPdp := by
            rintro rfl
            have hnd := (nodup_add.mp hp'.alloc.nodup).2.1
            exact (nodup_cons.mp hnd).1 (mem_cons_self _ _)
          refine Leads.after (Grown.setPhys own _ phys' ((le_cons_self _ _).trans (le_cons_self _ _)))
            (fillLowIdentity_tables hz hT2 (hE _ _ (hE3 _ _ (hE2 _ _ (hE1 _ _ hdst)))) (by simpa using hE _ _ hg3) rfl
              (nameFlags_copy hs4 hc.1 (by norm_num) hc.2) (nameFlags_copy hs3 hc3.1 (by norm_num) hc3.2) hp.aligned
              (mem_cons_of_mem (mem_cons_self _ _)) hp.unowned hp'.aligned
              (mem_cons_self _ _) hp'.unowned hne h8)

/-- An entry of the PML4. -/
lemma forkEntry_keeps {i : ℕ} (hi : i < 512) (hsrc : Root own src) (hnew : Root own new) :
    KeepsTables z own (forkEntry fromKernel src new i) := by
  unfold forkEntry
  split
  · exact .ret fun _ _ => trivial
  · refine .read hsrc hi fun e own1 hE hs htree => ?_
    split
    · exact .ret fun _ _ => trivial
    · rename_i h0
      rw [and_present, Bool.not_eq_false] at h0
      split
      · -- the table of the kernel half is shared
        exact (Does.write (hE _ _ hnew) hs htree).done _
      · have h7 := (hs h0).1 (by norm_num)
        obtain ⟨l', hl, hg⟩ := htree _ (decode_eq_table.mpr ⟨h0, by norm_num, h7, rfl⟩)
        obtain rfl : l' = 2 := by omega
        exact .child hz (nameFlags_copy hs h0 (by norm_num) h7) (hE _ _ hnew) (copyTableRecursive_does hz true 2 hg)

lemma forkLow_keeps (hsrc : Root own src) (hnew : Root own new) : KeepsTables z own (forkLow fromKernel src new) := by
  unfold forkLow
  split
  · exact copyKernelLowIdentity_keeps hz hsrc hnew
  · exact .ret fun _ _ => trivial

/-- A PML4 that has a page is filled. -/
lemma forkInto_does (hsrc : Root own src) (hnew : Root own new) : Does z own (do
      if ← forkLow fromKernel src new then do
        let done ← forIndices (forkEntry fromKernel src new) (List.range 512)
        finishCopy new done
      else pure none : Op (Option ℕ)) fun r own' => ∀ n ∈ r, Root own' n := by
  refine (forkLow_keeps hz hsrc hnew).bind fun ok own1 hE1 _ => ?_
  split
  · refine (Does.forIndices _ (fun i hi => List.mem_range.mp hi) fun i hi own' hE => ?_).bind fun done own2 hE2 _ =>
      finishCopy_does done (hE2 _ _ (hE1 _ _ hnew))
    exact forkEntry_keeps hz hi ((hsrc.mono hE1).mono hE) ((hnew.mono hE1).mono hE)
  · exact .ret fun _ _ => by simp

/-- The PML4 that `fork_pml4` returns. -/
lemma forkPml4_tables {r : Option ℕ} (hT : Tables z own M m) (hsrc : Root own src)
    (h : forkPml4 src m = some (r, m')) : Leads z own M m m' fun own' => ∀ n ∈ r, Root own' n := by
  unfold forkPml4 at h
  obtain ⟨src', m1, h1, h2⟩ := bind_eq_some.mp h
  obtain ⟨p, m2, h3, h4⟩ := bind_eq_some.mp h2
  obtain ⟨rfl, rfl⟩ := hT.toVirtual hz hsrc h1
  refine (Does.newTable hz 3 0 own M m1 p m2 (Extends.refl _) hT h3).bind fun own2 M2 hT2 hG2 hp => ?_
  cases p with
  | none =>
    obtain ⟨rfl, rfl⟩ := pure_eq_some.mp h4
    exact Leads.refl hT2 (by simp)
  | some p =>
    obtain ⟨newPhys, new⟩ := p
    obtain ⟨hnn, hnew⟩ := hp _ rfl
    obtain rfl : new = newPhys := hnn
    obtain ⟨mm, m3, h5, h6⟩ := bind_eq_some.mp h4
    obtain ⟨rfl, rfl⟩ := get_eq_some.mp h5
    exact forkInto_does hz (hsrc.mono hG2.ext) hnew own2 M2 _ r m' (Extends.refl _) hT2 h6

end Copies

end LodaxOS.Virt
