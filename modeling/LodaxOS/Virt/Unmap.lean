/-
# Unmapping

`unmap` clears the PT entry of a page. A table that this leaves empty is taken
out of the table above it, and at last the pages of these tables are freed.
This keeps the tables well-formed, if no other table names the ones that go:
for the page `v` it is enough that each place on the way of `v` below the PML4
has one table (`Sole`).
-/
import LodaxOS.Virt.Walkers

namespace LodaxOS.Virt

open Phys (pageSize Inv)
open Radix Partial Function

variable {z : Phys.State} {own own' own'' : Owners} {M M' M'' : Multiset ℕ} {m m' m'' : Machine}

/-! ### Taking tables out -/

/-- The machine with an entry cleared. -/
def Machine.clear (m : Machine) (t i : ℕ) : Machine := { m with mem := m.mem.write t i 0 }

/-- Entry `i` of `t` is the only one that names `g`. -/
def OnlyNamed (own : ℕ → Option (ℕ × ℕ)) (mem : Mem ℕ ℕ) (g t i : ℕ) : Prop :=
  ∀ f k p j, own f = some (k, p) → j < 512 → decode k (mem f j) = .table g → f = t ∧ j = i

variable {t g i virt : ℕ} {u : Unit}

/-- A table is forgotten when the one entry that names it is cleared. -/
lemma Tables.unlink (hT : Tables z own M m) {l q : ℕ} (ht : own t = some (l, q))
    (honly : OnlyNamed own m.mem g t i) : Tables z (update own g none) M (m.clear t i) := by
  have hsub : ∀ f p, update own g none f = some p → f ≠ g ∧ own f = some p := by
    intro f p hf
    by_cases hg : f = g
    · rw [hg, update_self] at hf
      simp at hf
    · rw [update_of_ne hg] at hf
      exact ⟨hg, hf⟩
  have hT' : Tables z own M (m.clear t i) := by
    refine hT.write ht (sane_zero l) fun f hf => ?_
    rw [decode_absent (by simp)] at hf
    simp at hf
  refine ⟨hT.alloc, ?_, fun f k p j hf => hT'.sane f k p j (hsub f _ hf).2, fun f p hf => hT.page f p (hsub f p hf).2⟩
  refine hT'.tree.restrict (fun f p hf => (hsub f p hf).2) fun f k p j h hf hj hD => ?_
  -- what another entry names is not `g`
  have hne : h ≠ g := by
    rintro rfl
    by_cases hfj : f = t ∧ j = i
    · obtain ⟨rfl, rfl⟩ := hfj
      rw [show (m.clear f j).mem f j = 0 from Mem.write_self _ _ _ _, decode_absent (by simp)] at hD
      simp at hD
    · rw [show (m.clear t i).mem f j = m.mem f j from Mem.write_of_ne _ _ hfj] at hD
      exact hfj (honly f k p j (hsub f _ hf).2 hj hD)
  rw [update_of_ne hne]

/-- A page that is held and no table is freed. -/
lemma Tables.free (hT : Tables z own M m) (hg : own g = none) (hd : pageSize ∣ g) (hM : g / pageSize ∈ M) :
    Tables z own (M.erase (g / pageSize)) { m with phys := ((Phys.freePage g).run m.phys).2 } where
  alloc := by
    refine freePage_inv hd ?_
    rw [Multiset.cons_erase hM]
    exact hT.alloc
  tree := hT.tree
  sane := hT.sane
  page f p hf := by
    obtain ⟨hdf, hMf⟩ := hT.page f p hf
    refine ⟨hdf, (Multiset.mem_erase_of_ne ?_).mpr hMf⟩
    intro he
    have hfg : f = g := by rw [← Nat.div_mul_cancel hdf, he, Nat.div_mul_cancel hd]
    rw [hfg, hg] at hf
    simp at hf

/-- What unmapping does not touch. -/
structure SameRegs (m m' : Machine) : Prop where
  ptInitialized : m'.ptInitialized = m.ptInitialized
  kernelPml4 : m'.kernelPml4 = m.kernelPml4
  cr3 : m'.cr3 = m.cr3

lemma SameRegs.trans (h : SameRegs m m') (h' : SameRegs m' m'') : SameRegs m m'' :=
  ⟨h'.ptInitialized.trans h.ptInitialized, h'.kernelPml4.trans h.kernelPml4, h'.cr3.trans h.cr3⟩

/-- Pages that are held and no tables are freed one after the other; a page 0
stays. -/
lemma freeTables_tables : ∀ (L : List ℕ) {M : Multiset ℕ} {m : Machine}, L.Nodup → Tables z own M m →
    (∀ g ∈ L, own g = none ∧ pageSize ∣ g ∧ g / pageSize ∈ M) → freeTables L m = some (u, m') →
    (∃ M', Tables z own M' m') ∧ m'.mem = m.mem ∧ SameRegs m m'
  | [], M, m, _, hT, _, h => by
    obtain rfl := (pure_eq_some.mp h).2
    exact ⟨⟨M, hT⟩, rfl, rfl, rfl, rfl⟩
  | g :: L, M, m, hn, hT, hL, h => by
    obtain ⟨_, m1, h1, h2⟩ := bind_eq_some.mp h
    obtain ⟨hg, hd, hM⟩ := hL g List.mem_cons_self
    have hrest := fun f hf => hL f (List.mem_cons_of_mem g hf)
    obtain ⟨hnot, hn'⟩ := List.nodup_cons.mp hn
    unfold freeTable at h1
    split at h1
    · obtain rfl : { m with phys := ((Phys.freePage g).run m.phys).2 } = m1 := by simpa [freePage] using h1
      obtain ⟨hT', hmem, hregs⟩ := freeTables_tables L hn' (hT.free hg hd hM) (fun f hf => by
        obtain ⟨hf1, hf2, hf3⟩ := hrest f hf
        refine ⟨hf1, hf2, (Multiset.mem_erase_of_ne fun he => hnot ?_).mpr hf3⟩
        have hfg : f = g := by rw [← Nat.div_mul_cancel hf2, he, Nat.div_mul_cancel hd]
        rwa [← hfg]) h2
      exact ⟨hT', hmem, ⟨hregs.ptInitialized, hregs.kernelPml4, hregs.cr3⟩⟩
    · obtain rfl := (pure_eq_some.mp h1).2
      exact freeTables_tables L hn' hT hrest h2

/-! ### Emptied tables -/

lemma isTableEmpty_iff : isTableEmpty m t = true ↔ ∀ i < 512, m.mem t i = 0 := by
  simp [isTableEmpty, List.all_eq_true]

lemma dropEmpty_cases {p : ℕ} {b : Bool} (h : dropEmpty t p i m = some (b, m')) :
    isTableEmpty m t = b ∧ m' = if b then m.clear p i else m := by
  obtain ⟨_, _, hget, h⟩ := bind_eq_some.mp h
  obtain ⟨rfl, rfl⟩ := get_eq_some.mp hget
  split at h
  · rename_i he
    obtain ⟨_, m1, hw, h⟩ := bind_eq_some.mp h
    obtain rfl := writeEntry_eq_some.mp hw
    obtain ⟨rfl, rfl⟩ := pure_eq_some.mp h
    exact ⟨he, rfl⟩
  · rename_i he
    obtain ⟨rfl, rfl⟩ := pure_eq_some.mp h
    exact ⟨by simpa using he, rfl⟩

/-- How far the emptied tables go: the list of those taken out, and the
machine with their entries cleared. -/
inductive Dropped (m : Machine) (pml4 pdp pd pt a3 a2 a1 i3 i2 i1 : ℕ) : List ℕ → Machine → Prop
  | none (h : isTableEmpty m pt = false) : Dropped m pml4 pdp pd pt a3 a2 a1 i3 i2 i1 [] m
  | pt (h : isTableEmpty m pt = true) (h' : isTableEmpty (m.clear pd i1) pd = false) :
      Dropped m pml4 pdp pd pt a3 a2 a1 i3 i2 i1 [a1] (m.clear pd i1)
  | pd (h : isTableEmpty m pt = true) (h' : isTableEmpty (m.clear pd i1) pd = true)
      (h'' : isTableEmpty ((m.clear pd i1).clear pdp i2) pdp = false) :
      Dropped m pml4 pdp pd pt a3 a2 a1 i3 i2 i1 [a1, a2] ((m.clear pd i1).clear pdp i2)
  | pdp (h : isTableEmpty m pt = true) (h' : isTableEmpty (m.clear pd i1) pd = true)
      (h'' : isTableEmpty ((m.clear pd i1).clear pdp i2) pdp = true) :
      Dropped m pml4 pdp pd pt a3 a2 a1 i3 i2 i1 [a1, a2, a3] (((m.clear pd i1).clear pdp i2).clear pml4 i3)

lemma dropEmpties_dropped {pml4 pdpEntry pdEntry ptEntry pdp pd pt : ℕ} {L : List ℕ}
    (h : dropEmpties pml4 pdpEntry pdEntry ptEntry pdp pd pt virt m = some (L, m')) :
    Dropped m pml4 pdp pd pt (pdpEntry &&& physAddrMask) (pdEntry &&& physAddrMask) (ptEntry &&& physAddrMask)
      (indexForAddr virt 3) (indexForAddr virt 2) (indexForAddr virt 1) L m' := by
  obtain ⟨b1, m1, h1, h⟩ := bind_eq_some.mp h
  obtain ⟨he1, rfl⟩ := dropEmpty_cases h1
  cases b1 with
  | false =>
    obtain ⟨rfl, rfl⟩ := pure_eq_some.mp h
    exact .none he1
  | true =>
    obtain ⟨b2, m2, h2, h⟩ := bind_eq_some.mp h
    obtain ⟨he2, rfl⟩ := dropEmpty_cases h2
    cases b2 with
    | false =>
      obtain ⟨rfl, rfl⟩ := pure_eq_some.mp h
      exact .pt he1 he2
    | true =>
      obtain ⟨b3, m3, h3, h⟩ := bind_eq_some.mp h
      obtain ⟨he3, rfl⟩ := dropEmpty_cases h3
      cases b3 with
      | false =>
        obtain ⟨rfl, rfl⟩ := pure_eq_some.mp h
        exact .pd he1 he2 he3
      | true =>
        obtain ⟨rfl, rfl⟩ := pure_eq_some.mp h
        exact .pdp he1 he2 he3

/-! ### The way of one page -/

/-- The tables that the walk of `v` goes through, to the PT. -/
structure Way (m : Machine) (r v pdp pd pt : ℕ) : Prop where
  first : Names m r (v / 512 ^ 3 % 512) pdp
  second : Names m pdp (v / 512 ^ 2 % 512) pd
  third : Names m pd (v / 512 ^ 1 % 512) pt

variable {α : Type}

lemma toVirtual_bind {a : ℕ} (h : physToVirtual a = some t) (f : ℕ → Op α) : (toVirtual a >>= f) m = f t m := by
  change ((physToVirtual a).map fun t => (t, m)).bind _ = _
  rw [h]
  rfl

lemma readEntry_bind (t i : ℕ) (f : ℕ → Op α) : (readEntry t i >>= f) m = f (m.mem t i) m := rfl

/-- An entry that names a table leads on. -/
lemma Names.pass (h : Names m t i g) (A B : Op α) (f : ℕ → Op α) : (if m.mem t i &&& present = 0 then A
      else if m.mem t i &&& pageSizeBit ≠ 0 then B
      else toVirtual (m.mem t i &&& physAddrMask) >>= f) m = f g m := by
  rw [if_neg (present_of_testBit h.valid), if_neg (by simp [h.small]), h.addr]
  exact toVirtual_bind h.reached f

/-- What `unmap` does to a page that is in no 2 MB page: nothing, if the walk
does not come to a PT, or it clears the PT entry and drops the tables left
empty. -/
lemma unmap_cases (hz : z.zone.top ≤ directMapSize) (hT : Tables z own M m) {r : ℕ} (hr : Root own r)
    (hcr3 : m.cr3 = r) (hn : ¬ InHugePage m.mem r virt) (h : unmap virt m = some (u, m')) :
    (m' = m ∧ (m.ptInitialized = true → hwWalk m.mem r virt = none)) ∨ ∃ pdp pd pt L m1, Way m r (vpn virt) pdp pd pt ∧
      Dropped (m.clear pt (vpn virt % 512)) r pdp pd pt pdp pd pt (vpn virt / 512 ^ 3 % 512) (vpn virt / 512 ^ 2 % 512)
        (vpn virt / 512 ^ 1 % 512) L m1 ∧ freeTables L m1 = some (u, m') := by
  have hroot : physToVirtual (m.cr3 &&& physAddrMask) = some r := by
    rw [hcr3, and_physAddrMask_page (hT.page r _ hr).1 (lt_address (hT.lt hz hr))]
    exact hT.physToVirtual_eq hz hr
  have hi3 := indexForAddr_vpn virt (show 3 ≤ 3 by norm_num)
  have hi2 := indexForAddr_vpn virt (show 2 ≤ 3 by norm_num)
  have hi1 := indexForAddr_vpn virt (show 1 ≤ 3 by norm_num)
  obtain ⟨m0, _, hget, h⟩ := bind_eq_some.mp h
  obtain ⟨rfl, rfl⟩ := get_eq_some.mp hget
  split at h
  · rename_i hpt
    exact .inl ⟨(pure_eq_some.mp h).2.symm, fun hc => by simp [hc] at hpt⟩
  rw [toVirtual_bind hroot, readEntry_bind, hi3] at h
  -- the walk stops, or it comes to the PT
  rcases hT.walk hz hr (vpn virt) with h₀ | ⟨h3, h₀⟩ | ⟨h3, h2, h₀⟩ | ⟨h3, h2, h0, h7⟩ | @⟨pdp, pd, pt, h3, h2, h1⟩
  · rw [if_pos ((and_present _).mpr h₀)] at h
    exact .inl ⟨(pure_eq_some.mp h).2.symm, fun _ => hwWalk_noPdp h₀⟩
  · rw [h3.pass, readEntry_bind, hi2, if_pos ((and_present _).mpr h₀)] at h
    exact .inl ⟨(pure_eq_some.mp h).2.symm, fun _ => hwWalk_noPd h3 h₀⟩
  · rw [h3.pass, readEntry_bind, hi2, h2.pass, readEntry_bind, hi1, if_pos ((and_present _).mpr h₀)] at h
    exact .inl ⟨(pure_eq_some.mp h).2.symm, fun _ => hwWalk_noPt h3 h2 h₀⟩
  · exact absurd ⟨_, hwWalk_huge h3 h2 h0 h7, rfl⟩ hn
  · rw [h3.pass, readEntry_bind, hi2, h2.pass, readEntry_bind, hi1, if_neg (present_of_testBit h1.valid), unmapPage,
      h1.addr, toVirtual_bind h1.reached] at h
    obtain ⟨_, m1, hw, h⟩ := bind_eq_some.mp h
    rw [indexForAddr_zero] at hw
    obtain rfl := writeEntry_eq_some.mp hw
    obtain ⟨L, m2, hdrop, hfree⟩ := bind_eq_some.mp h
    have hD := dropEmpties_dropped hdrop
    rw [h3.addr, h2.addr, h1.addr, hi3, hi2, hi1] at hD
    exact .inr ⟨pdp, pd, pt, L, m2, ⟨h3, h2, h1⟩, hD, hfree⟩

/-- Each place on the way of `v` below the PML4 has one table at most. -/
def Sole (own : ℕ → Option (ℕ × ℕ)) (v : ℕ) : Prop :=
  ∀ l ≤ 2, ∀ f f', own f = some (l, v / 512 ^ (l + 1)) → own f' = some (l, v / 512 ^ (l + 1)) → f = f'

/-- A table on the way of `v` below the PML4 has another entry. -/
def Keeps (mem : Mem ℕ ℕ) (r v : ℕ) : Prop :=
  ∃ l ≤ 2, ∃ t, Down 512 decode mem v 3 r l t ∧ ∃ i < 512, i ≠ v / 512 ^ l % 512 ∧ mem t i ≠ 0

lemma Sole.update_none {v : ℕ} (h : Sole own v) (g : ℕ) : Sole (update own g none) v := by
  have hsub : ∀ f p, update own g none f = some p → own f = some p := by
    intro f p hf
    by_cases hg : f = g
    · rw [hg, update_self] at hf
      simp at hf
    · rwa [update_of_ne hg] at hf
  exact fun l hl f f' hf hf' => h l hl f f' (hsub f _ hf) (hsub f' _ hf')

lemma Tables.onlyNamed (hT : Tables z own M m) {v l : ℕ} (hs : Sole own v) (hl : l + 1 ≤ 2)
    (ht : own t = some (l + 1, v / 512 ^ (l + 1 + 1))) (hg : own g = some (l, v / 512 ^ (l + 1))) :
    OnlyNamed own m.mem g t (v / 512 ^ (l + 1) % 512) := by
  intro f k p j hf hj hD
  obtain ⟨l', rfl, hg'⟩ := hT.tree f k p j g hf hj hD
  obtain ⟨rfl, hp⟩ : l = l' ∧ v / 512 ^ (l + 1) = p * 512 + j := by
    rw [hg] at hg'
    simpa using hg'
  have hq : v / 512 ^ (l + 1 + 1) = p := by
    rw [pow_succ, ← Nat.div_div_eq_div_mul, hp]
    omega
  rw [← hq] at hf
  exact ⟨hs (l + 1) hl f t hf ht, by omega⟩

lemma Machine.clear_of_ne {f j : ℕ} (h : ¬ (f = t ∧ j = i)) : (m.clear t i).mem f j = m.mem f j :=
  Mem.write_of_ne _ _ h

lemma Machine.clear_table {f : ℕ} (h : f ≠ t) : (m.clear t i).mem f = m.mem f := by
  funext j
  exact Machine.clear_of_ne fun hc => h hc.1

namespace Way

variable {r v pdp pd pt : ℕ} (h : Way m r v pdp pd pt)

include h

lemma down_pdp : Down 512 decode m.mem v 3 r 2 pdp := .step (h.first.decode (by norm_num)) (.here _ _)

lemma down_pd : Down 512 decode m.mem v 3 r 1 pd := h.down_pdp.snoc (h.second.decode (by norm_num))

lemma down_pt : Down 512 decode m.mem v 3 r 0 pt := h.down_pd.snoc (h.third.decode (by norm_num))

/-- Not all tables on the way are left empty, if one has another entry. -/
lemma not_dropped (hk : Keeps m.mem r v) (h1 : pd ≠ pt) (h2 : pdp ≠ pt) (h3 : pdp ≠ pd)
    (hpt : isTableEmpty (m.clear pt (v % 512)) pt = true)
    (hpd : isTableEmpty ((m.clear pt (v % 512)).clear pd (v / 512 ^ 1 % 512)) pd = true)
    (hpdp : isTableEmpty (((m.clear pt (v % 512)).clear pd (v / 512 ^ 1 % 512)).clear pdp (v / 512 ^ 2 % 512)) pdp = true) :
    False := by
  obtain ⟨l, hl, t, hd, i, hi, hne, hw⟩ := hk
  obtain rfl | rfl | rfl : l = 0 ∨ l = 1 ∨ l = 2 := by omega
  · obtain rfl := hd.unique h.down_pt
    rw [pow_zero, Nat.div_one] at hne
    have he := isTableEmpty_iff.mp hpt i hi
    rw [Machine.clear_of_ne fun hc => hne hc.2] at he
    exact hw he
  · obtain rfl := hd.unique h.down_pd
    have he := isTableEmpty_iff.mp hpd i hi
    rw [Machine.clear_of_ne fun hc => hne hc.2, Machine.clear_table h1] at he
    exact hw he
  · obtain rfl := hd.unique h.down_pdp
    have he := isTableEmpty_iff.mp hpdp i hi
    rw [Machine.clear_of_ne fun hc => hne hc.2, Machine.clear_table h3, Machine.clear_table h2] at he
    exact hw he

end Way

/-- What `unmap` leaves: the PML4s are the same tables with the same entries. -/
structure Unmapped (z : Phys.State) (own : ℕ → Option (ℕ × ℕ)) (m : Machine) (own' : ℕ → Option (ℕ × ℕ))
    (M' : Multiset ℕ) (m' : Machine) : Prop where
  tables : Tables z own' M' m'
  root : ∀ f, Root own f → Root own' f
  pml4 : ∀ f, Root own f → m'.mem f = m.mem f
  regs : SameRegs m m'

lemma unmap_unmapped (hz : z.zone.top ≤ directMapSize) (hT : Tables z own M m) {r : ℕ} (hr : Root own r)
    (hcr3 : m.cr3 = r) (hn : ¬ InHugePage m.mem r virt) (hs : Sole own (vpn virt))
    (hk : (∃ pt, Down 512 decode m.mem (vpn virt) 3 r 0 pt) → Keeps m.mem r (vpn virt))
    (h : unmap virt m = some (u, m')) : ∃ own' M', Unmapped z own m own' M' m' := by
  rcases unmap_cases hz hT hr hcr3 hn h with ⟨rfl, -⟩ | ⟨pdp, pd, pt, L, m1, hw, hdrop, hfree⟩
  · exact ⟨own, M, hT, fun _ h => h, fun _ _ => rfl, rfl, rfl, rfl⟩
  have hplace : ∀ {l t}, Down 512 decode m.mem (vpn virt) 3 r l t → own t = some (l, vpn virt / 512 ^ (l + 1)) :=
    fun hd => hd.owned (by norm_num) hT.tree (hr.owned (vpn_lt virt))
  have hpt := hplace hw.down_pt
  have hpd := hplace hw.down_pd
  have hpdp := hplace hw.down_pdp
  have hlevel : ∀ {f g k l p q}, own f = some (k, p) → own g = some (l, q) → k ≠ l → f ≠ g := by
    rintro f g k l p q hf hg hkl rfl
    rw [hf] at hg
    simp only [Option.some.injEq, Prod.mk.injEq] at hg
    exact hkl hg.1
  have h1 := hlevel hpd hpt (by norm_num)
  have h2 := hlevel hpdp hpt (by norm_num)
  have h3 := hlevel hpdp hpd (by norm_num)
  have hT0 : Tables z own M (m.clear pt (vpn virt % 512)) := hT.write_pt _ 0 hpt
  have hfree' : ∀ {own' : Owners}, Tables z own' M m1 → (∀ f, Root own f → Root own' f) →
      (∀ f, Root own f → m1.mem f = m.mem f) → SameRegs m m1 → L.Nodup →
      (∀ g ∈ L, own' g = none ∧ pageSize ∣ g ∧ g / pageSize ∈ M) → ∃ own' M', Unmapped z own m own' M' m' := by
    intro own' hT' hroot hmem hregs hL hg
    obtain ⟨⟨M', hT''⟩, hmem', hregs'⟩ := freeTables_tables L hL hT' hg hfree
    exact ⟨own', M', hT'', hroot, fun f hf => by rw [hmem', hmem f hf], hregs.trans hregs'⟩
  have hregs : ∀ {m1 : Machine} (t i : ℕ), SameRegs m m1 → SameRegs m (m1.clear t i) :=
    fun _ _ h => ⟨h.ptInitialized, h.kernelPml4, h.cr3⟩
  have hne : ∀ {f g l q}, Root own f → own g = some (l, q) → l ≠ 3 → f ≠ g := fun hf hg hl => hlevel hf hg hl.symm
  have hmem : ∀ f, Root own f → (m.clear pt (vpn virt % 512)).mem f = m.mem f :=
    fun f hf => Machine.clear_table (hne hf hpt (by norm_num))
  have hkeep : ∀ {g l q}, own g = some (l, q) → l ≠ 3 → ∀ {own' : Owners}, (∀ f, Root own f → Root own' f) →
      ∀ f, Root own f → Root (update own' g none) f := by
    intro g l q hg hl own' hroot f hf
    unfold Root
    rw [update_of_ne (hne hf hg hl)]
    exact hroot f hf
  cases hdrop with
  | none => exact hfree' hT0 (fun _ hf => hf) hmem ⟨rfl, rfl, rfl⟩ List.nodup_nil (by simp)
  | pt _ _ =>
    refine hfree' (hT0.unlink hpd (hT0.onlyNamed hs (by norm_num) hpd hpt)) (hkeep hpt (by norm_num) fun _ hf => hf)
      (fun f hf => ?_) (hregs _ _ ⟨rfl, rfl, rfl⟩) (List.nodup_singleton _) (fun g hg => ?_)
    · rw [Machine.clear_table (hne hf hpd (by norm_num)), hmem f hf]
    · obtain rfl := List.mem_singleton.mp hg
      exact ⟨update_self _ _ _, hT.page g _ hpt⟩
  | pd _ _ _ =>
    have hT1 := hT0.unlink hpd (hT0.onlyNamed hs (by norm_num) hpd hpt)
    have hpd' : update own pt none pd = some (1, vpn virt / 512 ^ (1 + 1)) :=
      (update_of_ne h1 _ _).trans hpd
    have hpdp' : update own pt none pdp = some (2, vpn virt / 512 ^ (2 + 1)) :=
      (update_of_ne h2 _ _).trans hpdp
    refine hfree' (hT1.unlink hpdp' (hT1.onlyNamed (hs.update_none pt) le_rfl hpdp' hpd'))
      (hkeep hpd (by norm_num) (hkeep hpt (by norm_num) fun _ hf => hf)) (fun f hf => ?_)
      (hregs _ _ (hregs _ _ ⟨rfl, rfl, rfl⟩)) (by simpa using h1.symm) (fun g hg => ?_)
    · rw [Machine.clear_table (hne hf hpdp (by norm_num)), Machine.clear_table (hne hf hpd (by norm_num)), hmem f hf]
    · rcases List.mem_pair.mp hg with rfl | rfl
      · exact ⟨by rw [update_of_ne h1.symm, update_self], hT.page g _ hpt⟩
      · exact ⟨update_self _ _ _, hT.page g _ hpd⟩
  | pdp he1 he2 he3 => exact (hw.not_dropped (hk ⟨pt, hw.down_pt⟩) h1 h2 h3 he1 he2 he3).elim

end LodaxOS.Virt
