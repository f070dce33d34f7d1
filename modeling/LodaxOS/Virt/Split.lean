/-
# Splitting a 2 MB page

What becomes of the other 511 pages when a page inside a 2 MB page is mapped.
`ensure_table` leaves them unmapped: the parts it writes are not present, so
that `map_page` and `map_contiguous` make accessible what they were asked to
map and no more. `id_ensure_table`, which builds the first tables, keeps them
present: they lead where they led, with the same rights but for the kernel
only, as long as the 2 MB page starts at a multiple of 32 MB; its mask for the
base drops the four lowest bits of the base.
-/
import LodaxOS.Virt.Walkers

namespace LodaxOS.Virt

open Phys (pageSize Inv)
open Radix Partial Words

variable {z : Phys.State} {own own' own'' : Owners} {M M' M'' : Multiset ℕ} {m m' m'' : Machine}

/-! ### The parts of an entry -/

lemma origFlags_eq (e : ℕ) : origFlags e = e &&& (noExecute ||| 0xF7E) := by
  rw [origFlags, Nat.and_assoc, ← Nat.and_or_distrib_left]
  rfl

/-- The base of a part: bits 51:25 of the entry, and the number of the part. -/
def partBase (e i : ℕ) : ℕ := e / 2 ^ 25 % 2 ^ 27 * 2 ^ 25 + i * pageSize

lemma splitPt_eq (e c i : ℕ) : splitPt e c i = partBase e i ||| (origFlags e ||| c) := by
  rw [splitPt, show (0x000FFFFFFE000000 : ℕ) = (2 ^ 27 - 1) * 2 ^ 25 by norm_num, Nat.or_assoc, partBase]
  congr 2
  exact and_field 25 27 e

lemma partBase_dvd (e i : ℕ) : pageSize ∣ partBase e i := by
  refine Nat.dvd_add ?_ (Dvd.intro_left i rfl)
  exact Dvd.dvd.mul_left (by decide) _

variable {e i : ℕ}

lemma partBase_lt (hi : i < 512) : partBase e i < 2 ^ 52 := by
  have hlt : e / 2 ^ 25 % 2 ^ 27 < 2 ^ 27 := Nat.mod_lt _ (by norm_num)
  simp only [partBase, pageSize]
  omega

lemma testBit_origFlags (e i : ℕ) : (origFlags e).testBit i = (e.testBit i && (noExecute ||| 0xF7E).testBit i) := by
  rw [origFlags_eq, Nat.testBit_and]

/-- With the flags of `ensure_table` the parts are not present. -/
lemma splitPt_childFlags (e flags i : ℕ) : ptLeaf (splitPt e (childFlags flags e) i) = none := by
  have h0 : (splitPt e (childFlags flags e) i).testBit 0 = false := by
    rw [splitPt_eq, entry_testBit (partBase_dvd e i) (by norm_num), Nat.testBit_or, testBit_origFlags,
      show (noExecute ||| 0xF7E).testBit 0 = false by decide, Bool.and_false, Bool.false_or, childFlags]
    split
    · rw [Nat.testBit_and, show user.testBit 0 = false by decide, Bool.and_false]
    · rfl
  rw [ptLeaf, h0]
  rfl

/-- With those of `id_ensure_table` they are, with the rights of the entry. -/
lemma splitPt_present (hi : i < 512) : ptLeaf (splitPt e present i) = some (0, splitPt e present i) ∧
    leafBase 0 (splitPt e present i) = partBase e i ∧ (splitPt e present i).testBit 1 = e.testBit 1 ∧
    (splitPt e present i).testBit 63 = e.testBit 63 := by
  have hd := partBase_dvd e i
  have hlt := partBase_lt (e := e) hi
  rw [splitPt_eq]
  refine ⟨?_, ?_, ?_, ?_⟩
  · rw [ptLeaf, if_pos]
    rw [entry_testBit hd (by norm_num)]
    exact testBit_present _
  · have hmask : (origFlags e ||| present) &&& physAddrMask = 0 := by
      rw [origFlags_eq, Nat.and_or_distrib_right, Nat.and_assoc,
        show (noExecute ||| 0xF7E) &&& physAddrMask = 0 by decide, Nat.and_zero, Nat.zero_or]
      decide
    have haddr := entry_addr hd hlt hmask
    rw [and_physAddrMask] at haddr
    exact haddr
  · rw [entry_testBit hd (by norm_num), Nat.testBit_or, testBit_origFlags,
      show (noExecute ||| 0xF7E).testBit 1 = true by decide, show present.testBit 1 = false by decide, Bool.and_true,
      Bool.or_false]
  · rw [entry_testBit_high hlt (by norm_num), Nat.testBit_or, testBit_origFlags,
      show (noExecute ||| 0xF7E).testBit 63 = true by decide, show present.testBit 63 = false by decide,
      Bool.and_true, Bool.or_false]

/-- A base that is a multiple of 32 MB survives the mask. -/
lemma partBase_eq (h : 2 ^ 25 ∣ leafBase 1 e) : partBase e i = leafBase 1 e + i * pageSize := by
  unfold partBase leafBase at *
  norm_num at *
  omega

/-- The pages of a 2 MB page share their leaf. -/
lemma leafAt_huge {mem : Mem ℕ ℕ} {r v u e : ℕ} (h : leafAt mem r v = some (1, e)) (hu : u / 512 = v / 512) :
    leafAt mem r u = some (1, e) :=
  find_eq_of_div_eq h (by simpa using hu)

/-! ### Mapping a page of it -/

section

variable (hz : z.zone.top ≤ directMapSize) {r virt phys flags e : ℕ} {u : Unit} (hT : Tables z own M m) (hr : Root own r)

include hz hT hr

/-- `id_map_page` splits the entry into a table for the kernel only. -/
lemma idMapPage_kernelOnly (he : leafAt m.mem r (vpn virt) = some (1, e))
    (h : idMapPage r virt phys flags m = some (u, m')) {a : ℕ} (ha : vpn a / 512 = vpn virt / 512) {l w : ℕ}
    {us : List ℕ} (hw : hwWalk m'.mem r a = some (l, w, us)) : us.all (fun e => e.testBit 2) = false := by
  have hv := vpn_lt virt
  unfold idMapPage at h
  obtain ⟨pdp, m1, h1, h⟩ := bind_eq_some.mp h
  obtain ⟨pd, m2, h₂, h⟩ := bind_eq_some.mp h
  obtain ⟨pt, m3, h3, h4⟩ := bind_eq_some.mp h
  obtain ⟨_, _, hO⟩ := (Opened.refl hT).idEnsure hz hr (by norm_num) h1
  obtain ⟨own2, M2, hO⟩ := hO.idEnsure hz hr (by norm_num) h₂
  have hpd := hO.owned hr hv
  rw [indexForAddr_vpn virt (by norm_num)] at h3
  have hE := hO.tables.ensure hz reaching_pure hpd (Nat.mod_lt _ (by norm_num)) (Or.inl rfl) h3
  obtain rfl := writeEntry_eq_some.mp h4
  -- the entry is the 2 MB page, so it was split
  have hleaf : find 512 decode m2.mem 1 pd (vpn virt) = some (1, e) := by
    rw [← hO.down.find_eq, hO.others r 3 (vpn virt) (hr.owned hv) (Or.inl (by norm_num))]
    exact he
  have hD : decode 1 (m2.mem pd (vpn virt / 512 ^ 1 % 512)) = .leaf := (find_self hleaf).1
  cases hE with
  | there hD' _ => exact absurd (hD.symm.trans hD') (by simp)
  | linked hD' _ _ => exact absurd (hD.symm.trans hD') (by simp)
  | @split phys' _ _ hp hm =>
    subst hm
    have hne : pt ≠ pd := (hp.ne hpd).symm
    set mem' := (m2.mem.hang pd (vpn virt / 512 ^ (0 + 1) % 512) (pt ||| writable ||| present) pt
      (splitPt (m2.mem pd (vpn virt / 512 ^ (0 + 1) % 512)) present)).write pt (indexForAddr virt 0) (phys ||| flags)
      with hmem'
    have hword : mem' pd (vpn virt / 512 ^ (0 + 1) % 512) = pt ||| writable ||| present := by
      rw [hmem', Mem.write_of_ne _ _ (fun hc => hne hc.1.symm), Mem.hang_self]
    have hdown : Down 512 decode mem' (vpn virt) 3 r 1 pd := by
      refine hO.down.congr (by norm_num) hO.tables.tree ((hr.mono hO.grown.ext).owned hv) fun f j g hf hj hg => ?_
      have hfpt : f ≠ pt := hp.ne hf
      have hfpd : f ≠ pd := by rintro rfl; rw [hpd] at hf; simp at hf; omega
      rw [hmem', Mem.write_of_ne _ _ (fun hc => hfpt hc.1), Mem.hang_of_ne _ _ _ hfpt (fun hc => hfpd hc.1)]
      exact hg
    obtain ⟨us', hus'⟩ := (hdown.of_div_eq (show vpn a / 512 ^ (1 + 1) = vpn virt / 512 ^ (1 + 1) by
      norm_num; omega)).walk_eq
    change walk 512 decode mem' 3 r (vpn a) = _ at hw
    rw [hus', walk, show vpn a / 512 ^ (0 + 1) % 512 = vpn virt / 512 ^ (0 + 1) % 512 by norm_num; omega, hword,
      decode_pointer hp.aligned hp.lt (Or.inl rfl) (by norm_num)] at hw
    simp only [Option.map_map, Option.map_eq_some_iff, Function.comp_apply, Prod.mk.injEq] at hw
    obtain ⟨x, -, -, -, rfl⟩ := hw
    have h2 : (pt ||| writable ||| present).testBit 2 = false := by
      rw [Nat.or_assoc, entry_testBit hp.aligned (by norm_num)]
      decide
    rw [List.all_append, List.all_cons, h2, Bool.false_and, Bool.and_false]

end

/-- A page of a 2 MB page. -/
lemma Tables.hwLeaf_huge (hT : Tables z own M m) {r a e : ℕ} (hr : Root own r)
    (h : leafAt m.mem r (vpn a) = some (1, e)) :
    ∃ us, hwLeaf m.mem r a = some ⟨leafBase 1 e + a % 2 ^ 21, e.testBit 1, us, e.testBit 63⟩ := by
  obtain ⟨us, -, hl⟩ := hT.hwLeaf_eq hr h
  exact ⟨_, hl⟩

lemma offset_eq (a : ℕ) : vpn a % 512 * pageSize + a % 2 ^ 12 = a % 2 ^ 21 := by
  unfold vpn
  simp only [pageSize]
  omega

/-- A page is mapped inside the 2 MB page of `virt`, whose entry is `e`.
`map_page` and `map_contiguous` leave the pages of the 2 MB page that they do
not map unmapped. `id_map_page` leaves them where they were, with the rights
they had except for user mode, if the 2 MB page starts at a multiple of 32 MB. -/
theorem split_pages (hz : z.zone.top ≤ directMapSize) {roots : List ℕ} (hS : Spaces z m roots) {pml4 : ℕ}
    (hp : pml4 ∈ roots) {virt e : ℕ} (he : leafAt m.mem pml4 (vpn virt) = some (1, e)) (phys flags : ℕ) :
    (mapPage pml4 virt phys flags m = some ((), m') →
      ∀ a, vpn a / 512 = vpn virt / 512 → vpn a ≠ vpn virt → hwLeaf m'.mem pml4 a = none) ∧
    (∀ start n, vpn start + n ≤ 2 ^ 36 → vpn start ≤ vpn virt → vpn virt < vpn start + n →
      mapContiguous pml4 start phys n flags m = some ((), m') →
      ∀ a, vpn a / 512 = vpn virt / 512 → ¬ (vpn start ≤ vpn a ∧ vpn a < vpn start + n) → hwLeaf m'.mem pml4 a = none) ∧
    (2 ^ 25 ∣ leafBase 1 e → idMapPage pml4 virt phys flags m = some ((), m') →
      ∀ a, vpn a / 512 = vpn virt / 512 → vpn a ≠ vpn virt →
        ∃ x, hwLeaf m.mem pml4 a = some x ∧ x.phys = leafBase 1 e + a % 2 ^ 21 ∧
          hwLeaf m'.mem pml4 a = some { x with user := false }) := by
  obtain ⟨own, M, hT, hroots⟩ := hS
  have hr := hroots pml4 hp
  refine ⟨fun h a ha hne => ?_, fun start n hn h1 h2 h a ha hne => ?_, fun hb h a ha hne => ?_⟩
  · obtain ⟨own', M', hM⟩ := mapPage_mapped hz hT hr h
    refine hwLeaf_eq_none ?_
    rw [hM.block (vpn a) ha hne, leafAt_huge he ha]
    exact splitPt_childFlags _ _ _
  · obtain ⟨own', M', hM⟩ := mapContiguous_mapped hz hr hT hn h
    refine hwLeaf_eq_none ?_
    have hi : vpn a / 512 = (vpn start + (vpn virt - vpn start)) / 512 := by rw [Nat.add_sub_cancel' h1, ha]
    rw [hM.block (vpn a) (vpn virt - vpn start) (by omega) hi hne, leafAt_huge he ha]
    exact splitPt_childFlags _ _ _
  · obtain ⟨own', M', hM⟩ := idMapPage_mapped hz hT hr h
    obtain ⟨us, hbefore⟩ := hT.hwLeaf_huge hr (leafAt_huge he ha)
    obtain ⟨hleaf, hbase, hW, hNX⟩ := splitPt_present (e := e) (Nat.mod_lt (vpn a) (show 0 < 512 by norm_num))
    have hafter : leafAt m'.mem pml4 (vpn a) = some (0, splitPt e present (vpn a % 512)) := by
      rw [hM.block (vpn a) ha hne, leafAt_huge he ha]
      exact hleaf
    obtain ⟨ws, hwalk, hl⟩ := hM.tables.hwLeaf_eq (hr.mono hM.grown.ext) hafter
    refine ⟨_, hbefore, rfl, ?_⟩
    rw [hl, hbase, partBase_eq hb, hW, hNX, idMapPage_kernelOnly hz hT hr he h ha hwalk, Bool.and_false, add_assoc,
      offset_eq]

/-- What `init` loads from `smallBoot`, with the page 0x200000 of the identity
map mapped again: its neighbour is unmapped. -/
theorem split_pages_identity : ∃ m m' pml4, Reach smallBoot m [pml4] ∧
    mapPage pml4 0x200000 0x200000 data m = some ((), m') ∧ hwLeaf m'.mem pml4 0x201000 = none := by
  have hrun : (((SpaceCall.init [(0x100000, 0x20000)] none none).prog smallBoot).map (fun x =>
      (x.1, leafAt x.2.mem 0x11F000 (vpn 0x200000), (mapPage 0x11F000 0x200000 0x200000 data x.2).map fun _ => ())) :
        Option (Option ℕ × Option (ℕ × ℕ) × Option Unit)) =
      some (some 0x11F000, some (1, 0x200083), some ()) := by decide +kernel
  obtain ⟨⟨r, m⟩, hx, hv⟩ := Option.map_eq_some_iff.mp hrun
  simp only [Prod.mk.injEq] at hv
  obtain ⟨rfl, hleaf, hmap⟩ := hv
  obtain ⟨⟨u, m'⟩, hm', -⟩ := Option.map_eq_some_iff.mp hmap
  have hreach : Reach smallBoot m [0x11F000] := Reach.call _ .start (by simp [SpaceCall.uses]) hx
  have he : ∀ r ∈ [(0x100000, 0x20000)], r.1 + r.2 ≤ directMapSize := by simp [directMapSize]
  refine ⟨m, m', 0x11F000, hreach, hm', ?_⟩
  unfold smallBoot at hreach
  exact (split_pages (resetZone_top he 0x9000 0 0) (boot_spaces (List.pairwise_singleton _ _) he hreach)
    List.mem_cons_self hleaf _ _).1 hm' 0x201000 (by decide) (by decide)

/-- The identity map of `init` maps 0x201000 to itself, and no longer does so
when `map_page` has mapped 0x200000. -/
theorem split_fails : ∃ m m' pml4, Reach smallBoot m [pml4] ∧ mapPage pml4 0x200000 0x200000 data m = some ((), m') ∧
    hwLeaf m.mem pml4 0x201000 = some ⟨0x201000, true, false, false⟩ ∧ hwLeaf m'.mem pml4 0x201000 = none := by
  have hrun : (((SpaceCall.init [(0x100000, 0x20000)] none none).prog smallBoot).map (fun x =>
      (x.1, hwLeaf x.2.mem 0x11F000 0x201000,
        (mapPage 0x11F000 0x200000 0x200000 data x.2).map fun y => hwLeaf y.2.mem 0x11F000 0x201000)) :
        Option (Option ℕ × Option Leaf × Option (Option Leaf))) =
      some (some 0x11F000, some ⟨0x201000, true, false, false⟩, some none) := by decide +kernel
  obtain ⟨⟨r, m⟩, hx, hv⟩ := Option.map_eq_some_iff.mp hrun
  simp only [Prod.mk.injEq] at hv
  obtain ⟨rfl, hbefore, hmap⟩ := hv
  obtain ⟨⟨u, m'⟩, hm', hafter⟩ := Option.map_eq_some_iff.mp hmap
  exact ⟨m, m', 0x11F000, Reach.call _ .start (by simp [SpaceCall.uses]) hx, hm', hbefore, hafter⟩

/-! ### Ranges -/

/-- Two ways to map a range leave the same leaves. -/
lemma MappedRange.leafAt_eq {child w : ℕ → ℕ} {r v n u : ℕ} (hr : Root own r) (hu : u < 512 ^ 4)
    (h : MappedRange z child r v n w own M m own' M' m')
    (h' : MappedRange z child r v n w own M m own'' M'' m'') : leafAt m'.mem r u = leafAt m''.mem r u := by
  by_cases hin : v ≤ u ∧ u < v + n
  · rw [h.page u hin.1 hin.2, h'.page u hin.1 hin.2]
  by_cases hblock : ∃ i < n, u / 512 = (v + i) / 512
  · obtain ⟨i, hi, hb⟩ := hblock
    rw [h.block u i hi hb hin, h'.block u i hi hb hin]
  · have hall : ∀ i < n, u / 512 ≠ (v + i) / 512 := fun i hi hb => hblock ⟨i, hi, hb⟩
    exact (h.others r 3 u (hr.owned hu) hall).trans (h'.others r 3 u (hr.owned hu) hall).symm

/-- A range of the higher half, page by page. -/
lemma mapRegionPages_mapped (hz : z.zone.top ≤ directMapSize) {r phys flags v : ℕ} {u : Unit} (hvpn : vpn (higherHalf + phys) = v) :
    ∀ (k s : ℕ) {own : Owners} {M : Multiset ℕ} {m : Machine}, Root own r → Tables z own M m → v + (s + k) ≤ 512 ^ 4 →
    mapRegionPages r phys flags (List.range' s k) m = some (u, m') →
    ∃ own' M', MappedRange z (childFlags (writable ||| (flags &&& user))) r (v + s) k (rangeWord phys flags v) own M m own' M' m'
  | 0, s, own, M, m, _, hT, _, h => by
    obtain rfl := (pure_eq_some.mp h).2
    exact ⟨own, M, .nil hT⟩
  | k + 1, s, own, M, m, hr, hT, hk, h => by
    rw [List.range'_succ, mapRegionPages] at h
    split at h
    · exact absurd h failure_ne_some
    obtain ⟨_, m1, h1, h2⟩ := bind_eq_some.mp h
    obtain ⟨own1, M1, h1⟩ := mapPage_mapped hz hT hr h1
    have hword : rangeWord phys flags v (v + s) = (phys + s * pageSize) ||| flags := by
      rw [rangeWord, Nat.add_sub_cancel_left]
    rw [← add_assoc, vpn_add _ _ (by omega), hvpn, ← hword] at h1
    obtain ⟨own2, M2, h2⟩ := mapRegionPages_mapped hz hvpn k (s + 1) (hr.mono h1.grown.ext) h1.tables (by omega) h2
    rw [add_comm k]
    exact ⟨own2, M2, (MappedRange.single h1).append hr (by omega) h2⟩

/-- For a range of the higher half `map_contiguous`, a page table at a time,
gives every page of the address space the leaf that `map_region_higher_half`
gives it, page by page. -/
theorem mapContiguous_eq_pages (hz : z.zone.top ≤ directMapSize) {roots : List ℕ} (hS : Spaces z m roots) {pml4 : ℕ}
    (hp : pml4 ∈ roots) {phys size n flags : ℕ} (hn : n = (size + pageSize - 1) / pageSize)
    (hv : vpn (higherHalf + phys) + n ≤ 2 ^ 36) (h : mapContiguous pml4 (higherHalf + phys) phys n flags m = some ((), m'))
    (h' : mapRegionHigherHalf pml4 phys size flags m = some ((), m'')) (a : ℕ) :
    leafAt m'.mem pml4 (vpn a) = leafAt m''.mem pml4 (vpn a) := by
  obtain ⟨own, M, hT, hroots⟩ := hS
  obtain ⟨_, _, h1⟩ := mapContiguous_mapped hz (hroots _ hp) hT hv h
  obtain ⟨_, _, ht, hpages⟩ := bind_eq_some.mp h'
  obtain ⟨rfl, rfl⟩ := hT.toVirtual hz (hroots _ hp) ht
  split at hpages
  · exact absurd hpages failure_ne_some
  rw [← hn, List.range_eq_range'] at hpages
  obtain ⟨_, _, h2⟩ := mapRegionPages_mapped hz rfl n 0 (hroots _ hp) hT (by omega) hpages
  exact h1.leafAt_eq (hroots _ hp) (vpn_lt a) h2

/-- Two pages, in two page tables. -/
theorem mapContiguous_eq_pages_two : ∃ m m' m'' pml4, Reach smallBoot m [pml4] ∧
    mapContiguous pml4 (higherHalf + 0x3FF000) 0x3FF000 2 data m = some ((), m') ∧
    mapRegionHigherHalf pml4 0x3FF000 0x1001 data m = some ((), m'') ∧
    ∀ a, leafAt m'.mem pml4 (vpn a) = leafAt m''.mem pml4 (vpn a) := by
  have hrun : (((SpaceCall.init [(0x100000, 0x20000)] none none).prog smallBoot).map (fun x =>
      (x.1, (mapContiguous 0x11F000 (higherHalf + 0x3FF000) 0x3FF000 2 data x.2).map fun _ => (),
        (mapRegionHigherHalf 0x11F000 0x3FF000 0x1001 data x.2).map fun _ => ())) :
        Option (Option ℕ × Option Unit × Option Unit)) = some (some 0x11F000, some (), some ()) := by decide +kernel
  obtain ⟨⟨r, m⟩, hx, hv⟩ := Option.map_eq_some_iff.mp hrun
  simp only [Prod.mk.injEq] at hv
  obtain ⟨rfl, h, h'⟩ := hv
  obtain ⟨⟨u, m'⟩, hm', -⟩ := Option.map_eq_some_iff.mp h
  obtain ⟨⟨u, m''⟩, hm'', -⟩ := Option.map_eq_some_iff.mp h'
  have hreach : Reach smallBoot m [0x11F000] := Reach.call _ .start (by simp [SpaceCall.uses]) hx
  have he : ∀ r ∈ [(0x100000, 0x20000)], r.1 + r.2 ≤ directMapSize := by simp [directMapSize]
  exact ⟨m, m', m'', _, hreach, hm', hm'', mapContiguous_eq_pages (resetZone_top he 0x9000 0 0)
    (boot_spaces (List.pairwise_singleton _ _) he hreach) List.mem_cons_self rfl (by decide) hm' hm''⟩

end LodaxOS.Virt
