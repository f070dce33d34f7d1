/-
# A fork of the kernel's address space

`fork_pml4` of the kernel's PML4: the new PML4 shares the tables of the upper
half, its first 512 MB lead to copies of the kernel's tables, and the rest of
its lower half is empty (`Forking`). The tables of the lower half (`lowTables`)
are the ones that were taken from the allocator for it.
-/
import LodaxOS.Virt.Copies

namespace LodaxOS.Virt

open Phys (pageSize Inv)
open Radix Partial Function

variable {z : Phys.State} {own own' own'' : Owners} {M M' M'' : Multiset ℕ} {m m' m'' : Machine}

/-- The tables of the lower half of a PML4, itself among them. -/
def lowTables (mem : Mem ℕ ℕ) (pml4 : ℕ) : Multiset ℕ := tablesUpTo 512 decode 256 mem 2 pml4

lemma Grew.imp {plain plain' : Prop} {N : Multiset ℕ} (h : Grew z plain own M m own' M' m' N) (hp : plain' → plain) :
    Grew z plain' own M m own' M' m' N :=
  { h with took := fun h' => h.took (hp h') }

lemma tablesUpTo_zero {mem : Mem ℕ ℕ} {k l f : ℕ} (h : ∀ i < k, mem f i = 0) :
    tablesUpTo 512 decode k mem l f = {f} := by
  rw [tablesUpTo, Finset.sum_eq_zero fun i hi => subtables_eq_zero fun g => ?_]
  · rfl
  · rw [h i (Finset.mem_range.mp hi), decode_zero_word]
    simp

lemma walk_absent {mem : Mem ℕ ℕ} {l f v : ℕ} (h : (mem f (v / 512 ^ l % 512)).testBit 0 = false) :
    walk 512 decode mem l f v = none := by
  cases l with
  | zero =>
    rw [pow_zero, Nat.div_one] at h
    rw [walk, decode_absent h]
  | succ l => rw [walk, decode_absent h]

/-- The PML4 `c` as a fork of the kernel's PML4 `k`, with the entries of the
upper half below `i` taken over. -/
structure Forking (z : Phys.State) (k c i : ℕ) (own : ℕ → Option (ℕ × ℕ)) (M : Multiset ℕ) (m : Machine)
    (own' : ℕ → Option (ℕ × ℕ)) (M' : Multiset ℕ) (m' : Machine) : Prop where
  grew : Grew z True own M m own' M' m' (lowTables m'.mem c)
  root : Root own' c
  low : ∀ u < 2 ^ 17, (walk 512 decode m'.mem 3 c u).map sight = (walk 512 decode m.mem 3 k u).map sight
  others : ∀ u, 2 ^ 17 ≤ u → u < 2 ^ 35 → walk 512 decode m'.mem 3 c u = none
  upper : ∀ j, 256 ≤ j → m'.mem c j = if j < i ∧ (m.mem k j).testBit 0 = true then m.mem k j else 0

lemma Forking.newly {k c i : ℕ} (h : Forking z k c i own M m own' M' m') : own c = none :=
  h.grew.fresh c (Multiset.mem_cons_self _ _)

/-! ### The first 512 MB -/

lemma copyLowEntry_copying (hz : z.zone.top ≤ directMapSize) {src new q i : ℕ} (hT : Tables z own M m)
    (hsrc : own src = some (1, q)) (h : Copying z false 1 src new q i own M m own' M' m') (hi : i < 512)
    (hrun : copyLowEntry src new i m' = some (true, m'')) :
    ∃ own'' M'', Copying z false 1 src new q (i + 1) own M m own'' M'' m'' := by
  unfold copyLowEntry at hrun
  obtain ⟨e, m1, hread, h1⟩ := bind_eq_some.mp hrun
  obtain ⟨rfl, rfl⟩ := readEntry_eq_some.mp hread
  rw [h.source hsrc] at h1
  split at h1
  · rename_i hc
    rw [guard_table] at hc
    have hD : decode 1 (m.mem src i) = .table _ := decode_eq_table.mpr ⟨hc.1, by norm_num, hc.2, rfl⟩
    obtain ⟨k, hk, hg⟩ := hT.tree src 1 q i _ hsrc hi hD
    obtain rfl : k = 0 := by omega
    obtain ⟨r, m2, h2, h3⟩ := bind_eq_some.mp h1
    cases r with
    | none => exact absurd (pure_eq_some.mp h3).1 (by simp)
    | some c =>
      obtain ⟨own2, M2, hcopy⟩ := copyTableRecursive_copied hz false 0 (h.grew.grown.ext _ _ hg) h.grew.tables h2
      obtain ⟨_, m3, hw, h4⟩ := bind_eq_some.mp h3
      obtain rfl := (pure_eq_some.mp h4).2
      obtain rfl := writeEntry_eq_some.mp hw
      obtain ⟨hDw, hsw⟩ := copy_name hT hsrc hz (by norm_num) hi hc.1 hc.2 hcopy.grew.tables hcopy.placed
      exact ⟨own2, M2, h.child hT hsrc hi hD hcopy rfl hDw hsw⟩
  · rename_i hc
    obtain ⟨_, m2, hw, h2⟩ := bind_eq_some.mp h1
    obtain rfl := (pure_eq_some.mp h2).2
    obtain rfl := writeEntry_eq_some.mp hw
    -- an entry that named a table was copied above
    have hno : ∀ g, decode 1 (m.mem src i) ≠ .table g := by
      intro g hg
      obtain ⟨h0, -, h7, -⟩ := decode_eq_table.mp hg
      simp [h0, h7] at hc
    refine ⟨own', M', h.put hT hsrc hi (hT.sane src 1 q i hsrc hi) hno ?_⟩
    unfold EntryCopy
    cases hD : decode 1 (m.mem src i) with
    | empty => rfl
    | leaf => rfl
    | table g => exact absurd hD (hno g)

/-- The state of `copy_kernel_low_identity` before it links the new tables: the
PML4 `c` and the PDP are empty, and 256 entries of the PD are copied. -/
structure LowReady (z : Phys.State) (c pdp pd srcPd : ℕ) (own : ℕ → Option (ℕ × ℕ)) (M : Multiset ℕ) (m : Machine)
    (own' : ℕ → Option (ℕ × ℕ)) (M' : Multiset ℕ) (m' : Machine) : Prop where
  grew : Grew z True own M m own' M' m' ({c} + {pdp} + tables 512 decode m'.mem 1 pd)
  root : Root own' c
  placedPdp : own' pdp = some (2, 0)
  placedPd : own' pd = some (1, 0)
  emptyRoot : ∀ j, m'.mem c j = 0
  emptyPdp : ∀ j, m'.mem pdp j = 0
  words : ∀ j < 256, EntryCopy false (CopyOf false m.mem m'.mem 0) 1 (m.mem srcPd j) (m'.mem pd j)
  rest : ∀ j, 256 ≤ j → m'.mem pd j = 0

namespace LowReady

variable {c pdp pd srcPd e4 e3 : ℕ}

/-- The memory after the two links. -/
def linked (mem : Mem ℕ ℕ) (c pdp pd e4 e3 : ℕ) : Mem ℕ ℕ :=
  (mem.write pdp 0 (pd ||| (e3 &&& entryFlagMask))).write c 0 (pdp ||| (e4 &&& entryFlagMask))

variable (h : LowReady z c pdp pd srcPd own M m own' M' m')

include h

lemma pdp_ne : pdp ≠ c := by
  rintro rfl
  have := h.placedPdp.symm.trans h.root
  simp at this

lemma pd_ne : pd ≠ c ∧ pd ≠ pdp := by
  constructor
  · rintro rfl
    have := h.placedPd.symm.trans h.root
    simp at this
  · rintro rfl
    have := h.placedPd.symm.trans h.placedPdp
    simp at this

lemma linked_pd : linked m'.mem c pdp pd e4 e3 pd = m'.mem pd :=
  (update_of_ne h.pd_ne.1 _ _).trans (update_of_ne h.pd_ne.2 _ _)

lemma linked_pdp (j : ℕ) : linked m'.mem c pdp pd e4 e3 pdp j = if j = 0 then pd ||| (e3 &&& entryFlagMask) else 0 := by
  unfold linked
  rw [Mem.write_of_ne _ _ fun hc => h.pdp_ne hc.1]
  split
  · rename_i hj
    rw [hj, Mem.write_self]
  · rename_i hj
    rw [Mem.write_of_ne _ _ fun hc => hj hc.2, h.emptyPdp j]

lemma linked_root (j : ℕ) : linked m'.mem c pdp pd e4 e3 c j = if j = 0 then pdp ||| (e4 &&& entryFlagMask) else 0 := by
  unfold linked
  split
  · rename_i hj
    rw [hj, Mem.write_self]
  · rename_i hj
    rw [Mem.write_of_ne _ _ fun hc => hj hc.2, Mem.write_of_ne _ _ fun hc => h.pdp_ne hc.1.symm, h.emptyRoot j]

variable (hD3 : decode 2 (pd ||| (e3 &&& entryFlagMask)) = .table pd)
  (hD4 : decode 3 (pdp ||| (e4 &&& entryFlagMask)) = .table pdp)

include hD3 hD4

/-- The tables of the lower half are those that were made. -/
lemma lowTables_linked : lowTables (linked m'.mem c pdp pd e4 e3) c = {c} + {pdp} + tables 512 decode m'.mem 1 pd := by
  have ht := h.grew.tables.tree
  have hpd : ∀ f, decode 2 (pd ||| (e3 &&& entryFlagMask)) = .table f → f = pd := by
    intro f hf
    rw [hD3] at hf
    simpa using hf.symm
  have ht' : Tree 512 decode own' (m'.mem.write pdp 0 (pd ||| (e3 &&& entryFlagMask))) := by
    refine ht.write h.placedPdp fun f hf => ⟨1, rfl, ?_⟩
    rw [hpd f hf]
    exact h.placedPd
  have hlow : tables 512 decode (m'.mem.write pdp 0 (pd ||| (e3 &&& entryFlagMask))) 2 pdp =
      {pdp} + tables 512 decode m'.mem 1 pd := by
    rw [tables_succ, ht.tablesUpTo_write_self le_rfl (by norm_num) h.placedPdp, subtables_table hD3,
      tablesUpTo_zero fun i _ => h.emptyPdp i]
    · intro f
      rw [h.emptyPdp, decode_zero_word]
      simp
    · intro f hf
      rw [hpd f hf]
      exact ⟨0, h.placedPd⟩
  have hzero : ∀ j, m'.mem.write pdp 0 (pd ||| (e3 &&& entryFlagMask)) c j = 0 := fun j => by
    rw [Mem.write_of_ne _ _ fun hc => h.pdp_ne hc.1.symm, h.emptyRoot]
  rw [lowTables, linked, ht'.tablesUpTo_write_self (by norm_num) (by norm_num) h.root, subtables_table hD4, hlow,
    tablesUpTo_zero fun i _ => hzero i, add_assoc]
  · intro f
    rw [hzero, decode_zero_word]
    simp
  · intro f hf
    obtain rfl : pdp = f := by
      rw [hD4] at hf
      simpa using hf
    exact ⟨0, h.placedPdp⟩

lemma others_linked {u : ℕ} (hu : 2 ^ 17 ≤ u) (hlt : u < 2 ^ 35) :
    walk 512 decode (linked m'.mem c pdp pd e4 e3) 3 c u = none := by
  by_cases h3 : u / 512 ^ 3 % 512 = 0
  · rw [walk, h3, h.linked_root, if_pos rfl, hD4]
    simp only [Option.map_eq_none_iff]
    by_cases h2 : u / 512 ^ 2 % 512 = 0
    · rw [walk, h2, h.linked_pdp, if_pos rfl, hD3]
      simp only [Option.map_eq_none_iff]
      refine walk_absent ?_
      rw [h.linked_pd, h.rest]
      · simp
      · norm_num at h2 h3 hu hlt ⊢
        omega
    · refine walk_absent ?_
      rw [h.linked_pdp, if_neg h2]
      simp
  · refine walk_absent ?_
    rw [h.linked_root, if_neg h3]
    simp

/-- The first 512 MB lead where they lead in the source. -/
lemma low_linked {k srcPdp : ℕ} (he4 : m.mem k 0 = e4) (he3 : m.mem srcPdp 0 = e3)
    (hd4 : decode 3 e4 = .table srcPdp) (hd3 : decode 2 e3 = .table srcPd) {u : ℕ} (hu : u < 2 ^ 17) :
    (walk 512 decode (linked m'.mem c pdp pd e4 e3) 3 c u).map sight = (walk 512 decode m.mem 3 k u).map sight := by
  have hi3 : u / 512 ^ (2 + 1) % 512 = 0 := by norm_num at hu ⊢; omega
  have hi2 : u / 512 ^ (1 + 1) % 512 = 0 := by norm_num at hu ⊢; omega
  have hi1 : u / 512 ^ (0 + 1) % 512 < 256 := by norm_num at hu ⊢; omega
  have h1 : (walk 512 decode (linked m'.mem c pdp pd e4 e3) 1 pd u).map sight =
      (walk 512 decode m.mem 1 srcPd u).map (copySight false) := by
    refine EntryCopy.walk_eq (P := CopyOf false m.mem (linked m'.mem c pdp pd e4 e3) 0)
      (fun g c' hcopy => hcopy.walk_eq u) ?_
    rw [h.linked_pd]
    refine (h.words _ hi1).mono fun g c' _ hc' hcopy i hi => ?_
    -- the page tables are neither of the two linked tables
    obtain ⟨l', hl', hown⟩ := h.grew.tables.tree pd 1 0 _ c' h.placedPd (by omega) hc'
    have hne : c' ≠ c ∧ c' ≠ pdp := by
      constructor
      · rintro rfl
        rw [h.root, Option.some.injEq, Prod.mk.injEq] at hown
        omega
      · rintro rfl
        rw [h.placedPdp, Option.some.injEq, Prod.mk.injEq] at hown
        omega
    have hsame : linked m'.mem c pdp pd e4 e3 c' = m'.mem c' :=
      (update_of_ne hne.1 _ _).trans (update_of_ne hne.2 _ _)
    rw [hsame]
    exact hcopy i hi
  have h2 : (walk 512 decode (linked m'.mem c pdp pd e4 e3) 2 pdp u).map sight =
      (walk 512 decode m.mem 2 srcPdp u).map (copySight false) := by
    refine EntryCopy.walk_eq (P := fun g c' => g = srcPd ∧ c' = pd) (fun g c' hP => ?_) ?_
    · rw [hP.1, hP.2]
      exact h1
    · rw [hi2, he3, h.linked_pdp, if_pos rfl, EntryCopy, hd3]
      exact ⟨pd, rfl, hD3, rfl, rfl⟩
  rw [← copySight_false]
  refine EntryCopy.walk_eq (P := fun g c' => g = srcPdp ∧ c' = pdp) (fun g c' hP => ?_) ?_
  · rw [hP.1, hP.2]
    exact h2
  · rw [hi3, he4, h.linked_root, if_pos rfl, EntryCopy, hd4]
    exact ⟨pdp, rfl, hD4, rfl, rfl⟩

end LowReady

section

variable (hz : z.zone.top ≤ directMapSize) {k c : ℕ} (hT : Tables z own M m) (hk : Root own k)
  {own₁ : Owners} {M₁ : Multiset ℕ} {m₁ : Machine}

include hz hT

/-- The new PDP and PD are made, and the PD filled. -/
lemma lowReady (hG : Grew z True own M m own1 M1 m1 {c}) (hc : Root own1 c) (hzero : ∀ j, m1.mem c j = 0)
    {srcPd pdp pd : ℕ} {phys1 phys2 : Phys.State} (hsrc : own srcPd = some (1, 0))
    (hp : Fresh z own1 M1 m1.phys pdp phys1) (hp' : Fresh z own1 (pdp / pageSize ::ₘ M1) phys1 pd phys2)
    (hrun : forIndices (copyLowEntry srcPd pd) (List.range (userImageBase >>> 21))
      { m1 with mem := (m1.mem.fill pdp newZeroed).fill pd newZeroed, phys := phys2 } = some (true, m')) :
    ∃ own' M', LowReady z c pdp pd srcPd own M m own' M' m' := by
  have hG2 : Grew z True _ _ _ _ _ _ _ := Grew.place hG.tables 2 0 hp
  have hne : pd ≠ pdp := by
    rintro rfl
    have hnd := (Multiset.nodup_add.mp hp'.alloc.nodup).2.1
    exact (Multiset.nodup_cons.mp hnd).1 (Multiset.mem_cons_self _ _)
  have hpv : Fresh z (update own1 pdp (some (2, 0))) (pdp / pageSize ::ₘ M1) phys1 pd phys2 :=
    ⟨hp'.taken, hp'.aligned, hp'.lt, (update_of_ne hne _ _).trans hp'.unowned, hp'.alloc⟩
  have hsrc1 := hG.grown.ext _ _ hsrc
  rw [show userImageBase >>> 21 = 256 from rfl, List.range_eq_range'] at hrun
  obtain ⟨own', M', h⟩ := forIndices_run (n := 256)
    (J := fun i m' => ∃ own' M', Copying z false 1 srcPd pd 0 i _ _ _ own' M' m')
    (fun i _ _ hi ⟨_, _, h⟩ hrun =>
      copyLowEntry_copying hz hG2.tables (hG2.grown.ext _ _ hsrc1) h (by omega) hrun) 256 0 rfl
    ⟨_, _, Copying.start hG2.tables hpv⟩ hrun
  have hold : ∀ f p, own f = some p → m1.mem.fill pdp newZeroed f = m.mem f := fun f p hf =>
    (hG2.frame f p (hG.grown.ext _ _ hf)).trans (hG.frame f p hf)
  refine ⟨own', M', (hG.trans hG2).trans (h.grew.imp fun _ => rfl), ?_, ?_, h.placed, fun j => ?_, fun j => ?_,
    fun j hj => ?_, h.rest⟩
  · exact h.grew.grown.ext _ _ (hG2.grown.ext _ _ hc)
  · exact h.grew.grown.ext _ _ (update_self _ _ _)
  · rw [h.grew.frame c _ (hG2.grown.ext _ _ hc), hG2.frame c _ hc]
    exact hzero j
  · rw [h.grew.frame pdp _ (update_self _ _ _)]
    exact congrFun (Mem.fill_self m1.mem pdp newZeroed) j
  · have hw := h.words j hj
    rw [show ({ m1 with mem := m1.mem.fill pdp newZeroed, phys := phys1 } : Machine).mem srcPd = m.mem srcPd from
      hold srcPd _ hsrc] at hw
    refine hw.mono fun g c' hg _ hcopy i hi => ?_
    obtain ⟨l', _, hown⟩ := hT.tree srcPd 1 0 j g hsrc (by omega) hg
    have he := hcopy i hi
    rwa [show ({ m1 with mem := m1.mem.fill pdp newZeroed, phys := phys1 } : Machine).mem g = m.mem g from
      hold g _ hown] at he

include hk

/-- The new tables are linked. -/
lemma LowReady.forking {pdp pd srcPdp srcPd : ℕ} (hpdp : own srcPdp = some (2, 0))
    (h4 : (m.mem k 0).testBit 0 = true ∧ (m.mem k 0).testBit 7 = false ∧ m.mem k 0 &&& physAddrMask = srcPdp)
    (h3 : (m.mem srcPdp 0).testBit 0 = true ∧ (m.mem srcPdp 0).testBit 7 = false ∧
      m.mem srcPdp 0 &&& physAddrMask = srcPd)
    (h : LowReady z c pdp pd srcPd own M m own' M' m') :
    Forking z k c 0 own M m own' M' { m' with mem := linked m'.mem c pdp pd (m.mem k 0) (m.mem srcPdp 0) } := by
  obtain ⟨hD3, hs3⟩ := copy_name hT hpdp hz (by norm_num) (by norm_num) h3.1 h3.2.1 h.grew.tables h.placedPd
  obtain ⟨hD4, hs4⟩ := copy_name hT hk hz (by norm_num) (by norm_num) h4.1 h4.2.1 h.grew.tables h.placedPdp
  have hd3 := decode_eq_table.mpr ⟨h3.1, (by norm_num : (2 : ℕ) ≠ 0), h3.2.1, h3.2.2⟩
  have hd4 := decode_eq_table.mpr ⟨h4.1, (by norm_num : (3 : ℕ) ≠ 0), h4.2.1, h4.2.2⟩
  have hnewPdp : own pdp = none := h.grew.fresh pdp (by simp)
  have hnewRoot : own c = none := h.grew.fresh c (by simp)
  refine ⟨?_, h.root, fun u hu => h.low_linked hD3 hD4 rfl rfl hd4 hd3 hu,
    fun u hu hlt => h.others_linked hD3 hD4 hu hlt, fun j hj => ?_⟩
  · change Grew _ _ _ _ _ _ _ _ (lowTables (linked m'.mem c pdp pd (m.mem k 0) (m.mem srcPdp 0)) c)
    rw [h.lowTables_linked hD3 hD4]
    refine (h.grew.write hnewPdp h.placedPdp hs3 fun g hg => ⟨1, rfl, ?_⟩).write hnewRoot h.root hs4 fun g hg => ⟨2, rfl, ?_⟩
    · rw [hD3, Node.table.injEq] at hg
      rw [← hg, h.placedPd]
    · rw [hD4, Node.table.injEq] at hg
      rw [← hg, h.placedPdp]
  · change linked m'.mem c pdp pd (m.mem k 0) (m.mem srcPdp 0) c j = _
    rw [h.linked_root, if_neg (by omega), if_neg (by omega)]

omit hz hT hk in
/-- Nothing of the lower half is taken over. -/
lemma Forking.empty (hG : Grew z True own M m own1 M1 m1 {c}) (hc : Root own1 c) (hzero : ∀ j, m1.mem c j = 0)
    (hnone : ∀ u < 2 ^ 17, walk 512 decode m.mem 3 k u = none) : Forking z k c 0 own M m own1 M1 m1 := by
  have habsent : ∀ u, walk 512 decode m1.mem 3 c u = none := fun u => walk_absent (by rw [hzero]; simp)
  refine ⟨?_, hc, fun u hu => by rw [habsent, hnone u hu], fun u _ _ => habsent u, fun j _ => ?_⟩
  · rw [lowTables, tablesUpTo_zero fun i _ => hzero i]
    exact hG
  · rw [hzero, if_neg (by omega)]

lemma copyKernelLowIdentity_forking (hG : Grew z True own M m own1 M1 m1 {c}) (hc : Root own1 c)
    (hzero : ∀ j, m1.mem c j = 0) (h : copyKernelLowIdentity k c m1 = some (true, m')) :
    ∃ own' M', Forking z k c 0 own M m own' M' m' := by
  unfold copyKernelLowIdentity at h
  obtain ⟨e4, m2, hread, h1⟩ := bind_eq_some.mp h
  obtain ⟨rfl, rfl⟩ := readEntry_eq_some.mp hread
  rw [congrFun (hG.frame k _ hk) 0] at h1
  have hs4 := hT.sane k 3 0 0 hk (by norm_num)
  have hdig : ∀ u < 2 ^ 17, u / 512 ^ (2 + 1) % 512 = 0 ∧ u / 512 ^ (1 + 1) % 512 = 0 := by
    intro u hu
    norm_num at hu ⊢
    omega
  split at h1
  · rename_i hc4
    obtain rfl := (pure_eq_some.mp h1).2
    -- a PML4 entry is never huge, so this one is not present
    have h0 : (m.mem k 0).testBit 0 = false := by
      by_contra h0
      rw [Bool.not_eq_false] at h0
      simp [h0, (hs4 h0).1 (by norm_num)] at hc4
    refine ⟨own1, M1, Forking.empty hG hc hzero fun u hu => ?_⟩
    rw [walk, (hdig u hu).1, decode_absent h0]
  · rename_i hc4
    replace hc4 := table_of_guard hc4
    have hD4 := decode_eq_table.mpr ⟨hc4.1, (by norm_num : (3 : ℕ) ≠ 0), hc4.2, rfl⟩
    obtain ⟨l', hl, hg⟩ := hT.tree k 3 0 0 _ hk (by norm_num) hD4
    obtain rfl : l' = 2 := by omega
    obtain ⟨srcPdp, m3, h2, h3⟩ := bind_eq_some.mp h1
    obtain ⟨e3, m4, hread3, h4⟩ := bind_eq_some.mp h3
    obtain ⟨rfl, rfl⟩ := hG.tables.toVirtual hz (hG.grown.ext _ _ hg) h2
    obtain ⟨rfl, rfl⟩ := readEntry_eq_some.mp hread3
    rw [congrFun (hG.frame _ _ hg) 0] at h4
    generalize hpdp : m.mem k 0 &&& physAddrMask = srcPdp at *
    have hs3 := hT.sane srcPdp 2 _ 0 hg (by norm_num)
    split at h4
    · rename_i hc3
      obtain rfl := (pure_eq_some.mp h4).2
      have h0 : (m.mem srcPdp 0).testBit 0 = false := by
        by_contra h0
        rw [Bool.not_eq_false] at h0
        simp [h0, (hs3 h0).1 (by norm_num)] at hc3
      refine ⟨own1, M1, Forking.empty hG hc hzero fun u hu => ?_⟩
      rw [walk, (hdig u hu).1, hD4]
      simp only [Option.map_eq_none_iff]
      rw [walk, (hdig u hu).2, decode_absent h0]
    · rename_i hc3
      replace hc3 := table_of_guard hc3
      obtain ⟨l', hl', hg3⟩ := hT.tree srcPdp 2 _ 0 _ hg (by norm_num)
        (decode_eq_table.mpr ⟨hc3.1, by norm_num, hc3.2, rfl⟩)
      obtain rfl : l' = 1 := by omega
      obtain ⟨a, m5, h5, h6⟩ := bind_eq_some.mp h4
      cases a with
      | none => exact absurd (pure_eq_some.mp h6).1 (by simp)
      | some pdp =>
        obtain ⟨phys1, hp, rfl⟩ := hG.tables.fresh hz h5
        obtain ⟨a, m6, h7, h8⟩ := bind_eq_some.mp h6
        cases a with
        | none =>
          obtain ⟨_, _, _, h9⟩ := bind_eq_some.mp h8
          exact absurd (pure_eq_some.mp h9).1 (by simp)
        | some pd =>
          obtain ⟨phys2, hp', rfl⟩ := (hG.tables.setPhys (Multiset.le_cons_self _ _) hp.alloc).fresh hz h7
          unfold fillLowIdentity at h8
          obtain ⟨x, _, hx, h8⟩ := bind_eq_some.mp h8
          obtain ⟨y, _, hy, h8⟩ := bind_eq_some.mp h8
          obtain ⟨_, _, hw, h8⟩ := bind_eq_some.mp h8
          obtain ⟨_, _, hw', h8⟩ := bind_eq_some.mp h8
          obtain ⟨srcPd, _, hs, h8⟩ := bind_eq_some.mp h8
          obtain ⟨ok, m7, hloop, h8⟩ := bind_eq_some.mp h8
          obtain ⟨rfl, rfl⟩ := reaching_toVirtual _ _ _ _ hp.aligned hp.lt hx
          obtain ⟨rfl, rfl⟩ := reaching_toVirtual _ _ _ _ hp'.aligned hp'.lt hy
          obtain rfl := writeTable_eq_some.mp hw
          obtain rfl := writeTable_eq_some.mp hw'
          obtain ⟨rfl, rfl⟩ := reaching_toVirtual _ _ _ _ (hT.page _ _ hg3).1 (hT.lt hz hg3) hs
          cases ok with
          | false => exact absurd (pure_eq_some.mp h8).1 (by simp)
          | true =>
            obtain ⟨_, _, hw, h8⟩ := bind_eq_some.mp h8
            obtain ⟨_, _, hw', h8⟩ := bind_eq_some.mp h8
            obtain rfl := (pure_eq_some.mp h8).2
            obtain rfl := writeEntry_eq_some.mp hw
            obtain rfl := writeEntry_eq_some.mp hw'
            obtain ⟨own', M', hready⟩ := lowReady hz hT hG hc hzero hg3 hp hp' hloop
            exact ⟨own', M', hready.forking hz hT hk hg ⟨hc4.1, hc4.2, hpdp⟩ ⟨hc3.1, hc3.2, rfl⟩⟩

end

/-! ### The upper half -/

section

variable {k c i : ℕ} (hT : Tables z own M m) (hk : Root own k)

/-- An index that takes nothing over. -/
lemma Forking.skip (h : Forking z k c i own M m own' M' m') (hi : 256 ≤ i → (m.mem k i).testBit 0 = false) :
    Forking z k c (i + 1) own M m own' M' m' := by
  refine ⟨h.grew, h.root, h.low, h.others, fun j hj => ?_⟩
  rw [h.upper j hj]
  refine if_congr ⟨fun hc => ⟨by omega, hc.2⟩, fun hc => ⟨?_, hc.2⟩⟩ rfl rfl
  by_contra hge
  obtain rfl : j = i := by omega
  rw [hi hj] at hc
  simp at hc

include hT hk

/-- An entry of the upper half is taken over. -/
lemma Forking.take (h : Forking z k c i own M m own' M' m') (hi : 256 ≤ i) (hlt : i < 512)
    (h0 : (m.mem k i).testBit 0 = true) :
    Forking z k c (i + 1) own M m own' M' { m' with mem := m'.mem.write c i (m.mem k i) } := by
  have hlow : ∀ u < 2 ^ 35, walk 512 decode (m'.mem.write c i (m.mem k i)) 3 c u = walk 512 decode m'.mem 3 c u := by
    intro u hu
    refine h.grew.tables.tree.walk_write (by norm_num) h.root ?_ (h.root.owned (by norm_num at hu ⊢; omega))
    norm_num at hu ⊢
    omega
  have hsame : lowTables (m'.mem.write c i (m.mem k i)) c = lowTables m'.mem c := by
    refine tablesUpTo_congr (fun j hj => ?_) fun j hj g hg => ?_
    · rw [Mem.write_of_ne _ _ fun hc => by omega]
      exact SameTables.refl _ _
    · have hj' : j < 512 := by omega
      obtain ⟨l', hl, hown⟩ := h.grew.tables.tree c 3 0 j g h.root hj' hg
      obtain rfl : l' = 2 := by omega
      exact h.grew.tables.tree.tables_write_of_notMem hown fun hc =>
        h.grew.tables.tree.ne_of_below h.root hj' hg hc rfl
  refine ⟨?_, h.root, fun u hu => ?_, fun u hu hlt => ?_, fun j hj => ?_⟩
  · change Grew _ _ _ _ _ _ _ _ (lowTables (m'.mem.write c i (m.mem k i)) c)
    rw [hsame]
    refine h.grew.write h.newly h.root (hT.sane k 3 0 i hk hlt) fun g hg => ?_
    obtain ⟨l', hl, hown⟩ := hT.tree k 3 0 i g hk hlt hg
    exact ⟨l', hl, h.grew.grown.ext _ _ hown⟩
  · rw [hlow u (by omega)]
    exact h.low u hu
  · rw [hlow u hlt]
    exact h.others u hu hlt
  · change m'.mem.write c i (m.mem k i) c j = _
    by_cases hji : j = i
    · subst hji
      rw [Mem.write_self, if_pos ⟨Nat.lt_succ_self j, h0⟩]
    · rw [Mem.write_of_ne _ _ fun hc => hji hc.2, h.upper j hj]
      exact if_congr ⟨fun hc => ⟨by omega, hc.2⟩, fun hc => ⟨by omega, hc.2⟩⟩ rfl rfl

lemma forkEntry_forking (h : Forking z k c i own M m own' M' m') (hlt : i < 512)
    (hrun : forkEntry true k c i m' = some (true, m'')) : Forking z k c (i + 1) own M m own' M' m'' := by
  unfold forkEntry at hrun
  by_cases hi : i < 256
  · rw [if_pos (by simpa using hi)] at hrun
    obtain rfl := (pure_eq_some.mp hrun).2
    exact h.skip fun hc => by omega
  · rw [if_neg (by simpa using hi)] at hrun
    obtain ⟨e, m1, hread, h1⟩ := bind_eq_some.mp hrun
    obtain ⟨rfl, rfl⟩ := readEntry_eq_some.mp hread
    rw [congrFun (h.grew.frame k _ hk) i] at h1
    split at h1
    · rename_i h0
      obtain rfl := (pure_eq_some.mp h1).2
      exact h.skip fun _ => (and_present _).mp h0
    · rename_i h0
      rw [and_present, Bool.not_eq_false] at h0
      rw [if_pos (by simp; omega)] at h1
      obtain ⟨_, m2, hw, h2⟩ := bind_eq_some.mp h1
      obtain rfl := (pure_eq_some.mp h2).2
      obtain rfl := writeEntry_eq_some.mp hw
      exact h.take hT hk (by omega) hlt h0

/-- What `fork_pml4` returns for the kernel's PML4. -/
lemma forkPml4_forking (hz : z.zone.top ≤ directMapSize) (hkernel : m.kernelPml4 = k)
    (h : forkPml4 k m = some (some c, m')) : ∃ own' M', Forking z k c 512 own M m own' M' m' := by
  unfold forkPml4 at h
  obtain ⟨src, m1, h1, h2⟩ := bind_eq_some.mp h
  obtain ⟨p, m2, h3, h4⟩ := bind_eq_some.mp h2
  obtain ⟨rfl, rfl⟩ := hT.toVirtual hz hk h1
  rcases newTable_cases hT hz h3 with ⟨rfl, -, -⟩ | ⟨t, phys, rfl, hp, rfl⟩
  · exact absurd (pure_eq_some.mp h4).1 (by simp)
  · obtain ⟨mm, m6, hget, h5⟩ := bind_eq_some.mp h4
    obtain ⟨rfl, rfl⟩ := get_eq_some.mp hget
    obtain ⟨ok, m7, hlow, h6⟩ := bind_eq_some.mp h5
    have hG : Grew z True _ _ _ _ _ _ _ := Grew.place hT 3 0 hp
    rw [show decide (src = m1.kernelPml4) = true by simp [hkernel]] at hlow h6
    cases ok with
    | false => exact absurd (pure_eq_some.mp h6).1 (by simp)
    | true =>
      obtain ⟨done, m8, hloop, h7⟩ := bind_eq_some.mp h6
      obtain ⟨hr, rfl⟩ := finishCopy_eq_some.mp h7
      cases done with
      | false => cases hr
      | true =>
        obtain rfl : t = c := by simpa using hr
        obtain ⟨own', M', hF⟩ := copyKernelLowIdentity_forking hz hT hk hG (update_self _ _ _)
          (fun j => congrFun (Mem.fill_self m1.mem t newZeroed) j) hlow
        rw [List.range_eq_range'] at hloop
        exact ⟨own', M', forIndices_run (n := 512) (J := fun i m' => Forking z src t i own M m1 own' M' m')
          (fun i _ _ hi h hrun => forkEntry_forking hT hk h hi hrun) 512 0 rfl hF hloop⟩

end

end LodaxOS.Virt
