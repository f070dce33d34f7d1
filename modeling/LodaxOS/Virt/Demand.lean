/-
# What demand paging grants

A fault of a process on a page that is not there is resolved with a page of
the VMA that covers the address. `demandFlags` gives the page no user bit, and
always the writable bit; only the execute permission is looked at. So a fault
that is reported as resolved is never resolved: the process, which runs in user
mode, faults at the same place again.
-/
import LodaxOS.Phys.Complete
import LodaxOS.Virt.Coherence
import LodaxOS.Vma.Runs

namespace LodaxOS.Virt

open Radix Partial Option
open VmaTree (VmaPerm)

variable {σ : Type} {z : Phys.State} {m m' : Machine} {roots : List ℕ} {r addr : ℕ}

inductive Access
  | read
  | write
  | execute
  deriving DecidableEq

/-- The permission has the bit for the access. -/
def permits (perm : VmaPerm) : Access → Bool
  | .read => perm.toNat &&& VmaPerm.read.toNat ≠ 0
  | .write => perm.toNat &&& VmaPerm.write.toNat ≠ 0
  | .execute => perm.toNat &&& VmaPerm.execute.toNat ≠ 0

/-- The access in user mode through a leaf does not fault. -/
def Leaf.admits (leaf : Leaf) : Access → Bool
  | .read => leaf.user
  | .write => leaf.user && leaf.writable
  | .execute => leaf.user && !leaf.noExecute

/-- The page has the rights of its VMA, and the access may be tried again. -/
structure Granted (perm : VmaPerm) (access : Access) (leaf : Leaf) : Prop where
  permitted : permits perm access = true
  retry : leaf.admits access = true
  user : leaf.user = true
  writable : leaf.writable = permits perm .write
  noExecute : leaf.noExecute = !permits perm .execute

/-- What is asked of a fault in a VMA with the permission `perm`. -/
def Grants (process : ProcessMemory σ) (addr : ℕ) (perm : VmaPerm) (access : Access) (m : Machine) : Prop :=
  ∀ m', process.handlePageFault addr (access = .write) m = some (true, m') →
    ∃ leaf, hwLeaf m'.mem process.pml4Phys addr = some leaf ∧ Granted perm access leaf

/-- The page is not there, and its entry is not marked. -/
structure Absent (m : Machine) (r addr : ℕ) : Prop where
  page : hwLeaf m.mem r addr = none
  unmarked : ∀ pte, readPte m r addr = some (some pte) → pte &&& cow = 0

/-- For such a page `read_pte` does not panic. -/
lemma Absent.readPte_eq (habsent : Absent m r addr) (hz : z.zone.top ≤ directMapSize) (hS : Spaces z m roots)
    (hr : r ∈ roots) : ∃ o, readPte m r addr = some o ∧ o.any (fun p => decide (p &&& cow ≠ 0)) = false := by
  obtain ⟨own, M, hT, hroots⟩ := hS
  have hsmall : ¬ InHugePage m.mem r addr := by
    rintro ⟨w, hw, -⟩
    have hpage := habsent.page
    rw [hwLeaf_eq_map, hw] at hpage
    cases hpage
  have hread := Virt.readPte_eq (hT.entry_root hz (hroots r hr)) (hT.walk hz (hroots r hr) (vpn addr)) hsmall
  refine ⟨_, hread, ?_⟩
  cases ho : ptEntry m.mem r addr with
  | none => rfl
  | some pte =>
    rw [ho] at hread
    simp [habsent.unmarked pte hread]

/-- Without a marked entry a fault is a demand. -/
lemma handlePageFault_absent {process : ProcessMemory σ} {o : Option ℕ} (hread : readPte m process.pml4Phys addr = some o)
    (hcow : o.any (fun p => decide (p &&& cow ≠ 0)) = false) (write : Bool) :
    process.handlePageFault addr write m = process.demand addr write m := by
  cases write with
  | false => rfl
  | true =>
    change ((readPte m process.pml4Phys addr).map fun r => (r, m)).bind _ = _
    rw [hread]
    change (if o.any _ = true then _ else process.demand addr true) m = _
    rw [hcow]
    rfl

/-- What is resolved: the lookup finds a word that it takes for a permission, and
that word does not forbid the write. -/
lemma demand_eq_true {process : ProcessMemory σ} {write : Bool} : process.demand addr write m = some (true, m') ↔
    ∃ p, VmaTree.findCovering addr process.vmaTree = some (some p) ∧
      (write = true → process.vmaTree.mem (VmaTree.permOf p) &&& VmaPerm.write.toNat ≠ 0) ∧
      demandPage process.pml4Phys addr (process.vmaTree.mem (VmaTree.permOf p)) m = some (true, m') := by
  unfold ProcessMemory.demand
  rw [bind_eq_some]
  constructor
  · rintro ⟨o, m1, hfind, h⟩
    obtain ⟨vma, hvma, heq⟩ := map_eq_some_iff.mp hfind
    obtain ⟨rfl, rfl⟩ := Prod.mk.inj heq
    cases vma with
    | none => cases (pure_eq_some.mp h).1
    | some p =>
      dsimp only [map_some] at h
      split at h
      · cases (pure_eq_some.mp h).1
      · rename_i hperm
        refine ⟨p, hvma, fun hw hbit => hperm ?_, h⟩
        simp [hw, hbit]
  · rintro ⟨p, hvma, hperm, h⟩
    refine ⟨some (process.vmaTree.mem (VmaTree.permOf p)), m, by rw [coveringPerm, hvma]; rfl, ?_⟩
    dsimp only
    rw [if_neg]
    · exact h
    · simp only [Bool.and_eq_true, decide_eq_true_eq]
      exact fun hc => hperm hc.1 hc.2

lemma demandFlags_bits (perm : ℕ) : (demandFlags perm).testBit 0 = true ∧ (demandFlags perm).testBit 2 = false := by
  unfold demandFlags
  split <;> decide

/-- The page that is installed is not the user's. -/
lemma demandPage_leaf {perm : ℕ} (hz : z.zone.top ≤ directMapSize) (hS : Spaces z m roots) (hr : r ∈ roots)
    (haddr : addr < 2 ^ 64) (h : demandPage r addr perm m = some (true, m')) :
    ∀ leaf, hwLeaf m'.mem r addr = some leaf → leaf.user = false := by
  obtain ⟨own, M, hT, hroots⟩ := hS
  have hroot := hroots r hr
  obtain ⟨page, m1, halloc, h⟩ := bind_eq_some.mp h
  cases page with
  | none => cases (pure_eq_some.mp h).1
  | some page =>
    obtain ⟨phys, hp, rfl⟩ := hT.fresh hz halloc
    obtain ⟨_, m2, hfill, h⟩ := bind_eq_some.mp h
    obtain rfl := writeTable_eq_some.mp hfill
    obtain ⟨_, m3, hmap, h⟩ := bind_eq_some.mp h
    obtain rfl := (pure_eq_some.mp h).2
    have hT1 := (hT.setPhys (Multiset.le_cons_self _ _) hp.alloc).fillOther hp.unowned newZeroed
    obtain ⟨_, m4, hread, hmap⟩ := bind_eq_some.mp hmap
    obtain ⟨_, -, he⟩ := map_eq_some_iff.mp hread
    obtain rfl := (Prod.mk.inj he).2
    obtain ⟨_, m5, htv, hmap⟩ := bind_eq_some.mp hmap
    obtain ⟨rfl, rfl⟩ := hT1.toVirtual hz hroot htv
    obtain ⟨own', M', hM⟩ := mapPage_mapped hz hT1 hroot hmap
    have hpage := hM.page
    rw [vpn_pageBase haddr, ptLeaf, if_pos] at hpage
    · obtain ⟨w, hw, hleaf⟩ := map_eq_some_iff.mp hpage
      intro leaf hl
      rw [hwLeaf, hwWalk, hw, map_some, Option.some.injEq] at hl
      rw [← hl]
      change (w.2.1.testBit 2 && _) = false
      rw [(Prod.mk.inj hleaf).2, entry_testBit hp.aligned (by norm_num), (demandFlags_bits perm).2, Bool.false_and]
    · rw [entry_testBit hp.aligned (by norm_num)]
      exact (demandFlags_bits perm).1

/-! ### Enough memory -/

section

variable {own : Owners} {M : Multiset ℕ} {t i flags n : ℕ} (hz : z.zone.top ≤ directMapSize) (hT : Tables z own M m)

include hz hT

lemma Tables.supplied (hn : n + 1 ≤ m.phys.free.card) : ∃ page phys, tryAllocPage m = some (some page, { m with phys }) ∧
    Fresh z own M m.phys page phys ∧ n ≤ phys.free.card := by
  obtain ⟨page, hpage, hcard⟩ := Phys.allocPage_some (show 0 < m.phys.free.card by omega)
  have htry : tryAllocPage m = some (some page, { m with phys := (Phys.allocPage.run m.phys).2 }) :=
    tryAllocPage_eq_some.mpr ⟨hpage, rfl⟩
  obtain ⟨phys, hp, -⟩ := hT.fresh hz htry
  obtain rfl : (Phys.allocPage.run m.phys).2 = phys := congrArg Prod.snd hp.taken
  exact ⟨page, _, htry, hp, by omega⟩

/-- `ensure_table` takes one page at most, for an empty table or for the parts of
a 2 MB page. -/
lemma ensureTable_supplied {l : ℕ} (hf : TableFlags flags) (hl : l ≤ 2) (hn : n + 1 ≤ m.phys.free.card) :
    ∃ g m', ensureTable t i flags l m = some (g, m') ∧ n ≤ m'.phys.free.card := by
  obtain ⟨page, phys, halloc, hp, hleft⟩ := hT.supplied hz hn
  have hpage := allocPage_eq_some.mpr halloc
  have hreach : ∀ m', toVirtual page m' = some (page, m') :=
    fun m' => toVirtual_eq_some.mpr ⟨physToVirtual_page hp.aligned hp.lt, rfl⟩
  have htable : ∀ m', tableOf t i m' = some (m'.mem t i &&& physAddrMask, m') := fun _ => rfl
  have hdone : ∀ ws, n ≤ ({ m with mem := (m.mem.fill page ws).write t i (page ||| flags ||| present), phys } : Machine).phys.free.card :=
    fun _ => hleft
  by_cases h0 : m.mem t i &&& present = 0
  · have hlink : linkTable toVirtual t i flags m =
        some ((), { m with mem := (m.mem.fill page newZeroed).write t i (page ||| flags ||| present), phys }) := by
      refine bind_eq_some.mpr ⟨_, m, rfl, ?_⟩
      rw [if_pos h0]
      exact bind_eq_some.mpr ⟨page, _, hpage, bind_eq_some.mpr ⟨page, _, hreach _, bind_eq_some.mpr
        ⟨(), _, writeTable_eq_some.mpr rfl, writeEntry_eq_some.mpr rfl⟩⟩⟩
    refine ⟨_, _, bind_eq_some.mpr ⟨(), _, hlink, bind_eq_some.mpr ⟨(), _, ?_, htable _⟩⟩, hdone newZeroed⟩
    refine bind_eq_some.mpr ⟨page ||| flags ||| present, _, readEntry_eq_some.mpr ⟨Mem.write_self .., rfl⟩, ?_⟩
    rw [Nat.or_assoc, if_neg]
    · rfl
    · rw [not_not, and_pageSizeBit, entry_testBit hp.aligned (by norm_num), hf.testBit_seven]
  · have hlink : linkTable toVirtual t i flags m = some ((), m) := by
      refine bind_eq_some.mpr ⟨_, m, rfl, ?_⟩
      rw [if_neg h0]
      rfl
    by_cases h7 : m.mem t i &&& pageSizeBit ≠ 0
    · obtain ⟨ws, hws⟩ : ∃ ws, splitWords (m.mem t i) l (childFlags flags (m.mem t i)) = some ws := by
        obtain rfl | rfl | rfl : l = 0 ∨ l = 1 ∨ l = 2 := by omega
        all_goals exact ⟨_, rfl⟩
      refine ⟨_, _, bind_eq_some.mpr ⟨(), m, hlink, bind_eq_some.mpr ⟨(), _, ?_, htable _⟩⟩, hdone ws⟩
      refine bind_eq_some.mpr ⟨_, m, rfl, ?_⟩
      rw [if_pos h7]
      refine bind_eq_some.mpr ⟨page, _, hpage, bind_eq_some.mpr ⟨page, _, hreach _, ?_⟩⟩
      rw [hws]
      exact bind_eq_some.mpr ⟨(), _, writeTable_eq_some.mpr rfl, writeEntry_eq_some.mpr rfl⟩
    · refine ⟨_, m, bind_eq_some.mpr ⟨(), m, hlink, bind_eq_some.mpr ⟨(), m, ?_, htable m⟩⟩, by omega⟩
      refine bind_eq_some.mpr ⟨_, m, rfl, ?_⟩
      rw [if_neg h7]
      rfl

lemma ensurePt_supplied (hr : Root own r) (virt flags : ℕ) (hn : 3 ≤ m.phys.free.card) :
    ∃ pt m', ensurePt r virt flags m = some (pt, m') := by
  have hf := tableFlags_user flags
  have hv := vpn_lt virt
  obtain ⟨pdp, m1, h1, hn⟩ := ensureTable_supplied hz hT (t := r) (i := indexForAddr virt 3) hf le_rfl hn
  obtain ⟨_, _, hO⟩ := (Opened.refl hT).ensureUser hz hr le_rfl hf h1 (rfl : addUser _ _ flags _ = some ((), _))
  have hpdp : ∀ m, toVirtual pdp m = some (pdp, m) :=
    fun m => toVirtual_eq_some.mpr ⟨hO.tables.physToVirtual_eq hz (hO.owned hr hv), rfl⟩
  obtain ⟨pd, m2, h2, hn⟩ := ensureTable_supplied hz hO.tables (t := pdp) (i := indexForAddr virt 2) hf one_le_two hn
  obtain ⟨_, _, hO⟩ := hO.ensureUser hz hr one_le_two hf h2 (rfl : addUser _ _ flags _ = some ((), _))
  have hpd : ∀ m, toVirtual pd m = some (pd, m) :=
    fun m => toVirtual_eq_some.mpr ⟨hO.tables.physToVirtual_eq hz (hO.owned hr hv), rfl⟩
  obtain ⟨pt, m3, h3, -⟩ := ensureTable_supplied hz hO.tables (t := pd) (i := indexForAddr virt 1) hf zero_le_two hn
  obtain ⟨_, _, hO⟩ := hO.ensureUser hz hr zero_le_two hf h3 (rfl : addUser _ _ flags _ = some ((), _))
  have hpt : ∀ m, toVirtual pt m = some (pt, m) :=
    fun m => toVirtual_eq_some.mpr ⟨hO.tables.physToVirtual_eq hz (hO.owned hr hv), rfl⟩
  exact ⟨pt, _, bind_eq_some.mpr ⟨pdp, m1, h1, bind_eq_some.mpr ⟨(), _, rfl, bind_eq_some.mpr ⟨pdp, _, hpdp _,
    bind_eq_some.mpr ⟨pd, m2, h2, bind_eq_some.mpr ⟨(), _, rfl, bind_eq_some.mpr ⟨pd, _, hpd _,
      bind_eq_some.mpr ⟨pt, m3, h3, bind_eq_some.mpr ⟨(), _, rfl, hpt _⟩⟩⟩⟩⟩⟩⟩⟩⟩

/-- Four pages are enough for a page and its tables. -/
lemma demandPage_supplied (hr : Root own r) (haddr : addr < 2 ^ 64) (hpage : hwLeaf m.mem r addr = none)
    (hmem : 4 ≤ m.phys.free.card) (perm : ℕ) : ∃ m', demandPage r addr perm m = some (true, m') := by
  obtain ⟨page, phys, halloc, hp, hleft⟩ := hT.supplied hz hmem
  have hT1 := (hT.setPhys (Multiset.le_cons_self _ _) hp.alloc).fillOther hp.unowned newZeroed
  have hsmall : ¬ InHugePage (m.mem.fill page newZeroed) r (pageBase addr) := by
    rintro ⟨w, hw, -⟩
    have hwalk : hwWalk (m.mem.fill page newZeroed) r (pageBase addr) = hwWalk m.mem r addr := by
      rw [hwWalk, hwWalk, vpn_pageBase haddr]
      exact walk_eq_of_owned (by norm_num) hT.tree _ 3 r (hr.owned (vpn_lt addr)) fun g k hg => by
        rw [Mem.fill_of_ne _ _ (hp.ne hg)]
    rw [hwLeaf_eq_map, ← hwalk, hw] at hpage
    cases hpage
  have hread := Virt.readPte_eq (hT1.entry_root hz hr) (hT1.walk hz hr _) hsmall
  obtain ⟨pt, m2, hpt⟩ := ensurePt_supplied hz hT1 hr (pageBase addr) (demandFlags perm) hleft
  have hmap : mapPageExplicit r (pageBase addr) page (demandFlags perm) { m with phys, mem := m.mem.fill page newZeroed } =
      some ((), { m2 with mem := m2.mem.write pt (indexForAddr (pageBase addr) 0) (page ||| demandFlags perm) }) := by
    refine bind_eq_some.mpr ⟨_, _, congrArg (Option.map fun o => (o, _)) hread, ?_⟩
    exact bind_eq_some.mpr ⟨r, _, toVirtual_eq_some.mpr ⟨hT1.physToVirtual_eq hz hr, rfl⟩,
      bind_eq_some.mpr ⟨pt, m2, hpt, writeEntry_eq_some.mpr rfl⟩⟩
  exact ⟨_, bind_eq_some.mpr ⟨some page, _, halloc, bind_eq_some.mpr ⟨(), _, writeTable_eq_some.mpr rfl,
    bind_eq_some.mpr ⟨(), _, hmap, rfl⟩⟩⟩⟩

end

/-- A fault on a page that is not there, in a process with any tree. Without a
page to allocate it is not resolved. With memory for a page and its tables it is
answered as a VMA says exactly where it is not resolved: the lookup finds
nothing or panics, or what it finds forbids the write. -/
theorem demand_grants_iff (hz : z.zone.top ≤ directMapSize) (hS : Spaces z m roots) {process : ProcessMemory σ}
    (hr : process.pml4Phys ∈ roots) (haddr : addr < 2 ^ 64) (habsent : Absent m process.pml4Phys addr) (perm : VmaPerm)
    (access : Access) :
    ((Phys.allocPage.run m.phys).1 = none → Grants process addr perm access m) ∧ (4 ≤ m.phys.free.card →
      (Grants process addr perm access m ↔ ∀ p, VmaTree.findCovering addr process.vmaTree = some (some p) →
        access = .write ∧ process.vmaTree.mem (VmaTree.permOf p) &&& VmaPerm.write.toNat = 0)) := by
  obtain ⟨o, hread, hcow⟩ := habsent.readPte_eq hz hS hr
  unfold Grants
  simp only [handlePageFault_absent hread hcow, demand_eq_true, decide_eq_true_eq]
  constructor
  · rintro hnone m' ⟨p, -, -, hrun⟩
    obtain ⟨page, m1, halloc, hrun⟩ := bind_eq_some.mp hrun
    obtain rfl := hnone.symm.trans (tryAllocPage_eq_some.mp halloc).1
    cases (pure_eq_some.mp hrun).1
  · intro hmem
    obtain ⟨own, M, hT, hroots⟩ := id hS
    constructor
    · intro h p hfind
      by_contra hc
      obtain ⟨m', hrun⟩ := demandPage_supplied hz hT (hroots _ hr) haddr habsent.page hmem
        (process.vmaTree.mem (VmaTree.permOf p))
      obtain ⟨leaf, hleaf, hgranted⟩ := h m' ⟨p, hfind, fun hw hbit => hc ⟨hw, hbit⟩, hrun⟩
      have huser := demandPage_leaf hz hS hr haddr hrun leaf hleaf
      cases huser.symm.trans hgranted.user
    · rintro h m' ⟨p, hfind, hperm, -⟩
      obtain ⟨hw, hbit⟩ := h p hfind
      exact absurd hbit (hperm hw)

/-! ### A process with a VMA

What the lookup takes for a VMA is the word at the start of one, that is, the
page of the process there. -/

/-- Words that user code wrote to its page at 0x8000000000: they read like a VMA. -/
def forged (perm i : ℕ) : ℕ :=
  if i = 0 then 0x8000100000 else if i = 1 then 0x8000101000 else if i = 2 then perm else 0

/-- The memory with these words, by addresses and by frames. -/
def forgedCells (perm a : ℕ) : ℕ :=
  if 0x8000000000 ≤ a ∧ a < 0x8000001000 then forged perm ((a - 0x8000000000) / 8) else 0

def forgedBoot (perm : ℕ) : Machine :=
  bootMachine [(0x100000, 0x20000)] 0x9000 0 0 [] (fun t i => if t = 0x80000 then forged perm i else 0) 0

/-- The one VMA of the process. -/
def ownVma : VmaTree.Op := .insert ⟨0x8000000000, 0x8000200000, .readWrite, 0⟩

/-- The process inserts its VMA, and has the page mapped that it wrote. -/
def forgedProcess (perm : ℕ) : Option (ProcessMemory ((ℕ × ℕ) × VmaTree.Ledger) × Machine) := do
  let s ← VmaTree.runOps (VmaTree.recorded VmaTree.bump) [ownVma] (VmaTree.empty (0, 0) (forgedCells perm))
  let x ← (SpaceCall.init [(0x100000, 0x20000)] none none).prog (forgedBoot perm)
  let y ← (SpaceCall.mapPage 0x11F000 0x8000000000 0x80000 7).prog x.2
  if x.1 = some 0x11F000 then some (⟨0x11F000, s⟩, y.2) else none

lemma forgedProcess_reach {perm : ℕ} {process : ProcessMemory ((ℕ × ℕ) × VmaTree.Ledger)}
    (h : forgedProcess perm = some (process, m)) : process.pml4Phys = 0x11F000 ∧ Reach (forgedBoot perm) m [0x11F000] ∧
      VmaTree.runOps (VmaTree.recorded VmaTree.bump) [ownVma] (VmaTree.empty (0, 0) (forgedCells perm)) =
        some process.vmaTree := by
  unfold forgedProcess at h
  obtain ⟨s, hs, h⟩ := Option.bind_eq_some_iff.mp h
  obtain ⟨⟨r, m1⟩, hinit, h⟩ := Option.bind_eq_some_iff.mp h
  obtain ⟨⟨o, m2⟩, hmap, h⟩ := Option.bind_eq_some_iff.mp h
  by_cases hr : r = some 0x11F000
  · subst hr
    cases h
    have hreach : Reach (forgedBoot perm) m1 [0x11F000] := Reach.call _ .start (by simp [SpaceCall.uses]) hinit
    obtain ⟨_, -, rfl⟩ := map_eq_some.mp hmap
    exact ⟨rfl, Reach.call _ hreach (by simp [SpaceCall.uses]) hmap, hs⟩
  · cases (if_neg hr).symm.trans h

/-- What is found forbids the write, and the fault is not resolved. -/
theorem demand_grants_readOnly : ∃ process m, forgedProcess 1 = some (process, m) ∧
    Grants process 0x8000100000 .readWrite .write m := by
  have hrun : (forgedProcess 1 >>= fun x => some (readPte x.2 0x11F000 0x8000100000,
      (hwLeaf x.2.mem 0x11F000 0x8000100000).isNone, decide (4 ≤ x.2.phys.free.card),
      (VmaTree.findCovering 0x8000100000 x.1.vmaTree).map fun o => o.map fun p => x.1.vmaTree.mem (VmaTree.permOf p))) =
      (some (some (some 0), true, true, some (some 1)) : Option (Option (Option ℕ) × Bool × Bool × Option (Option ℕ))) := by
    decide +kernel
  obtain ⟨⟨process, m⟩, hp, hv⟩ := Option.bind_eq_some_iff.mp hrun
  simp only [Option.some.injEq, Prod.mk.injEq, Option.isNone_iff_eq_none, decide_eq_true_eq] at hv
  obtain ⟨hpte, hleaf, hmem, hfind⟩ := hv
  obtain ⟨hr, hreach, -⟩ := forgedProcess_reach hp
  have hS := boot_spaces (List.pairwise_singleton _ _) (by simp [directMapSize]) hreach
  refine ⟨process, m, hp, ((demand_grants_iff (resetZone_top (by simp [directMapSize]) _ _ _) hS (by simp [hr])
    (by norm_num) ⟨hr ▸ hleaf, fun pte h => ?_⟩ .readWrite .write).2 hmem).mpr fun p hp => ⟨rfl, ?_⟩⟩
  · rw [hr, hpte] at h
    cases h
    rfl
  · rw [hp] at hfind
    simp only [map_some, Option.some.injEq] at hfind
    rw [hfind]
    rfl

/-- The process writes within its VMA, to a page that is not there. The fault is
reported as resolved, with a page that is not the user's. -/
theorem demand_grants_fails : ∃ process m m', forgedProcess 3 = some (process, m) ∧ Reach (forgedBoot 3) m [0x11F000] ∧
    VmaTree.runOps (VmaTree.recorded VmaTree.bump) [ownVma] (VmaTree.empty (0, 0) (forgedCells 3)) =
      some process.vmaTree ∧
    hwLeaf m.mem 0x11F000 0x8000000000 = some ⟨0x80000, true, true, false⟩ ∧
    hwLeaf m.mem 0x11F000 0x8000100000 = none ∧
    process.handlePageFault 0x8000100000 true m = some (true, m') ∧
    hwLeaf m'.mem 0x11F000 0x8000100000 = some ⟨0x113000, true, false, true⟩ ∧
    ¬ Grants process 0x8000100000 .readWrite .write m := by
  have hrun : (forgedProcess 3 >>= fun x => x.1.handlePageFault 0x8000100000 true x.2 >>= fun y =>
      some (hwLeaf x.2.mem 0x11F000 0x8000000000, hwLeaf x.2.mem 0x11F000 0x8000100000, y.1,
        hwLeaf y.2.mem 0x11F000 0x8000100000)) =
      (some (some ⟨0x80000, true, true, false⟩, none, true, some ⟨0x113000, true, false, true⟩) :
        Option (Option Leaf × Option Leaf × Bool × Option Leaf)) := by
    decide +kernel
  obtain ⟨⟨process, m⟩, hp, hrun⟩ := Option.bind_eq_some_iff.mp hrun
  obtain ⟨⟨b, m'⟩, hfault, hv⟩ := Option.bind_eq_some_iff.mp hrun
  simp only [Option.some.injEq, Prod.mk.injEq] at hv
  obtain ⟨hown, habsent, rfl, hleaf⟩ := hv
  obtain ⟨hr, hreach, htree⟩ := forgedProcess_reach hp
  refine ⟨process, m, m', hp, hreach, htree, hown, habsent, hfault, hleaf, fun h => ?_⟩
  obtain ⟨leaf, hl, hgranted⟩ := h m' hfault
  rw [hr] at hl
  obtain rfl := Option.mem_unique hleaf hl
  cases hgranted.user

end LodaxOS.Virt
