/-
# The walkers agree with the hardware, up to 2 MB pages

`translate`, `read_pte` and `is_nx` walk the tables in software. Over tables
that the kernel built (`Reach`) they agree with the hardware's walk for every
address that does not lie in a 2 MB page; for one that does, `read_pte` goes on
as if the PD entry named a page table, and so does `translate`, which tests
the huge-page bit one level too high.
-/
import LodaxOS.Virt.Spaces

namespace LodaxOS.Virt

open Phys (pageSize Inv)
open Radix Partial Option

variable {z : Phys.State} {own own' own'' : Owners} {M M' M'' : Multiset ℕ} {m m' m'' : Machine}

/-! ### Reachable tables -/

/-- A call that builds or changes an address space. -/
inductive SpaceCall
  | newPml4
  | idMapPage (pml4 virt phys flags : ℕ)
  | idMapHuge2mb (pml4 virt phys flags : ℕ)
  | init (regions : List (ℕ × ℕ)) (fbPhys kernelPhys : Option (ℕ × ℕ))
  | mapPage (pml4 virt phys flags : ℕ)
  | mapContiguous (pml4 virt phys n flags : ℕ)
  | forkPml4 (src : ℕ)
  | switchPml4 (pml4 : ℕ)

/-- An empty PML4. -/
def newPml4 : Op ℕ := do
  let pml4 ← allocPage
  writeTable pml4 newZeroed
  pure pml4

/-- The PML4 that `init` loads, unless one is loaded already. -/
def initPml4 (regions : List (ℕ × ℕ)) (fbPhys kernelPhys : Option (ℕ × ℕ)) : Op (Option ℕ) := do
  let before ← get
  init regions fbPhys kernelPhys
  let after ← get
  pure (if before.ptInitialized then none else some after.kernelPml4)

namespace SpaceCall

/-- The call, and the PML4 it makes. -/
def prog : SpaceCall → Op (Option ℕ)
  | newPml4 => some <$> Virt.newPml4
  | idMapPage pml4 virt phys flags => (fun _ => none) <$> Virt.idMapPage pml4 virt phys flags
  | idMapHuge2mb pml4 virt phys flags => (fun _ => none) <$> Virt.idMapHuge2mb pml4 virt phys flags
  | init regions fbPhys kernelPhys => initPml4 regions fbPhys kernelPhys
  | mapPage pml4 virt phys flags => (fun _ => none) <$> Virt.mapPage pml4 virt phys flags
  | mapContiguous pml4 virt phys n flags => (fun _ => none) <$> Virt.mapContiguous pml4 virt phys n flags
  | forkPml4 src => Virt.forkPml4 src
  | switchPml4 pml4 => (fun _ => none) <$> (modify fun m => { m with cr3 := pml4 } : Op Unit)

/-- The PML4 a call works on. -/
def uses : SpaceCall → Option ℕ
  | newPml4 => none
  | init _ _ _ => none
  | idMapPage pml4 _ _ _ => some pml4
  | idMapHuge2mb pml4 _ _ _ => some pml4
  | mapPage pml4 _ _ _ => some pml4
  | mapContiguous pml4 _ _ _ _ => some pml4
  | forkPml4 src => some src
  | switchPml4 pml4 => some pml4

end SpaceCall

/-- The machine `m` and the PML4s made so far, after calls that returned. -/
inductive Reach (m0 : Machine) : Machine → List ℕ → Prop
  | start : Reach m0 m0 []
  | call {m m' : Machine} {roots : List ℕ} (c : SpaceCall) {r : Option ℕ} (h : Reach m0 m roots)
      (hu : ∀ p ∈ c.uses, p ∈ roots) (hc : c.prog m = some (r, m')) : Reach m0 m' (r.toList ++ roots)

lemma map_eq_some {α β : Type} {f : α → β} {x : Op α} {b : β} :
    (f <$> x) m = some (b, m') ↔ ∃ a, x m = some (a, m') ∧ f a = b := by
  change (x m).bind (fun r => some (f r.1, r.2)) = _ ↔ _
  rw [bind_eq_some_iff]
  constructor
  · rintro ⟨⟨a, m1⟩, h, h'⟩
    simp only [Option.some.injEq, Prod.mk.injEq] at h'
    exact ⟨a, h'.2 ▸ h, h'.1⟩
  · rintro ⟨a, h, rfl⟩
    exact ⟨(a, m'), h, rfl⟩

/-- The tables and the PML4s among them. -/
def Spaces (z : Phys.State) (m : Machine) (roots : List ℕ) : Prop :=
  ∃ own M, Tables z own M m ∧ ∀ r ∈ roots, Root own r

/-- Registers are not tables. -/
lemma Tables.regs (hT : Tables z own M m) (pt : Bool) (k c : ℕ) :
    Tables z own M { m with ptInitialized := pt, kernelPml4 := k, cr3 := c } :=
  ⟨hT.alloc, hT.tree, hT.sane, hT.page⟩

/-- The kernel's PML4 is the one that a call made, or the one before. -/
def KernelOf (m m' : Machine) (r : Option ℕ) : Prop :=
  m'.ptInitialized = true → m'.kernelPml4 ∈ r ∨ m.ptInitialized = true ∧ m'.kernelPml4 = m.kernelPml4

lemma Grown.kernelOf (h : Grown own M m own' M' m') (r : Option ℕ) : KernelOf m m' r :=
  fun hp => .inr ⟨h.regs.1 ▸ hp, h.regs.2.1⟩

variable {regions : List (ℕ × ℕ)} {roots : List ℕ} {t l i g pdp pd : ℕ}

section

variable (hz : z.zone.top ≤ directMapSize)

include hz

lemma initPml4_tables {fb kernel : Option (ℕ × ℕ)} {r : Option ℕ} (hT : Tables z own M m)
    (h : initPml4 regions fb kernel m = some (r, m')) :
    ∃ own' M', Tables z own' M' m' ∧ Extends own own' ∧ (∀ n ∈ r, Root own' n) ∧ KernelOf m m' r := by
  unfold initPml4 at h
  obtain ⟨before, m1, h1, h2⟩ := bind_eq_some.mp h
  obtain ⟨rfl, rfl⟩ := get_eq_some.mp h1
  obtain ⟨_, m2, h3, h4⟩ := bind_eq_some.mp h2
  obtain ⟨after, m3, h5, h6⟩ := bind_eq_some.mp h4
  obtain ⟨rfl, rfl⟩ := get_eq_some.mp h5
  obtain ⟨hr, rfl⟩ := pure_eq_some.mp h6
  unfold init at h3
  obtain ⟨mm, m4, h7, h8⟩ := bind_eq_some.mp h3
  obtain ⟨rfl, rfl⟩ := get_eq_some.mp h7
  split at h8
  · rename_i hpt
    obtain rfl := (pure_eq_some.mp h8).2
    rw [if_pos hpt] at hr
    exact ⟨own, M, hT, Extends.refl own, by simp [← hr], (Grown.refl own M m).kernelOf r⟩
  · rename_i hpt
    obtain ⟨pml4, m5, h9, h10⟩ := bind_eq_some.mp h8
    obtain rfl := modify_eq_some.mp h10
    obtain ⟨own', M', hT', hG, hroot⟩ := buildTables_tables hz hT h9
    rw [if_neg hpt] at hr
    refine ⟨own', M', hT'.regs true pml4 pml4, hG.ext, ?_, fun _ => .inl hr.symm⟩
    rintro n rfl
    obtain rfl : pml4 = n := by simpa using hr
    exact hroot

/-- Every call keeps the tables, and the PML4 it makes is one. -/
lemma call_tables {c : SpaceCall} {r : Option ℕ} (hT : Tables z own M m) (hu : ∀ p ∈ c.uses, Root own p)
    (hc : c.prog m = some (r, m')) :
    ∃ own' M', Tables z own' M' m' ∧ Extends own own' ∧ (∀ n ∈ r, Root own' n) ∧ KernelOf m m' r := by
  cases c with
  | newPml4 =>
    obtain ⟨pml4, h, rfl⟩ := map_eq_some.mp hc
    unfold newPml4 at h
    obtain ⟨p, m1, h1, h2⟩ := bind_eq_some.mp h
    obtain ⟨_, m2, h3, h4⟩ := bind_eq_some.mp h2
    obtain ⟨rfl, rfl⟩ := pure_eq_some.mp h4
    obtain ⟨phys, hp, rfl⟩ := hT.fresh hz (allocPage_eq_some.mp h1)
    obtain rfl := writeTable_eq_some.mp h3
    obtain ⟨own', M', hT', hG, hroot⟩ := Leads.placeZeroed hT 3 0 hp
    refine ⟨own', M', hT', hG.ext, fun n hn => ?_, hG.kernelOf _⟩
    obtain rfl : p = n := by simpa using hn
    exact hroot
  | idMapPage pml4 =>
    obtain ⟨_, h, rfl⟩ := map_eq_some.mp hc
    obtain ⟨own', M', hM⟩ := idMapPage_mapped hz hT (hu pml4 rfl) h
    exact ⟨own', M', hM.tables, hM.grown.ext, by simp, hM.grown.kernelOf _⟩
  | idMapHuge2mb pml4 =>
    obtain ⟨_, h, rfl⟩ := map_eq_some.mp hc
    obtain ⟨own', M', hM⟩ := idMapHuge2mb_mapped hz hT (hu pml4 rfl) h
    exact ⟨own', M', hM.tables, hM.grown.ext, by simp, hM.grown.kernelOf _⟩
  | init => exact initPml4_tables hz hT hc
  | mapPage pml4 =>
    obtain ⟨_, h, rfl⟩ := map_eq_some.mp hc
    obtain ⟨own', M', hM⟩ := mapPage_mapped hz hT (hu pml4 rfl) h
    exact ⟨own', M', hM.tables, hM.grown.ext, by simp, hM.grown.kernelOf _⟩
  | mapContiguous pml4 =>
    obtain ⟨_, h, rfl⟩ := map_eq_some.mp hc
    obtain ⟨own', M', hT', hG⟩ := mapContiguous_tables hz (hu pml4 rfl) hT h
    exact ⟨own', M', hT', hG.ext, by simp, hG.kernelOf _⟩
  | forkPml4 src =>
    obtain ⟨own', M', hT', hG, hroot⟩ := forkPml4_tables hz hT (hu src rfl) hc
    exact ⟨own', M', hT', hG.ext, hroot, hG.kernelOf r⟩
  | switchPml4 pml4 =>
    obtain ⟨_, h, rfl⟩ := map_eq_some.mp hc
    obtain rfl := modify_eq_some.mp h
    exact ⟨own, M, hT.regs m.ptInitialized m.kernelPml4 pml4, Extends.refl own, by simp, fun hp => .inr ⟨hp, rfl⟩⟩

/-- So do all calls one after the other. -/
lemma reach_spaces {m0 : Machine} (h0 : Inv z m0.phys 0) (h : Reach m0 m roots) : Spaces z m roots := by
  induction h with
  | start => exact ⟨fun _ => none, 0, ⟨h0, by simp [Radix.Tree], by simp, by simp⟩, by simp⟩
  | call c h hu hc ih =>
    obtain ⟨own, M, hT, hroots⟩ := ih
    obtain ⟨own', M', hT', hE, hr, -⟩ := call_tables hz hT (fun p hp => hroots p (hu p hp)) hc
    refine ⟨own', M', hT', fun n hn => ?_⟩
    rcases List.mem_append.mp hn with hn | hn
    · exact hr n (mem_toList.mp hn)
    · exact (hroots n hn).mono hE

/-- Once `init` has run, the kernel's PML4 is one of those that were made. -/
lemma reach_kernel {m0 : Machine} (h0 : Inv z m0.phys 0) (hp0 : m0.ptInitialized = false)
    (h : Reach m0 m roots) (hp : m.ptInitialized = true) : m.kernelPml4 ∈ roots := by
  induction h with
  | start => exact absurd hp (by simp [hp0])
  | call c h hu hc ih =>
    obtain ⟨own, M, hT, hroots⟩ := reach_spaces hz h0 h
    obtain ⟨_, _, -, -, -, hkernel⟩ := call_tables hz hT (fun p hp => hroots p (hu p hp)) hc
    rw [List.mem_append]
    rcases hkernel hp with hr | ⟨hp', he⟩
    · exact .inl (mem_toList.mpr hr)
    · exact .inr (he ▸ ih hp')

end

/-! ### One walk -/

/-- The entry `i` of `t` names the table `g`, which the kernel can reach. -/
structure Names (m : Machine) (t i g : ℕ) : Prop where
  valid : (m.mem t i).testBit 0 = true
  small : (m.mem t i).testBit 7 = false
  addr : m.mem t i &&& physAddrMask = g
  reached : physToVirtual g = some g

/-- How the walk of the page `v` under the PML4 `r` ends. -/
inductive Walk (m : Machine) (r v : ℕ) : Prop
  | noPdp (h : (m.mem r (v / 512 ^ 3 % 512)).testBit 0 = false)
  | noPd {pdp : ℕ} (h3 : Names m r (v / 512 ^ 3 % 512) pdp) (h : (m.mem pdp (v / 512 ^ 2 % 512)).testBit 0 = false)
  | noPt {pdp pd : ℕ} (h3 : Names m r (v / 512 ^ 3 % 512) pdp) (h2 : Names m pdp (v / 512 ^ 2 % 512) pd)
      (h : (m.mem pd (v / 512 ^ 1 % 512)).testBit 0 = false)
  | huge {pdp pd : ℕ} (h3 : Names m r (v / 512 ^ 3 % 512) pdp) (h2 : Names m pdp (v / 512 ^ 2 % 512) pd)
      (h : (m.mem pd (v / 512 ^ 1 % 512)).testBit 0 = true) (h' : (m.mem pd (v / 512 ^ 1 % 512)).testBit 7 = true)
  | pt {pdp pd pt : ℕ} (h3 : Names m r (v / 512 ^ 3 % 512) pdp) (h2 : Names m pdp (v / 512 ^ 2 % 512) pd)
      (h1 : Names m pd (v / 512 ^ 1 % 512) pt)

section

variable (hz : z.zone.top ≤ directMapSize) (hT : Tables z own M m)

include hz hT

lemma Tables.names {q : ℕ} (ht : own t = some (l, q)) (hi : i < 512) (hl : l ≠ 0)
    (h0 : (m.mem t i).testBit 0 = true) (h7 : (m.mem t i).testBit 7 = false) :
    ∃ g, Names m t i g ∧ own g = some (l - 1, q * 512 + i) := by
  obtain ⟨l', rfl, hg⟩ := hT.tree t l q i _ ht hi (decode_eq_table.mpr ⟨h0, hl, h7, rfl⟩)
  exact ⟨_, ⟨h0, h7, rfl, hT.physToVirtual_eq hz hg⟩, hg⟩

/-- Only a PD has huge entries, so this is how a walk goes. -/
lemma Tables.walk {r : ℕ} (hr : Root own r) (v : ℕ) : Walk m r v := by
  have hi : ∀ k, v / 512 ^ k % 512 < 512 := fun k => Nat.mod_lt _ (by norm_num)
  cases h4 : (m.mem r (v / 512 ^ 3 % 512)).testBit 0 with
  | false => exact .noPdp h4
  | true =>
    have h7 := (hT.sane r 3 0 _ hr (hi 3) h4).1 (by norm_num)
    obtain ⟨pdp, h₃, hpdp⟩ := hT.names hz hr (hi 3) (by norm_num) h4 h7
    cases h3 : (m.mem pdp (v / 512 ^ 2 % 512)).testBit 0 with
    | false => exact .noPd h₃ h3
    | true =>
      have h7 := (hT.sane pdp 2 _ _ hpdp (hi 2) h3).1 (by norm_num)
      obtain ⟨pd, h₂, hpd⟩ := hT.names hz hpdp (hi 2) (by norm_num) h3 h7
      cases h2 : (m.mem pd (v / 512 ^ 1 % 512)).testBit 0 with
      | false => exact .noPt h₃ h₂ h2
      | true =>
        cases h7 : (m.mem pd (v / 512 ^ 1 % 512)).testBit 7 with
        | true => exact .huge h₃ h₂ h2 h7
        | false =>
          obtain ⟨pt, h1, -⟩ := hT.names hz hpd (hi 1) (by norm_num) h2 h7
          exact .pt h₃ h₂ h1

end

lemma Names.decode (h : Names m t i g) (hl : l ≠ 0) : decode l (m.mem t i) = .table g :=
  decode_eq_table.mpr ⟨h.valid, hl, h.small, h.addr⟩

lemma decode_absent {e : ℕ} (h : e.testBit 0 = false) : decode l e = .empty := by simp [decode, h]

lemma Names.entry (h : Names m t i g) (j : ℕ) : m.entry (m.mem t i &&& physAddrMask) j = some (m.mem g j) := by
  rw [h.addr, Machine.entry, h.reached]
  rfl

/-- A walker goes past an entry that names a table. -/
lemma Names.rest {α : Type} {j : ℕ} (h : Names m t i g) (a b : α) (k : ℕ → Option α) :
    (if m.mem t i &&& present = 0 then some a
      else if m.mem t i &&& pageSizeBit ≠ 0 then some b
      else (m.entry (m.mem t i &&& physAddrMask) j).bind k) = k (m.mem g j) := by
  rw [if_neg (present_of_testBit h.valid), if_neg (by simp [h.small]), h.entry, bind_some]

/-- The walk of `virt` ends in a 2 MB page. -/
def InHugePage (mem : Mem ℕ ℕ) (pml4 virt : ℕ) : Prop := ∃ r, hwWalk mem pml4 virt = some r ∧ r.1 = 1

section Walks

variable {r virt : ℕ}

lemma hwWalk_noPdp (h : (m.mem r (vpn virt / 512 ^ 3 % 512)).testBit 0 = false) : hwWalk m.mem r virt = none := by
  rw [hwWalk, walk, decode_absent h]

section

variable (h3 : Names m r (vpn virt / 512 ^ 3 % 512) pdp)

include h3

lemma hwWalk_noPd
    (h : (m.mem pdp (vpn virt / 512 ^ 2 % 512)).testBit 0 = false) : hwWalk m.mem r virt = none := by
  rw [hwWalk, walk, h3.decode (by norm_num)]
  simp only [walk, decode_absent h, map_none]

variable (h2 : Names m pdp (vpn virt / 512 ^ 2 % 512) pd)

include h2

lemma hwWalk_noPt
    (h : (m.mem pd (vpn virt / 512 ^ 1 % 512)).testBit 0 = false) : hwWalk m.mem r virt = none := by
  rw [hwWalk, walk, h3.decode (by norm_num)]
  simp only [walk, h2.decode (show 1 + 1 ≠ 0 by norm_num), decode_absent h, map_none]

lemma hwWalk_huge (h : (m.mem pd (vpn virt / 512 ^ 1 % 512)).testBit 0 = true)
    (h' : (m.mem pd (vpn virt / 512 ^ 1 % 512)).testBit 7 = true) :
    hwWalk m.mem r virt = some (1, m.mem pd (vpn virt / 512 ^ 1 % 512),
      [m.mem r (vpn virt / 512 ^ 3 % 512), m.mem pdp (vpn virt / 512 ^ 2 % 512)]) := by
  have hD : decode (0 + 1) (m.mem pd (vpn virt / 512 ^ (0 + 1) % 512)) = .leaf := by
    rw [zero_add, decode_huge h', if_pos h]
  rw [hwWalk, walk, h3.decode (by norm_num)]
  simp only [walk, h2.decode (show 1 + 1 ≠ 0 by norm_num), hD, map_some]

lemma hwWalk_pt {pt : ℕ} (h1 : Names m pd (vpn virt / 512 ^ 1 % 512) pt) :
    hwWalk m.mem r virt = if (m.mem pt (vpn virt % 512)).testBit 0 then some (0, m.mem pt (vpn virt % 512),
      [m.mem r (vpn virt / 512 ^ 3 % 512), m.mem pdp (vpn virt / 512 ^ 2 % 512),
        m.mem pd (vpn virt / 512 ^ 1 % 512)]) else none := by
  rw [hwWalk, walk, h3.decode (by norm_num)]
  simp only [walk, h2.decode (show 1 + 1 ≠ 0 by norm_num), h1.decode (show 0 + 1 ≠ 0 by norm_num), decode_zero]
  cases (m.mem pt (vpn virt % 512)).testBit 0 <;> rfl

lemma inHugePage_pt {pt : ℕ} (h₁ : Names m pd (vpn virt / 512 ^ 1 % 512) pt) : ¬ InHugePage m.mem r virt := by
  rintro ⟨w, hw, h1⟩
  rw [hwWalk_pt h3 h2 h₁] at hw
  split at hw
  · cases hw
    simp at h1
  · simp at hw

/-! ### The walkers -/

end

variable (hroot : ∀ i, m.entry (r &&& physAddrMask) i = some (m.mem r i))

include hroot

/-- `read_pte` gives the PT entry that the walk reads, if it meets no 2 MB page. -/
lemma readPte_eq (hw : Walk m r (vpn virt)) (hn : ¬ InHugePage m.mem r virt) :
    readPte m r virt = some (ptEntry m.mem r virt) := by
  simp only [readPte, ptEntry, bottom, indexForAddr_levels virt, indexForAddr_zero,
    hroot, bind_eq_bind, bind_some, pure_def]
  cases hw with
  | noPdp h => rw [if_pos ((and_present _).mpr h), decode_absent h]
  | noPd h3 h =>
    rw [h3.rest, if_pos ((and_present _).mpr h)]
    simp only [h3.decode (show 2 + 1 ≠ 0 by norm_num), decode_absent h]
  | noPt h3 h2 h =>
    rw [h3.rest, h2.rest, if_pos ((and_present _).mpr h)]
    simp only [h3.decode (show 2 + 1 ≠ 0 by norm_num), h2.decode (show 1 + 1 ≠ 0 by norm_num), decode_absent h]
  | huge h3 h2 h h' => exact absurd ⟨_, hwWalk_huge h3 h2 h h', rfl⟩ hn
  | pt h3 h2 h1 =>
    rw [h3.rest, h2.rest, if_neg (present_of_testBit h1.valid), h1.entry, bind_some]
    simp only [h3.decode (show 2 + 1 ≠ 0 by norm_num), h2.decode (show 1 + 1 ≠ 0 by norm_num),
      h1.decode (show 0 + 1 ≠ 0 by norm_num)]

/-- In a 2 MB page it never answers `None`. -/
lemma readPte_huge (hw : Walk m r (vpn virt)) (hn : InHugePage m.mem r virt) : readPte m r virt ≠ some none := by
  obtain ⟨w, hwalk, h1⟩ := hn
  simp only [readPte, indexForAddr_levels virt, hroot, bind_eq_bind, bind_some, pure_def]
  cases hw with
  | noPdp h => rw [hwWalk_noPdp h] at hwalk; simp at hwalk
  | noPd h3 h => rw [hwWalk_noPd h3 h] at hwalk; simp at hwalk
  | noPt h3 h2 h => rw [hwWalk_noPt h3 h2 h] at hwalk; simp at hwalk
  | huge h3 h2 h =>
    rw [h3.rest, h2.rest, if_neg (present_of_testBit h)]
    cases m.entry _ _ <;> simp
  | pt h3 h2 h₁ => exact absurd ⟨w, hwalk, h1⟩ (inHugePage_pt h3 h2 h₁)

/-- `is_nx` is the bit of the leaf, at whatever level it is. -/
lemma isNx_eq (hw : Walk m r (vpn virt)) {w : ℕ × ℕ × List ℕ} (hwalk : hwWalk m.mem r virt = some w) :
    isNx m r virt = some (w.2.1.testBit 63) := by
  simp only [isNx, indexForAddr_levels virt, indexForAddr_zero, hroot, bind_eq_bind, bind_some,
    pure_def]
  cases hw with
  | noPdp h => rw [hwWalk_noPdp h] at hwalk; simp at hwalk
  | noPd h3 h => rw [hwWalk_noPd h3 h] at hwalk; simp at hwalk
  | noPt h3 h2 h => rw [hwWalk_noPt h3 h2 h] at hwalk; simp at hwalk
  | huge h3 h2 h h' =>
    rw [h3.rest, h2.rest, if_neg (present_of_testBit h), if_pos (huge_of_testBit h')]
    rw [hwWalk_huge h3 h2 h h'] at hwalk
    cases hwalk
    rw [decide_noExecute]
  | pt h3 h2 h1 =>
    rw [h3.rest, h2.rest, h1.rest]
    rw [hwWalk_pt h3 h2 h1] at hwalk
    split at hwalk
    · rename_i h0
      cases hwalk
      rw [if_neg (present_of_testBit h0), decide_noExecute]
    · simp at hwalk

omit hroot in
/-- The address of a PT entry, put together with the offset. -/
lemma leafBase_pt (e : ℕ) : (e &&& physAddrMask) ||| (virt &&& 0xFFF) = leafBase 0 e + virt % 2 ^ (12 + 9 * 0) := by
  rw [and_physAddrMask, show (0xFFF : ℕ) = 2 ^ 12 - 1 by norm_num, Nat.and_two_pow_sub_one_eq_mod, leafBase]
  have hlt : virt % 2 ^ 12 < 2 ^ 12 := Nat.mod_lt _ (by norm_num)
  rw [mul_comm (e / 2 ^ 12 % 2 ^ 40), ← Nat.two_pow_add_eq_or_of_lt hlt, mul_comm]

/-- `translate` is the hardware's, if it meets no 2 MB page. -/
lemma translate_eq (hpt : m.ptInitialized = true) (hcr3 : m.cr3 = r) (hw : Walk m r (vpn virt))
    (hn : ¬ InHugePage m.mem r virt) : translate m virt = some (hwTranslate m.mem r virt) := by
  simp only [translate, hpt, hcr3, Bool.not_true, Bool.false_eq_true, if_false, hwTranslate,
    indexForAddr_levels virt, indexForAddr_zero, hroot, bind_eq_bind, bind_some,
    pure_def]
  cases hw with
  | noPdp h => rw [hwWalk_noPdp h, if_pos ((and_present _).mpr h)]; rfl
  | noPd h3 h => rw [hwWalk_noPd h3 h, h3.rest, if_pos ((and_present _).mpr h)]; rfl
  | noPt h3 h2 h => rw [hwWalk_noPt h3 h2 h, h3.rest, h2.rest, if_pos ((and_present _).mpr h)]; rfl
  | huge h3 h2 h h' => exact absurd ⟨_, hwWalk_huge h3 h2 h h', rfl⟩ hn
  | pt h3 h2 h1 =>
    rw [hwWalk_pt h3 h2 h1, h3.rest, h2.rest, if_neg (present_of_testBit h1.valid), h1.entry, bind_some, leafBase_pt]
    cases h0 : (m.mem _ (vpn virt % 512)).testBit 0 <;> simp only [and_present, h0, if_true, Bool.true_eq_false, if_false] <;> rfl

end Walks

/-! ### Agreement -/

/-- The software walkers agree with the hardware on `virt` under the PML4 `r`:
`translate`, when `r` is loaded, is the hardware's translation; `read_pte`
answers, with an entry only if the walk reads that PT entry, and with `None`
if the walk ends in a huge page; and `is_nx` is the no-execute bit of the leaf. -/
structure WalkersAgree (m : Machine) (r virt : ℕ) : Prop where
  translate : m.ptInitialized = true → m.cr3 = r → translate m virt = some (hwTranslate m.mem r virt)
  readPte_some : ∀ e, readPte m r virt = some (some e) → ptEntry m.mem r virt = some e
  readPte_none : ∀ w, hwWalk m.mem r virt = some w → w.1 ≠ 0 → readPte m r virt = some none
  isNx : ∀ w, hwWalk m.mem r virt = some w → isNx m r virt = some (w.2.1.testBit 63)

lemma hwWalk_level {r virt : ℕ} (hw : Walk m r (vpn virt)) {w : ℕ × ℕ × List ℕ}
    (h : hwWalk m.mem r virt = some w) (h0 : w.1 ≠ 0) : InHugePage m.mem r virt := by
  refine ⟨w, h, ?_⟩
  cases hw with
  | noPdp h' => rw [hwWalk_noPdp h'] at h; simp at h
  | noPd h3 h' => rw [hwWalk_noPd h3 h'] at h; simp at h
  | noPt h3 h2 h' => rw [hwWalk_noPt h3 h2 h'] at h; simp at h
  | huge h3 h2 h' h'' =>
    rw [hwWalk_huge h3 h2 h' h''] at h
    cases h
    rfl
  | pt h3 h2 h1 =>
    rw [hwWalk_pt h3 h2 h1] at h
    split at h
    · cases h
      exact absurd rfl h0
    · simp at h

lemma Tables.entry_root (hz : z.zone.top ≤ directMapSize) (hT : Tables z own M m) {r : ℕ} (hr : Root own r) (i : ℕ) :
    m.entry (r &&& physAddrMask) i = some (m.mem r i) := by
  rw [and_physAddrMask_page (hT.page r _ hr).1 (lt_address (hT.lt hz hr)), Machine.entry, hT.physToVirtual_eq hz hr]
  rfl

/-- The walkers agree exactly outside 2 MB pages. -/
lemma Tables.walkers (hz : z.zone.top ≤ directMapSize) (hT : Tables z own M m) {r : ℕ} (hr : Root own r)
    (virt : ℕ) : WalkersAgree m r virt ↔ ¬ InHugePage m.mem r virt := by
  have hw := hT.walk hz hr (vpn virt)
  have hroot := hT.entry_root hz hr
  constructor
  · rintro h ⟨w, hwalk, h1⟩
    exact readPte_huge hroot hw ⟨w, hwalk, h1⟩ (h.readPte_none w hwalk (by omega))
  · intro hn
    refine ⟨fun hpt hcr3 => translate_eq hroot hpt hcr3 hw hn, fun e he => ?_, fun w hwalk h0 => ?_,
      fun w hwalk => isNx_eq hroot hw hwalk⟩
    · rw [readPte_eq hroot hw hn] at he
      exact Option.some.inj he
    · exact absurd (hwWalk_level hw hwalk h0) hn

/-- The machine when the allocator is up and no table is there yet; what the
pages hold does not matter. -/
def bootMachine (regions : List (ℕ × ℕ)) (bi ks kn : ℕ) (excl : List (ℕ × ℕ)) (mem : Mem ℕ ℕ) (cr3 : ℕ) : Machine where
  phys := ((Phys.initFromRegions regions bi ks kn excl).run Phys.State.boot).2
  mem := mem
  ptInitialized := false
  kernelPml4 := 0
  cr3 := cr3

/-- Memory below the end of the direct map. -/
lemma resetZone_top (he : ∀ r ∈ regions, r.1 + r.2 ≤ directMapSize) (bi ks kn : ℕ) :
    (Phys.resetZone regions bi ks kn Phys.State.boot).zone.top ≤ directMapSize :=
  Phys.zoneBounds_top_le fun r hr => (Phys.regionBounds_end_le r).trans (he r hr)

variable {excl : List (ℕ × ℕ)}

lemma boot_spaces (hd : regions.Pairwise Phys.RangesDisjoint)
    (he : ∀ r ∈ regions, r.1 + r.2 ≤ directMapSize) {bi ks kn : ℕ} {mem : Mem ℕ ℕ} {cr3 : ℕ}
    (h : Reach (bootMachine regions bi ks kn excl mem cr3) m roots) :
    Spaces (Phys.resetZone regions bi ks kn Phys.State.boot) m roots :=
  reach_spaces (resetZone_top he bi ks kn)
    (Phys.init_inv hd (fun r hr => lt_of_le_of_lt (he r hr) (by decide)) bi ks kn excl) h

lemma boot_kernel (hd : regions.Pairwise Phys.RangesDisjoint)
    (he : ∀ r ∈ regions, r.1 + r.2 ≤ directMapSize) {bi ks kn : ℕ} {mem : Mem ℕ ℕ} {cr3 : ℕ}
    (h : Reach (bootMachine regions bi ks kn excl mem cr3) m roots) (hp : m.ptInitialized = true) :
    m.kernelPml4 ∈ roots :=
  reach_kernel (resetZone_top he bi ks kn)
    (Phys.init_inv hd (fun r hr => lt_of_le_of_lt (he r hr) (by decide)) bi ks kn excl) rfl h hp

/-- In every address space that the kernel can build from memory below the
end of the direct map, the walkers agree with the hardware on an address
exactly if it does not lie in a 2 MB page. -/
theorem walkersAgree_iff {regions : List (ℕ × ℕ)} (hd : regions.Pairwise Phys.RangesDisjoint)
    (he : ∀ r ∈ regions, r.1 + r.2 ≤ directMapSize) (bi ks kn : ℕ) (excl : List (ℕ × ℕ)) (mem : Mem ℕ ℕ) (cr3 : ℕ)
    {m : Machine} {roots : List ℕ} (h : Reach (bootMachine regions bi ks kn excl mem cr3) m roots)
    {pml4 : ℕ} (hp : pml4 ∈ roots) (virt : ℕ) : WalkersAgree m pml4 virt ↔ ¬ InHugePage m.mem pml4 virt := by
  obtain ⟨own, M, hT, hroots⟩ := boot_spaces hd he h
  exact hT.walkers (resetZone_top he bi ks kn) (hroots pml4 hp) virt

/-- 32 pages at 1 MB, all zero. -/
def smallBoot : Machine := bootMachine [(0x100000, 0x20000)] 0x9000 0 0 [] (fun _ _ => 0) 0

/-- The addresses of a region that `init` maps with 4 KB pages. -/
theorem walkersAgree_region : ∃ m pml4, Reach smallBoot m [pml4] ∧
    hwTranslate m.mem pml4 0xFFFF800000102345 = some 0x102345 ∧ WalkersAgree m pml4 0xFFFF800000102345 := by
  have hrun : (((SpaceCall.init [(0x100000, 0x20000)] none none).prog smallBoot).map (fun x =>
      (x.1, hwTranslate x.2.mem 0x11F000 0xFFFF800000102345,
        (hwWalk x.2.mem 0x11F000 0xFFFF800000102345).map fun w => w.1)) : Option (Option ℕ × Option ℕ × Option ℕ)) =
      some (some 0x11F000, some 0x102345, some 0) := by decide +kernel
  obtain ⟨⟨r, m⟩, hx, hv⟩ := Option.map_eq_some_iff.mp hrun
  simp only [Prod.mk.injEq] at hv
  obtain ⟨rfl, hhw, hlevel⟩ := hv
  have hreach := Reach.call _ .start (by simp [SpaceCall.uses]) hx
  refine ⟨m, 0x11F000, hreach, hhw, (walkersAgree_iff (List.pairwise_singleton _ _) (by simp [directMapSize]) _ _ _ _ _ _
    hreach List.mem_cons_self _).mpr ?_⟩
  rintro ⟨w, hw, h1⟩
  rw [hw, Option.map_some, h1] at hlevel
  simp at hlevel

/-- Under the tables that `init` loads, 0x201000 lies in a 2 MB page of the
identity map. The hardware maps it to itself; `translate` and `read_pte` take
the memory of the 2 MB page for a page table. -/
theorem walkers_disagree : ∃ m pml4, Reach smallBoot m [pml4] ∧
    hwTranslate m.mem pml4 0x201000 = some 0x201000 ∧ translate m 0x201000 = some none ∧
    readPte m pml4 0x201000 = some (some 0) ∧ ¬ WalkersAgree m pml4 0x201000 := by
  have hrun : (((SpaceCall.init [(0x100000, 0x20000)] none none).prog smallBoot).map (fun x =>
      (x.1, hwTranslate x.2.mem 0x11F000 0x201000, translate x.2 0x201000,
        readPte x.2 0x11F000 0x201000, ptEntry x.2.mem 0x11F000 0x201000)) :
        Option (Option ℕ × Option ℕ × Option (Option ℕ) × Option (Option ℕ) × Option ℕ)) =
      some (some 0x11F000, some 0x201000, some none, some (some 0), none) := by decide +kernel
  obtain ⟨⟨r, m⟩, hx, hv⟩ := Option.map_eq_some_iff.mp hrun
  simp only [Prod.mk.injEq] at hv
  obtain ⟨rfl, hhw, htr, hpte, hpt⟩ := hv
  refine ⟨m, 0x11F000, Reach.call _ .start (by simp [SpaceCall.uses]) hx, hhw, htr, hpte, fun hag => ?_⟩
  have hentry := hag.readPte_some 0 hpte
  rw [hpt] at hentry
  simp at hentry

end LodaxOS.Virt
