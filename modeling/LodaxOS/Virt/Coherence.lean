/-
# One kernel half for all address spaces

The forks of the kernel's PML4 share its upper half: their entries name the
same PDPs. Nothing keeps the entries equal later. A mapping under an entry
that is not present, or an unmapping that leaves a PDP empty, changes the entry
of one PML4 only (`coherence_fails`); in every run without such calls the upper
half is the same under all PML4s, and no table in use is free
(`coherent_of_clean`).
-/
import LodaxOS.Virt.Fault
import LodaxOS.Virt.Isolation
import LodaxOS.Virt.Unmap

namespace LodaxOS.Virt

open Phys (pageSize Inv)
open Radix Partial

variable {z : Phys.State} {own own' own'' : Owners} {M M' M'' : Multiset ℕ} {m m' m'' : Machine}

/-! ### The calls -/

/-- A call that works on the kernel's half of the address spaces, or below it. -/
inductive KernelCall
  | fork
  | switchPml4 (pml4 : ℕ)
  | mapUser (pml4 : ℕ) (call : MapCall)
  | mapContiguous (virt phys n flags : ℕ)
  | mapRegionHigherHalf (phys size flags : ℕ)
  | pageFault (kernelVmas : VmaTree.State Unit) (addr errorCode : ℕ)
  | unmap (virt : ℕ)

namespace KernelCall

/-- The call, and the PML4 it makes; a fork is one that found the memory. Page
faults and `unmap` work under the loaded PML4. -/
def prog : KernelCall → Op (Option ℕ)
  | fork => do
    let m ← get
    match ← forkPml4 m.kernelPml4 with
    | some pml4 => pure (some pml4)
    | none => failure
  | switchPml4 pml4 => (fun _ => none) <$> (modify fun m => { m with cr3 := pml4 } : Op Unit)
  | mapUser pml4 call => (fun _ => none) <$> call.prog pml4
  | mapContiguous virt phys n flags => do
    let m ← get
    (fun _ => none) <$> Virt.mapContiguous m.kernelPml4 virt phys n flags
  | mapRegionHigherHalf phys size flags => do
    let m ← get
    (fun _ => none) <$> Virt.mapRegionHigherHalf m.kernelPml4 phys size flags
  | pageFault kernelVmas addr errorCode =>
    (fun _ => none) <$> handlePageFault (none : Option (ProcessMemory Unit)) kernelVmas addr errorCode
  | unmap virt => (fun _ => none) <$> Virt.unmap virt

/-- Calls for the PML4s that were made, faults of the kernel on addresses of
its half that are not present, and `unmap` of such addresses. -/
def Valid (roots : List ℕ) : KernelCall → Prop
  | fork => True
  | switchPml4 pml4 => pml4 ∈ roots
  | mapUser pml4 call => pml4 ∈ roots ∧ call.Low
  | mapContiguous _ _ _ _ => True
  | mapRegionHigherHalf _ _ _ => True
  | pageFault _ addr errorCode =>
    higherHalf ≤ addr ∧ addr < 2 ^ 64 ∧ errorCode.testBit 0 = false ∧ errorCode.testBit 2 = false
  | unmap virt => higherHalf ≤ virt ∧ virt < 2 ^ 64

/-- If the page `v` lies in the upper half, its PML4 entry is present. -/
def TopPresent (mem : Mem ℕ ℕ) (r v : ℕ) : Prop := 256 ≤ v / 512 ^ 3 → (mem r (v / 512 ^ 3)).testBit 0 = true

/-- The call changes no PML4 entry of the upper half: what it maps there has
its PML4 entry, and an unmapped page lies in no 2 MB page and leaves one of
the tables below the PML4 with another entry. -/
def Clean (m : Machine) : KernelCall → Prop
  | fork => True
  | switchPml4 _ => True
  | mapUser _ _ => True
  | mapContiguous virt _ n _ => ∀ i < n, TopPresent m.mem m.kernelPml4 (vpn (virt + i * pageSize))
  | mapRegionHigherHalf phys size _ => ∀ i < (size + pageSize - 1) / pageSize,
    TopPresent m.mem m.kernelPml4 (vpn (higherHalf + (phys + i * pageSize)))
  | pageFault _ addr _ => TopPresent m.mem m.cr3 (vpn addr)
  | unmap virt => ¬ InHugePage m.mem m.cr3 virt ∧
    ((∃ pt, Down 512 decode m.mem (vpn virt) 3 m.cr3 0 pt) → Keeps m.mem m.cr3 (vpn virt))

end KernelCall

/-- The machine and the PML4s after `init` and calls that satisfy `ok`. -/
inductive KernelRun (ok : Machine → KernelCall → Prop) (m0 : Machine) : Machine → List ℕ → Prop
  | init {regions : List (ℕ × ℕ)} {fbPhys kernelPhys : Option (ℕ × ℕ)} {m : Machine}
      (h : init regions fbPhys kernelPhys m0 = some ((), m)) : KernelRun ok m0 m [m.kernelPml4]
  | call {m m' : Machine} {roots : List ℕ} {r : Option ℕ} (c : KernelCall) (h : KernelRun ok m0 m roots)
      (hv : c.Valid roots) (hok : ok m c) (hc : c.prog m = some (r, m')) : KernelRun ok m0 m' (r.toList ++ roots)

/-- An address of the upper half leads to the same place under all PML4s, and
no table that can be reached from one is free. -/
def Coherent (m : Machine) (roots : List ℕ) : Prop :=
  (∀ r ∈ roots, ∀ r' ∈ roots, ∀ a, higherHalf ≤ a → a < 2 ^ 64 → hwTranslate m.mem r a = hwTranslate m.mem r' a) ∧
  ∀ r ∈ roots, ∀ t, TableOf m.mem r t → t / pageSize ∉ m.phys.free

/-! ### The entries of the PML4s -/

/-- The invariant: the entries of the upper half name the same tables. -/
structure Coherence (z : Phys.State) (m : Machine) (roots : List ℕ) : Prop where
  spaces : Spaces z m roots
  kernel : m.kernelPml4 ∈ roots
  loaded : m.cr3 ∈ roots
  shared : ∀ r ∈ roots, ∀ j, 256 ≤ j → j < 512 → decode 3 (m.mem r j) = decode 3 (m.mem m.kernelPml4 j)

lemma hwTranslate_of_decode {mem : Mem ℕ ℕ} {r r' a : ℕ}
    (h : decode 3 (mem r' (vpn a / 512 ^ 3 % 512)) = decode 3 (mem r (vpn a / 512 ^ 3 % 512)))
    (hleaf : decode 3 (mem r (vpn a / 512 ^ 3 % 512)) ≠ .leaf) : hwTranslate mem r' a = hwTranslate mem r a := by
  unfold hwTranslate hwWalk
  rw [walk, walk, h]
  cases hD : decode 3 (mem r (vpn a / 512 ^ 3 % 512)) with
  | empty => rfl
  | leaf => exact absurd hD hleaf
  | table g =>
    simp only [Option.map_map]
    rfl

lemma Coherence.coherent {roots : List ℕ} (h : Coherence z m roots) : Coherent m roots := by
  obtain ⟨own, M, hT, hroots⟩ := h.spaces
  constructor
  · have hk : ∀ r ∈ roots, ∀ a, higherHalf ≤ a → a < 2 ^ 64 →
        hwTranslate m.mem r a = hwTranslate m.mem m.kernelPml4 a := by
      intro r hr a hlo hhi
      have hlt : vpn a / 512 ^ 3 % 512 < 512 := Nat.mod_lt _ (by norm_num)
      apply hwTranslate_of_decode (h.shared r hr _ (vpn_upper hlo hhi) hlt)
      exact hT.decode_ne_leaf (hroots _ h.kernel) (by norm_num) hlt
    intro r hr r' hr' a hlo hhi
    rw [hk r hr a hlo hhi, hk r' hr' a hlo hhi]
  · intro r hr t ht hfree
    obtain ⟨p, hp⟩ := ht.owned hT.tree (hroots r hr)
    have hdisj := (Multiset.nodup_add.mp hT.alloc.nodup).2.2
    exact Multiset.disjoint_left.mp hdisj hfree (hT.page t p hp).2

/-- The PML4s and the registers as before, and the entries of the upper half
name what they named. -/
lemma Coherence.keep {roots : List ℕ} (h : Coherence z m roots) (hS : Spaces z m' roots) (hregs : SameRegs m m')
    (hmem : ∀ r ∈ roots, ∀ j, 256 ≤ j → j < 512 → decode 3 (m'.mem r j) = decode 3 (m.mem r j)) :
    Coherence z m' roots where
  spaces := hS
  kernel := by
    rw [hregs.kernelPml4]
    exact h.kernel
  loaded := by
    rw [hregs.cr3]
    exact h.loaded
  shared r hr j hlo hhi := by
    rw [hregs.kernelPml4, hmem r hr j hlo hhi, hmem _ h.kernel j hlo hhi]
    exact h.shared r hr j hlo hhi

lemma Grown.sameRegs (h : Grown own M m own' M' m') : SameRegs m m' := ⟨h.regs.1, h.regs.2.1, h.regs.2.2⟩

/-! ### Mapping -/

section Edits

variable {r : ℕ} {V : Set ℕ} (hV : ∀ v ∈ V, v < 512 ^ 4)

/-- The entries of the upper half that the pages of `V` use name tables. -/
def TopNamed (mem : Mem ℕ ℕ) (r : ℕ) (V : Set ℕ) : Prop :=
  ∀ v ∈ V, 256 ≤ v / 512 ^ 3 → ∃ g, decode 3 (mem r (v / 512 ^ 3)) = .table g

include hV

/-- No edit changes what an entry of the upper half names. -/
lemma Edit.top_eq (hT : Tables z own M m) (hr : Root own r) (h : Edit z r V own M m own' M' m')
    (htop : TopNamed m.mem r V) {f j : ℕ} (hf : Root own f) (hj : 256 ≤ j) :
    decode 3 (m'.mem f j) = decode 3 (m.mem f j) := by
  have hdig : ∀ v ∈ V, v / 512 ^ 3 % 512 = v / 512 ^ 3 := by
    intro v hv
    have hlt := hV v hv
    norm_num at hlt ⊢
    omega
  -- an entry of a PML4 that is on the way is one of `r`
  have hroot : ∀ {v l t}, v ∈ V → Down 512 decode m.mem v 3 r l t → f = t → l = 3 ∧ t = r := by
    rintro v l t hv hd rfl
    have ht := hd.owned (by norm_num) hT.tree (hr.owned (hV v hv))
    obtain ⟨rfl, -⟩ : 3 = l ∧ 0 = v / 512 ^ (l + 1) := by
      rw [show own f = some (3, 0) from hf] at ht
      simpa using ht
    exact ⟨rfl, hd.unique (.here 3 r)⟩
  cases h with
  | @hang v l t g flags ws phys hv hd hfl hno hp hs hws =>
    change decode 3 (m.mem.hang t _ _ g ws f j) = _
    rw [Mem.hang_of_ne _ _ _ (hp.ne hf)]
    rintro ⟨rfl, rfl⟩
    obtain ⟨hl, rfl⟩ := hroot hv hd rfl
    obtain rfl : l = 2 := by omega
    rw [hdig v hv] at hj hno
    obtain ⟨g', hg'⟩ := htop v hv hj
    exact hno g' hg'
  | @tag v l t g flags hv hd hD =>
    change decode 3 (m.mem.write t _ _ f j) = _
    by_cases hc : f = t ∧ j = v / 512 ^ (l + 1) % 512
    · obtain ⟨rfl, rfl⟩ := hc
      obtain ⟨hl, rfl⟩ := hroot hv hd rfl
      obtain rfl : l = 2 := by omega
      rw [Mem.write_self, decode_or_user hD, hD]
    · rw [Mem.write_of_ne _ _ hc]
  | @leaf v t w hv hd =>
    change decode 3 (m.mem.write t _ _ f j) = _
    rw [Mem.write_of_ne]
    rintro ⟨hc, -⟩
    exact absurd (hroot hv hd hc).1 (by norm_num)

lemma Edits.top_eq (hT : Tables z own M m) (hr : Root own r) (h : Edits z r V own M m own' M' m')
    (htop : TopNamed m.mem r V) : ∀ f j, Root own f → 256 ≤ j → decode 3 (m'.mem f j) = decode 3 (m.mem f j) := by
  induction h with
  | refl => exact fun _ _ _ _ => rfl
  | tail h' he ih =>
    obtain ⟨hT', hG⟩ := h'.tables hV hT hr
    intro f j hf hj
    rw [← ih f j hf hj]
    refine he.top_eq hV hT' (hr.mono hG.ext) (fun v hv hup => ?_) (hf.mono hG.ext) hj
    obtain ⟨g, hg⟩ := htop v hv hup
    exact ⟨g, (ih r _ hr hup).trans hg⟩

omit hV in
lemma Tables.topNamed (hT : Tables z own M m) (hr : Root own r)
    (h : ∀ v ∈ V, KernelCall.TopPresent m.mem r v) (hV : ∀ v ∈ V, v < 512 ^ 4) : TopNamed m.mem r V := by
  intro v hv hup
  have hlt : v / 512 ^ 3 < 512 := by
    have := hV v hv
    norm_num at this ⊢
    omega
  have hp := h v hv hup
  have h7 := (hT.sane r 3 0 _ hr hlt hp).1 (by norm_num)
  exact ⟨_, decode_eq_table.mpr ⟨hp, by norm_num, h7, rfl⟩⟩

end Edits

/-- The tables in use alone. -/
lemma Tables.used (hT : Tables z own M m) {roots : List ℕ} (hroots : ∀ r ∈ roots, Root own r) :
    ∃ used, Tables z used M m ∧ (∀ r ∈ roots, Root used r) ∧
      ∀ f p, used f = some p → own f = some p ∧ ∃ r ∈ roots, f ∈ tables 512 decode m.mem 3 r := by
  classical
  let used : Owners := fun f => if ∃ r ∈ roots, f ∈ tables 512 decode m.mem 3 r then own f else none
  have hused : ∀ {f p}, used f = some p → own f = some p ∧ ∃ r ∈ roots, f ∈ tables 512 decode m.mem 3 r := by
    intro f p hf
    by_cases hc : ∃ r ∈ roots, f ∈ tables 512 decode m.mem 3 r
    · exact ⟨by simpa [used, if_pos hc] using hf, hc⟩
    · simp [used, if_neg hc] at hf
  have huse : ∀ {f r}, r ∈ roots → f ∈ tables 512 decode m.mem 3 r → used f = own f :=
    fun hr hf => if_pos ⟨_, hr, hf⟩
  refine ⟨used, ⟨hT.alloc, ?_, fun f k p j hf => hT.sane f k p j (hused hf).1, fun f p hf => hT.page f p (hused hf).1⟩,
    fun r hr => (huse hr (self_mem_tables m.mem r 3)).trans (hroots r hr), fun f p => hused⟩
  refine hT.tree.restrict (fun f p hf => (hused hf).1) fun f l q i g hf hi hD => ?_
  obtain ⟨hown, r, hr, hmem⟩ := hused hf
  exact (huse hr (hT.tree.mem_tables_of_named (hroots r hr) hmem hown hi hD)).symm

lemma vpn_ge {a : ℕ} (hlo : higherHalf ≤ a) (hhi : a < 2 ^ 64) : 2 ^ 35 ≤ vpn a := by
  unfold vpn higherHalf at *
  norm_num at *
  omega

namespace Coherence

variable {roots : List ℕ} (h : Coherence z m roots)

include h

/-- Edits under one of the PML4s, where the entries of the upper half are there. -/
lemma edits {r : ℕ} {V : Set ℕ} (hV : ∀ v ∈ V, v < 512 ^ 4) (hr : r ∈ roots)
    (htop : ∀ v ∈ V, KernelCall.TopPresent m.mem r v)
    (hedits : ∀ {own M}, Tables z own M m → Root own r → ∃ own' M', Edits z r V own M m own' M' m') :
    Coherence z m' roots := by
  obtain ⟨own, M, hT, hroots⟩ := h.spaces
  obtain ⟨own', M', hE⟩ := hedits hT (hroots r hr)
  obtain ⟨hT', hG⟩ := hE.tables hV hT (hroots r hr)
  refine h.keep ⟨own', M', hT', fun n hn => (hroots n hn).mono hG.ext⟩ hG.sameRegs fun n hn j hlo _ => ?_
  exact hE.top_eq hV hT (hroots r hr) (hT.topNamed (hroots r hr) htop hV) n j (hroots n hn) hlo

/-- Where the upper half is shared, each place on the way of one of its pages
has one table among those in use. -/
lemma sole {v : ℕ} (hlo : 2 ^ 35 ≤ v) (hhi : v < 512 ^ 4) :
    ∃ own M, Tables z own M m ∧ (∀ r ∈ roots, Root own r) ∧ Sole own v := by
  obtain ⟨own, M, hT, hroots⟩ := h.spaces
  obtain ⟨used, hT, hroots, hused⟩ := hT.used hroots
  refine ⟨used, M, hT, hroots, fun l hl f f' hf hf' => ?_⟩
  obtain ⟨-, r, hr, hmem⟩ := hused f _ hf
  obtain ⟨-, r', hr', hmem'⟩ := hused f' _ hf'
  have hd := hT.tree.down_of_mem hf rfl (hroots r hr) hmem
  have hd' := hT.tree.down_of_mem hf' rfl (hroots r' hr') hmem'
  have hup : 256 ≤ v / 512 ^ (2 + 1) % 512 := by
    norm_num at hlo hhi ⊢
    omega
  have htop : decode 3 (m.mem r (v / 512 ^ (2 + 1) % 512)) = decode 3 (m.mem r' (v / 512 ^ (2 + 1) % 512)) := by
    have hlt : v / 512 ^ (2 + 1) % 512 < 512 := Nat.mod_lt _ (by norm_num)
    rw [h.shared r hr _ hup hlt, h.shared r' hr' _ hup hlt]
  -- both ways go through the PDP that the entry names
  cases hd with
  | here => exact absurd hl (by norm_num)
  | step hD hd =>
    cases hd' with
    | here => exact absurd hl (by norm_num)
    | step hD' hd' =>
      rw [hD, hD', Node.table.injEq] at htop
      subst htop
      exact hd.unique hd'

lemma unmap (hz : z.zone.top ≤ directMapSize) {virt : ℕ} {u : Unit} (hlo : higherHalf ≤ virt) (hhi : virt < 2 ^ 64)
    (hc : KernelCall.Clean m (.unmap virt)) (hrun : Virt.unmap virt m = some (u, m')) : Coherence z m' roots := by
  obtain ⟨own, M, hT, hroots, hs⟩ := h.sole (vpn_ge hlo hhi) (vpn_lt virt)
  obtain ⟨own', M', hU⟩ := unmap_unmapped hz hT (hroots _ h.loaded) rfl hc.1 hs hc.2 hrun
  refine h.keep ⟨own', M', hU.tables, fun n hn => hU.root n (hroots n hn)⟩ hU.regs fun n hn j _ _ => ?_
  rw [hU.pml4 n (hroots n hn)]

lemma fork (hz : z.zone.top ≤ directMapSize) {c : ℕ} (hrun : forkPml4 m.kernelPml4 m = some (some c, m')) :
    Coherence z m' (c :: roots) := by
  obtain ⟨own, M, hT, hroots⟩ := h.spaces
  have hk := hroots _ h.kernel
  obtain ⟨own', M', hF⟩ := forkPml4_forking hT hk hz rfl hrun
  have hregs := hF.grew.grown.sameRegs
  have hold : ∀ n ∈ roots, m'.mem n = m.mem n := fun n hn => hF.grew.frame n _ (hroots n hn)
  refine ⟨⟨own', M', hF.grew.tables, ?_⟩, ?_, ?_, ?_⟩
  · intro n hn
    rcases List.mem_cons.mp hn with rfl | hn
    · exact hF.root
    · exact (hroots n hn).mono hF.grew.grown.ext
  · rw [hregs.kernelPml4]
    exact List.mem_cons_of_mem _ h.kernel
  · rw [hregs.cr3]
    exact List.mem_cons_of_mem _ h.loaded
  · intro n hn j hlo hhi
    rw [hregs.kernelPml4, hold _ h.kernel]
    rcases List.mem_cons.mp hn with rfl | hn
    · rw [hF.upper j hlo]
      split
      · rfl
      · rename_i hc
        have habs : (m.mem m.kernelPml4 j).testBit 0 = false := by
          simpa [hhi] using hc
        rw [decode_absent habs, decode_absent (by simp)]
    · rw [hold n hn]
      exact h.shared n hn j hlo hhi

end Coherence

/-! ### Demand paging -/

/-- A page that is no table is written. -/
lemma Tables.fillOther (hT : Tables z own M m) {page : ℕ} (hown : own page = none) (ws : ℕ → ℕ) :
    Tables z own M { m with mem := m.mem.fill page ws } := by
  have hne : ∀ {f p}, own f = some p → f ≠ page := by
    rintro f p hf rfl
    rw [hown] at hf
    simp at hf
  refine ⟨hT.alloc, hT.tree.fill hown, fun f k p j hf hj => ?_, hT.page⟩
  change Sane k (m.mem.fill page ws f j)
  rw [Mem.fill_of_ne _ _ (hne hf)]
  exact hT.sane f k p j hf hj

lemma pageBase_eq {a : ℕ} (h : a < 2 ^ 64) : pageBase a = a / pageSize * pageSize := by
  have hand := Words.and_high (w := 64) (a := 12) h (by norm_num)
  unfold pageBase pageSize
  norm_num at hand ⊢
  exact hand

lemma vpn_pageBase {a : ℕ} (h : a < 2 ^ 64) : vpn (pageBase a) = vpn a := by
  rw [pageBase_eq h]
  unfold vpn pageSize
  norm_num

lemma Tables.pageBase_root (hz : z.zone.top ≤ directMapSize) (hT : Tables z own M m) {r : ℕ} (hr : Root own r) :
    pageBase r = r := by
  rw [pageBase_eq (lt_trans (hT.lt hz hr) (by decide)), Nat.div_mul_cancel (hT.page r _ hr).1]

lemma mapPageExplicit_edits (hz : z.zone.top ≤ directMapSize) {r virt phys flags : ℕ} {V : Set ℕ} {u : Unit}
    (hV : ∀ v ∈ V, v < 512 ^ 4) (hv : vpn virt ∈ V) (hT : Tables z own M m) (hr : Root own r)
    (h : mapPageExplicit r virt phys flags m = some (u, m')) : ∃ own' M', Edits z r V own M m own' M' m' := by
  obtain ⟨_, m1, hread, h1⟩ := bind_eq_some.mp h
  obtain ⟨_, -, he⟩ := Option.map_eq_some_iff.mp hread
  obtain rfl : m = m1 := (Prod.mk.inj he).2
  obtain ⟨_, m2, htv, h2⟩ := bind_eq_some.mp h1
  obtain ⟨rfl, rfl⟩ := hT.toVirtual hz hr htv
  exact mapPage_edits hz hV hv hT hr h2

/-- A page of the kernel is demanded under the loaded PML4. -/
lemma Coherence.demandPage {roots : List ℕ} (h : Coherence z m roots) (hz : z.zone.top ≤ directMapSize) {addr perm : ℕ}
    {b : Bool} (haddr : addr < 2 ^ 64) (htop : KernelCall.TopPresent m.mem m.cr3 (vpn addr))
    (hrun : Virt.demandPage (pageBase m.cr3) addr perm m = some (b, m')) : Coherence z m' roots := by
  obtain ⟨own, M, hT, hroots⟩ := h.spaces
  obtain ⟨page, m1, halloc, hrun⟩ := bind_eq_some.mp hrun
  cases page with
  | none =>
    obtain rfl := (pure_eq_some.mp hrun).2
    obtain ⟨hT', hG⟩ := hT.alloc_none halloc
    obtain ⟨-, rfl⟩ := tryAllocPage_eq_some.mp halloc
    exact h.keep ⟨own, M, hT', hroots⟩ hG.sameRegs fun _ _ _ _ _ => rfl
  | some page =>
    obtain ⟨phys, hp, rfl⟩ := hT.fresh hz halloc
    obtain ⟨_, m2, hfill, hrun⟩ := bind_eq_some.mp hrun
    obtain rfl := writeTable_eq_some.mp hfill
    obtain ⟨_, m3, hmap, hrun⟩ := bind_eq_some.mp hrun
    obtain rfl := (pure_eq_some.mp hrun).2
    have hT1 := (hT.setPhys (Multiset.le_cons_self _ _) hp.alloc).fillOther hp.unowned newZeroed
    have hmem : ∀ r, Root own r → (m.mem.fill page newZeroed) r = m.mem r :=
      fun r hr => Mem.fill_of_ne _ _ (hp.ne hr)
    have h1 : Coherence z { m with phys, mem := m.mem.fill page newZeroed } roots :=
      h.keep ⟨own, _, hT1, hroots⟩ ⟨rfl, rfl, rfl⟩ fun r hr j _ _ => congrArg (fun ws => decode 3 (ws j)) (hmem r (hroots r hr))
    rw [hT.pageBase_root hz (hroots _ h.loaded)] at hmap
    refine h1.edits (V := {vpn addr}) ?_ h1.loaded ?_ fun hT' hr' => ?_
    · rintro v rfl
      exact vpn_lt addr
    · rintro v rfl
      change 256 ≤ _ → (m.mem.fill page newZeroed m.cr3 _).testBit 0 = true
      rw [hmem _ (hroots _ h.loaded)]
      exact htop
    · refine mapPageExplicit_edits hz ?_ ?_ hT' hr' hmap
      · rintro v rfl
        exact vpn_lt addr
      · rw [vpn_pageBase haddr]
        rfl

/-! ### Runs -/

lemma mapRegionPages_edits (hz : z.zone.top ≤ directMapSize) {r phys flags : ℕ} {V : Set ℕ} {u : Unit}
    (hV : ∀ v ∈ V, v < 512 ^ 4) : ∀ (ps : List ℕ) {own : Owners} {M : Multiset ℕ} {m : Machine},
    (∀ p ∈ ps, vpn (higherHalf + (phys + p * pageSize)) ∈ V) → Tables z own M m → Root own r →
    mapRegionPages r phys flags ps m = some (u, m') → ∃ own' M', Edits z r V own M m own' M' m'
  | [], own, M, m, _, _, _, h => by
    obtain rfl := (pure_eq_some.mp h).2
    exact ⟨own, M, .refl⟩
  | p :: ps, own, M, m, hps, hT, hr, h => by
    rw [mapRegionPages] at h
    split at h
    · exact absurd h failure_ne_some
    · obtain ⟨_, m1, h1, h2⟩ := bind_eq_some.mp h
      obtain ⟨own1, M1, e1⟩ := mapPage_edits hz hV (hps p List.mem_cons_self) hT hr h1
      obtain ⟨T1, G1⟩ := e1.tables hV hT hr
      obtain ⟨own2, M2, e2⟩ := mapRegionPages_edits hz hV ps (fun q hq => hps q (List.mem_cons_of_mem p hq)) T1
        (hr.mono G1.ext) h2
      exact ⟨own2, M2, e1.trans e2⟩

/-- A call under its condition keeps the upper half shared. -/
lemma Coherence.call {roots : List ℕ} (h : Coherence z m roots) (hz : z.zone.top ≤ directMapSize) {c : KernelCall}
    {r : Option ℕ} (hv : c.Valid roots) (hok : c.Clean m) (hc : c.prog m = some (r, m')) :
    Coherence z m' (r.toList ++ roots) := by
  cases c with
  | fork =>
    obtain ⟨_, _, hget, hc1⟩ := bind_eq_some.mp hc
    obtain ⟨rfl, rfl⟩ := get_eq_some.mp hget
    obtain ⟨c, m1, hfork, hc2⟩ := bind_eq_some.mp hc1
    cases c with
    | none => exact absurd hc2 failure_ne_some
    | some c =>
      obtain ⟨rfl, rfl⟩ := pure_eq_some.mp hc2
      exact h.fork hz hfork
  | switchPml4 pml4 =>
    obtain ⟨_, hc1, rfl⟩ := map_eq_some.mp hc
    obtain rfl := modify_eq_some.mp hc1
    obtain ⟨own, M, hT, hroots⟩ := h.spaces
    exact ⟨⟨own, M, hT.regs m.ptInitialized m.kernelPml4 pml4, hroots⟩, h.kernel, hv, h.shared⟩
  | mapUser pml4 call =>
    obtain ⟨_, hc1, rfl⟩ := map_eq_some.mp hc
    refine h.edits (V := lowPages) lowPages_lt hv.1 (fun v hlow hup => ?_) fun hT hr => call.edits hz hv.2 hT hr hc1
    have hlt : v < 2 ^ 35 := hlow
    norm_num at hlt hup
    omega
  | mapContiguous virt phys n flags =>
    obtain ⟨_, _, hget, hc1⟩ := bind_eq_some.mp hc
    obtain ⟨rfl, rfl⟩ := get_eq_some.mp hget
    obtain ⟨_, hc2, rfl⟩ := map_eq_some.mp hc1
    refine h.edits (V := { v | ∃ i < n, v = vpn (virt + i * pageSize) }) ?_ h.kernel ?_
      fun hT hr => mapContiguous_edits hz ?_ (fun i hi => ⟨i, hi, rfl⟩) hT hr hc2
    · rintro v ⟨i, -, rfl⟩
      exact vpn_lt _
    · rintro v ⟨i, hi, rfl⟩
      exact hok i hi
    · rintro v ⟨i, -, rfl⟩
      exact vpn_lt _
  | mapRegionHigherHalf phys size flags =>
    obtain ⟨_, _, hget, hc1⟩ := bind_eq_some.mp hc
    obtain ⟨rfl, rfl⟩ := get_eq_some.mp hget
    obtain ⟨_, hc2, rfl⟩ := map_eq_some.mp hc1
    obtain ⟨_, m1, htv, hc3⟩ := bind_eq_some.mp hc2
    split at hc3
    · exact absurd hc3 failure_ne_some
    · refine h.edits (V := { v | ∃ i < (size + pageSize - 1) / pageSize, v = vpn (higherHalf + (phys + i * pageSize)) })
        ?_ h.kernel ?_ fun hT hr => ?_
      · rintro v ⟨i, -, rfl⟩
        exact vpn_lt _
      · rintro v ⟨i, hi, rfl⟩
        exact hok i hi
      · obtain ⟨rfl, rfl⟩ := hT.toVirtual hz hr htv
        refine mapRegionPages_edits hz ?_ _ (fun p hp => ⟨p, List.mem_range.mp hp, rfl⟩) hT hr hc3
        rintro v ⟨i, -, rfl⟩
        exact vpn_lt _
  | pageFault kernelVmas addr errorCode =>
    obtain ⟨_, hc1, rfl⟩ := map_eq_some.mp hc
    obtain ⟨-, hhi, hpresent, huser⟩ := hv
    obtain ⟨_, _, hget, hc2⟩ := bind_eq_some.mp hc1
    obtain ⟨rfl, rfl⟩ := get_eq_some.mp hget
    simp only [hpresent, huser, Bool.false_and, Bool.false_eq_true, if_false] at hc2
    obtain ⟨perm, _, hvma, hc3⟩ := bind_eq_some.mp hc2
    obtain ⟨_, -, heq⟩ := Option.map_eq_some_iff.mp hvma
    obtain ⟨-, rfl⟩ := Prod.mk.inj heq
    cases perm with
    | none =>
      obtain rfl := (pure_eq_some.mp hc3).2
      exact h
    | some => exact h.demandPage hz hhi hok hc3
  | unmap virt =>
    obtain ⟨_, hc1, rfl⟩ := map_eq_some.mp hc
    exact h.unmap hz hv.1 hv.2 hok hc1

lemma kernelRun_coherence {m0 : Machine} {roots : List ℕ} (hz : z.zone.top ≤ directMapSize) (h0 : Inv z m0.phys 0)
    (hp : m0.ptInitialized = false) (h : KernelRun (fun m c => c.Clean m) m0 m roots) : Coherence z m roots := by
  induction h with
  | @init regions fb kernel m hinit =>
    have hT : Tables z (fun _ => none) 0 m0 := ⟨h0, by simp [Radix.Tree], by simp, by simp⟩
    obtain ⟨_, _, hget, hinit1⟩ := bind_eq_some.mp hinit
    obtain ⟨rfl, rfl⟩ := get_eq_some.mp hget
    rw [if_neg (by simp [hp])] at hinit1
    obtain ⟨pml4, m1, hbuild, hinit2⟩ := bind_eq_some.mp hinit1
    obtain rfl := modify_eq_some.mp hinit2
    obtain ⟨own, M, hT', -, hroot⟩ := buildTables_tables hz hT hbuild
    refine ⟨⟨own, M, hT'.regs true pml4 pml4, ?_⟩, List.mem_singleton_self _, List.mem_singleton_self _, ?_⟩
    · intro r hr
      rwa [List.mem_singleton.mp hr]
    · intro r hr j _ _
      rw [List.mem_singleton.mp hr]
  | call c h hv hok hc ih => exact ih.call hz hv hok hc

/-- After `init` on memory below the end of the direct map, in every run of
calls that change no PML4 entry of the upper half, the upper half is the same
under all PML4s and no table in use is free. -/
theorem coherent_of_clean {regions : List (ℕ × ℕ)} (hd : regions.Pairwise Phys.RangesDisjoint)
    (he : ∀ r ∈ regions, r.1 + r.2 ≤ directMapSize) (bi ks kn : ℕ) (excl : List (ℕ × ℕ)) (mem : Mem ℕ ℕ) (cr3 : ℕ)
    {m : Machine} {roots : List ℕ}
    (h : KernelRun (fun m c => c.Clean m) (bootMachine regions bi ks kn excl mem cr3) m roots) : Coherent m roots :=
  (kernelRun_coherence (resetZone_top he bi ks kn)
    (Phys.init_inv hd (fun r hr => lt_of_le_of_lt (he r hr) (by decide)) bi ks kn excl) rfl h).coherent

/-- A page of the direct map is mapped after a fork. -/
theorem coherent_of_clean_direct : ∃ m roots,
    KernelRun (fun m c => c.Clean m) smallBoot m roots ∧ roots.length = 2 ∧ Coherent m roots := by
  have hrun : (init [(0x100000, 0x20000)] none none smallBoot >>= fun x =>
      KernelCall.fork.prog x.2 >>= fun y =>
      (KernelCall.mapContiguous 0xFFFF800000105000 0x105000 1 3).prog y.2 >>= fun w =>
      some (y.1, w.1, (y.2.mem y.2.kernelPml4 256).testBit 0)) =
      (some (some 0x116000, none, true) : Option (Option ℕ × Option ℕ × Bool)) := by decide +kernel
  obtain ⟨⟨u, m⟩, hinit, hrun⟩ := Option.bind_eq_some_iff.mp hrun
  obtain ⟨⟨c, m'⟩, hfork, hrun⟩ := Option.bind_eq_some_iff.mp hrun
  obtain ⟨⟨r, m''⟩, hmap, hrun⟩ := Option.bind_eq_some_iff.mp hrun
  simp only [Option.some.injEq, Prod.mk.injEq] at hrun
  obtain ⟨rfl, rfl, htop⟩ := hrun
  have h₁ : KernelRun (fun m c => c.Clean m) smallBoot m' _ := .call .fork (.init hinit) trivial trivial hfork
  have hclean : (KernelCall.mapContiguous 0xFFFF800000105000 0x105000 1 3).Clean m' := by
    intro i hi _
    obtain rfl : i = 0 := by omega
    exact htop
  have h₂ : KernelRun (fun m c => c.Clean m) smallBoot m'' _ :=
    .call (.mapContiguous _ _ _ _) h₁ trivial hclean hmap
  refine ⟨m'', _, h₂, rfl, ?_⟩
  exact coherent_of_clean (List.pairwise_singleton _ _) (by simp [directMapSize]) _ _ _ _ _ _ h₂

/-- After a fork, a page mapped at 0xFFFF808000000000 is there under the
kernel's PML4 only, since its PML4 entry was not present. And if the page is
mapped before the fork and then unmapped, the PDP is freed that the fork still
names. -/
theorem coherence_fails :
    (∃ m r r', KernelRun (fun _ _ => True) smallBoot m [r', r] ∧ hwTranslate m.mem r 0xFFFF808000000000 = some 0x105000 ∧
      hwTranslate m.mem r' 0xFFFF808000000000 = none ∧ ¬ Coherent m [r', r]) ∧
    ∃ m r r' t, KernelRun (fun _ _ => True) smallBoot m [r', r] ∧ TableOf m.mem r' t ∧ t / pageSize ∈ m.phys.free ∧
      ¬ Coherent m [r', r] := by
  constructor
  · have hrun : (init [(0x100000, 0x20000)] none none smallBoot >>= fun x =>
        KernelCall.fork.prog x.2 >>= fun y =>
        (KernelCall.mapContiguous 0xFFFF808000000000 0x105000 1 3).prog y.2 >>= fun w =>
        some (y.1, w.1, hwTranslate w.2.mem x.2.kernelPml4 0xFFFF808000000000,
          hwTranslate w.2.mem 0x116000 0xFFFF808000000000)) =
        (some (some 0x116000, none, some 0x105000, none) : Option (Option ℕ × Option ℕ × Option ℕ × Option ℕ)) := by
      decide +kernel
    obtain ⟨⟨u, m⟩, hinit, hrun⟩ := Option.bind_eq_some_iff.mp hrun
    obtain ⟨⟨c, m'⟩, hfork, hrun⟩ := Option.bind_eq_some_iff.mp hrun
    obtain ⟨⟨r, m''⟩, hmap, hrun⟩ := Option.bind_eq_some_iff.mp hrun
    simp only [Option.some.injEq, Prod.mk.injEq] at hrun
    obtain ⟨rfl, rfl, htr, htr'⟩ := hrun
    have h₁ : KernelRun (fun _ _ => True) smallBoot m' _ := .call .fork (.init hinit) trivial trivial hfork
    refine ⟨m'', m.kernelPml4, 0x116000, .call (.mapContiguous _ _ _ _) h₁ trivial trivial hmap, htr, htr', fun hc => ?_⟩
    have heq := hc.1 m.kernelPml4 (by simp) 0x116000 (by simp) 0xFFFF808000000000 (by decide) (by norm_num)
    rw [htr, htr'] at heq
    simp at heq
  · have hrun : (init [(0x100000, 0x20000)] none none smallBoot >>= fun x =>
        (KernelCall.mapContiguous 0xFFFF808000000000 0x105000 1 3).prog x.2 >>= fun y =>
        KernelCall.fork.prog y.2 >>= fun w =>
        (KernelCall.unmap 0xFFFF808000000000).prog w.2 >>= fun q =>
        some (y.1, w.1, q.1, q.2.mem 0x113000 257, decide (0x116 ∈ q.2.phys.free))) =
        (some (none, some 0x113000, none, 0x116003, true) : Option (Option ℕ × Option ℕ × Option ℕ × ℕ × Bool)) := by
      decide +kernel
    obtain ⟨⟨u, m⟩, hinit, hrun⟩ := Option.bind_eq_some_iff.mp hrun
    obtain ⟨⟨r, m₁⟩, hmap, hrun⟩ := Option.bind_eq_some_iff.mp hrun
    obtain ⟨⟨c, m₂⟩, hfork, hrun⟩ := Option.bind_eq_some_iff.mp hrun
    obtain ⟨⟨r', m₃⟩, hunmap, hrun⟩ := Option.bind_eq_some_iff.mp hrun
    simp only [Option.some.injEq, Prod.mk.injEq, decide_eq_true_eq] at hrun
    obtain ⟨rfl, rfl, rfl, hentry, hfree⟩ := hrun
    have h₁ : KernelRun (fun _ _ => True) smallBoot m₁ _ :=
      .call (.mapContiguous _ _ _ _) (.init hinit) trivial trivial hmap
    have h₂ : KernelRun (fun _ _ => True) smallBoot m₂ _ := .call .fork h₁ trivial trivial hfork
    have ht : TableOf m₃.mem 0x113000 0x116000 := by
      refine ⟨257 * 512 ^ 3, by norm_num, 2, .step (g := 0x116000) ?_ (.here _ _)⟩
      rw [show 257 * 512 ^ 3 / 512 ^ (2 + 1) % 512 = 257 from by norm_num, hentry]
      exact decode_eq_table.mpr ⟨by decide, by norm_num, by decide, by decide⟩
    have hfree' : 0x116000 / pageSize ∈ m₃.phys.free := hfree
    exact ⟨m₃, m.kernelPml4, 0x113000, 0x116000, .call (.unmap _) h₂ ⟨by decide, by norm_num⟩ trivial hunmap, ht,
      hfree', fun hc => hc.2 0x113000 (by simp) 0x116000 ht hfree'⟩

end LodaxOS.Virt
