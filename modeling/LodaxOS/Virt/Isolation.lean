/-
# A forked address space keeps to itself

The PML4 that `fork_pml4` makes of the kernel's, mapped into below 2^47 and
freed at last. All tables of its lower half are its own (`Private`): mapping
into it adds tables to them and writes to no other, so nothing changes under
the kernel's PML4 (`fork_isolated`), and `free_pml4` gives back exactly the
pages that were taken for them, each once (`freePml4_accounts`).
-/
import LodaxOS.Virt.Edits
import LodaxOS.Virt.Fork

namespace LodaxOS.Virt

open Phys (pageSize Inv)
open Radix Partial Multiset

variable {z : Phys.State} {own own' own'' : Owners} {M M' M'' : Multiset ℕ} {m m' m'' : Machine}

/-! ### Mapping below 2^47 -/

/-- A call that maps pages into a PML4. -/
inductive MapCall
  | mapPage (virt phys flags : ℕ)
  | mapContiguous (virt phys n flags : ℕ)

namespace MapCall

def prog (pml4 : ℕ) : MapCall → Op Unit
  | mapPage virt phys flags => Virt.mapPage pml4 virt phys flags
  | mapContiguous virt phys n flags => Virt.mapContiguous pml4 virt phys n flags

/-- The range ends at 2^47 or below. -/
def Low : MapCall → Prop
  | mapPage virt _ _ => virt < 2 ^ 47
  | mapContiguous virt _ n _ => virt + n * pageSize ≤ 2 ^ 47

end MapCall

/-- The calls, one after the other. -/
def mapAll (pml4 : ℕ) : List MapCall → Op Unit
  | [] => pure ()
  | c :: rest => do
    c.prog pml4
    mapAll pml4 rest

/-- The pages below 2^47. -/
def lowPages : Set ℕ := { v | v < 2 ^ 35 }

lemma lowPages_lt (v : ℕ) (hv : v ∈ lowPages) : v < 512 ^ 4 := lt_trans hv (by norm_num)

lemma lowPages_digit {v : ℕ} (hv : v ∈ lowPages) : v / 512 ^ (2 + 1) % 512 < 256 := by
  have hlt : v < 2 ^ 35 := hv
  norm_num at hlt ⊢
  omega

variable {a r l t : ℕ} {mem : Mem ℕ ℕ}

lemma vpn_mem_lowPages (h : a < 2 ^ 47) : vpn a ∈ lowPages := by
  change vpn a < 2 ^ 35
  unfold vpn
  norm_num at h ⊢
  omega

lemma MapCall.edits (hz : z.zone.top ≤ directMapSize) {c : MapCall} {u : Unit} (hl : c.Low)
    (hT : Tables z own M m) (hr : Root own r) (h : c.prog r m = some (u, m')) :
    ∃ own' M', Edits z r lowPages own M m own' M' m' := by
  cases c with
  | mapPage virt phys flags => exact mapPage_edits hz lowPages_lt (vpn_mem_lowPages hl) hT hr h
  | mapContiguous virt phys n flags =>
    refine mapContiguous_edits hz lowPages_lt (fun i hi => vpn_mem_lowPages ?_) hT hr h
    have hle : virt + n * pageSize ≤ 2 ^ 47 := hl
    have hin : (i + 1) * pageSize ≤ n * pageSize := Nat.mul_le_mul_right _ hi
    simp only [pageSize] at *
    omega

lemma mapAll_edits (hz : z.zone.top ≤ directMapSize) {u : Unit} : ∀ (calls : List MapCall)
    {own : Owners} {M : Multiset ℕ} {m : Machine}, (∀ c ∈ calls, c.Low) → Tables z own M m → Root own r →
    mapAll r calls m = some (u, m') → ∃ own' M', Edits z r lowPages own M m own' M' m'
  | [], own, M, m, _, _, _, h => by
    obtain rfl := (pure_eq_some.mp h).2
    exact ⟨own, M, .refl⟩
  | c :: rest, own, M, m, hl, hT, hr, h => by
    obtain ⟨_, m1, h1, h2⟩ := bind_eq_some.mp h
    obtain ⟨own1, M1, e1⟩ := c.edits hz (hl c List.mem_cons_self) hT hr h1
    obtain ⟨T1, G1⟩ := e1.tables lowPages_lt hT hr
    obtain ⟨own2, M2, e2⟩ := mapAll_edits hz rest (fun c' hc' => hl c' (List.mem_cons_of_mem _ hc')) T1 (hr.mono G1.ext) h2
    exact ⟨own2, M2, e1.trans e2⟩

/-! ### Private tables -/

/-- Since the state `(own, M, m)` only tables of the lower half of `c` were
made, and only they were written to. -/
structure Private (z : Phys.State) (c : ℕ) (own : ℕ → Option (ℕ × ℕ)) (M : Multiset ℕ) (m : Machine)
    (own' : ℕ → Option (ℕ × ℕ)) (M' : Multiset ℕ) (m' : Machine) : Prop where
  grew : Grew z True own M m own' M' m' (lowTables m'.mem c)
  root : Root own' c

namespace Private

variable {c : ℕ}

variable (h : Private z c own M m own' M' m')

include h

/-- A table on the way of a page below 2^47 is private. -/
lemma of_down {v : ℕ} (hv : v ∈ lowPages) (hd : Down 512 decode m'.mem v 3 c l t) : own t = none :=
  h.grew.fresh t (hd.mem_tablesUpTo (by norm_num) (lowPages_digit hv))

/-- A write that keeps what the word names. -/
lemma write {q i w : ℕ} (hnew : own t = none) (ht : own' t = some (l, q))
    (hi : i < 512) (hs : Sane l w) (hw : SameTables decode l w (m'.mem t i)) :
    Private z c own M m own' M' { m' with mem := m'.mem.write t i w } := by
  refine ⟨?_, h.root⟩
  change Grew _ _ _ _ _ _ _ _ (lowTables (m'.mem.write t i w) c)
  rw [lowTables, h.grew.tables.tree.tablesUpTo_write_same (by norm_num) h.root ht hw]
  exact h.grew.write hnew ht hs fun g hg => h.grew.tables.tree t l q i g ht hi ((hw g).mp hg)

lemma edit (he : Edit z c lowPages own' M' m' own'' M'' m'') : Private z c own M m own'' M'' m'' := by
  obtain ⟨hT, hG⟩ := he.tables lowPages_lt h.grew.tables h.root
  have hplace : ∀ {v l t}, v ∈ lowPages → Down 512 decode m'.mem v 3 c l t → own' t = some (l, v / 512 ^ (l + 1)) :=
    fun hv hd => hd.owned (by norm_num) h.grew.tables.tree (h.root.owned (lowPages_lt _ hv))
  cases he with
  | @hang v l t g flags ws phys hv hd hf hno hp hs hws =>
    have ht := hplace hv hd
    have hnewg : own g = none := by
      rw [Option.eq_none_iff_forall_ne_some]
      intro p hp'
      have hc := h.grew.grown.ext g p hp'
      rw [hp.unowned] at hc
      simp at hc
    have hlow : lowTables (m'.mem.hang t (v / 512 ^ (l + 1) % 512) (g ||| flags ||| present) g ws) c =
        g ::ₘ lowTables m'.mem c := by
      refine h.grew.tables.tree.tablesUpTo_hang hp.unowned hws (decode_pointer hp.aligned hp.lt hf (by omega)) hno
        (Nat.mod_lt _ (by norm_num)) ht (by norm_num) h.root (hd.mem_tablesUpTo (by norm_num) (lowPages_digit hv)) ?_
      -- an entry of the PML4 itself is one of the first 256
      rintro rfl
      obtain rfl : l = 2 := by
        have hc := h.root.symm.trans ht
        simp only [Option.some.injEq, Prod.mk.injEq] at hc
        omega
      exact lowPages_digit hv
    refine ⟨⟨hT, h.grew.grown.trans hG, fun f p hf' => ?_, fun f hf' => ?_, ?_, fun _ => ?_⟩, h.root.mono hG.ext⟩
    · rw [← h.grew.frame f p hf']
      funext j
      refine Mem.hang_of_ne _ _ _ ?_ ?_
      · rintro rfl
        rw [hnewg] at hf'
        simp at hf'
      · rintro ⟨rfl, -⟩
        rw [h.of_down hv hd] at hf'
        simp at hf'
    · change f ∈ lowTables _ c at hf'
      rw [hlow] at hf'
      rcases mem_cons.mp hf' with rfl | hf'
      · exact hnewg
      · exact h.grew.fresh f hf'
    · rw [hlow, h.grew.held, pages_cons, cons_add]
    · rw [hlow, pages_cons, ← singleton_add, add_comm]
      exact (h.grew.took trivial).trans hp.took
  | @tag v l t g flags hv hd hD =>
    have ht := hplace hv hd
    have hi : v / 512 ^ (l + 1) % 512 < 512 := Nat.mod_lt _ (by norm_num)
    refine h.write (h.of_down hv hd) ht hi (h.grew.tables.sane t _ _ _ ht hi).or_user fun f => ?_
    rw [decode_or_user hD, hD]
  | @leaf v t w hv hd =>
    refine h.write (h.of_down hv hd) (hplace hv hd) (Nat.mod_lt _ (by norm_num)) (sane_pt w) fun f => ?_
    constructor
    · exact fun hf => absurd rfl (decode_eq_table.mp hf).2.1
    · exact fun hf => absurd rfl (decode_eq_table.mp hf).2.1

lemma edits (he : Edits z c lowPages own' M' m' own'' M'' m'') : Private z c own M m own'' M'' m'' := by
  induction he with
  | refl => exact h
  | tail _ he ih => exact ih.edit he

end Private

/-! ### Freeing -/

/-- The allocator after these tables were freed, one after the other. -/
def freed (L : List ℕ) (s : Phys.State) : Phys.State := L.foldl (fun s f => ((Phys.freePage f).run s).2) s

lemma freed_append (L L' : List ℕ) (s : Phys.State) : freed (L ++ L') s = freed L' (freed L s) := List.foldl_append

lemma forEach_freePage : ∀ (L : List ℕ) (m : Machine),
    forEach freePage L m = some ((), { m with phys := freed L m.phys })
  | [], _ => rfl
  | f :: L, m => by
    have ih := forEach_freePage L { m with phys := ((Phys.freePage f).run m.phys).2 }
    exact bind_eq_some.mpr ⟨(), _, rfl, ih⟩

/-- A loop whose rounds free the tables of a list each. -/
lemma forEach_freed {f : ℕ → Op Unit} {Ls : ℕ → List ℕ} : ∀ (is : List ℕ),
    (∀ i ∈ is, ∀ phys, f i { m with phys } = some ((), { m with phys := freed (Ls i) phys })) → ∀ phys,
    forEach f is { m with phys } = some ((), { m with phys := freed (is.flatMap Ls) phys })
  | [], _, _ => rfl
  | i :: is, h, phys => by
    refine bind_eq_some.mpr ⟨(), _, h i List.mem_cons_self phys, ?_⟩
    rw [forEach_freed is (fun j hj => h j (List.mem_cons_of_mem _ hj)) (freed (Ls i) phys), List.flatMap_cons,
      freed_append]

variable {freeChild : ℕ → Op Unit}

/-- An entry is freed with what it leads to. -/
lemma freeEntry_run {i : ℕ} {phys : Phys.State} (hchild : ∀ g, decode (l + 1) (m.mem t i) = .table g →
      freeChild g { m with phys } = some ((), { m with phys := freed (postorder 512 decode m.mem l g) phys })) :
    freeEntry freeChild t i { m with phys } =
      some ((), { m with phys := freed (subpostorder 512 decode m.mem l (m.mem t i)) phys }) := by
  change (if (m.mem t i &&& present ≠ 0) && (m.mem t i &&& pageSizeBit = 0) then
    freeChild (m.mem t i &&& physAddrMask) else pure ()) { m with phys } = _
  simp only [guard_table]
  by_cases hc : (m.mem t i).testBit 0 = true ∧ (m.mem t i).testBit 7 = false
  · have hD : decode (l + 1) (m.mem t i) = .table (m.mem t i &&& physAddrMask) :=
      decode_eq_table.mpr ⟨hc.1, by omega, hc.2, rfl⟩
    rw [if_pos hc, hchild _ hD, subpostorder_table hD]
  · rw [if_neg hc, subpostorder_eq_nil]
    · rfl
    · intro g hg
      obtain ⟨h0, -, h7, -⟩ := decode_eq_table.mp hg
      exact hc ⟨h0, h7⟩

/-- The entries of a table are freed, and then the table. -/
lemma freeEntries_run {k : ℕ} (hchild : ∀ i < k, ∀ g, decode (l + 1) (m.mem t i) = .table g → ∀ phys,
      freeChild g { m with phys } = some ((), { m with phys := freed (postorder 512 decode m.mem l g) phys }))
    (phys : Phys.State) :
    (do
      forEach (freeEntry freeChild t) (List.range k)
      freePage t : Op Unit) { m with phys } =
      some ((), { m with phys := freed (postorderUpTo 512 decode k m.mem l t) phys }) := by
  have hloop := forEach_freed (m := m) (f := freeEntry freeChild t) (List.range k)
    (fun i hi phys => freeEntry_run fun g hg => hchild i (List.mem_range.mp hi) g hg phys) phys
  refine bind_eq_some.mpr ⟨(), _, hloop, ?_⟩
  rw [postorderUpTo, freed_append]
  rfl

section

variable (hz : z.zone.top ≤ directMapSize) (hT : Tables z own M m)

include hz hT

lemma freeTableRecursive_run : ∀ {l t q : ℕ}, own t = some (l, q) → ∀ phys,
    freeTableRecursive l t { m with phys } = some ((), { m with phys := freed (postorder 512 decode m.mem l t) phys })
  | 0, t, q, ht, phys => by
    rw [postorder_zero]
    exact bind_eq_some.mpr ⟨t, _, toVirtual_eq_some.mpr ⟨hT.physToVirtual_eq hz ht, rfl⟩, rfl⟩
  | l + 1, t, q, ht, phys => by
    rw [postorder_succ]
    refine bind_eq_some.mpr ⟨t, _, toVirtual_eq_some.mpr ⟨hT.physToVirtual_eq hz ht, rfl⟩, ?_⟩
    refine freeEntries_run (fun i hi g hg phys => ?_) phys
    obtain ⟨l', hl, hown⟩ := hT.tree t (l + 1) q i g ht hi hg
    obtain rfl : l = l' := by omega
    exact freeTableRecursive_run hown phys

/-- `free_pml4` returns, and frees the tables of the lower half in turn. -/
lemma freePml4_run {c : ℕ} (hc : Root own c) :
    freePml4 c m = some ((), { m with phys := freed (postorderUpTo 512 decode 256 m.mem 2 c) m.phys }) := by
  refine bind_eq_some.mpr ⟨c, m, toVirtual_eq_some.mpr ⟨hT.physToVirtual_eq hz hc, rfl⟩, ?_⟩
  refine freeEntries_run (m := m) (fun i hi g hg phys => ?_) m.phys
  obtain ⟨l', hl, hown⟩ := hT.tree c 3 0 i g hc (by omega) hg
  obtain rfl : l' = 2 := by omega
  exact freeTableRecursive_run hz hT hown phys

end

/-- Pages with count 1 or none, given back one after the other. -/
lemma freed_free : ∀ (L : List ℕ) (s : Phys.State), (∀ f ∈ L, pageSize ∣ f) →
    (∀ f ∈ L, Phys.counted s (f / pageSize) = true) → Inv z s (pages L + M) →
    (freed L s).free = s.free + pages L ∧ Inv z (freed L s) M
  | [], s, _, _, hI => by
    rw [coe_nil, pages_zero, zero_add] at hI
    exact ⟨(add_zero _).symm, hI⟩
  | f :: L, s, hd, hc, hI => by
    have hdf := hd f List.mem_cons_self
    have hblock : Phys.blockSize 0 ∣ f := by rwa [Phys.blockSize_eq, pow_zero, one_mul]
    have hone : Phys.rangePages f (2 ^ 0) = {f / pageSize} := by simp [Phys.rangePages]
    rw [← cons_coe, pages_cons, cons_add] at hI
    have hrun := Phys.freeOrder_run (z := z) (s := s) (F := pages L + M) (Nat.zero_le _) hblock
      (by rwa [hone, singleton_add])
    have hI' : Inv z ((Phys.freePage f).run s).2 (pages L + M) := freePage_inv hdf hI
    -- the other pages keep their counts
    have hne : ∀ g ∈ L, g / pageSize ≠ f / pageSize := by
      intro g hg he
      have hnd := (nodup_add.mp hI.nodup).2.1
      refine (nodup_cons.mp hnd).1 (mem_add.mpr (Or.inl ?_))
      rw [← he]
      exact mem_map_of_mem _ hg
    have hc' : ∀ g ∈ L, Phys.counted ((Phys.freePage f).run s).2 (g / pageSize) = true := by
      intro g hg
      have hcount := hrun.2 (g / pageSize) (by rw [hone, mem_singleton]; exact hne g hg)
      have hcg := hc g (List.mem_cons_of_mem _ hg)
      unfold Phys.counted at hcg ⊢
      rwa [show ((Phys.freePage f).run s).2.refcounts (g / pageSize) = s.refcounts (g / pageSize) from hcount]
    have hlost : Phys.lost s (Phys.blockSingles f 0) = 0 := by
      rw [Phys.lost_eq_zero]
      intro p hp
      obtain rfl : p = f / pageSize := by simpa [Phys.blockSingles] using hp
      exact hc f List.mem_cons_self
    obtain ⟨hfree, hinv⟩ := freed_free L _ (fun g hg => hd g (List.mem_cons_of_mem _ hg)) hc' hI'
    refine ⟨?_, hinv⟩
    rw [hone, hlost, add_zero] at hrun
    calc (freed (f :: L) s).free = ((Phys.freePage f).run s).2.free + pages L := hfree
      _ = s.free + {f / pageSize} + pages L := by rw [← hrun.1]; rfl
      _ = s.free + pages (f :: L : List ℕ) := by
        rw [← cons_coe, pages_cons, add_assoc, singleton_add]

/-! ### The kernel and its fork -/

/-- The table `t` can be reached from the PML4 `r`. -/
def TableOf (mem : Mem ℕ ℕ) (r t : ℕ) : Prop := ∃ v < 512 ^ 4, ∃ l, Down 512 decode mem v 3 r l t

lemma TableOf.owned (h : TableOf mem r t) (ht : Tree 512 decode own mem) (hr : Root own r) : ∃ p, own t = some p := by
  obtain ⟨v, hv, l, hd⟩ := h
  exact ⟨_, hd.owned (by norm_num) ht (hr.owned hv)⟩

lemma Tables.tableOf (hT : Tables z own M m) (hr : Root own r) (h : t ∈ lowTables m.mem r) : TableOf m.mem r t := by
  have ht : t ∈ tables 512 decode m.mem 3 r := by
    rw [tables_succ, mem_tablesUpTo]
    rw [lowTables, mem_tablesUpTo] at h
    refine h.imp_right ?_
    rintro ⟨i, hi, hg⟩
    exact ⟨i, lt_trans hi (by norm_num), hg⟩
  obtain ⟨k, p, hown, hk, hp⟩ := hT.tree.placed hr ht
  have hv : p * 512 ^ (k + 1) < 512 ^ 4 := by
    have hlt : p < 512 ^ (3 - k) := Nat.lt_of_div_eq_zero (by positivity) hp
    calc p * 512 ^ (k + 1) < 512 ^ (3 - k) * 512 ^ (k + 1) := Nat.mul_lt_mul_of_pos_right hlt (by positivity)
      _ = 512 ^ 4 := by rw [← pow_add]; congr 1; omega
  have hq : p * 512 ^ (k + 1) / 512 ^ (k + 1) = p := Nat.mul_div_cancel p (by positivity)
  exact ⟨p * 512 ^ (k + 1), hv, k, hT.tree.down_of_mem hown hq hr ht⟩

/-- Under a PML4 that was there, nothing changed. -/
lemma Grew.hwLeaf_eq {plain : Prop} {N : Multiset ℕ} (h : Grew z plain own M m own' M' m' N)
    (hT : Tables z own M m) (hr : Root own r) (a : ℕ) : hwLeaf m'.mem r a = hwLeaf m.mem r a := by
  have hw : hwWalk m'.mem r a = hwWalk m.mem r a :=
    walk_eq_of_owned (by norm_num) hT.tree _ 3 r (hr.owned (vpn_lt a)) fun g k hg => by rw [h.frame g _ hg]
  rw [hwLeaf_eq_map, hwLeaf_eq_map, hw]

/-- The PML4s share what their entries share. -/
lemma hwLeaf_of_entry {r' : ℕ}
    (h : mem r' (vpn a / 512 ^ 3 % 512) = mem r (vpn a / 512 ^ 3 % 512)) : hwLeaf mem r' a = hwLeaf mem r a := by
  have hw : hwWalk mem r' a = hwWalk mem r a := by
    unfold hwWalk
    rw [walk, walk, h]
  rw [hwLeaf_eq_map, hwLeaf_eq_map, hw]

lemma hwLeaf_absent (h : (mem r (vpn a / 512 ^ 3 % 512)).testBit 0 = false) : hwLeaf mem r a = none := by
  rw [hwLeaf_eq_map, hwWalk, walk_absent h]
  rfl

lemma vpn_upper (h : higherHalf ≤ a) (ha : a < 2 ^ 64) : 256 ≤ vpn a / 512 ^ 3 % 512 := by
  unfold vpn higherHalf at *
  norm_num at *
  omega

namespace Forking

variable {k c : ℕ} (h : Forking z k c 512 own M m own' M' m')

include h

lemma toPrivate : Private z c own M m own' M' m' := ⟨h.grew, h.root⟩

lemma hwLeaf_upper (hk : Root own k) (ha : a < 2 ^ 64) (hu : higherHalf ≤ a) :
    hwLeaf m'.mem c a = hwLeaf m'.mem k a := by
  have hw := h.upper _ (vpn_upper hu ha)
  rw [← h.grew.frame k _ hk] at hw
  by_cases hp : (m'.mem k (vpn a / 512 ^ 3 % 512)).testBit 0 = true
  · rw [if_pos ⟨Nat.mod_lt _ (by norm_num), hp⟩] at hw
    exact hwLeaf_of_entry hw
  · rw [if_neg fun hc => hp hc.2] at hw
    rw [hwLeaf_absent (by rw [hw]; rfl), hwLeaf_absent (by simpa using hp)]

lemma hwLeaf_low (hT : Tables z own M m) (hk : Root own k) (ha : a < userImageBase) :
    hwLeaf m'.mem c a = hwLeaf m'.mem k a := by
  rw [h.grew.hwLeaf_eq hT hk]
  refine hwLeaf_congr (h.low _ ?_)
  unfold vpn userImageBase at *
  norm_num at *
  omega

lemma hwLeaf_others (ha : userImageBase ≤ a) (hlt : a < 2 ^ 47) : hwLeaf m'.mem c a = none := by
  rw [hwLeaf_eq_map, hwWalk, h.others]
  · rfl
  all_goals
    unfold vpn userImageBase at *
    norm_num at *
    omega

end Forking

/-- The kernel's PML4 after any calls since boot, `init` among them, and its
fork `c`: no table under the kernel's PML4 was written to; below 512 MB and in
the upper half the hardware finds the same under both; the rest of the lower
half of `c` is empty; and mapping below 2^47 under `c` changes nothing under
the kernel's PML4. -/
theorem fork_isolated {regions : List (ℕ × ℕ)} (hd : regions.Pairwise Phys.RangesDisjoint)
    (he : ∀ r ∈ regions, r.1 + r.2 ≤ directMapSize) (bi ks kn : ℕ) (excl : List (ℕ × ℕ)) (mem : Mem ℕ ℕ) (cr3 : ℕ)
    {m m' : Machine} {roots : List ℕ} {c : ℕ} (h : Reach (bootMachine regions bi ks kn excl mem cr3) m roots)
    (hp : m.ptInitialized = true) (hf : forkPml4 m.kernelPml4 m = some (some c, m')) :
    (∀ t, TableOf m.mem m.kernelPml4 t → m'.mem t = m.mem t) ∧
    (∀ a < 2 ^ 64, a < userImageBase ∨ higherHalf ≤ a → hwLeaf m'.mem c a = hwLeaf m'.mem m.kernelPml4 a) ∧
    (∀ a, userImageBase ≤ a → a < 2 ^ 47 → hwLeaf m'.mem c a = none) ∧
    ∀ (calls : List MapCall) (m'' : Machine), (∀ call ∈ calls, call.Low) → mapAll c calls m' = some ((), m'') →
      ∀ a, hwLeaf m''.mem m.kernelPml4 a = hwLeaf m'.mem m.kernelPml4 a := by
  have hz := resetZone_top he bi ks kn
  obtain ⟨own, M, hT, hroots⟩ := boot_spaces hd he h
  have hk := hroots _ (boot_kernel hd he h hp)
  obtain ⟨own', M', hF⟩ := forkPml4_forking hT hk hz rfl hf
  refine ⟨fun t ht => ?_, fun a ha hor => ?_, fun a => hF.hwLeaf_others, fun calls m'' hl hmap a => ?_⟩
  · obtain ⟨p, hown⟩ := ht.owned hT.tree hk
    exact hF.grew.frame t p hown
  · rcases hor with hlow | hup
    · exact hF.hwLeaf_low hT hk hlow
    · exact hF.hwLeaf_upper hk ha hup
  · obtain ⟨own'', M'', hE⟩ := mapAll_edits hz calls hl hF.grew.tables hF.root hmap
    rw [(hF.toPrivate.edits hE).grew.hwLeaf_eq hT hk, hF.grew.hwLeaf_eq hT hk]

/-- `init` on 32 pages and the fork; then 0x400000 is mapped under the fork alone. -/
theorem fork_isolated_small : ∃ m m' m'' roots c,
    Reach smallBoot m roots ∧ forkPml4 m.kernelPml4 m = some (some c, m') ∧
    mapAll c [.mapPage 0x400000 0x100000 7] m' = some ((), m'') ∧
    hwLeaf m''.mem c 0x400000 = some ⟨0x100000, true, true, false⟩ ∧
    hwLeaf m''.mem m.kernelPml4 0x400000 = some ⟨0x400000, true, false, false⟩ ∧
    hwLeaf m'.mem c 0x1234 = hwLeaf m'.mem m.kernelPml4 0x1234 := by
  have hrun : ((SpaceCall.init [(0x100000, 0x20000)] none none).prog smallBoot >>= fun x =>
      forkPml4 x.2.kernelPml4 x.2 >>= fun y =>
      mapAll 0x116000 [.mapPage 0x400000 0x100000 7] y.2 >>= fun w =>
      some (x.2.ptInitialized, y.1, hwLeaf w.2.mem 0x116000 0x400000, hwLeaf y.2.mem x.2.kernelPml4 0x400000)) =
      (some (true, some 0x116000, some ⟨0x100000, true, true, false⟩, some ⟨0x400000, true, false, false⟩) :
        Option (Bool × Option ℕ × Option Leaf × Option Leaf)) := by
    decide +kernel
  obtain ⟨⟨r, m⟩, hinit, hrun⟩ := Option.bind_eq_some_iff.mp hrun
  obtain ⟨⟨c, m'⟩, hfork, hrun⟩ := Option.bind_eq_some_iff.mp hrun
  obtain ⟨⟨u, m''⟩, hmap, hrun⟩ := Option.bind_eq_some_iff.mp hrun
  simp only [Option.some.injEq, Prod.mk.injEq] at hrun
  obtain ⟨hp, rfl, hleaf, hkernel⟩ := hrun
  have hreach := Reach.call _ .start (by simp [SpaceCall.uses]) hinit
  have hiso := fork_isolated (List.pairwise_singleton _ _) (by simp [directMapSize]) _ _ _ _ _ _ hreach hp hfork
  refine ⟨m, m', m'', _, _, hreach, hfork, hmap, hleaf, ?_, ?_⟩
  · rw [hiso.2.2.2 _ _ (by simp [MapCall.Low]) hmap, hkernel]
  · exact hiso.2.1 _ (by norm_num) (Or.inl (by decide))

namespace Private

variable {c : ℕ} (h : Private z c own M m own' M' m')

include h

/-- Freeing the private tables gives back what was taken for them. -/
lemma freed_free {L : List ℕ} (hL : (L : Multiset ℕ) = lowTables m'.mem c) : (freed L m'.phys).free = m.phys.free := by
  have htook := h.grew.took trivial
  have hI : Inv z m'.phys (pages L + M) := by
    rw [hL, ← h.grew.held]
    exact h.grew.tables.alloc
  have hmem : ∀ f ∈ L, f ∈ lowTables m'.mem c := fun f hf => hL ▸ mem_coe.mpr hf
  have haligned : ∀ f ∈ L, pageSize ∣ f := by
    intro f hf
    obtain ⟨p, hp⟩ := (h.grew.tables.tableOf h.root (hmem f hf)).owned h.grew.tables.tree h.root
    exact (h.grew.tables.page f p hp).1
  have hcounted : ∀ f ∈ L, Phys.counted m'.phys (f / pageSize) = true := fun f hf =>
    htook.counted _ (mem_map_of_mem _ (hmem f hf))
  rw [(Virt.freed_free L m'.phys haligned hcounted hI).1, hL]
  exact htook.free

/-- No private table can be reached from a PML4 that was there before. -/
lemma not_tableOf (hT : Tables z own M m) {k : ℕ} (hk : Root own k) (ht : t ∈ lowTables m'.mem c) :
    ¬ TableOf m'.mem k t := by
  intro hkt
  obtain ⟨p, hp⟩ := hkt.owned (hT.tree.congr h.grew.frame) hk
  rw [h.grew.fresh t ht] at hp
  simp at hp

end Private

/-- The kernel's PML4 after any calls since boot, `init` among them, is forked,
pages are mapped below 2^47 under the fork, and the fork is freed. The pages
freed are those of the tables `L`, each once; they are the pages that were
taken from the allocator in between, and tables of the fork that cannot be
reached from the kernel's PML4; and the free pages are as before. -/
theorem freePml4_accounts {regions : List (ℕ × ℕ)} (hd : regions.Pairwise Phys.RangesDisjoint)
    (he : ∀ r ∈ regions, r.1 + r.2 ≤ directMapSize) (bi ks kn : ℕ) (excl : List (ℕ × ℕ)) (mem : Mem ℕ ℕ) (cr3 : ℕ)
    {m m₁ m₂ : Machine} {roots : List ℕ} {pml4 : ℕ} (h : Reach (bootMachine regions bi ks kn excl mem cr3) m roots)
    (hp : m.ptInitialized = true) (hf : forkPml4 m.kernelPml4 m = some (some pml4, m₁)) (calls : List MapCall)
    (hl : ∀ call ∈ calls, call.Low) (hmap : mapAll pml4 calls m₁ = some ((), m₂)) :
    ∃ (L : List ℕ) (m₃ : Machine), freePml4 pml4 m₂ = some ((), m₃) ∧ freePml4 pml4 m₂ = forEach freePage L m₂ ∧
      L.Nodup ∧ m₂.phys.free + pages L = m.phys.free ∧ m₃.phys.free = m.phys.free ∧
      ∀ t ∈ L, TableOf m₂.mem pml4 t ∧ ¬ TableOf m₂.mem m.kernelPml4 t := by
  have hz := resetZone_top he bi ks kn
  obtain ⟨own, M, hT, hroots⟩ := boot_spaces hd he h
  have hk := hroots _ (boot_kernel hd he h hp)
  obtain ⟨own₁, M₁, hF⟩ := forkPml4_forking hT hk hz rfl hf
  obtain ⟨own₂, M₂, hE⟩ := mapAll_edits hz calls hl hF.grew.tables hF.root hmap
  have hP := hF.toPrivate.edits hE
  have hT₂ := hP.grew.tables
  have hL := coe_postorderUpTo (n := 512) (D := decode) 256 m₂.mem 2 pml4
  have hrun := freePml4_run hz hT₂ hP.root
  refine ⟨postorderUpTo 512 decode 256 m₂.mem 2 pml4, _, hrun, ?_, ?_, ?_, ?_, fun t ht => ?_⟩
  · rw [hrun, forEach_freePage]
  · rw [← Multiset.coe_nodup, hL]
    exact hT₂.tree.nodup_tablesUpTo (by norm_num) hP.root
  · rw [hL]
    exact (hP.grew.took trivial).free
  · exact hP.freed_free hL
  · rw [← Multiset.mem_coe, hL] at ht
    exact ⟨hT₂.tableOf hP.root ht, hP.not_tableOf hT hk ht⟩

/-- The fork of the tables that `init` makes, with a page mapped at 0x400000
(which splits a 2 MB page of the fork) and one at 0x40000000, is freed. -/
theorem freePml4_accounts_small : ∃ m m₁ m₂ m₃ roots pml4,
    Reach smallBoot m roots ∧ forkPml4 m.kernelPml4 m = some (some pml4, m₁) ∧
    mapAll pml4 [.mapPage 0x400000 0x100000 7, .mapContiguous 0x40000000 0x100000 2 7] m₁ = some ((), m₂) ∧
    freePml4 pml4 m₂ = some ((), m₃) ∧ m₃.phys.free = m.phys.free := by
  have hrun : ((SpaceCall.init [(0x100000, 0x20000)] none none).prog smallBoot >>= fun x =>
      forkPml4 x.2.kernelPml4 x.2 >>= fun y =>
      mapAll 0x116000 [.mapPage 0x400000 0x100000 7, .mapContiguous 0x40000000 0x100000 2 7] y.2 >>= fun _ =>
      some (x.2.ptInitialized, y.1)) = (some (true, some 0x116000) : Option (Bool × Option ℕ)) := by
    decide +kernel
  obtain ⟨⟨r, m⟩, hinit, hrun⟩ := Option.bind_eq_some_iff.mp hrun
  obtain ⟨⟨c, m₁⟩, hfork, hrun⟩ := Option.bind_eq_some_iff.mp hrun
  obtain ⟨⟨u, m₂⟩, hmap, hrun⟩ := Option.bind_eq_some_iff.mp hrun
  simp only [Option.some.injEq, Prod.mk.injEq] at hrun
  obtain ⟨hp, rfl⟩ := hrun
  have hreach := Reach.call _ .start (by simp [SpaceCall.uses]) hinit
  obtain ⟨-, m₃, hfree, -, -, -, heq, -⟩ := freePml4_accounts (List.pairwise_singleton _ _) (by simp [directMapSize])
    _ _ _ _ _ _ hreach hp hfork _ (by simp [MapCall.Low, pageSize]) hmap
  exact ⟨m, m₁, m₂, m₃, _, _, hreach, hfork, hmap, hfree, heq⟩

end LodaxOS.Virt
