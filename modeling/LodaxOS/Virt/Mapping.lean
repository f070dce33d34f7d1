/-
# Mapping pages

What `id_map_page`, `id_map_huge_2mb`, `map_page` and `map_contiguous` do to
the leaves of an address space. Opening the tables on the way to a page
(`Opened`) changes no leaf, except that a 2 MB page in the way falls into its
parts (`parted`); then one entry is written.
-/
import LodaxOS.Virt.Tables

namespace LodaxOS.Virt

open Phys (pageSize Inv)
open Radix Partial

/-- The leaf that the walk of the page number `v` finds under a PML4: its level
and its entry. -/
def leafAt (mem : Mem ℕ ℕ) (pml4 v : ℕ) : Option (ℕ × ℕ) := find 512 decode mem 3 pml4 v

/-- What a PT entry maps. -/
def ptLeaf (w : ℕ) : Option (ℕ × ℕ) := if w.testBit 0 then some (0, w) else none

/-- The leaf of the page `u` after the 2 MB page it may lie in was split;
`child` gives the flags of the parts. -/
def parted (child : ℕ → ℕ) (u : ℕ) : Option (ℕ × ℕ) → Option (ℕ × ℕ)
  | some (1, e) => ptLeaf (splitPt e (child e) (u % 512))
  | r => r

lemma find_pt (mem : Mem ℕ ℕ) (t v : ℕ) : find 512 decode mem 0 t v = ptLeaf (mem t (v % 512)) := by
  rw [find_zero, decode_zero, ptLeaf]
  cases (mem t (v % 512)).testBit 0 <;> rfl

lemma parted_ptLeaf (child : ℕ → ℕ) (u w : ℕ) : parted child u (ptLeaf w) = ptLeaf w := by
  unfold ptLeaf
  split <;> rfl

variable {z : Phys.State} {own own' own'' : Owners} {M M' M'' : Multiset ℕ} {m m' m'' : Machine} {child : ℕ → ℕ}

/-- A PML4 among the tables. -/
def Root (own : ℕ → Option (ℕ × ℕ)) (r : ℕ) : Prop := own r = some (3, 0)

lemma vpn_lt (virt : ℕ) : vpn virt < 512 ^ 4 := by
  unfold vpn
  exact lt_of_lt_of_eq (Nat.mod_lt _ (by norm_num)) (by norm_num)

lemma Root.owned {r : ℕ} (hr : Root own r) {v : ℕ} (hv : v < 512 ^ 4) : own r = some (3, v / 512 ^ (3 + 1)) := by
  rw [Nat.div_eq_of_lt hv]
  exact hr

lemma Root.mono {r : ℕ} (hr : Root own r) (h : Extends own own') : Root own' r := h r _ hr

lemma Tables.decode_ne_leaf (hT : Tables z own M m) {t l q i : ℕ} (ht : own t = some (l, q)) (hl : 2 ≤ l)
    (hi : i < 512) : decode l (m.mem t i) ≠ .leaf := by
  have hs := hT.sane t l q i ht hi
  unfold decode
  by_cases h0 : (m.mem t i).testBit 0 = true
  · simp [h0, (hs h0).1 hl, show l ≠ 0 by omega]
  · simp [h0]

/-- The page `u` after the PD entry above it was opened. -/
lemma Ensured.leafAt_eq {t i q flags g u r : ℕ} (hT : Tables z own M m) (ht : own t = some (1, q))
    (hf : TableFlags flags) (hr : own r = some (3, u / 512 ^ (3 + 1))) (hi : u / 512 ^ 1 % 512 = i)
    (hd : Down 512 decode m.mem u 3 r 1 t) (h : Ensured z own M child t i flags 0 g m m') :
    leafAt m'.mem r u = parted child u (leafAt m.mem r u) := by
  have hafter : leafAt m'.mem r u = ptLeaf (m'.mem g (u % 512)) := by
    rw [leafAt, (h.down hT ht hf hi hr hd).find_eq, find_pt]
  have hbefore : leafAt m.mem r u = find 512 decode m.mem 1 t u := hd.find_eq
  rw [find_succ, hi] at hbefore
  cases h with
  | there hD hm => rw [← hm, hafter, parted_ptLeaf]
  | linked hD hp hm =>
    have hw : m'.mem g (u % 512) = 0 := by
      rw [hm]
      exact Mem.hang_new _ _ _ _ (hp.ne ht).symm _
    rw [hafter, hbefore, hD, hw]
    rfl
  | split hl hD hp hm =>
    have hw : m'.mem g (u % 512) = splitPt (m.mem t i) (child (m.mem t i)) (u % 512) := by
      rw [hm]
      exact Mem.hang_new _ _ _ _ (hp.ne ht).symm _
    rw [hafter, hbefore, hD, hw]
    rfl

/-! ### Leaves and rights -/

/-- The hardware's walk to a leaf: the entries above it are writable and
executable, so the leaf has the last word. -/
lemma Tables.hwWalk_eq (hT : Tables z own M m) {r a l w : ℕ} (hr : Root own r)
    (h : leafAt m.mem r (vpn a) = some (l, w)) :
    ∃ us, hwWalk m.mem r a = some (l, w, us) ∧ ∀ e ∈ us, e.testBit 1 = true ∧ e.testBit 63 = false := by
  unfold leafAt find at h
  obtain ⟨⟨l', w', us⟩, hw, he⟩ := Option.map_eq_some_iff.mp h
  obtain ⟨rfl, rfl⟩ : l' = l ∧ w' = w := by simpa using he
  refine ⟨us, hw, fun e he => ?_⟩
  obtain ⟨t, j, q, i, g, ht, hi, rfl, hD⟩ := hT.tree.above (by norm_num) (hr.owned (vpn_lt a)) hw e he
  obtain ⟨h0, hj, h7, -⟩ := decode_eq_table.mp hD
  exact (hT.sane t j q i ht hi h0).2 (by omega) h7

lemma hwLeaf_eq_none {mem : Mem ℕ ℕ} {r a : ℕ} (h : leafAt mem r (vpn a) = none) : hwLeaf mem r a = none := by
  unfold leafAt find at h
  rw [Option.map_eq_none_iff] at h
  rw [hwLeaf, hwWalk, h]
  rfl

/-- Where a leaf leads and with which rights; a user page also needs every
entry above it to be one. -/
lemma Tables.hwLeaf_eq (hT : Tables z own M m) {r a l w : ℕ} (hr : Root own r)
    (h : leafAt m.mem r (vpn a) = some (l, w)) : ∃ us, hwWalk m.mem r a = some (l, w, us) ∧
    hwLeaf m.mem r a = some ⟨leafBase l w + a % 2 ^ (12 + 9 * l), w.testBit 1,
      w.testBit 2 && us.all (fun e => e.testBit 2), w.testBit 63⟩ := by
  obtain ⟨us, hw, hus⟩ := hT.hwWalk_eq hr h
  refine ⟨us, hw, ?_⟩
  have h1 : us.all (fun e => e.testBit 1) = true := List.all_eq_true.mpr fun e he => (hus e he).1
  have h63 : us.any (fun e => e.testBit 63) = false := List.any_eq_false.mpr fun e he => by simp [(hus e he).2]
  rw [hwLeaf, hw, Option.map_some, allBits, allBits, anyBit, h1, h63, Bool.and_true, Bool.or_false]

/-- The tables on the way of the page `v` are there, down to the table `t` of
level `l`. Nothing is mapped in another way than it was, but for a 2 MB page
that was split on the way to a PT. -/
structure Opened (z : Phys.State) (child : ℕ → ℕ) (r v : ℕ) (own : ℕ → Option (ℕ × ℕ)) (M : Multiset ℕ) (m : Machine)
    (l t : ℕ) (own' : ℕ → Option (ℕ × ℕ)) (M' : Multiset ℕ) (m' : Machine) : Prop where
  tables : Tables z own' M' m'
  grown : Grown own M m own' M' m'
  down : Down 512 decode m'.mem v 3 r l t
  others : ∀ f k u, own f = some (k, u / 512 ^ (k + 1)) → l ≠ 0 ∨ u / 512 ≠ v / 512 →
    find 512 decode m'.mem k f u = find 512 decode m.mem k f u
  block : l = 0 → ∀ u, u / 512 = v / 512 → leafAt m'.mem r u = parted child u (leafAt m.mem r u)

namespace Opened

variable {child : ℕ → ℕ} {r v l t g flags : ℕ}

lemma refl (hT : Tables z own M m) : Opened z child r v own M m 3 r own M m :=
  ⟨hT, Grown.refl own M m, .here 3 r, fun _ _ _ _ _ => rfl, fun h => by omega⟩

lemma owned (hr : Root own r) (hv : v < 512 ^ 4) (h : Opened z child r v own M m l t own' M' m') :
    own' t = some (l, v / 512 ^ (l + 1)) :=
  h.down.owned (by norm_num) h.tables.tree ((hr.mono h.grown.ext).owned hv)

/-- One table further down. -/
lemma step (hr : Root own r) (hv : v < 512 ^ 4) (hf : TableFlags flags)
    (h : Opened z child r v own M m (l + 1) t own' M' m')
    (he : Ensured z own' M' child t (v / 512 ^ (l + 1) % 512) flags l g m' m'') :
    ∃ own'' M'', Opened z child r v own M m l g own'' M'' m'' ∧ Extends own' own'' ∧
      decode (l + 1) (m''.mem t (v / 512 ^ (l + 1) % 512)) = .table g := by
  have ht := h.owned hr hv
  have hi : v / 512 ^ (l + 1) % 512 < 512 := Nat.mod_lt _ (by norm_num)
  obtain ⟨own'', M'', hT'', hG, hD⟩ := he.tables h.tables ht hf
  refine ⟨own'', M'', ⟨hT'', h.grown.trans hG,
    he.down h.tables ht hf rfl ((hr.mono h.grown.ext).owned hv) h.down, fun f k u hown hu => ?_, fun hl u hu => ?_⟩,
    hG.ext, hD⟩
  · rw [← h.others f k u hown (.inl (by omega))]
    refine find_congr (he.walk_eq h.tables ht hf hi ?_ (h.grown.ext _ _ hown))
    rw [← div_pow_eq]
    by_cases hl : l = 0
    · subst hl
      exact .inr (by simpa using hu)
    · exact .inl (h.tables.decode_ne_leaf ht (by omega) hi)
  · subst hl
    have hv' : u < 512 ^ 4 := by
      norm_num at hv ⊢
      omega
    have hdu : Down 512 decode m'.mem u 3 r 1 t := by
      refine h.down.of_div_eq ?_
      norm_num
      omega
    have hbefore : leafAt m'.mem r u = leafAt m.mem r u := h.others r 3 u (hr.owned hv') (.inl (by omega))
    rw [← hbefore]
    refine he.leafAt_eq h.tables ht hf ((hr.mono h.grown.ext).owned hv') ?_ hdu
    norm_num
    omega

/-- An entry on the way may be rewritten, if it names the same table. -/
lemma retag {t' k q i w : ℕ} (h : Opened z child r v own M m l t own' M' m') (hr : Root own r) (hv : v < 512 ^ 4)
    (ht' : own' t' = some (k, q)) (hs : Sane k w) (hi : i < 512) {g' : ℕ}
    (hD : decode k (m'.mem t' i) = .table g') (hw : decode k w = .table g') :
    Opened z child r v own M m l t own' M' { m' with mem := m'.mem.write t' i w } := by
  have hnode : ∀ f j p, own' f = some p → SameNode decode p.1 (m'.mem.write t' i w f j) (m'.mem f j) := by
    rintro f j ⟨k', q'⟩ hown
    by_cases hc : f = t' ∧ j = i
    · obtain ⟨rfl, rfl⟩ := hc
      obtain ⟨rfl, rfl⟩ : k = k' ∧ q = q' := by rw [ht'] at hown; simpa using hown
      rw [Mem.write_self]
      exact ⟨hw.trans hD.symm, fun hl => absurd (hD.symm.trans hl) (by simp)⟩
    · rw [Mem.write_of_ne _ w hc]
      exact SameNode.refl _ _
  have hfind : ∀ f k u, own' f = some (k, u / 512 ^ (k + 1)) →
      find 512 decode (m'.mem.write t' i w) k f u = find 512 decode m'.mem k f u := fun f k u hown =>
    find_eq_of_sameNode (by norm_num) h.tables.tree u k f hown fun g j hg => hnode g _ _ hg
  refine ⟨h.tables.write ht' hs fun g hg => ?_, ⟨h.grown.ext, h.grown.held, h.grown.regs⟩, ?_, fun f j u hown hu => ?_,
    fun hl u hu => ?_⟩
  · obtain rfl : g' = g := by rw [hw] at hg; simpa using hg
    exact h.tables.tree t' k q i g' ht' hi hD
  · refine h.down.congr (by norm_num) h.tables.tree ((hr.mono h.grown.ext).owned hv) fun f j g hown _ hg => ?_
    exact (hnode f _ _ hown).1.trans hg
  · exact (hfind f j u (h.grown.ext _ _ hown)).trans (h.others f j u hown hu)
  · have hu' : u < 512 ^ 4 := by
      norm_num at hv ⊢
      omega
    exact (hfind r 3 u ((hr.mono h.grown.ext).owned hu')).trans (h.block hl u hu)

/-! ### The way to a page -/

variable {virt : ℕ}

/-- `id_ensure_table` on the way. -/
lemma idEnsure (hz : z.zone.top ≤ directMapSize) (hr : Root own r) (hl : l ≤ 2)
    (h : Opened z (fun _ => present) r (vpn virt) own M m (l + 1) t own' M' m')
    (he : idEnsureTable t (indexForAddr virt (l + 1)) writable l m' = some (g, m'')) :
    ∃ own'' M'', Opened z (fun _ => present) r (vpn virt) own M m l g own'' M'' m'' := by
  rw [indexForAddr_vpn virt (by omega)] at he
  obtain ⟨own'', M'', h', -⟩ := h.step hr (vpn_lt virt) (.inl rfl) (h.tables.ensure hz reaching_pure
    (h.owned hr (vpn_lt virt)) (Nat.mod_lt _ (by norm_num)) (.inl rfl) he)
  exact ⟨own'', M'', h'⟩

end Opened

lemma testBit_or_user {e flags i : ℕ} (hi : i ≠ 2) : (e ||| (flags &&& user)).testBit i = e.testBit i := by
  rw [show user = 2 ^ 2 from rfl, Nat.testBit_or, Nat.testBit_and, Nat.testBit_two_pow]
  simp [show ¬ 2 = i by omega]

lemma decode_or_user {l e flags g : ℕ} (h : decode l e = .table g) : decode l (e ||| (flags &&& user)) = .table g := by
  obtain ⟨h0, hl, h7, hg⟩ := decode_eq_table.mp h
  have hmask : flags &&& user &&& physAddrMask = 0 := by
    rw [Nat.and_assoc, show user &&& physAddrMask = 0 by decide, Nat.and_zero]
  refine decode_eq_table.mpr ⟨(testBit_or_user (by norm_num)).trans h0, hl, (testBit_or_user (by norm_num)).trans h7, ?_⟩
  rw [Nat.and_or_distrib_right, hmask, Nat.or_zero, hg]

lemma Sane.or_user {l e flags : ℕ} (h : Sane l e) : Sane l (e ||| (flags &&& user)) := by
  unfold Sane
  rw [testBit_or_user (by norm_num), testBit_or_user (by norm_num), testBit_or_user (by norm_num),
    testBit_or_user (by norm_num)]
  exact h

namespace Opened

variable {r l t g flags tableFlags virt : ℕ}

/-- `ensure_table` and the `USER` bit after it. -/
lemma ensureUser (hz : z.zone.top ≤ directMapSize) (hr : Root own r) (hl : l ≤ 2) (hf : TableFlags tableFlags)
    (h : Opened z (childFlags tableFlags) r (vpn virt) own M m (l + 1) t own' M' m')
    {m1 : Machine} (he : ensureTable t (indexForAddr virt (l + 1)) tableFlags l m' = some (g, m1)) {u : Unit}
    (ha : addUser t (indexForAddr virt (l + 1)) flags m1 = some (u, m'')) :
    ∃ own'' M'', Opened z (childFlags tableFlags) r (vpn virt) own M m l g own'' M'' m'' := by
  have hv := vpn_lt virt
  have ht := h.owned hr hv
  rw [indexForAddr_vpn virt (by omega)] at he ha
  have hi : vpn virt / 512 ^ (l + 1) % 512 < 512 := Nat.mod_lt _ (by norm_num)
  obtain ⟨own1, M1, h1, hext, hD⟩ := h.step hr hv hf (h.tables.ensure hz reaching_toVirtual ht hi hf he)
  unfold addUser at ha
  obtain ⟨e, m2, hread, hw⟩ := bind_eq_some.mp ha
  obtain ⟨rfl, rfl⟩ := readEntry_eq_some.mp hread
  obtain rfl := writeEntry_eq_some.mp hw
  have ht1 := hext t _ ht
  exact ⟨own1, M1, h1.retag hr hv ht1 (h1.tables.sane t _ _ _ ht1 hi).or_user hi hD (decode_or_user hD)⟩

/-- The table that was opened is reached where it lies. -/
lemma toVirtual (hz : z.zone.top ≤ directMapSize) {v x : ℕ} (hr : Root own r) (hv : v < 512 ^ 4)
    (h : Opened z child r v own M m l t own' M' m') (ht : Virt.toVirtual t m' = some (x, m'')) : x = t ∧ m'' = m' :=
  h.tables.toVirtual hz (h.owned hr hv) ht

end Opened

/-- The three tables that `map_page` and `map_contiguous` open. -/
lemma ensurePt_opened (hz : z.zone.top ≤ directMapSize) {r virt flags pt : ℕ} (hT : Tables z own M m)
    (hr : Root own r) (h : ensurePt r virt flags m = some (pt, m')) :
    ∃ own' M', Opened z (childFlags (writable ||| (flags &&& user))) r (vpn virt) own M m 0 pt own' M' m' := by
  unfold ensurePt at h
  have hf := tableFlags_user flags
  have hv := vpn_lt virt
  obtain ⟨pdp, m1, h1, h⟩ := bind_eq_some.mp h
  obtain ⟨_, m2, h2, h⟩ := bind_eq_some.mp h
  obtain ⟨pdp', m3, h3, h⟩ := bind_eq_some.mp h
  obtain ⟨pd, m4, h4, h⟩ := bind_eq_some.mp h
  obtain ⟨_, m5, h5, h⟩ := bind_eq_some.mp h
  obtain ⟨pd', m6, h6, h⟩ := bind_eq_some.mp h
  obtain ⟨pt', m7, h7, h⟩ := bind_eq_some.mp h
  obtain ⟨_, m8, h8, h9⟩ := bind_eq_some.mp h
  obtain ⟨_, _, hO⟩ := (Opened.refl hT).ensureUser hz hr (by norm_num) hf h1 h2
  obtain ⟨rfl, rfl⟩ := hO.toVirtual hz hr hv h3
  obtain ⟨_, _, hO⟩ := hO.ensureUser hz hr (by norm_num) hf h4 h5
  obtain ⟨rfl, rfl⟩ := hO.toVirtual hz hr hv h6
  obtain ⟨own', M', hO⟩ := hO.ensureUser hz hr (by norm_num) hf h7 h8
  obtain ⟨rfl, rfl⟩ := hO.toVirtual hz hr hv h9
  exact ⟨own', M', hO⟩

/-! ### One page -/

/-- The page `v` was given the PT entry `w`: a 2 MB page it lay in fell into
its parts, and all else is mapped as before. -/
structure Mapped (z : Phys.State) (child : ℕ → ℕ) (r v w : ℕ) (own : ℕ → Option (ℕ × ℕ)) (M : Multiset ℕ) (m : Machine)
    (own' : ℕ → Option (ℕ × ℕ)) (M' : Multiset ℕ) (m' : Machine) : Prop where
  tables : Tables z own' M' m'
  grown : Grown own M m own' M' m'
  others : ∀ f k u, own f = some (k, u / 512 ^ (k + 1)) → u / 512 ≠ v / 512 →
    find 512 decode m'.mem k f u = find 512 decode m.mem k f u
  block : ∀ u, u / 512 = v / 512 → u ≠ v → leafAt m'.mem r u = parted child u (leafAt m.mem r u)
  page : leafAt m'.mem r v = ptLeaf w

/-- The way to the PT of a page that was mapped. -/
lemma Opened.down_write {r v pt w : ℕ} (hr : Root own r) (hv : v < 512 ^ 4)
    (h : Opened z child r v own M m 0 pt own' M' m') : Down 512 decode (m'.mem.write pt (v % 512) w) v 3 r 0 pt := by
  have hpt := h.owned hr hv
  refine h.down.congr (by norm_num) h.tables.tree ((hr.mono h.grown.ext).owned hv) fun f j g hf hj hg => ?_
  rw [Mem.write_of_ne]
  · exact hg
  · rintro ⟨rfl, -⟩
    rw [hpt] at hf
    simp at hf
    omega

lemma Opened.write {r v pt w : ℕ} (hr : Root own r) (hv : v < 512 ^ 4)
    (h : Opened z child r v own M m 0 pt own' M' m') :
    Mapped z child r v w own M m own' M' { m' with mem := m'.mem.write pt (v % 512) w } := by
  have hpt := h.owned hr hv
  have hr' := hr.mono h.grown.ext
  have hsame : ∀ f k u, own' f = some (k, u / 512 ^ (k + 1)) → u ≠ v →
      find 512 decode (m'.mem.write pt (v % 512) w) k f u = find 512 decode m'.mem k f u := by
    intro f k u hf hu
    refine find_congr (h.tables.tree.walk_write (by norm_num) hpt ?_ hf)
    rw [zero_add, pow_zero, pow_one, Nat.div_one, Nat.div_add_mod']
    exact hu
  refine ⟨h.tables.write_pt _ w hpt, ⟨h.grown.ext, h.grown.held, h.grown.regs⟩, fun f k u hf hu => ?_,
    fun u hu hne => ?_, ?_⟩
  · exact (hsame f k u (h.grown.ext _ _ hf) fun hc => hu (by rw [hc])).trans (h.others f k u hf (.inr hu))
  · have hu' : u < 512 ^ 4 := by
      norm_num at hv ⊢
      omega
    exact (hsame r 3 u (hr'.owned hu') hne).trans (h.block rfl u hu)
  · change find 512 decode (m'.mem.write pt (v % 512) w) 3 r v = _
    rw [(h.down_write hr hv).find_eq, find_pt, Mem.write_self]

lemma indexForAddr_zero (virt : ℕ) : indexForAddr virt 0 = vpn virt % 512 := by
  rw [indexForAddr_vpn virt (by norm_num), pow_zero, Nat.div_one]

variable {r virt phys flags : ℕ}

lemma mapPage_mapped (hz : z.zone.top ≤ directMapSize) {u : Unit} (hT : Tables z own M m)
    (hr : Root own r) (h : mapPage r virt phys flags m = some (u, m')) :
    ∃ own' M', Mapped z (childFlags (writable ||| (flags &&& user))) r (vpn virt) (phys ||| flags) own M m own' M' m' := by
  unfold mapPage at h
  obtain ⟨pt, m1, h1, h⟩ := bind_eq_some.mp h
  obtain ⟨own', M', hO⟩ := ensurePt_opened hz hT hr h1
  rw [indexForAddr_zero] at h
  obtain rfl := writeEntry_eq_some.mp h
  exact ⟨own', M', hO.write hr (vpn_lt virt)⟩

lemma idMapPage_mapped (hz : z.zone.top ≤ directMapSize) {u : Unit} (hT : Tables z own M m)
    (hr : Root own r) (h : idMapPage r virt phys flags m = some (u, m')) :
    ∃ own' M', Mapped z (fun _ => present) r (vpn virt) (phys ||| flags) own M m own' M' m' := by
  unfold idMapPage at h
  obtain ⟨pdp, m1, h1, h⟩ := bind_eq_some.mp h
  obtain ⟨pd, m2, h2, h⟩ := bind_eq_some.mp h
  obtain ⟨pt, m3, h3, h⟩ := bind_eq_some.mp h
  obtain ⟨_, _, hO⟩ := (Opened.refl hT).idEnsure hz hr (by norm_num) h1
  obtain ⟨_, _, hO⟩ := hO.idEnsure hz hr (by norm_num) h2
  obtain ⟨own', M', hO⟩ := hO.idEnsure hz hr (by norm_num) h3
  rw [indexForAddr_zero] at h
  obtain rfl := writeEntry_eq_some.mp h
  exact ⟨own', M', hO.write hr (vpn_lt virt)⟩

/-! ### A 2 MB page -/

/-- The 2 MB block of the page `v` was given the PD entry `w`. -/
structure MappedHuge (z : Phys.State) (r v w : ℕ) (own : ℕ → Option (ℕ × ℕ)) (M : Multiset ℕ) (m : Machine)
    (own' : ℕ → Option (ℕ × ℕ)) (M' : Multiset ℕ) (m' : Machine) : Prop where
  tables : Tables z own' M' m'
  grown : Grown own M m own' M' m'
  others : ∀ f k u, own f = some (k, u / 512 ^ (k + 1)) → u / 512 ≠ v / 512 →
    find 512 decode m'.mem k f u = find 512 decode m.mem k f u
  block : ∀ u, u / 512 = v / 512 → leafAt m'.mem r u = if w.testBit 0 then some (1, w) else none

lemma decode_huge {w : ℕ} (h7 : w.testBit 7 = true) : decode 1 w = if w.testBit 0 then .leaf else .empty := by
  unfold decode
  cases h0 : w.testBit 0 <;> simp [h0, h7]

lemma Opened.writeHuge {r v pd w : ℕ} (hr : Root own r) (hv : v < 512 ^ 4)
    (h7 : w.testBit 7 = true) (h : Opened z child r v own M m 1 pd own' M' m') :
    MappedHuge z r v w own M m own' M' { m' with mem := m'.mem.write pd (v / 512 ^ 1 % 512) w } := by
  have hpd := h.owned hr hv
  have hr' := hr.mono h.grown.ext
  refine ⟨h.tables.write hpd ?_ fun g hg => ?_, ⟨h.grown.ext, h.grown.held, h.grown.regs⟩, fun f k u hf hu => ?_,
    fun u hu => ?_⟩
  · exact fun _ => ⟨by omega, fun _ hc => absurd (h7.symm.trans hc) (by simp)⟩
  · exact absurd (h7.symm.trans (decode_eq_table.mp hg).2.2.1) (by simp)
  · rw [← h.others f k u hf (.inl (by norm_num))]
    refine find_congr (h.tables.tree.walk_write (by norm_num) hpd ?_ (h.grown.ext _ _ hf))
    rw [← div_pow_eq, pow_one]
    exact hu
  · have hu' : u < 512 ^ 4 := by
      norm_num at hv ⊢
      omega
    have hd : Down 512 decode (m'.mem.write pd (v / 512 ^ 1 % 512) w) u 3 r 1 pd := by
      refine Down.congr (by norm_num) h.tables.tree (h.down.of_div_eq ?_) (hr'.owned hu') fun f j g hf hj hg => ?_
      · norm_num
        omega
      · rw [Mem.write_of_ne]
        · exact hg
        · rintro ⟨rfl, -⟩
          rw [hpd] at hf
          simp at hf
          omega
    change find 512 decode (m'.mem.write pd (v / 512 ^ 1 % 512) w) 3 r u = _
    rw [hd.find_eq, find_succ, show u / 512 ^ (0 + 1) % 512 = v / 512 ^ 1 % 512 by norm_num; omega, Mem.write_self,
      decode_huge h7]
    cases w.testBit 0 <;> rfl

lemma idMapHuge2mb_mapped (hz : z.zone.top ≤ directMapSize) {u : Unit}
    (hT : Tables z own M m) (hr : Root own r) (h : idMapHuge2mb r virt phys flags m = some (u, m')) :
    ∃ own' M', MappedHuge z r (vpn virt) (phys ||| flags ||| pageSizeBit) own M m own' M' m' := by
  unfold idMapHuge2mb at h
  obtain ⟨pdp, m1, h1, h⟩ := bind_eq_some.mp h
  obtain ⟨pd, m2, h2, h⟩ := bind_eq_some.mp h
  obtain ⟨_, _, hO⟩ := (Opened.refl hT).idEnsure hz hr (by norm_num) h1
  obtain ⟨own', M', hO⟩ := hO.idEnsure hz hr (by norm_num) h2
  rw [indexForAddr_vpn virt (by norm_num)] at h
  obtain rfl := writeEntry_eq_some.mp h
  refine ⟨own', M', hO.writeHuge hr (vpn_lt virt) ?_⟩
  rw [Nat.testBit_or, pageSizeBit_eq, Nat.testBit_two_pow_self, Bool.or_true]

/-! ### Ranges of pages -/

/-- The pages `[v, v + n)` were given the PT entries `w`; 2 MB pages in the way
fell into their parts. -/
structure MappedRange (z : Phys.State) (child : ℕ → ℕ) (r v n : ℕ) (w : ℕ → ℕ) (own : ℕ → Option (ℕ × ℕ)) (M : Multiset ℕ)
    (m : Machine) (own' : ℕ → Option (ℕ × ℕ)) (M' : Multiset ℕ) (m' : Machine) : Prop where
  tables : Tables z own' M' m'
  grown : Grown own M m own' M' m'
  others : ∀ f k u, own f = some (k, u / 512 ^ (k + 1)) → (∀ i < n, u / 512 ≠ (v + i) / 512) →
    find 512 decode m'.mem k f u = find 512 decode m.mem k f u
  block : ∀ u i, i < n → u / 512 = (v + i) / 512 → ¬ (v ≤ u ∧ u < v + n) →
    leafAt m'.mem r u = parted child u (leafAt m.mem r u)
  page : ∀ u, v ≤ u → u < v + n → leafAt m'.mem r u = ptLeaf (w u)

lemma parted_parted (child : ℕ → ℕ) (u : ℕ) : ∀ x : Option (ℕ × ℕ), parted child u (parted child u x) = parted child u x
  | none => rfl
  | some (0, _) => rfl
  | some (1, _) => parted_ptLeaf child u _
  | some (_ + 2, _) => rfl

namespace MappedRange

variable {child : ℕ → ℕ} {r v n : ℕ} {w : ℕ → ℕ}

lemma nil (hT : Tables z own M m) : MappedRange z child r v 0 w own M m own M m :=
  ⟨hT, Grown.refl own M m, fun _ _ _ _ _ => rfl, fun _ _ h => by omega, fun _ _ _ => by omega⟩

lemma single (h : Mapped z child r v (w v) own M m own' M' m') : MappedRange z child r v 1 w own M m own' M' m' where
  tables := h.tables
  grown := h.grown
  others f k u hf hu := h.others f k u hf (hu 0 (by norm_num))
  block u i hi hu hne := by
    obtain rfl : i = 0 := by omega
    exact h.block u hu fun hc => hne (by omega)
  page u h1 h2 := by
    obtain rfl : u = v := by omega
    exact h.page

/-- One range after the other. -/
lemma append {n' : ℕ} (hr : Root own r) (hv : v + (n + n') ≤ 512 ^ 4)
    (h : MappedRange z child r v n w own M m own' M' m')
    (h' : MappedRange z child r (v + n) n' w own' M' m' own'' M'' m'') :
    MappedRange z child r v (n + n') w own M m own'' M'' m'' := by
  -- the second range at a page it does not map
  have hthen : ∀ u, u < 512 ^ 4 → ¬ (v + n ≤ u ∧ u < v + n + n') → leafAt m''.mem r u = leafAt m'.mem r u ∨
      leafAt m''.mem r u = parted child u (leafAt m'.mem r u) := by
    intro u hu hne
    by_cases ht : ∃ i < n', u / 512 = (v + n + i) / 512
    · obtain ⟨i, hi, he⟩ := ht
      exact .inr (h'.block u i hi he hne)
    · push Not at ht
      exact .inl (h'.others r 3 u ((hr.mono h.grown.ext).owned hu) ht)
  have hblock : ∀ u i, i < n + n' → u / 512 = (v + i) / 512 → u < 512 ^ 4 := by
    intro u i hi hu
    norm_num at hv ⊢
    omega
  refine ⟨h'.tables, h.grown.trans h'.grown, fun f k u hf hu => ?_, fun u i hi hu hne => ?_, fun u h1 h2 => ?_⟩
  · rw [h'.others f k u (h.grown.ext _ _ hf) fun i hi => by rw [add_assoc]; exact hu _ (by omega)]
    exact h.others f k u hf fun i hi => hu i (by omega)
  · have hu4 := hblock u i hi hu
    by_cases ht : ∃ j < n, u / 512 = (v + j) / 512
    · obtain ⟨j, hj, he⟩ := ht
      have h1 := h.block u j hj he (by omega)
      rcases hthen u hu4 (by omega) with h2 | h2
      · rw [h2, h1]
      · rw [h2, h1, parted_parted]
    · push Not at ht
      have hj : n ≤ i := by
        by_contra hc
        exact ht i (by omega) hu
      rw [h'.block u (i - n) (by omega) (by rw [hu, add_assoc, Nat.add_sub_cancel' hj]) (by omega)]
      exact congrArg _ (h.others r 3 u (hr.owned hu4) ht)
  · by_cases hc : v + n ≤ u
    · exact h'.page u hc (by omega)
    · have hp := h.page u h1 (by omega)
      rcases hthen u (by omega) (by omega) with h3 | h3
      · rw [h3, hp]
      · rw [h3, hp, parted_ptLeaf]

end MappedRange

/-- A PT that is there already is opened for every page of its block. -/
lemma Opened.again {r v pt : ℕ} (hT : Tables z own M m) (hd : Down 512 decode m.mem v 3 r 0 pt) :
    Opened z child r v own M m 0 pt own M m where
  tables := hT
  grown := Grown.refl own M m
  down := hd
  others _ _ _ _ _ := rfl
  block _ u hu := by
    have hu' : u / 512 ^ (0 + 1) = v / 512 ^ (0 + 1) := by simpa using hu
    rw [leafAt, (hd.of_div_eq hu').find_eq, find_pt, parted_ptLeaf]

/-- The entries `s, .., s + k - 1` past the page `v` of a PT. -/
lemma writeBatch_mapped (child : ℕ → ℕ) {r v pt phys flags : ℕ} {w : ℕ → ℕ} (hr : Root own r) (hv : v < 512 ^ 4)
    {u : Unit} : ∀ (k s : ℕ) {M : Multiset ℕ} {m : Machine}, Tables z own M m → v % 512 + (s + k) ≤ 512 →
    (∀ i, s ≤ i → i < s + k → w (v + i) = (phys + i * pageSize) ||| flags) →
    Down 512 decode m.mem v 3 r 0 pt →
    writeBatch pt (v % 512) phys flags (List.range' s k) m = some (u, m') →
    MappedRange z child r (v + s) k w own M m own M m'
  | 0, s, M, m, hT, _, _, _, h => by
    obtain rfl := (pure_eq_some.mp h).2
    exact MappedRange.nil hT
  | k + 1, s, M, m, hT, hk, hw, hd, h => by
    rw [List.range'_succ, writeBatch] at h
    obtain ⟨_, m1, h₁, h⟩ := bind_eq_some.mp h
    have hidx : v % 512 + s = (v + s) % 512 := by omega
    rw [hidx, ← hw s (by omega) (by omega)] at h₁
    obtain rfl := writeEntry_eq_some.mp h₁
    have hvs : v + s < 512 ^ 4 := by
      norm_num at hv ⊢
      omega
    have hds : Down 512 decode m.mem (v + s) 3 r 0 pt := by
      refine hd.of_div_eq ?_
      norm_num
      omega
    have hO : Opened z child r (v + s) own M m 0 pt own M m := Opened.again hT hds
    have hfirst := MappedRange.single (hO.write (w := w (v + s)) hr hvs)
    have hrest := writeBatch_mapped child (w := w) hr hv k (s + 1) hfirst.tables (by omega)
      (fun i h1 h2 => hw i (by omega) (by omega)) ((hO.down_write hr hvs).of_div_eq (by norm_num; omega)) h
    rw [← add_assoc] at hrest
    rw [add_comm k 1]
    exact hfirst.append hr (by norm_num at hv ⊢; omega) hrest

/-- The PT of a range is opened and the range mapped. -/
lemma Opened.range {r v pt n : ℕ} {w : ℕ → ℕ} (hr : Root own r) (hn : 0 < n) (hv : v + n ≤ 512 ^ 4)
    (h : Opened z child r v own M m 0 pt own' M' m') (h' : MappedRange z child r v n w own' M' m' own'' M'' m'') :
    MappedRange z child r v n w own M m own'' M'' m'' where
  tables := h'.tables
  grown := h.grown.trans h'.grown
  others f k u hf hu := by
    rw [h'.others f k u (h.grown.ext _ _ hf) hu]
    exact h.others f k u hf (.inr (hu 0 hn))
  block u i hi hu hne := by
    rw [h'.block u i hi hu hne]
    by_cases hc : u / 512 = v / 512
    · rw [h.block rfl u hc, parted_parted]
    · have hu4 : u < 512 ^ 4 := by
        norm_num at hv ⊢
        omega
      exact congrArg _ (h.others r 3 u (hr.owned hu4) (.inr hc))
  page := h'.page

/-- The PT entry of the page `v` in a range that begins at the page `v0`. -/
def rangeWord (phys flags v0 v : ℕ) : ℕ := (phys + (v - v0) * pageSize) ||| flags

lemma vpn_add (virt n : ℕ) (h : vpn virt + n < 512 ^ 4) : vpn (virt + n * pageSize) = vpn virt + n := by
  unfold vpn at *
  simp only [pageSize] at *
  norm_num at *
  omega

lemma mapBatches_zero (r flags fuel virt phys : ℕ) (m : Machine) :
    mapBatches r flags fuel 0 virt phys m = some ((), m) := by
  cases fuel <;> rfl

section Contiguous

variable (hz : z.zone.top ≤ directMapSize) {r flags : ℕ} {u : Unit}

include hz

/-- One round of `map_contiguous`: a PT and the entries of the range in it. -/
lemma batch_mapped {virt phys batch pt : ℕ} {w : ℕ → ℕ} {m1 : Machine} (hr : Root own r) (hb : 0 < batch)
    (hle : batch ≤ 512 - vpn virt % 512) (hw : ∀ i < batch, w (vpn virt + i) = (phys + i * pageSize) ||| flags)
    (hT : Tables z own M m) (h1 : ensurePt r virt flags m = some (pt, m1))
    (h2 : writeBatch pt (indexForAddr virt 0) phys flags (List.range batch) m1 = some (u, m')) :
    ∃ own' M', MappedRange z (childFlags (writable ||| (flags &&& user))) r (vpn virt) batch w own M m own' M' m' := by
  have hv := vpn_lt virt
  obtain ⟨own', M', hO⟩ := ensurePt_opened hz hT hr h1
  rw [indexForAddr_zero, List.range_eq_range'] at h2
  have hR := writeBatch_mapped (childFlags (writable ||| (flags &&& user))) (w := w) (hr.mono hO.grown.ext) hv
    batch 0 hO.tables (by omega) (fun i _ hi => hw i (by omega)) hO.down h2
  exact ⟨own', M', hO.range hr hb (by norm_num at hv ⊢; omega) hR⟩

/-- The tables stay well-formed, whatever range is mapped. -/
lemma mapBatches_tables : ∀ (fuel remaining virt phys : ℕ) {own : Owners} {M : Multiset ℕ} {m : Machine},
    Root own r → Tables z own M m → mapBatches r flags fuel remaining virt phys m = some (u, m') →
    ∃ own' M', Tables z own' M' m' ∧ Grown own M m own' M' m'
  | 0, remaining, virt, phys, own, M, m, hr, hT, h => by
    obtain rfl := (pure_eq_some.mp h).2
    exact ⟨own, M, hT, Grown.refl own M m⟩
  | fuel + 1, remaining, virt, phys, own, M, m, hr, hT, h => by
    rw [mapBatches] at h
    by_cases h0 : remaining > 0
    · rw [if_pos h0] at h
      obtain ⟨pt, m1, h1, h⟩ := bind_eq_some.mp h
      obtain ⟨_, m2, h2, h⟩ := bind_eq_some.mp h
      have hidx : vpn virt % 512 < 512 := Nat.mod_lt _ (by norm_num)
      obtain ⟨own2, M2, hR⟩ := batch_mapped hz (w := rangeWord phys flags (vpn virt)) hr
        (by rw [indexForAddr_zero]; omega) (by rw [indexForAddr_zero]; omega) (fun i _ => by simp [rangeWord]) hT h1 h2
      split at h
      · obtain ⟨own3, M3, hT3, hG3⟩ := mapBatches_tables fuel _ _ _ (hr.mono hR.grown.ext) hR.tables h
        exact ⟨own3, M3, hT3, hR.grown.trans hG3⟩
      · exact absurd h failure_ne_some
    · rw [if_neg h0] at h
      obtain rfl := (pure_eq_some.mp h).2
      exact ⟨own, M, hT, Grown.refl own M m⟩

lemma mapBatches_mapped {w : ℕ → ℕ} : ∀ (fuel remaining virt phys : ℕ) {own : Owners} {M : Multiset ℕ}
    {m : Machine}, remaining ≤ fuel → Root own r → Tables z own M m → vpn virt + remaining ≤ 512 ^ 4 →
    (∀ i < remaining, w (vpn virt + i) = (phys + i * pageSize) ||| flags) →
    mapBatches r flags fuel remaining virt phys m = some (u, m') →
    ∃ own' M', MappedRange z (childFlags (writable ||| (flags &&& user))) r (vpn virt) remaining w own M m own' M' m'
  | 0, remaining, virt, phys, own, M, m, hle, hr, hT, _, _, h => by
    obtain rfl := (pure_eq_some.mp h).2
    obtain rfl : remaining = 0 := by omega
    exact ⟨own, M, MappedRange.nil hT⟩
  | fuel + 1, remaining, virt, phys, own, M, m, hle, hr, hT, hv, hw, h => by
    rw [mapBatches] at h
    by_cases h0 : remaining > 0
    · rw [if_pos h0] at h
      obtain ⟨pt, m1, h1, h⟩ := bind_eq_some.mp h
      obtain ⟨_, m2, h2, h⟩ := bind_eq_some.mp h
      have hidx : vpn virt % 512 < 512 := Nat.mod_lt _ (by norm_num)
      rw [indexForAddr_zero] at h2 h
      generalize hb : min (512 - vpn virt % 512) remaining = batch at h2 h
      rw [← indexForAddr_zero] at h2
      obtain ⟨own2, M2, hR⟩ := batch_mapped hz hr (by omega) (by omega) (fun i hi => hw i (by omega)) hT h1 h2
      split at h
      · by_cases hrest : remaining - batch = 0
        · -- the last round
          rw [hrest, mapBatches_zero, Option.some.injEq, Prod.mk.injEq] at h
          obtain rfl := h.2
          obtain rfl : batch = remaining := by omega
          exact ⟨own2, M2, hR⟩
        · have hvpn := vpn_add virt batch (by omega)
          have hw' : ∀ i < remaining - batch, w (vpn (virt + batch * pageSize) + i) =
              (phys + batch * pageSize + i * pageSize) ||| flags := fun i hi => by
            rw [hvpn, add_assoc, hw _ (by omega), Nat.add_mul, ← add_assoc]
          obtain ⟨own3, M3, hR3⟩ := mapBatches_mapped (w := w) fuel _ _ _ (by omega) (hr.mono hR.grown.ext) hR.tables
            (by omega) hw' h
          rw [hvpn] at hR3
          have hall := hR.append hr (by omega) hR3
          rw [Nat.add_sub_cancel' (by omega)] at hall
          exact ⟨own3, M3, hall⟩
      · exact absurd h failure_ne_some
    · rw [if_neg h0] at h
      obtain rfl := (pure_eq_some.mp h).2
      obtain rfl : remaining = 0 := by omega
      exact ⟨own, M, MappedRange.nil hT⟩

variable {virt phys n : ℕ}

lemma mapContiguous_run (hr : Root own r) (hT : Tables z own M m)
    (h : mapContiguous r virt phys n flags m = some (u, m')) : mapBatches r flags n n virt phys m = some (u, m') := by
  unfold mapContiguous at h
  split at h
  · rename_i h0
    subst h0
    exact h
  · split at h
    · exact absurd h failure_ne_some
    · split at h
      · exact absurd h failure_ne_some
      · split at h
        · exact absurd h failure_ne_some
        · obtain ⟨pml4, m1, h1, h2⟩ := bind_eq_some.mp h
          obtain ⟨rfl, rfl⟩ := hT.toVirtual hz hr h1
          exact h2

lemma mapContiguous_tables (hr : Root own r) (hT : Tables z own M m)
    (h : mapContiguous r virt phys n flags m = some (u, m')) :
    ∃ own' M', Tables z own' M' m' ∧ Grown own M m own' M' m' :=
  mapBatches_tables hz n n virt phys hr hT (mapContiguous_run hz hr hT h)

lemma mapContiguous_mapped (hr : Root own r) (hT : Tables z own M m) (hv : vpn virt + n ≤ 2 ^ 36)
    (h : mapContiguous r virt phys n flags m = some (u, m')) :
    ∃ own' M', MappedRange z (childFlags (writable ||| (flags &&& user))) r (vpn virt) n
      (rangeWord phys flags (vpn virt)) own M m own' M' m' :=
  mapBatches_mapped hz n n virt phys le_rfl hr hT (hv.trans (by norm_num)) (fun i _ => by simp [rangeWord])
    (mapContiguous_run hz hr hT h)

end Contiguous

end LodaxOS.Virt
