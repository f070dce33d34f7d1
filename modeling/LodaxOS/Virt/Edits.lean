/-
# What mapping does to the tables, step by step

`map_page` and `map_contiguous` work on the tables of one PML4, on the ways of
the pages they map. Each access there is one of three (`Edit`): a new table is
hung into an entry that named none, a flag is added to an entry that names a
table, or an entry of a PT is written. What every edit keeps, every call keeps
(`Edits`).
-/
import LodaxOS.Virt.Mapping

namespace LodaxOS.Virt

open Phys (pageSize Inv)
open Radix Partial

variable {z : Phys.State} {own own' own'' : Owners} {M M' M'' : Multiset ℕ} {m m' m'' : Machine}

/-- One access to the tables of the PML4 `r`, on the way of a page in `V`. -/
inductive Edit (z : Phys.State) (r : ℕ) (V : Set ℕ) (own : ℕ → Option (ℕ × ℕ)) (M : Multiset ℕ) (m : Machine) :
    (ℕ → Option (ℕ × ℕ)) → Multiset ℕ → Machine → Prop
  | hang {v l t g flags : ℕ} {ws : ℕ → ℕ} {phys : Phys.State} (hv : v ∈ V) (hd : Down 512 decode m.mem v 3 r (l + 1) t)
      (hf : TableFlags flags) (hno : ∀ f, decode (l + 1) (m.mem t (v / 512 ^ (l + 1) % 512)) ≠ .table f)
      (hp : Fresh z own M m.phys g phys) (hs : ∀ i < 512, Sane l (ws i))
      (hws : ∀ i < 512, ∀ f, decode l (ws i) ≠ .table f) :
      Edit z r V own M m (Function.update own g (some (l, v / 512 ^ (l + 1)))) (g / pageSize ::ₘ M)
        { m with mem := m.mem.hang t (v / 512 ^ (l + 1) % 512) (g ||| flags ||| present) g ws, phys }
  | tag {v l t g flags : ℕ} (hv : v ∈ V) (hd : Down 512 decode m.mem v 3 r (l + 1) t)
      (hD : decode (l + 1) (m.mem t (v / 512 ^ (l + 1) % 512)) = .table g) :
      Edit z r V own M m own M { m with
        mem := m.mem.write t (v / 512 ^ (l + 1) % 512) (m.mem t (v / 512 ^ (l + 1) % 512) ||| (flags &&& user)) }
  | leaf {v t : ℕ} (w : ℕ) (hv : v ∈ V) (hd : Down 512 decode m.mem v 3 r 0 t) :
      Edit z r V own M m own M { m with mem := m.mem.write t (v % 512) w }

/-- Accesses one after the other. -/
inductive Edits (z : Phys.State) (r : ℕ) (V : Set ℕ) (own : ℕ → Option (ℕ × ℕ)) (M : Multiset ℕ) (m : Machine) :
    (ℕ → Option (ℕ × ℕ)) → Multiset ℕ → Machine → Prop
  | refl : Edits z r V own M m own M m
  | tail {own' own'' : ℕ → Option (ℕ × ℕ)} {M' M'' : Multiset ℕ} {m' m'' : Machine}
      (h : Edits z r V own M m own' M' m') (he : Edit z r V own' M' m' own'' M'' m'') :
      Edits z r V own M m own'' M'' m''

lemma Edits.trans {r : ℕ} {V : Set ℕ} (h : Edits z r V own M m own' M' m') (h' : Edits z r V own' M' m' own'' M'' m'') :
    Edits z r V own M m own'' M'' m'' := by
  induction h' with
  | refl => exact h
  | tail _ he ih => exact ih.tail he

lemma Edit.edits {r : ℕ} {V : Set ℕ} (h : Edit z r V own M m own' M' m') : Edits z r V own M m own' M' m' :=
  .tail .refl h

section

variable {r : ℕ} {V : Set ℕ} (hV : ∀ v ∈ V, v < 512 ^ 4)

include hV

/-! ### The tables stay well-formed -/

lemma Edit.tables (hT : Tables z own M m) (hr : Root own r) (h : Edit z r V own M m own' M' m') :
    Tables z own' M' m' ∧ Grown own M m own' M' m' := by
  cases h with
  | @hang v l t g flags ws phys hv hd hf hno hp hs hws =>
    have ht := hd.owned (by norm_num) hT.tree (hr.owned (hV v hv))
    have hT' := hT.hang hp (i := v / 512 ^ (l + 1) % 512) ht hf hs hws
    rw [← div_pow_eq] at hT'
    exact ⟨hT', hp.grown _ _⟩
  | @tag v l t g flags hv hd hD =>
    have ht := hd.owned (by norm_num) hT.tree (hr.owned (hV v hv))
    have hi : v / 512 ^ (l + 1) % 512 < 512 := Nat.mod_lt _ (by norm_num)
    refine ⟨hT.write ht (hT.sane t _ _ _ ht hi).or_user fun f hf => ?_, Extends.refl own, le_rfl, rfl, rfl, rfl⟩
    rw [decode_or_user hD] at hf
    exact hT.tree t _ _ _ f ht hi (hD.trans hf)
  | @leaf v t w hv hd =>
    have ht := hd.owned (by norm_num) hT.tree (hr.owned (hV v hv))
    exact ⟨hT.write_pt _ w ht, Extends.refl own, le_rfl, rfl, rfl, rfl⟩

lemma Edits.tables (hT : Tables z own M m) (hr : Root own r) (h : Edits z r V own M m own' M' m') :
    Tables z own' M' m' ∧ Grown own M m own' M' m' := by
  induction h with
  | refl => exact ⟨hT, Grown.refl own M m⟩
  | tail _ he ih =>
    obtain ⟨hT', hG⟩ := ih
    obtain ⟨hT'', hG'⟩ := he.tables hV hT' (hr.mono hG.ext)
    exact ⟨hT'', hG.trans hG'⟩

end

/-! ### The calls as edits -/

variable {v t l flags virt phys : ℕ} {u : Unit}

section

variable (hz : z.zone.top ≤ directMapSize) {r : ℕ} {V : Set ℕ}

/-- Entries above the way's end that still name their tables. -/
lemma Tables.down_write (hT : Tables z own M m) (hr : Root own r) {k s i w : ℕ} {p : ℕ} (hv : v < 512 ^ 4)
    (hd : Down 512 decode m.mem v 3 r k t) (hs : own s = some (l, p))
    (hw : k < l → ∀ g, decode l (m.mem s i) = .table g → decode l w = .table g) :
    Down 512 decode (m.mem.write s i w) v 3 r k t := by
  refine hd.congr (by norm_num) hT.tree (hr.owned hv) fun f j g hf hj hg => ?_
  by_cases hc : f = s ∧ v / 512 ^ j % 512 = i
  · obtain ⟨rfl, hi⟩ := hc
    obtain ⟨rfl, -⟩ : l = j ∧ p = v / 512 ^ (j + 1) := by
      rw [hs] at hf
      simpa using hf
    rw [hi] at hg ⊢
    rw [Mem.write_self]
    exact hw hj g hg
  · rw [Mem.write_of_ne _ _ hc]
    exact hg

/-- The table of the entry of `v` is opened. -/
lemma Ensured.edits {child : ℕ → ℕ} {g : ℕ} (hv : v ∈ V)
    (hd : Down 512 decode m.mem v 3 r (l + 1) t) (hf : TableFlags flags)
    (h : Ensured z own M child t (v / 512 ^ (l + 1) % 512) flags l g m m') :
    ∃ own' M', Edits z r V own M m own' M' m' := by
  cases h with
  | there hD hm =>
    subst hm
    exact ⟨own, M, .refl⟩
  | linked hD hp hm =>
    subst hm
    exact ⟨_, _, (Edit.hang hv hd hf (fun f => by rw [hD]; simp) hp (fun _ _ => sane_zero l)
      fun i _ f => decode_newZeroed l i f).edits⟩
  | split hl hD hp hm =>
    subst hl hm
    exact ⟨_, _, (Edit.hang hv hd hf (fun f => by rw [zero_add, hD]; simp) hp (fun _ _ => sane_pt _)
      fun _ _ _ hc => (decode_eq_table.mp hc).2.1 rfl).edits⟩

include hz

/-- `ensure_table` on the way of `virt`, and the `USER` bit after it. -/
lemma ensureUser_edits {g tableFlags : ℕ} (hV : ∀ v ∈ V, v < 512 ^ 4) (hv : vpn virt ∈ V) (hl : l ≤ 2)
    (hf : TableFlags tableFlags) (hT : Tables z own M m) (hr : Root own r)
    (hd : Down 512 decode m.mem (vpn virt) 3 r (l + 1) t) {m1 : Machine}
    (he : ensureTable t (indexForAddr virt (l + 1)) tableFlags l m = some (g, m1))
    (ha : addUser t (indexForAddr virt (l + 1)) flags m1 = some (u, m')) :
    ∃ own' M', Edits z r V own M m own' M' m' ∧ Down 512 decode m'.mem (vpn virt) 3 r l g := by
  have hlt := vpn_lt virt
  have ht := hd.owned (by norm_num) hT.tree (hr.owned hlt)
  have hi : vpn virt / 512 ^ (l + 1) % 512 < 512 := Nat.mod_lt _ (by norm_num)
  rw [indexForAddr_vpn virt (by omega)] at he ha
  have hE := hT.ensure hz reaching_toVirtual ht hi hf he
  obtain ⟨own1, M1, hedits⟩ := hE.edits hv hd hf
  obtain ⟨hT1, hG1⟩ := hedits.tables hV hT hr
  have hd1 := hE.down hT ht hf rfl (hr.owned hlt) hd
  obtain ⟨_, _, -, -, hD⟩ := hE.tables hT ht hf
  have hdt : Down 512 decode m1.mem (vpn virt) 3 r (l + 1) t := by
    refine hd.congr (by norm_num) hT.tree (hr.owned hlt) fun f j h' hown hj hw => ?_
    rw [hE.frame hown]
    · exact hw
    · rintro ⟨rfl, -⟩
      rw [ht] at hown
      simp at hown
      omega
  unfold addUser at ha
  obtain ⟨e, m2, hread, hw⟩ := bind_eq_some.mp ha
  obtain ⟨rfl, rfl⟩ := readEntry_eq_some.mp hread
  obtain rfl := writeEntry_eq_some.mp hw
  refine ⟨own1, M1, hedits.tail (.tag hv hdt hD), ?_⟩
  exact hT1.down_write (hr.mono hG1.ext) hlt hd1 (hG1.ext _ _ ht) fun _ f hf' => decode_or_user hf'

/-- The PT of a page is opened. -/
lemma ensurePt_edits {pt : ℕ} (hV : ∀ v ∈ V, v < 512 ^ 4) (hv : vpn virt ∈ V) (hT : Tables z own M m)
    (hr : Root own r) (h : ensurePt r virt flags m = some (pt, m')) :
    ∃ own' M', Edits z r V own M m own' M' m' ∧ Down 512 decode m'.mem (vpn virt) 3 r 0 pt := by
  unfold ensurePt at h
  have hf := tableFlags_user flags
  have hlt := vpn_lt virt
  obtain ⟨pdp, m1, h1, h⟩ := bind_eq_some.mp h
  obtain ⟨_, m2, h2, h⟩ := bind_eq_some.mp h
  obtain ⟨pdp', m3, h3, h⟩ := bind_eq_some.mp h
  obtain ⟨pd, m4, h4, h⟩ := bind_eq_some.mp h
  obtain ⟨_, m5, h5, h⟩ := bind_eq_some.mp h
  obtain ⟨pd', m6, h6, h⟩ := bind_eq_some.mp h
  obtain ⟨pt', m7, h7, h⟩ := bind_eq_some.mp h
  obtain ⟨_, m8, h8, h9⟩ := bind_eq_some.mp h
  obtain ⟨own1, M1, e1, d1⟩ := ensureUser_edits hz hV hv (by norm_num) hf hT hr (.here 3 r) h1 h2
  obtain ⟨T1, G1⟩ := e1.tables hV hT hr
  have r1 := hr.mono G1.ext
  obtain ⟨rfl, rfl⟩ := T1.toVirtual hz (d1.owned (by norm_num) T1.tree (r1.owned hlt)) h3
  obtain ⟨own2, M2, e2, d2⟩ := ensureUser_edits hz hV hv (by norm_num) hf T1 r1 d1 h4 h5
  obtain ⟨T2, G2⟩ := e2.tables hV T1 r1
  have r2 := r1.mono G2.ext
  obtain ⟨rfl, rfl⟩ := T2.toVirtual hz (d2.owned (by norm_num) T2.tree (r2.owned hlt)) h6
  obtain ⟨own3, M3, e3, d3⟩ := ensureUser_edits hz hV hv (by norm_num) hf T2 r2 d2 h7 h8
  obtain ⟨T3, G3⟩ := e3.tables hV T2 r2
  have r3 := r2.mono G3.ext
  obtain ⟨rfl, rfl⟩ := T3.toVirtual hz (d3.owned (by norm_num) T3.tree (r3.owned hlt)) h9
  exact ⟨own3, M3, (e1.trans e2).trans e3, d3⟩

lemma mapPage_edits (hV : ∀ v ∈ V, v < 512 ^ 4) (hv : vpn virt ∈ V)
    (hT : Tables z own M m) (hr : Root own r) (h : mapPage r virt phys flags m = some (u, m')) :
    ∃ own' M', Edits z r V own M m own' M' m' := by
  unfold mapPage at h
  obtain ⟨pt, m1, h1, h2⟩ := bind_eq_some.mp h
  obtain ⟨own', M', he, hd⟩ := ensurePt_edits hz hV hv hT hr h1
  rw [indexForAddr_zero] at h2
  obtain rfl := writeEntry_eq_some.mp h2
  exact ⟨own', M', he.tail (.leaf _ hv hd)⟩

omit hz in
/-- The entries `s, .., s + k - 1` past the page `v` of a PT. -/
lemma writeBatch_edits {pt : ℕ} (hV : ∀ v ∈ V, v < 512 ^ 4) (hr : Root own r)
    (hlt : v < 512 ^ 4) : ∀ (k s : ℕ) {m : Machine}, Tables z own M m → v % 512 + (s + k) ≤ 512 →
    (∀ i, s ≤ i → i < s + k → v + i ∈ V) → Down 512 decode m.mem v 3 r 0 pt →
    writeBatch pt (v % 512) phys flags (List.range' s k) m = some (u, m') → Edits z r V own M m own M m'
  | 0, s, m, _, _, _, _, h => by
    obtain rfl := (pure_eq_some.mp h).2
    exact .refl
  | k + 1, s, m, hT, hk, hmem, hd, h => by
    rw [List.range'_succ, writeBatch] at h
    obtain ⟨_, m1, h₁, h⟩ := bind_eq_some.mp h
    have hidx : v % 512 + s = (v + s) % 512 := by omega
    rw [hidx] at h₁
    obtain rfl := writeEntry_eq_some.mp h₁
    have hpt := hd.owned (by norm_num) hT.tree (hr.owned hlt)
    have hds : Down 512 decode m.mem (v + s) 3 r 0 pt := by
      refine hd.of_div_eq ?_
      norm_num
      omega
    have he : Edit z r V own M m own M _ := .leaf ((phys + s * pageSize) ||| flags) (hmem s le_rfl (by omega)) hds
    obtain ⟨hT', -⟩ := he.tables hV hT hr
    refine he.edits.trans (writeBatch_edits hV hr hlt k (s + 1) hT' (by omega)
      (fun i h1 h2 => hmem i (by omega) (by omega)) ?_ h)
    exact hT.down_write hr hlt hd hpt fun hc => by omega

omit hz in
/-- A page of the batch that begins at `virt`. -/
lemma vpn_batch {i : ℕ} (h : vpn virt % 512 + i < 512) : vpn (virt + i * pageSize) = vpn virt + i := by
  have hlt := vpn_lt virt
  refine vpn_add virt i ?_
  norm_num at hlt ⊢
  omega

lemma mapBatches_edits (hV : ∀ v ∈ V, v < 512 ^ 4) : ∀ (fuel remaining virt phys : ℕ)
    {own : Owners} {M : Multiset ℕ} {m : Machine}, (∀ i < remaining, vpn (virt + i * pageSize) ∈ V) →
    Root own r → Tables z own M m → mapBatches r flags fuel remaining virt phys m = some (u, m') →
    ∃ own' M', Edits z r V own M m own' M' m'
  | 0, remaining, virt, phys, own, M, m, _, _, _, h => by
    obtain rfl := (pure_eq_some.mp h).2
    exact ⟨own, M, .refl⟩
  | fuel + 1, remaining, virt, phys, own, M, m, hmem, hr, hT, h => by
    rw [mapBatches] at h
    by_cases h0 : remaining > 0
    · rw [if_pos h0] at h
      obtain ⟨pt, m1, h1, h⟩ := bind_eq_some.mp h
      obtain ⟨_, m2, h2, h⟩ := bind_eq_some.mp h
      have hv : vpn virt ∈ V := by simpa using hmem 0 h0
      obtain ⟨own1, M1, e1, d1⟩ := ensurePt_edits hz hV hv hT hr h1
      obtain ⟨T1, G1⟩ := e1.tables hV hT hr
      have r1 := hr.mono G1.ext
      rw [indexForAddr_zero] at h2 h
      rw [List.range_eq_range'] at h2
      generalize hb : min (512 - vpn virt % 512) remaining = batch at h2 h
      have hfirst : ∀ i, 0 ≤ i → i < 0 + batch → vpn virt + i ∈ V := by
        intro i _ hi
        rw [← vpn_batch (by omega)]
        exact hmem i (by omega)
      have hrest : ∀ i < remaining - batch, vpn (virt + batch * pageSize + i * pageSize) ∈ V := by
        intro i hi
        have hi' := hmem (batch + i) (by omega)
        rwa [Nat.add_mul, ← add_assoc] at hi'
      have e2 := writeBatch_edits hV r1 (vpn_lt virt) batch 0 T1 (by omega) hfirst d1 h2
      obtain ⟨T2, -⟩ := e2.tables hV T1 r1
      split at h
      · obtain ⟨own3, M3, e3⟩ := mapBatches_edits hV fuel _ _ _ hrest r1 T2 h
        exact ⟨own3, M3, (e1.trans e2).trans e3⟩
      · exact absurd h failure_ne_some
    · rw [if_neg h0] at h
      obtain rfl := (pure_eq_some.mp h).2
      exact ⟨own, M, .refl⟩

lemma mapContiguous_edits {n : ℕ} (hV : ∀ v ∈ V, v < 512 ^ 4)
    (hmem : ∀ i < n, vpn (virt + i * pageSize) ∈ V) (hT : Tables z own M m) (hr : Root own r)
    (h : mapContiguous r virt phys n flags m = some (u, m')) : ∃ own' M', Edits z r V own M m own' M' m' :=
  mapBatches_edits hz hV n n virt phys hmem hr hT (mapContiguous_run hz hr hT h)

end

end LodaxOS.Virt
