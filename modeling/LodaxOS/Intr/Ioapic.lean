/-
# Which IOAPIC has an interrupt (`kernel/src/arch/ioapic.rs`)

`ioapic::lookup_gsi` asks the controllers that `ioapic::init` has set up, which
know how many pins they have. `madt::lookup_ioapic`, which the routes are made
with, knows the bases alone and takes each controller for one with 256 pins.
The two agree exactly if the pins that a controller lacks are taken by those
listed before it (`ownership_iff`); they do not with one controller of 24 pins
(`ownership_fails`).
-/
import LodaxOS.Intr.Routes

namespace LodaxOS.Intr

open List

/-- An initialised IOAPIC. -/
structure IoApic where
  gsiBase : UInt32
  maxRedir : UInt8

/-- The pins are counted modulo 2^32. -/
def IoApic.Has (a : IoApic) (gsi : UInt32) : Prop := gsi - a.gsiBase ≤ a.maxRedir.toUInt32

instance (a : IoApic) (gsi : UInt32) : Decidable (a.Has gsi) := inferInstanceAs (Decidable (_ ≤ _))

/-- `ioapic::init`; `maxRedir i` is what the version register of controller `i` says. -/
def ioapicInit (infos : List IoApicInfo) (maxRedir : ℕ → UInt8) : List IoApic :=
  infos.zipIdx.map fun x => ⟨x.1.gsiBase, maxRedir x.2⟩

/-- `ioapic::lookup_gsi`. -/
def ioapicLookupGsi (ioapics : List IoApic) (gsi : UInt32) : Option (ℕ × UInt8) :=
  ioapics.zipIdx.findSome? fun x =>
    let pin := gsi - x.1.gsiBase
    if pin ≤ x.1.maxRedir.toUInt32 then some (x.2, pin.toUInt8) else none

/-! ### The first controller that passes a test -/

/-- The first that passes the test, with its place and its pin. -/
def firstPin (test : IoApic → Prop) [DecidablePred test] (gsi : UInt32) (l : List IoApic) : Option (ℕ × UInt8) :=
  l.zipIdx.findSome? fun x => if test x.1 then some (x.2, (gsi - x.1.gsiBase).toUInt8) else none

variable {gsi : UInt32} {l : List IoApic}

lemma firstPin_eq_some {test : IoApic → Prop} [DecidablePred test] {r : ℕ × UInt8} : firstPin test gsi l = some r ↔
    ∃ before a after, l = before ++ a :: after ∧ test a ∧ (before.length, (gsi - a.gsiBase).toUInt8) = r ∧
      ∀ b ∈ before, ¬ test b := by
  rw [firstPin, List.findSome?_eq_some_iff]
  constructor
  · rintro ⟨k1, x, k2, h, hx, hall⟩
    obtain ⟨before, l2, rfl, rfl, hk⟩ := zipIdx_eq_append_iff.mp h
    obtain ⟨a, after, rfl, rfl, -⟩ := zipIdx_eq_cons_iff.mp hk.symm
    obtain ⟨ha, hr⟩ := Option.ite_none_right_eq_some.mp hx
    refine ⟨before, a, after, rfl, ha, by simpa using hr, fun b hb => ?_⟩
    obtain ⟨i, hi⟩ := List.getElem?_of_mem hb
    simpa using hall (b, i) (mk_mem_zipIdx_iff_getElem?.mpr hi)
  · rintro ⟨before, a, after, rfl, ha, rfl, hall⟩
    refine ⟨before.zipIdx, (a, before.length), after.zipIdx (before.length + 1), by simp [zipIdx_append],
      by simp [ha], fun x hx => ?_⟩
    simp [hall x.1 (fst_mem_of_mem_zipIdx hx)]

lemma ioapicLookupGsi_eq : ioapicLookupGsi l gsi = firstPin (fun a => a.Has gsi) gsi l := rfl

/-- With the shape that the parser gives the table. -/
lemma lookupIoapic_eq {info : MadtInfo} {infos : List IoApicInfo} {k : ℕ}
    (hinfo : info.ioapics = infos.map some ++ replicate k none) (maxRedir : ℕ → UInt8) :
    lookupIoapic info gsi = firstPin (fun a => gsi - a.gsiBase < 256) gsi (ioapicInit infos maxRedir) := by
  have hnone : ∀ n, ((replicate k (none : Option IoApicInfo)).zipIdx n).findSome? (fun x => x.1.bind fun io =>
      if gsi - io.gsiBase < 256 then some (x.2, (gsi - io.gsiBase).toUInt8) else none) = none := by
    intro n
    rw [List.findSome?_eq_none_iff]
    intro x hx
    rw [eq_of_mem_replicate (fst_mem_of_mem_zipIdx hx)]
    rfl
  have hidx : (ioapicInit infos maxRedir).zipIdx = infos.zipIdx.map fun x => (⟨x.1.gsiBase, maxRedir x.2⟩, x.2) := by
    apply ext_getElem?
    intro i
    simp [ioapicInit, Function.comp_def]
  rw [lookupIoapic, hinfo, zipIdx_append, List.findSome?_append, hnone, Option.or_none, zipIdx_map,
    List.findSome?_map, firstPin, hidx, List.findSome?_map]
  rfl

/-! ### Agreement -/

/-- The two lookups name the one controller that has the interrupt, with its
pin, or none. -/
def SameOwner (info : MadtInfo) (l : List IoApic) (gsi : UInt32) : Prop :=
  lookupIoapic info gsi = ioapicLookupGsi l gsi ∧ ∀ i pin, ioapicLookupGsi l gsi = some (i, pin) ↔
    ∃ a, l[i]? = some a ∧ a.Has gsi ∧ pin = (gsi - a.gsiBase).toUInt8

lemma IoApic.Has.lt {a : IoApic} (h : a.Has gsi) : gsi - a.gsiBase < 256 := by
  have hle := UInt32.le_iff_toNat_le.mp h
  have hlt := a.maxRedir.toNat_lt
  rw [UInt8.toNat_toUInt32] at hle
  exact UInt32.lt_iff_toNat_lt.mpr (by simpa using Nat.lt_of_le_of_lt hle hlt)

lemma owner_iff (hd : l.Pairwise fun a b => ∀ g, ¬ (a.Has g ∧ b.Has g)) {i : ℕ} {pin : UInt8} :
    ioapicLookupGsi l gsi = some (i, pin) ↔ ∃ a, l[i]? = some a ∧ a.Has gsi ∧ pin = (gsi - a.gsiBase).toUInt8 := by
  rw [ioapicLookupGsi_eq, firstPin_eq_some]
  constructor
  · rintro ⟨before, a, after, rfl, ha, hr, -⟩
    cases hr
    exact ⟨a, by simp, ha, rfl⟩
  · rintro ⟨a, hi, ha, rfl⟩
    obtain ⟨hlt, rfl⟩ := List.getElem?_eq_some_iff.mp hi
    have hl : l = l.take i ++ l[i] :: l.drop (i + 1) := by simp
    rw [hl, pairwise_append] at hd
    exact ⟨_, _, _, hl, ha, by rw [length_take_of_le (Nat.le_of_lt hlt)], fun b hb h => hd.2.2 b hb _ mem_cons_self gsi ⟨h, ha⟩⟩

/-- For controllers with disjoint ranges, listed in any order. -/
theorem ownership_iff {info : MadtInfo} {infos : List IoApicInfo} {k : ℕ} {maxRedir : ℕ → UInt8}
    (hinfo : info.ioapics = infos.map some ++ replicate k none)
    (hd : (ioapicInit infos maxRedir).Pairwise fun a b => ∀ g, ¬ (a.Has g ∧ b.Has g)) :
    (∀ gsi, SameOwner info (ioapicInit infos maxRedir) gsi) ↔
      ∀ before a after, ioapicInit infos maxRedir = before ++ a :: after → ∀ d, a.maxRedir.toUInt32 < d → d < 256 →
        ∃ b ∈ before, a.gsiBase + d - b.gsiBase < 256 := by
  constructor
  · intro h before a after hl d hmax hlt
    by_contra! hno
    have hd' : a.gsiBase + d - a.gsiBase = d := by rw [UInt32.add_comm, UInt32.add_sub_cancel]
    -- the MADT lookup takes the first controller, which does not have the pin
    have hmadt : lookupIoapic info (a.gsiBase + d) = some (before.length, d.toUInt8) := by
      rw [lookupIoapic_eq hinfo maxRedir, firstPin_eq_some]
      exact ⟨before, a, after, hl, by rwa [hd'], by rw [hd'], hno⟩
    rw [(h _).1] at hmadt
    obtain ⟨a', ha', hhas, -⟩ := (owner_iff hd).mp hmadt
    obtain rfl : a = a' := by simpa [hl] using ha'
    rw [IoApic.Has, hd'] at hhas
    exact UInt32.not_le.mpr hmax hhas
  · intro h gsi
    have hfirst : ∀ r, lookupIoapic info gsi = some r → ioapicLookupGsi (ioapicInit infos maxRedir) gsi = some r := by
      intro r hr
      rw [lookupIoapic_eq hinfo maxRedir] at hr
      obtain ⟨before, a, after, hl, hwin, hr, hall⟩ := firstPin_eq_some.mp hr
      rw [ioapicLookupGsi_eq, firstPin_eq_some]
      refine ⟨before, a, after, hl, ?_, hr, fun b hb hb' => hall b hb hb'.lt⟩
      by_contra hno
      obtain ⟨b, hb, hlt⟩ := h before a after hl _ (UInt32.not_le.mp hno) hwin
      rw [UInt32.add_comm, UInt32.sub_add_cancel] at hlt
      exact hall b hb hlt
    refine ⟨?_, fun i pin => owner_iff hd⟩
    cases hw : lookupIoapic info gsi with
    | some r => exact (hfirst r hw).symm
    | none =>
      cases hg : ioapicLookupGsi (ioapicInit infos maxRedir) gsi with
      | none => rfl
      | some r =>
        obtain ⟨a, hi, ha, -⟩ := (owner_iff hd).mp hg
        rw [lookupIoapic_eq hinfo maxRedir, firstPin, List.findSome?_eq_none_iff] at hw
        have hno := hw (a, r.1) (mk_mem_zipIdx_iff_getElem?.mpr hi)
        simp [ha.lt] at hno

/-- A MADT with the controllers of the list and no overrides. -/
def ioapicsOnly (bases : List UInt32) (h : bases.length ≤ maxIoapics) : MadtInfo where
  ioapics := bases.map (fun b => some ⟨b⟩) ++ List.replicate (maxIoapics - bases.length) none
  isos := List.replicate maxIsos none
  ioapicsLength := by simp [h]
  isosLength := List.length_replicate

/-- Two controllers of 256 pins, the upper one listed first. -/
theorem ownership_full : SameOwner (ioapicsOnly [256, 0] (by decide)) (ioapicInit [⟨256⟩, ⟨0⟩] fun _ => 255) 300 := by
  refine (ownership_iff rfl ?_).mpr (fun before a after hl d hmax hlt => ?_) 300
  · refine pairwise_pair.mpr fun g hg => ?_
    simp only [IoApic.Has, UInt32.le_iff_toNat_le, UInt32.toNat_sub] at hg
    have hlt := g.toNat_lt
    simp at hg
    omega
  · have ha : a ∈ ioapicInit [⟨256⟩, ⟨0⟩] fun _ => 255 := hl ▸ mem_append_right _ mem_cons_self
    obtain ⟨x, -, rfl⟩ := mem_map.mp ha
    simp [UInt32.lt_iff_toNat_lt] at hmax hlt
    omega

/-- One controller of 24 pins, which is said to have pin 24. -/
theorem ownership_fails : lookupIoapic (ioapicsOnly [0] (by decide)) 24 = some (0, 24) ∧
    ioapicLookupGsi (ioapicInit [⟨0⟩] fun _ => 23) 24 = none := by decide

end LodaxOS.Intr
