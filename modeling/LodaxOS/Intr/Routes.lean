/-
# Interrupt routes (`kernel/src/intr/mod.rs`, `kernel/src/acpi/madt.rs`)

`init` gives every ISA interrupt that has one a way through an IOAPIC: first
the interrupts that a source override names, then those that keep their own
number. Both loops ask for one route after the other (`wanted`), and a request
that finds a pin takes the next vector, so the table is the list of the
requests with a pin, numbered from 33 on and cut off after vector 63
(`init_routes_eq`).

The table is a list of the entries below `count`; the fields of the MADT that
the routes do not depend on are left out.
-/
import Mathlib.Data.List.Nodup
import Mathlib.Tactic.Ring
import Mathlib.Data.List.ReduceOption

namespace LodaxOS.Intr

open List

/-! ### The MADT -/

structure IoApicInfo where
  gsiBase : UInt32
  deriving DecidableEq

structure IsoInfo where
  bus : UInt8
  source : UInt8
  gsi : UInt32
  flags : UInt16
  deriving DecidableEq

def maxIoapics : ℕ := 16

def maxIsos : ℕ := 32

structure MadtInfo where
  ioapics : List (Option IoApicInfo)
  isos : List (Option IsoInfo)
  ioapicsLength : ioapics.length = maxIoapics
  isosLength : isos.length = maxIsos

/-- `madt::lookup_gsi`. -/
def madtLookupGsi (info : MadtInfo) (isaIrq : UInt8) : UInt32 :=
  match info.isos.reduceOption.find? fun iso => iso.bus = 0 ∧ iso.source = isaIrq with
  | some iso => iso.gsi
  | none => isaIrq.toUInt32

/-- `madt::lookup_ioapic`. -/
def lookupIoapic (info : MadtInfo) (gsi : UInt32) : Option (ℕ × UInt8) :=
  info.ioapics.zipIdx.findSome? fun x =>
    x.1.bind fun io =>
      let pin := gsi - io.gsiBase
      if pin < 256 then some (x.2, pin.toUInt8) else none

/-- Different interrupts have different pins. -/
lemma lookupIoapic_inj {info : MadtInfo} {g g' : UInt32} {x : ℕ × UInt8} (h : lookupIoapic info g = some x)
    (h' : lookupIoapic info g' = some x) : g = g' := by
  have hpin : ∀ {g}, lookupIoapic info g = some x → ∃ io : IoApicInfo, info.ioapics[x.1]? = some (some io) ∧
      g - io.gsiBase < 256 ∧ (g - io.gsiBase).toUInt8 = x.2 := by
    intro g h
    obtain ⟨⟨o, i⟩, hmem, hf⟩ := exists_of_findSome?_eq_some h
    obtain ⟨io, rfl, hf⟩ := Option.bind_eq_some_iff.mp hf
    simp only at hf
    split at hf
    · rename_i hlt
      cases hf
      exact ⟨io, mem_zipIdx_iff_getElem?.mp hmem, hlt, rfl⟩
    · cases hf
  obtain ⟨io, hio, hlt, hp⟩ := hpin h
  obtain ⟨io', hio', hlt', hp'⟩ := hpin h'
  obtain rfl : io = io' := by simpa [hio] using hio'
  have hnat : ∀ {p : UInt32}, p < 256 → p.toUInt8.toNat = p.toNat := by
    intro p hlt
    rw [UInt32.toNat_toUInt8]
    exact Nat.mod_eq_of_lt (UInt32.lt_iff_toNat_lt.mp hlt)
  have heq : g - io.gsiBase = g' - io.gsiBase := by
    apply UInt32.toNat_inj.mp
    rw [← hnat hlt, ← hnat hlt', hp, hp']
  rw [← UInt32.sub_add_cancel g io.gsiBase, heq, UInt32.sub_add_cancel]

/-! ### The table -/

structure IrqRoute where
  isaSource : UInt8
  gsi : UInt32
  ioapicIndex : ℕ
  ioapicPin : UInt8
  vector : ℕ
  flags : UInt16
  deriving DecidableEq

def firstDevVector : ℕ := 33

def lastDevVector : ℕ := 63

def maxRoutes : ℕ := 32

/-- `TABLE` and `NEXT_VECTOR`. -/
structure Table where
  routes : List IrqRoute
  next : ℕ
  initialized : Bool

def Table.new : Table := ⟨[], firstDevVector, false⟩

def allocVector (t : Table) : Option ℕ × Table :=
  (if t.next > lastDevVector then none else some t.next, { t with next := (t.next + 1) % 2 ^ 8 })

def buildRoute (madt : MadtInfo) (isaSource : UInt8) (gsi : UInt32) (flags : UInt16) (t : Table) : Option IrqRoute × Table :=
  match lookupIoapic madt gsi with
  | none => (none, t)
  | some (ioapicIdx, pin) =>
    let r := allocVector t
    (r.1.map fun vector => ⟨isaSource, gsi, ioapicIdx, pin, vector, flags⟩, r.2)

/-- A route goes behind the others, if there is room. -/
def addRoute : Option IrqRoute × Table → Table
  | (some r, t) => if t.routes.length < maxRoutes then { t with routes := t.routes ++ [r] } else t
  | (none, t) => t

def hasIso (madt : MadtInfo) (isaIrq : UInt8) : Bool :=
  madt.isos.reduceOption.any fun iso => iso.bus = 0 ∧ iso.source = isaIrq

/-- The first loop, with `gsi_claimed` beside the table. -/
def routeIso (madt : MadtInfo) (s : Table × (ℕ → Bool)) (iso : IsoInfo) : Table × (ℕ → Bool) :=
  if iso.bus ≠ 0 then s
  else if iso.gsi.toNat ≥ 256 then s
  else (addRoute (buildRoute madt iso.source iso.gsi iso.flags s.1), Function.update s.2 iso.gsi.toNat true)

/-- The second loop. -/
def routeIdentity (madt : MadtInfo) (gsiClaimed : ℕ → Bool) (t : Table) (isaIrq : UInt8) : Table :=
  if hasIso madt isaIrq then t
  else if isaIrq.toNat < 256 ∧ gsiClaimed isaIrq.toNat then t
  else addRoute (buildRoute madt isaIrq isaIrq.toUInt32 0 t)

def isaIrqs : List UInt8 := (List.range 16).map UInt8.ofNat

def init (madt : MadtInfo) (t : Table) : Table :=
  if t.initialized then t
  else
    let s := madt.isos.reduceOption.foldl (routeIso madt) (t, fun _ => false)
    { isaIrqs.foldl (routeIdentity madt s.2) s.1 with initialized := true }

def lookupIsa (t : Table) (isaIrq : UInt8) : Option IrqRoute := t.routes.find? fun r => r.isaSource = isaIrq

def lookupGsi (t : Table) (gsi : UInt32) : Option IrqRoute := t.routes.find? fun r => r.gsi = gsi

def lookupVectorIsa (t : Table) (vector : ℕ) : Option UInt8 :=
  (t.routes.find? fun r => r.vector = vector).map IrqRoute.isaSource

/-! ### What is asked for -/

/-- A source, its interrupt and its flags. -/
structure Request where
  source : UInt8
  gsi : UInt32
  flags : UInt16

namespace MadtInfo

variable (madt : MadtInfo)

/-- The overrides of the ISA bus. -/
def overrides : List IsoInfo := madt.isos.reduceOption.filter fun iso => iso.bus = 0

/-- No two overrides name the same source or the same interrupt. -/
def Lawful : Prop := madt.overrides.Pairwise fun a b => a.source ≠ b.source ∧ a.gsi ≠ b.gsi

/-- The routes that the overrides ask for. -/
def isoWanted : List Request :=
  (madt.overrides.filter fun iso => iso.gsi.toNat < 256).map fun iso => ⟨iso.source, iso.gsi, iso.flags⟩

/-- The ISA interrupts that keep their number: no override is about the source
and none takes the number. -/
def identity : List UInt8 :=
  isaIrqs.filter fun i => ∀ iso ∈ madt.overrides, iso.source ≠ i ∧ iso.gsi ≠ i.toUInt32

def wanted : List Request := madt.isoWanted ++ madt.identity.map fun i => ⟨i, i.toUInt32, 0⟩

end MadtInfo

/-- The requests of a list that have a pin. -/
def pinned (madt : MadtInfo) (qs : List Request) : List (Request × ℕ × UInt8) :=
  qs.filterMap fun q => (lookupIoapic madt q.gsi).map fun p => (q, p)

/-- The routes that are needed. -/
def MadtInfo.needed (madt : MadtInfo) : List (Request × ℕ × UInt8) := pinned madt madt.wanted

/-- The route of a request. -/
def routeOf (x : (Request × ℕ × UInt8) × ℕ) : IrqRoute :=
  ⟨x.1.1.source, x.1.1.gsi, x.1.2.1, x.1.2.2, x.2, x.1.1.flags⟩

/-- The requests with a pin, numbered, as far as there are vectors. -/
def routed (ps : List (Request × ℕ × UInt8)) : List IrqRoute := ((ps.take 31).zipIdx firstDevVector).map routeOf

/-! ### One request after the other -/

/-- The table after the requests of which `ps` have a pin. -/
structure After (ps : List (Request × ℕ × UInt8)) (t : Table) : Prop where
  routes : t.routes = routed ps
  next : t.next = firstDevVector + ps.length
  fresh : t.initialized = false

lemma pinned_append (madt : MadtInfo) (qs qs' : List Request) :
    pinned madt (qs ++ qs') = pinned madt qs ++ pinned madt qs' := filterMap_append ..

lemma pinned_length_le (madt : MadtInfo) (qs : List Request) : (pinned madt qs).length ≤ qs.length :=
  length_filterMap_le _ _

variable {madt : MadtInfo}

lemma After.step {qs : List Request} {t : Table} (h : After (pinned madt qs) t) (hqs : qs.length < 200)
    (q : Request) : After (pinned madt (qs ++ [q])) (addRoute (buildRoute madt q.source q.gsi q.flags t)) := by
  have hps : (pinned madt qs).length < 200 := Nat.lt_of_le_of_lt (pinned_length_le madt qs) hqs
  rw [pinned_append]
  generalize pinned madt qs = ps at *
  cases hp : lookupIoapic madt q.gsi with
  | none =>
    simp only [buildRoute, hp, addRoute, pinned, filterMap_cons, Option.map_none, filterMap_nil, append_nil]
    exact h
  | some p =>
    have hnext : (t.next + 1) % 2 ^ 8 = firstDevVector + (ps ++ [(q, p)]).length := by
      rw [h.next, length_append, length_singleton]
      simp only [firstDevVector]
      omega
    have hlen : t.routes.length = min 31 ps.length := by simp [h.routes, routed]
    simp only [buildRoute, hp, pinned, filterMap_cons, Option.map_some, filterMap_nil, allocVector]
    by_cases hfull : ps.length < 31
    · have hroom : ¬ t.next > lastDevVector := by
        rw [h.next]
        simp only [firstDevVector, lastDevVector]
        omega
      have hmax : t.routes.length < maxRoutes := by
        rw [hlen]
        simp only [maxRoutes]
        omega
      simp only [if_neg hroom, Option.map_some, addRoute, if_pos hmax]
      refine ⟨?_, hnext, h.fresh⟩
      rw [h.routes, routed, routed, take_of_length_le (by omega), take_of_length_le (by simp; omega),
        zipIdx_append, map_append, h.next]
      rfl
    · have hroom : t.next > lastDevVector := by
        rw [h.next]
        simp only [firstDevVector, lastDevVector]
        omega
      simp only [if_pos hroom, Option.map_none, addRoute]
      refine ⟨?_, hnext, h.fresh⟩
      rw [h.routes, routed, routed, take_append_of_le_length (by omega)]

/-- The first loop: the claimed interrupts are those of the overrides so far. -/
lemma routeIso_foldl : ∀ (isos : List IsoInfo) (claimed : ℕ → Bool) {qs : List Request} {t : Table},
    After (pinned madt qs) t → qs.length + isos.length < 200 →
    After (pinned madt (qs ++ ((isos.filter fun iso => iso.bus = 0).filter fun iso => iso.gsi.toNat < 256).map
      fun iso => ⟨iso.source, iso.gsi, iso.flags⟩)) (isos.foldl (routeIso madt) (t, claimed)).1 ∧
    ∀ g < 256, (isos.foldl (routeIso madt) (t, claimed)).2 g =
      (claimed g || decide (∃ iso ∈ isos, iso.bus = 0 ∧ iso.gsi.toNat = g))
  | [], claimed, qs, t, h, _ => by simpa using h
  | iso :: isos, claimed, qs, t, h, hlen => by
    rw [length_cons] at hlen
    rw [foldl_cons]
    by_cases hbus : iso.bus = 0
    · by_cases hgsi : iso.gsi.toNat < 256
      · have hstep := h.step (by omega) ⟨iso.source, iso.gsi, iso.flags⟩
        have heq : routeIso madt (t, claimed) iso = (addRoute (buildRoute madt iso.source iso.gsi iso.flags t),
            Function.update claimed iso.gsi.toNat true) := by
          rw [routeIso, if_neg (not_not.mpr hbus), if_neg (Nat.not_le.mpr hgsi)]
        obtain ⟨h1, h2⟩ := routeIso_foldl isos (Function.update claimed iso.gsi.toNat true) hstep
          (by simp only [length_append, length_singleton]; omega)
        rw [heq]
        refine ⟨?_, fun g hg => ?_⟩
        · rw [append_assoc] at h1
          simpa [hbus, hgsi] using h1
        · rw [h2 g hg]
          by_cases hgi : iso.gsi.toNat = g
          · simp [hgi, hbus]
          · simp [hgi, hbus, Function.update_of_ne (Ne.symm hgi)]
      · have heq : routeIso madt (t, claimed) iso = (t, claimed) := by
          rw [routeIso, if_neg (not_not.mpr hbus), if_pos (Nat.le_of_not_lt hgsi)]
        obtain ⟨h1, h2⟩ := routeIso_foldl isos claimed h (by omega)
        rw [heq]
        refine ⟨by simpa [hbus, hgsi] using h1, fun g hg => ?_⟩
        rw [h2 g hg]
        have hne : iso.gsi.toNat ≠ g := by omega
        simp [hne]
    · have heq : routeIso madt (t, claimed) iso = (t, claimed) := by rw [routeIso, if_pos hbus]
      obtain ⟨h1, h2⟩ := routeIso_foldl isos claimed h (by omega)
      rw [heq]
      exact ⟨by simpa [hbus] using h1, fun g hg => by rw [h2 g hg]; simp [hbus]⟩

lemma mem_overrides {iso : IsoInfo} : iso ∈ madt.overrides ↔ iso ∈ madt.isos.reduceOption ∧ iso.bus = 0 := by
  simp [MadtInfo.overrides]

variable {i : UInt8}

lemma hasIso_iff : hasIso madt i = true ↔ ∃ iso ∈ madt.overrides, iso.source = i := by
  simp [hasIso, mem_overrides, and_assoc]

lemma toNat_gsi_iff {g : UInt32} : g.toNat = i.toNat ↔ g = i.toUInt32 := by
  rw [← UInt32.toNat_inj, UInt8.toNat_toUInt32]

/-- The second loop. -/
lemma routeIdentity_foldl {claimed : ℕ → Bool}
    (hc : ∀ g < 256, claimed g = decide (∃ iso ∈ madt.isos.reduceOption, iso.bus = 0 ∧ iso.gsi.toNat = g)) :
    ∀ (is : List UInt8) {qs : List Request} {t : Table}, After (pinned madt qs) t → qs.length + is.length < 200 →
    After (pinned madt (qs ++ (is.filter fun i => ∀ iso ∈ madt.overrides, iso.source ≠ i ∧ iso.gsi ≠ i.toUInt32).map
      fun i => ⟨i, i.toUInt32, 0⟩)) (is.foldl (routeIdentity madt claimed) t)
  | [], qs, t, h, _ => by simpa using h
  | i :: is, qs, t, h, hlen => by
    rw [length_cons] at hlen
    rw [foldl_cons]
    have hclaimed : claimed i.toNat = true ↔ ∃ iso ∈ madt.overrides, iso.gsi = i.toUInt32 := by
      rw [hc _ i.toNat_lt]
      simp only [decide_eq_true_eq, toNat_gsi_iff, mem_overrides, and_assoc]
    by_cases hiso : hasIso madt i = true
    · obtain ⟨iso, hmem, hsrc⟩ := hasIso_iff.mp hiso
      have hnot : ¬ ∀ iso ∈ madt.overrides, iso.source ≠ i ∧ iso.gsi ≠ i.toUInt32 := fun hall => (hall iso hmem).1 hsrc
      rw [routeIdentity, if_pos hiso, filter_cons_of_neg (by simpa using hnot)]
      exact routeIdentity_foldl hc is h (by omega)
    · by_cases hcl : claimed i.toNat = true
      · obtain ⟨iso, hmem, hgsi⟩ := hclaimed.mp hcl
        have hnot : ¬ ∀ iso ∈ madt.overrides, iso.source ≠ i ∧ iso.gsi ≠ i.toUInt32 := fun hall => (hall iso hmem).2 hgsi
        rw [routeIdentity, if_neg hiso, if_pos ⟨i.toNat_lt, hcl⟩, filter_cons_of_neg (by simpa using hnot)]
        exact routeIdentity_foldl hc is h (by omega)
      · have hall : ∀ iso ∈ madt.overrides, iso.source ≠ i ∧ iso.gsi ≠ i.toUInt32 := fun iso hmem =>
          ⟨fun he => hiso (hasIso_iff.mpr ⟨iso, hmem, he⟩), fun he => hcl (hclaimed.mpr ⟨iso, hmem, he⟩)⟩
        rw [routeIdentity, if_neg hiso, if_neg fun hand => hcl hand.2, filter_cons_of_pos (by simpa using hall)]
        have hnext := routeIdentity_foldl hc is (h.step (by omega) ⟨i, i.toUInt32, 0⟩)
          (by simp only [length_append, length_singleton]; omega)
        rwa [append_assoc] at hnext

/-- The table is the requests that have a pin, in order. -/
lemma init_routes_eq (madt : MadtInfo) : (init madt Table.new).routes = routed madt.needed := by
  have hstart : After (pinned madt []) Table.new := ⟨rfl, rfl, rfl⟩
  have hisos : madt.isos.reduceOption.length ≤ 32 := by
    rw [← show madt.isos.length = 32 from madt.isosLength]
    exact reduceOption_length_le _
  obtain ⟨h1, h2⟩ := routeIso_foldl madt.isos.reduceOption (fun _ => false) hstart
    (by simp only [length_nil]; omega)
  have hlen : madt.isoWanted.length ≤ 32 := by
    rw [MadtInfo.isoWanted, length_map]
    exact Nat.le_trans (length_filter_le _ _) (Nat.le_trans (length_filter_le _ _) hisos)
  have h3 := routeIdentity_foldl (fun g hg => (h2 g hg).trans (Bool.false_or _)) isaIrqs h1
    (by
      rw [nil_append]
      change madt.isoWanted.length + 16 < 200
      omega)
  exact h3.routes

/-! ### A partial bijection -/

/-- A search by a key that tells the entries apart. -/
lemma find_key {α β : Type} [DecidableEq β] {l : List α} {key : α → β} (hnd : (l.map key).Nodup) {a : α} (ha : a ∈ l) :
    l.find? (fun x => key x = key a) = some a := by
  have hex : (l.find? fun x => key x = key a).isSome = true := List.find?_isSome.mpr ⟨a, ha, decide_eq_true rfl⟩
  obtain ⟨b, hb⟩ := Option.isSome_iff_exists.mp hex
  have hkey : key b = key a := by simpa using List.find?_some hb
  rw [hb, inj_on_of_nodup_map hnd (mem_of_find?_eq_some hb) ha hkey]

lemma isaIrqs_nodup : isaIrqs.Nodup := by decide

lemma mem_isaIrqs (h : i < 16) : i ∈ isaIrqs :=
  mem_map.mpr ⟨i.toNat, mem_range.mpr (UInt8.lt_iff_toNat_lt.mp h), UInt8.ofNat_toNat⟩

/-- The requests differ in their sources and in their interrupts. -/
lemma wanted_pairwise (h : madt.Lawful) : madt.wanted.Pairwise fun q q' => q.source ≠ q'.source ∧ q.gsi ≠ q'.gsi := by
  refine pairwise_append.mpr ⟨?_, ?_, ?_⟩
  · exact pairwise_map.mpr (List.Pairwise.filter _ h)
  · refine pairwise_map.mpr ((isaIrqs_nodup.filter _).imp fun {i j} hne => ⟨hne, fun he => hne ?_⟩)
    rwa [← toNat_gsi_iff, UInt8.toNat_toUInt32, UInt8.toNat_inj] at he
  · intro q hq q' hq'
    obtain ⟨iso, hiso, rfl⟩ := mem_map.mp hq
    obtain ⟨i, hi, rfl⟩ := mem_map.mp hq'
    have hall := (mem_filter.mp hi).2
    rw [decide_eq_true_eq] at hall
    exact hall iso (mem_filter.mp hiso).1

variable {x : Request × ℕ × UInt8}

lemma mem_pinned {qs : List Request} : x ∈ pinned madt qs ↔ x.1 ∈ qs ∧ lookupIoapic madt x.1.gsi = some x.2 := by
  simp only [pinned, mem_filterMap, Option.map_eq_some_iff]
  constructor
  · rintro ⟨q, hq, p, hp, rfl⟩
    exact ⟨hq, hp⟩
  · rintro ⟨hq, hp⟩
    exact ⟨x.1, hq, x.2, hp, rfl⟩

/-- So do those with a pin, which differ in their pins as well. -/
lemma needed_pairwise (h : madt.Lawful) : madt.needed.Pairwise fun x y => x.1.source ≠ y.1.source ∧ x.2 ≠ y.2 := by
  refine List.Pairwise.filterMap _ (fun q q' hne x hx y hy => ?_) (wanted_pairwise h)
  obtain ⟨p, hp, rfl⟩ := Option.map_eq_some_iff.mp hx
  obtain ⟨p', hp', rfl⟩ := Option.map_eq_some_iff.mp hy
  refine ⟨hne.1, fun he => hne.2 ?_⟩
  obtain rfl : p = p' := he
  exact lookupIoapic_inj hp hp'

/-- Every field of the routes that comes from the requests. -/
lemma routed_map {β : Type} (f : IrqRoute → β) (g : Request × ℕ × UInt8 → β) (hfg : ∀ x v, f (routeOf (x, v)) = g x)
    (ps : List (Request × ℕ × UInt8)) : (routed ps).map f = (ps.take 31).map g := by
  rw [routed, map_map]
  conv_rhs => rw [← zipIdx_map_fst firstDevVector (ps.take 31), map_map]
  exact map_congr_left fun x _ => hfg x.1 x.2

lemma routed_vectors (ps : List (Request × ℕ × UInt8)) :
    (routed ps).map IrqRoute.vector = List.range' firstDevVector (ps.take 31).length := by
  rw [routed, map_map, ← zipIdx_map_snd]
  rfl

variable {ps : List (Request × ℕ × UInt8)}

lemma mem_routed (hle : ps.length ≤ 31) (hx : x ∈ ps) : ∃ v, routeOf (x, v) ∈ routed ps := by
  obtain ⟨k, hk⟩ := mem_iff_getElem?.mp hx
  refine ⟨firstDevVector + k, mem_map_of_mem ?_⟩
  rw [take_of_length_le hle]
  exact mk_add_mem_zipIdx_iff_getElem?.mpr hk

lemma exists_of_mem_routed {r : IrqRoute} (hr : r ∈ routed ps) : ∃ x ∈ ps, ∃ v, r = routeOf (x, v) := by
  obtain ⟨⟨x, v⟩, hmem, rfl⟩ := mem_map.mp hr
  exact ⟨x, mem_of_mem_take (fst_mem_of_mem_zipIdx hmem), v, rfl⟩

/-- The interrupt of a source that an override is about. -/
lemma madtLookupGsi_of_mem (h : madt.Lawful) {iso : IsoInfo} (hiso : iso ∈ madt.overrides) :
    madtLookupGsi madt iso.source = iso.gsi := by
  have hnd : (madt.overrides.map IsoInfo.source).Nodup := pairwise_map.mpr (h.imp fun hne => hne.1)
  have hfind : madt.isos.reduceOption.find? (fun x => x.bus = 0 ∧ x.source = iso.source) = some iso := by
    have hkey := find_key hnd hiso
    rw [MadtInfo.overrides, List.find?_filter] at hkey
    simpa using hkey
  rw [madtLookupGsi, hfind]

lemma madtLookupGsi_identity (hi : ∀ iso ∈ madt.overrides, iso.source ≠ i) : madtLookupGsi madt i = i.toUInt32 := by
  have hnone : madt.isos.reduceOption.find? (fun x => x.bus = 0 ∧ x.source = i) = none := by
    refine List.find?_eq_none.mpr fun iso hmem hc => ?_
    rw [decide_eq_true_eq] at hc
    exact hi iso (mem_overrides.mpr ⟨hmem, hc.1⟩) hc.2
  rw [madtLookupGsi, hnone]

/-- After `init`, routes differ in their vectors, which are those of devices, in
their pins and in their sources; and if there are vectors for all of them, every
ISA interrupt that an override sends to an interrupt below 256, or that keeps
its number, has a route exactly if its interrupt has a pin, which is the pin of
the route, and its vector leads back to it. -/
theorem init_bijection (madt : MadtInfo) (h : madt.Lawful) : ((init madt Table.new).routes.map IrqRoute.vector).Nodup ∧
    (∀ r ∈ (init madt Table.new).routes, firstDevVector ≤ r.vector ∧ r.vector ≤ lastDevVector) ∧
    ((init madt Table.new).routes.map fun r => (r.ioapicIndex, r.ioapicPin)).Nodup ∧
    ((init madt Table.new).routes.map IrqRoute.isaSource).Nodup ∧
    (madt.needed.length ≤ 31 → ∀ i : UInt8, i < 16 → ((∃ iso ∈ madt.overrides, iso.source = i ∧ iso.gsi.toNat < 256) ∨
        ∀ iso ∈ madt.overrides, iso.source ≠ i ∧ iso.gsi ≠ i.toUInt32) →
      (lookupIsa (init madt Table.new) i).map (fun r => (r.ioapicIndex, r.ioapicPin)) =
        lookupIoapic madt (madtLookupGsi madt i)) ∧
    ∀ i r, lookupIsa (init madt Table.new) i = some r → lookupVectorIsa (init madt Table.new) r.vector = some i := by
  have hpairs := needed_pairwise h
  have hvectors : ((init madt Table.new).routes.map IrqRoute.vector).Nodup := by
    rw [init_routes_eq, routed_vectors]
    exact List.nodup_range'
  have hsources : ((init madt Table.new).routes.map IrqRoute.isaSource).Nodup := by
    rw [init_routes_eq, routed_map IrqRoute.isaSource (fun x => x.1.source) fun _ _ => rfl]
    exact (List.pairwise_map.mpr ((hpairs.sublist (List.take_sublist _ _)).imp fun hne => hne.1))
  refine ⟨hvectors, fun r hr => ?_, ?_, hsources, fun hle i hi hwant => ?_, fun i r hr => ?_⟩
  · have hmem : r.vector ∈ (init madt Table.new).routes.map IrqRoute.vector := List.mem_map_of_mem hr
    rw [init_routes_eq, routed_vectors, List.mem_range'_1, List.length_take] at hmem
    simp only [firstDevVector, lastDevVector] at *
    omega
  · rw [init_routes_eq, routed_map (fun r => (r.ioapicIndex, r.ioapicPin)) (fun x => x.2) fun _ _ => rfl]
    exact (List.pairwise_map.mpr ((hpairs.sublist (List.take_sublist _ _)).imp fun hne => hne.2))
  · -- the one request for `i`
    have hreq : ∃ q ∈ madt.wanted, q.source = i ∧ q.gsi = madtLookupGsi madt i := by
      rcases hwant with ⟨iso, hiso, rfl, hlt⟩ | hall
      · refine ⟨⟨iso.source, iso.gsi, iso.flags⟩, List.mem_append_left _ (List.mem_map_of_mem ?_), rfl, ?_⟩
        · exact List.mem_filter.mpr ⟨hiso, by simpa using hlt⟩
        · exact (madtLookupGsi_of_mem h hiso).symm
      · refine ⟨⟨i, i.toUInt32, 0⟩, List.mem_append_right _ (List.mem_map_of_mem ?_), rfl, ?_⟩
        · exact List.mem_filter.mpr ⟨mem_isaIrqs hi, by simpa using hall⟩
        · exact (madtLookupGsi_identity fun iso hiso => (hall iso hiso).1).symm
    obtain ⟨q, hq, rfl, hgsi⟩ := hreq
    rw [← hgsi]
    cases hp : lookupIoapic madt q.gsi with
    | some p =>
      obtain ⟨v, hv⟩ := mem_routed hle (mem_pinned.mpr ⟨hq, hp⟩ : (q, p) ∈ madt.needed)
      rw [← init_routes_eq] at hv
      have hfind : lookupIsa (init madt Table.new) q.source = some (routeOf ((q, p), v)) := find_key hsources hv
      rw [hfind]
      rfl
    | none =>
      rw [Option.map_eq_none_iff]
      refine List.find?_eq_none.mpr fun r hr hc => ?_
      rw [init_routes_eq] at hr
      obtain ⟨x, hx, v, rfl⟩ := exists_of_mem_routed hr
      obtain ⟨hxq, hxp⟩ := mem_pinned.mp hx
      have hsame : x.1.source = q.source := of_decide_eq_true hc
      -- a request with the same source is the same request
      have hnd : (madt.wanted.map Request.source).Nodup :=
        List.pairwise_map.mpr ((wanted_pairwise h).imp fun hne => hne.1)
      rw [List.inj_on_of_nodup_map hnd hxq hq hsame, hp] at hxp
      cases hxp
  · have hmem : r ∈ (init madt Table.new).routes := List.mem_of_find?_eq_some hr
    have hsrc : r.isaSource = i := by simpa using List.find?_some hr
    have hfind := find_key hvectors hmem
    rw [lookupVectorIsa, hfind, Option.map_some, hsrc]

/-- The MADT of a PC: one IOAPIC, the timer on pin 2, and the interrupt of
ACPI. -/
def pc : MadtInfo where
  ioapics := some ⟨0⟩ :: List.replicate 15 none
  isos := some ⟨0, 0, 2, 0⟩ :: some ⟨0, 9, 9, 0xD⟩ :: List.replicate 30 none
  ioapicsLength := rfl
  isosLength := rfl

theorem init_bijection_pc : pc.Lawful ∧ pc.needed.length = 15 ∧
    (lookupIsa (init pc Table.new) 0).map (fun r => (r.ioapicIndex, r.ioapicPin)) = some (0, 2) ∧
    ((init pc Table.new).routes.map IrqRoute.isaSource).Nodup := by
  have hl : pc.Lawful := by
    unfold MadtInfo.Lawful
    decide
  obtain ⟨-, -, -, hsources, hroutes, -⟩ := init_bijection pc hl
  have hn : pc.needed.length = 15 := by decide +kernel
  refine ⟨hl, hn, ?_, hsources⟩
  rw [hroutes (by rw [hn]; decide) 0 (by decide) (Or.inl ⟨⟨0, 0, 2, 0⟩, by decide, rfl, by decide⟩)]
  decide

end LodaxOS.Intr
