/-
# Interrupts for drivers (`kernel/src/intr/mod.rs`, `sys_register_intr`)

A driver registers for an interrupt, and a device interrupt wakes the vCPU that
`lookup_vector_driver` finds. No registration is ever taken back: a vCPU that
crashes stays in the table, so the lookup is right only as long as no driver
with a registration crashes and no vector is registered twice
(`delivery_live`).

`Kernel` puts the table beside the scheduler. A registration stands until the
vCPU that made it crashes, is terminated or is freed; those that stand are kept
in `live`, which is no state of the kernel. The vCPUs of the registrations are
arbitrary, and so is the table of routes.
-/
import LodaxOS.Intr.Routes
import LodaxOS.Sched.Survival

namespace LodaxOS.Intr

open List

open Sched (State Alive Survives)
open Traces (Run)
open Asm (Word)

/-! ### The table -/

structure RuntimeIrq where
  vector : ℕ
  gsi : UInt32
  driverVcpu : ℕ
  used : Bool
  deriving DecidableEq

def maxRuntimeIrqs : ℕ := 32

/-- `register_irq`: the vector, and the table with the new entry. -/
def registerIrq (t : Table) (irqs : List RuntimeIrq) (gsi : UInt32) (driverVcpu : ℕ) : Option (ℕ × List RuntimeIrq) :=
  match lookupGsi t gsi with
  | none => none
  | some route =>
    if irqs.any fun e => e.used && e.driverVcpu = driverVcpu then none
    else if irqs.length ≥ maxRuntimeIrqs then none
    else some (route.vector, irqs ++ [⟨route.vector, gsi, driverVcpu, true⟩])

def lookupVectorDriver (irqs : List RuntimeIrq) (vector : ℕ) : ℕ :=
  ((irqs.find? fun e => e.used && e.vector = vector).map RuntimeIrq.driverVcpu).getD 0

/-! ### The kernel -/

def alive (s : State) (v : ℕ) : Bool := (s.vcpus v).any fun x => x.state ≠ .terminated

variable {s : State} {v vector : ℕ}

lemma alive_iff : alive s v = true ↔ ∃ t, Alive s v t := by
  simp [alive, Alive, Option.any_eq_true]

/-- A registration: the vector and the vCPU. -/
abbrev Registration := ℕ × ℕ

structure Kernel where
  sched : State
  irqs : List RuntimeIrq
  /-- The registrations that stand, the newest first (no state of the kernel). -/
  live : List Registration

def Kernel.init (aps : ℕ) (kernelPml4 : Word) : Kernel := ⟨State.init (aps + 1) kernelPml4, [], []⟩

inductive Event
  | sched (e : Sched.Event)
  | register (gsi : UInt32) (v : ℕ)

/-- The event is a crash of the vCPU. -/
def crashes (s : State) (v : ℕ) : Sched.Event → Bool
  | .crash c _ => (s.cpus c).currentVcpu = v
  | _ => false

def step (t : Table) (k : Kernel) : Event → Option Kernel
  | .sched e => (Sched.step k.sched e).map fun s =>
    { k with sched := s, live := k.live.filter fun r => !crashes k.sched r.2 e && alive s r.2 }
  | .register gsi v =>
    match registerIrq t k.irqs gsi v with
    | none => some k
    | some (vector, irqs) => some { k with irqs := irqs, live := (vector, v) :: k.live }

/-- The vCPU of the newest registration for the vector that stands, or 0. -/
def newest (live : List Registration) (vector : ℕ) : ℕ := ((live.find? fun r => r.1 = vector).map Prod.snd).getD 0

/-- A lookup gives the newest registration that stands, and never a dead vCPU;
and a live vCPU without a registration gets one, unless there is no route or
the table is full. -/
structure Delivers (t : Table) (k : Kernel) : Prop where
  lookup : ∀ vector, lookupVectorDriver k.irqs vector = newest k.live vector
  target : ∀ vector, lookupVectorDriver k.irqs vector ≠ 0 → alive k.sched (lookupVectorDriver k.irqs vector) = true
  register : ∀ gsi v, alive k.sched v = true → v ∉ k.live.map Prod.snd → registerIrq t k.irqs gsi v = none →
    lookupGsi t gsi = none ∨ maxRuntimeIrqs ≤ k.live.length

/-- No driver crashes while its registration stands, and where there is room for
a registration, it is for a live vCPU and a vector without one. -/
def Conforms (t : Table) (k : Kernel) : Event → Prop
  | .sched (.crash c _) => (k.sched.cpus c).currentVcpu ∉ k.live.map Prod.snd
  | .sched _ => True
  | .register gsi v => ∀ r, lookupGsi t gsi = some r → v ∉ k.live.map Prod.snd → k.live.length < maxRuntimeIrqs →
    alive k.sched v = true ∧ r.vector ∉ k.live.map Prod.fst

/-! ### The invariant -/

/-- The table has the registrations that stand and no other. -/
structure Tracked (k : Kernel) : Prop where
  entries : k.irqs.map (fun e => (e.vector, e.driverVcpu)) = k.live.reverse
  used : ∀ e ∈ k.irqs, e.used = true
  vectors : (k.live.map Prod.fst).Nodup
  alive : ∀ r ∈ k.live, alive k.sched r.2 = true
  /-- The BSP's idle vCPU is there, so that 0 is no driver. -/
  idle : Alive k.sched 0 .idle

variable {t : Table} {k k' : Kernel}

lemma find_used (vector : ℕ) : ∀ {irqs : List RuntimeIrq}, (∀ e ∈ irqs, e.used = true) →
    irqs.find? (fun e => e.used && e.vector = vector) = irqs.find? fun e => e.vector = vector
  | [], _ => rfl
  | e :: irqs, h => by
    have hrest : ∀ e ∈ irqs, e.used = true := fun e he => h e (mem_cons_of_mem _ he)
    rw [List.find?_cons, List.find?_cons, h e mem_cons_self, Bool.true_and, find_used vector hrest]

/-- What the table gives, in terms of its registrations. -/
lemma lookupVectorDriver_eq {irqs : List RuntimeIrq} (h : ∀ e ∈ irqs, e.used = true) (vector : ℕ) :
    lookupVectorDriver irqs vector = newest (irqs.map fun e => (e.vector, e.driverVcpu)) vector := by
  unfold lookupVectorDriver newest
  rw [find_used vector h, List.find?_map, Option.map_map]
  rfl

variable {live : List Registration} {e : Sched.Event}

lemma newest_of_mem {r : Registration} (hnd : (live.map Prod.fst).Nodup) (hr : r ∈ live) : newest live r.1 = r.2 := by
  rw [newest, find_key hnd hr]
  rfl

lemma newest_of_notMem (h : vector ∉ live.map Prod.fst) : newest live vector = 0 := by
  have hnone : live.find? (fun r => r.1 = vector) = none := by
    refine List.find?_eq_none.mpr fun r hr hc => ?_
    exact h (mem_map.mpr ⟨r, hr, of_decide_eq_true hc⟩)
  rw [newest, hnone]
  rfl

/-- With one registration for a vector, their order makes no difference. -/
lemma newest_reverse (hnd : (live.map Prod.fst).Nodup) (vector : ℕ) :
    newest live.reverse vector = newest live vector := by
  have hnd' : (live.reverse.map Prod.fst).Nodup := by rwa [map_reverse, nodup_reverse]
  by_cases h : vector ∈ live.map Prod.fst
  · obtain ⟨r, hr, rfl⟩ := mem_map.mp h
    rw [newest_of_mem hnd hr, newest_of_mem hnd' (mem_reverse.mpr hr)]
  · rw [newest_of_notMem h, newest_of_notMem]
    rwa [map_reverse, mem_reverse]

lemma Tracked.lookup (h : Tracked k) (vector : ℕ) : lookupVectorDriver k.irqs vector = newest k.live vector := by
  rw [lookupVectorDriver_eq h.used, h.entries, newest_reverse h.vectors]

lemma Tracked.length (h : Tracked k) : k.irqs.length = k.live.length := by
  simpa using congrArg List.length h.entries

/-- A vCPU is in the table if its registration stands. -/
lemma Tracked.any_iff (h : Tracked k) (v : ℕ) :
    (k.irqs.any fun e => e.used && e.driverVcpu = v) = true ↔ v ∈ k.live.map Prod.snd := by
  rw [← mem_reverse, ← map_reverse, ← h.entries, map_map, mem_map, any_eq_true]
  constructor
  · rintro ⟨e, he, hv⟩
    rw [h.used e he, Bool.true_and] at hv
    exact ⟨e, he, of_decide_eq_true hv⟩
  · rintro ⟨e, he, hv⟩
    exact ⟨e, he, by rw [h.used e he, Bool.true_and]; exact decide_eq_true hv⟩

/-- A registration succeeds if it has a route, the vCPU has none and there is
room. -/
lemma Tracked.registerIrq_eq (h : Tracked k) (gsi : UInt32) (v : ℕ) :
    registerIrq t k.irqs gsi v = match lookupGsi t gsi with
      | none => none
      | some r => if v ∈ k.live.map Prod.snd ∨ maxRuntimeIrqs ≤ k.live.length then none
        else some (r.vector, k.irqs ++ [⟨r.vector, gsi, v, true⟩]) := by
  unfold registerIrq
  cases lookupGsi t gsi with
  | none => rfl
  | some =>
    by_cases hv : v ∈ k.live.map Prod.snd
    · simp only [(h.any_iff v).mpr hv, if_true, hv, true_or]
    · have hany : ¬ (k.irqs.any fun e => e.used && e.driverVcpu = v) = true := mt (h.any_iff v).mp hv
      dsimp only
      rw [if_neg hany]
      simp only [hv, false_or, h.length, ge_iff_le]

lemma Tracked.delivers (h : Tracked k) : Delivers t k where
  lookup := h.lookup
  target vector hne := by
    rw [h.lookup] at hne ⊢
    by_cases hmem : vector ∈ k.live.map Prod.fst
    · obtain ⟨r, hr, rfl⟩ := mem_map.mp hmem
      rw [newest_of_mem h.vectors hr]
      exact h.alive r hr
    · exact absurd (newest_of_notMem hmem) hne
  register gsi v _ hv hnone := by
    rw [h.registerIrq_eq] at hnone
    cases hr : lookupGsi t gsi with
    | none => exact Or.inl rfl
    | some =>
      rw [hr] at hnone
      dsimp only at hnone
      by_cases hfull : maxRuntimeIrqs ≤ k.live.length
      · exact Or.inr hfull
      · rw [if_neg (not_or.mpr ⟨hv, hfull⟩)] at hnone
        cases hnone

lemma Tracked.init (aps : ℕ) (kernelPml4 : Word) : Tracked (Kernel.init aps kernelPml4) where
  entries := rfl
  used := nofun
  vectors := .nil
  alive := nofun
  idle := by
    have hpos : 0 < min (aps + 1) Tlb.maxCpus := by
      rw [Nat.lt_min]
      exact ⟨Nat.succ_pos aps, by decide⟩
    exact ⟨⟨0, .idle, .idle, Sched.idleFrame, 0, 0, kernelPml4, 0, Sched.fpuStateInit⟩, if_pos hpos, nofun, rfl⟩

/-! ### Steps of the scheduler -/

/-- A vCPU that does not crash in a step stays alive. -/
lemma survives_of_crashes {s' : State} (h : Sched.step s e = some s')
    (hc : crashes s v e = false) : Survives v s s' := by
  refine Sched.step_survives h fun hf => ?_
  cases e with
  | crash => exact of_decide_eq_false hc hf.1
  | _ => exact hf.elim

/-- Only drivers crash. -/
lemma crashes_idle {s' : State} (h : Sched.step s e = some s') (hidle : Alive s 0 .idle) : crashes s 0 e = false := by
  cases e with
  | crash =>
    obtain ⟨hrun, -⟩ := Option.ite_none_right_eq_some.mp h
    obtain ⟨x, hx, -, htype⟩ := hidle
    refine decide_eq_false fun hcur => ?_
    rw [hcur] at hrun
    simp [Sched.isDriver, hx, htype] at hrun
  | _ => rfl

/-- No registration falls in a step in which none of their vCPUs crashes. -/
lemma Tracked.filter_live (h : Tracked k) (hs : Sched.step k.sched e = some s)
    (hc : ∀ r ∈ k.live, crashes k.sched r.2 e = false) :
    (k.live.filter fun r => !crashes k.sched r.2 e && Intr.alive s r.2) = k.live := by
  refine filter_eq_self.mpr fun r hr => ?_
  obtain ⟨t, ht⟩ := alive_iff.mp (h.alive r hr)
  have halive : Intr.alive s r.2 = true := alive_iff.mpr ⟨t, survives_of_crashes hs (hc r hr) t ht⟩
  rw [hc r hr, halive]
  rfl

lemma Tracked.sched (h : Tracked k) (hs : Sched.step k.sched e = some s)
    (hc : ∀ r ∈ k.live, crashes k.sched r.2 e = false) : Tracked { k with sched := s } where
  entries := h.entries
  used := h.used
  vectors := h.vectors
  alive r hr := by
    obtain ⟨t, ht⟩ := alive_iff.mp (h.alive r hr)
    exact alive_iff.mpr ⟨t, survives_of_crashes hs (hc r hr) t ht⟩
  idle := survives_of_crashes hs (crashes_idle hs h.idle) _ h.idle

lemma conforms_sched_iff (e : Sched.Event) : Conforms t k (.sched e) ↔ ∀ r ∈ k.live, crashes k.sched r.2 e = false := by
  cases e with
  | crash =>
    constructor
    · intro h r hr
      exact decide_eq_false fun heq => h (mem_map.mpr ⟨r, hr, heq.symm⟩)
    · rintro h hmem
      obtain ⟨r, hr, heq⟩ := mem_map.mp hmem
      exact of_decide_eq_false (h r hr) heq.symm
  | _ => exact ⟨fun _ _ _ => rfl, fun _ => trivial⟩

/-- When a driver with a registration crashes, its vector still leads to it. -/
lemma Tracked.not_delivers_of_crash (h : Tracked k) {r : Registration}
    (hs : Sched.step k.sched e = some s) (hr : r ∈ k.live) (hc : crashes k.sched r.2 e = true) :
    ¬ Delivers t { k with sched := s, live := k.live.filter fun r => !crashes k.sched r.2 e && Intr.alive s r.2 } := by
  intro hd
  have hlookup := hd.lookup r.1
  dsimp only at hlookup
  -- it was the only registration for the vector
  have hgone : r.1 ∉ (k.live.filter fun r => !crashes k.sched r.2 e && Intr.alive s r.2).map Prod.fst := by
    intro hmem
    obtain ⟨r', hr', heq⟩ := mem_map.mp hmem
    obtain ⟨hr', hkept⟩ := mem_filter.mp hr'
    obtain rfl : r' = r := inj_on_of_nodup_map h.vectors hr' hr heq
    rw [hc] at hkept
    cases hkept
  rw [h.lookup, newest_of_mem h.vectors hr, newest_of_notMem hgone] at hlookup
  rw [hlookup, crashes_idle hs h.idle] at hc
  cases hc

/-! ### Registrations -/

/-- The kernel after a registration that was accepted. -/
def Kernel.add (k : Kernel) (vector : ℕ) (gsi : UInt32) (v : ℕ) : Kernel :=
  { k with irqs := k.irqs ++ [⟨vector, gsi, v, true⟩], live := (vector, v) :: k.live }

lemma Tracked.add (h : Tracked k) (gsi : UInt32) (hv : Intr.alive k.sched v = true)
    (hvec : vector ∉ k.live.map Prod.fst) : Tracked (k.add vector gsi v) where
  entries := by simp [Kernel.add, h.entries]
  used e he := by
    rcases mem_append.mp he with he | he
    · exact h.used e he
    · rw [mem_singleton.mp he]
  vectors := nodup_cons.mpr ⟨hvec, h.vectors⟩
  alive r hr := by
    rcases mem_cons.mp hr with rfl | hr
    · exact hv
    · exact h.alive r hr
  idle := h.idle

/-- A vector that is registered twice leads to the first driver, and a dead
vCPU's registration to a dead one. -/
lemma Tracked.of_delivers_add (h : Tracked k) {gsi : UInt32} (hv : v ∉ k.live.map Prod.snd)
    (hd : Delivers t (k.add vector gsi v)) : Intr.alive k.sched v = true ∧ vector ∉ k.live.map Prod.fst := by
  have hused : ∀ e ∈ (k.add vector gsi v).irqs, e.used = true := by
    intro e he
    rcases mem_append.mp he with he | he
    · exact h.used e he
    · rw [mem_singleton.mp he]
  have hentries : (k.add vector gsi v).irqs.map (fun e => (e.vector, e.driverVcpu)) = k.live.reverse ++ [(vector, v)] := by
    simp [Kernel.add, h.entries]
  have hnewest : newest (k.add vector gsi v).live vector = v := by simp [Kernel.add, newest]
  have hlookup := hd.lookup vector
  have hvec : vector ∉ k.live.map Prod.fst := by
    intro hmem
    obtain ⟨r, hr, rfl⟩ := mem_map.mp hmem
    -- the older entry is found first
    have hfirst : newest (k.live.reverse ++ [(r.1, v)]) r.1 = r.2 := by
      have hfind : k.live.reverse.find? (fun x => x.1 = r.1) = some r := by
        have hnd : (k.live.reverse.map Prod.fst).Nodup := by
          rw [map_reverse, nodup_reverse]
          exact h.vectors
        exact find_key hnd (mem_reverse.mpr hr)
      rw [newest, List.find?_append, hfind]
      rfl
    rw [lookupVectorDriver_eq hused, hentries, hfirst, hnewest] at hlookup
    exact hv (mem_map.mpr ⟨r, hr, hlookup⟩)
  refine ⟨?_, hvec⟩
  by_cases hzero : v = 0
  · subst hzero
    exact alive_iff.mpr ⟨_, h.idle⟩
  · have htarget := hd.target vector
    rw [hlookup, hnewest] at htarget
    exact htarget hzero

/-! ### Runs -/

/-- A step keeps the table right if it conforms, and only then are lookups right
after it. -/
lemma Tracked.step (h : Tracked k) {e : Event} (hs : step t k e = some k') :
    (Conforms t k e → Tracked k') ∧ (Delivers t k' → Conforms t k e) := by
  cases e with
  | sched =>
    obtain ⟨s, hstep, rfl⟩ := Option.map_eq_some_iff.mp hs
    rw [conforms_sched_iff]
    refine ⟨fun hc => ?_, fun hd r hr => ?_⟩
    · rw [h.filter_live hstep hc]
      exact h.sched hstep hc
    · by_contra hcrash
      exact h.not_delivers_of_crash hstep hr (Bool.not_eq_false _ ▸ hcrash) hd
  | register gsi v =>
    simp only [Intr.step, h.registerIrq_eq] at hs
    cases hr : lookupGsi t gsi with
    | none =>
      rw [hr] at hs
      cases hs
      refine ⟨fun _ => h, fun _ r hsome => ?_⟩
      rw [hr] at hsome
      cases hsome
    | some r =>
      rw [hr] at hs
      dsimp only at hs
      split at hs
      · rename_i hno
        split at hno
        · rename_i hrefused
          cases hs
          refine ⟨fun _ => h, fun _ r' _ hv hroom => ?_⟩
          rcases hrefused with hmem | hfull
          · exact absurd hmem hv
          · exact absurd hroom (not_lt.mpr hfull)
        · cases hno
      · rename_i vector irqs heq
        split at heq
        · cases heq
        · rename_i haccepted
          obtain ⟨hv, hroom⟩ := not_or.mp haccepted
          cases heq
          obtain rfl : k.add r.vector gsi v = k' := Option.some.inj hs
          refine ⟨fun hc => ?_, fun hd r' hr' _ _ => ?_⟩
          · obtain ⟨halive, hvec⟩ := hc r hr hv (not_le.mp hroom)
            exact h.add gsi halive hvec
          · obtain rfl := Option.mem_unique hr hr'
            exact h.of_delivers_add hv hd

/-- A run of conforming steps, from a start with any number of CPUs. -/
def Runs (t : Table) (aps : ℕ) (kernelPml4 : Word) (tr : List Event) (k : Kernel) : Prop :=
  Run (fun k e k' => Conforms t k e ∧ step t k e = some k') (Kernel.init aps kernelPml4) tr k

lemma Runs.tracked {aps : ℕ} {kernelPml4 : Word} {tr : List Event} (h : Runs t aps kernelPml4 tr k) : Tracked k :=
  h.invariant (fun _ _ _ hk hs => (hk.step hs.2).1 hs.1) (Tracked.init aps kernelPml4)

/-- In every state of a run of conforming steps, interrupts reach the live
drivers that registered for them; and after the next step they do exactly if it
conforms. -/
theorem delivery_live {aps : ℕ} {kernelPml4 : Word} {tr : List Event} (h : Runs t aps kernelPml4 tr k) :
    Delivers t k ∧ ∀ e k', step t k e = some k' → (Delivers t k' ↔ Conforms t k e) := by
  refine ⟨h.tracked.delivers, fun e k' hs => ?_⟩
  obtain ⟨hkeeps, honly⟩ := h.tracked.step hs
  exact ⟨honly, fun hc => (hkeeps hc).delivers⟩

/-- A service on the only CPU registers for the keyboard's interrupt. -/
def keyboardDriver : List Event :=
  [.sched (.startService true 0x5000 0x400000 0x800000 (some 0x10000)), .sched (.tick 0 0x9000), .register 1 1]

theorem delivery_live_keyboard : ∃ k, Runs (init pc Table.new) 0 0x1000 keyboardDriver k ∧
    Delivers (init pc Table.new) k ∧ k.live.length = 1 := by
  have hreg : ∀ k : Kernel, alive k.sched 1 = true → k.live = [] → Conforms (init pc Table.new) k (.register 1 1) := by
    intro k halive hlive r _ _ _
    rw [hlive]
    exact ⟨halive, List.not_mem_nil⟩
  have hrun : Runs (init pc Table.new) 0 0x1000 keyboardDriver _ :=
    .cons ⟨trivial, rfl⟩ (.cons ⟨trivial, rfl⟩ (.cons ⟨hreg _ (by decide +kernel) rfl, rfl⟩ (.nil _)))
  exact ⟨_, hrun, (delivery_live hrun).1, by decide +kernel⟩

/-- The driver crashes, and its interrupt still goes to the dead vCPU. -/
theorem delivery_live_crash : ∃ tr k, Run (fun k e k' => step (init pc Table.new) k e = some k') (Kernel.init 0 0x1000) tr k ∧
    lookupVectorDriver k.irqs 35 = 1 ∧ alive k.sched 1 = false ∧ ¬ Delivers (init pc Table.new) k := by
  refine ⟨keyboardDriver ++ [.sched (.crash 0 true)], _, .cons rfl (.cons rfl (.cons rfl (.cons rfl (.nil _)))), ?_⟩
  have hlookup : ∀ {k : Kernel}, lookupVectorDriver k.irqs 35 = 1 → alive k.sched 1 = false →
      lookupVectorDriver k.irqs 35 = 1 ∧ alive k.sched 1 = false ∧ ¬ Delivers (init pc Table.new) k := by
    intro k h1 h2
    refine ⟨h1, h2, fun hd => ?_⟩
    have htarget := hd.target 35
    rw [h1, h2] at htarget
    cases htarget one_ne_zero
  exact hlookup (by decide +kernel) (by decide +kernel)

end LodaxOS.Intr
