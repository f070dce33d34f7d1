/-
# Services

The table of services with their DMA buffers (`service.rs`, `sys_dma_alloc`,
`sys_dma_free`), and what happens to a service that crashes (`handle_crash`,
`process_deferred_restarts`). A start of a service is its steps on the table; how
far it gets is an input. What the kernel does is logged, newest first.
-/
import LodaxOS.Gdf.Mailbox
import LodaxOS.Lib.Traces
import Mathlib.Data.List.TakeWhile

namespace LodaxOS.Gdf

open Function Option List

def maxServices : ℕ := 32
def maxDma : ℕ := 8
def maxCrashCount : ℕ := 5
def maxDeferredRestarts : ℕ := 8
def u32Max : ℕ := 2 ^ 32 - 1

/-! ### Services -/

inductive ServiceState
  | loaded
  | running
  | crashed
  | restarting
  | stopped
  deriving DecidableEq

inductive RestartPolicy
  | always
  | onFailure (n : ℕ)
  | never

inductive DriverClass
  | hardware
  | abstraction
  deriving DecidableEq

/-- A DMA buffer: its first frame and its pages. -/
structure Buffer where
  phys : ℕ
  pages : ℕ
  deriving DecidableEq

structure Service where
  name : Name
  state : ServiceState
  vcpuId : ℕ
  dma : List Buffer
  restartPolicy : RestartPolicy
  restartCount : ℕ

structure Services where
  entries : ℕ → Option Service
  count : ℕ

namespace Services

variable (t : Services)

def empty : Services := ⟨fun _ => none, 0⟩

def set (i : ℕ) (svc : Service) : Services := { t with entries := update t.entries i (some svc) }

/-- `service::alloc`. -/
def alloc (name : Name) : Option (Services × ℕ) :=
  if t.count ≥ maxServices then none
  else
    match Slots.free maxServices t.entries with
    | some i => some ({ t.set i ⟨name.padded, .loaded, 0, [], .onFailure 3, 0⟩ with count := t.count + 1 }, i)
    | none => none

/-- `service::free`. -/
def free (i : ℕ) : Services :=
  if (t.entries i).isSome then ⟨update t.entries i none, t.count - 1⟩ else t

def findByVcpu (v : ℕ) : Option ℕ := Slots.find maxServices (fun svc => svc.vcpuId = v) t.entries

/-- The service of a vCPU, with its slot. -/
def ofVcpu (v : ℕ) : Option (ℕ × Service) := (t.findByVcpu v).bind fun i => (t.entries i).map fun svc => (i, svc)

/-- How far the start of a service gets: whether the address space and the
binary are there, the vCPU, and whether it is registered with the scheduler. -/
structure Start where
  loaded : Bool
  vcpu : Option ℕ
  registered : Bool

def startService (name : Name) (o : Start) : Services × Option ℕ :=
  if !o.loaded then (t, none)
  else
    match t.alloc name with
    | none => (t, none)
    | some (t, i) =>
      match o.vcpu with
      | none => (t, none)
      | some v =>
        match t.entries i with
        | none => (t, none)
        | some svc => (t.set i { svc with vcpuId := v, state := .running }, if o.registered then some i else none)

/-! ### DMA buffers -/

def trackDma (v : ℕ) (b : Buffer) : Option Services :=
  match t.ofVcpu v with
  | some (i, svc) => if svc.dma.length ≥ maxDma then none else some (t.set i { svc with dma := svc.dma ++ [b] })
  | none => none

def untrackDma (v phys : ℕ) : Option (Services × ℕ) :=
  match t.ofVcpu v with
  | some (i, svc) =>
    match svc.dma.findIdx? (fun b => b.phys = phys) with
    | some k => (svc.dma[k]?).map fun b => (t.set i { svc with dma := Slots.swapRemove svc.dma k }, b.pages)
    | none => none
  | none => none

/-- The buffers that `cleanup_resources` hands to `free_pages`. -/
def cleanupResources (i : ℕ) : Services × List Buffer :=
  match t.entries i with
  | some svc => (t.set i { svc with dma := [] }, svc.dma.filter fun b => b.phys ≠ 0 && b.pages > 0)
  | none => (t, [])

/-- `stop_service`. -/
def stopService (i : ℕ) : Services × List Buffer :=
  let t := match t.entries i with
    | some svc => t.set i { svc with state := .stopped }
    | none => t
  t.cleanupResources i

end Services

/-- What the system calls on DMA buffers do: the result, and the calls of
`free_pages`. -/
structure DmaResult where
  services : Services
  rax : ℕ
  freed : List Buffer

def dmaPages (size : ℕ) : ℕ := min (max size 0x1000 + 0xFFF) u64Max / 0x1000

/-- `phys` is what `alloc_pages` returns. -/
def sysDmaAlloc (t : Services) (v size : ℕ) (phys : Option ℕ) : DmaResult :=
  match phys with
  | none => ⟨t, u64Max, []⟩
  | some phys =>
    match t.trackDma v ⟨phys, dmaPages size⟩ with
    | some t => ⟨t, phys, []⟩
    | none => ⟨t, u64Max, [⟨phys, dmaPages size⟩]⟩

def sysDmaFree (t : Services) (v phys : ℕ) : DmaResult :=
  match t.untrackDma v phys with
  | some (t, pages) => ⟨t, 0, [⟨phys, pages⟩]⟩
  | none => ⟨t, u64Max, []⟩

/-! ### Crashes -/

/-- A name up to its first zero. -/
def Name.cut (name : Name) : Name :=
  let n := name.takeWhile (· ≠ 0)
  n ++ List.replicate (32 - n.length) 0

structure CrashCounter where
  name : Name
  count : ℕ

structure DeferredRestart where
  name : Name
  elf : List UInt8
  driverClass : DriverClass

/-- `DriverPkgMeta`. -/
structure PkgMeta where
  name : Name
  elf : List UInt8
  driverClass : DriverClass

structure Registry where
  services : Services
  counters : ℕ → Option CrashCounter
  deferred : ℕ → Option DeferredRestart
  pkgMeta : ℕ → Option PkgMeta

def RestartPolicy.permits (n : ℕ) : RestartPolicy → Bool
  | .always => true
  | .onFailure m => n ≤ m
  | .never => false

/-- `bump_crash_count`; the addition may overflow. -/
def bumpCrashCount (t : ℕ → Option CrashCounter) (name : Name) : Option ((ℕ → Option CrashCounter) × ℕ) :=
  match Slots.find maxDrivers (fun c => c.name = name) t with
  | some i => (t i).bind fun c =>
    if c.count + 1 > u32Max then none else some (update t i (some { c with count := c.count + 1 }), c.count + 1)
  | none =>
    match Slots.free maxDrivers t with
    | some i => some (update t i (some ⟨name, 1⟩), 1)
    -- The table is full: this restart is allowed.
    | none => some (t, 1)

def pushDeferredRestart (t : ℕ → Option DeferredRestart) (r : DeferredRestart) : ℕ → Option DeferredRestart :=
  match Slots.free maxDeferredRestarts t with
  | some i => update t i (some r)
  | none => t

/-- The metadata of a driver. -/
def findMeta (t : ℕ → Option PkgMeta) (name : Name) : Option PkgMeta := (Slots.find maxDrivers (fun m => m.name = name) t).bind t

inductive Happening
  /-- The service in a slot crashed; `permitted` if its policy permits a restart
  and the package has its metadata. -/
  | crash (slot : ℕ) (name : Name) (permitted : Bool)
  /-- `process_deferred_restarts` called `start_service`. -/
  | attempt (name : Name)
  /-- `sys_dma_alloc` returned a buffer to a service. -/
  | issue (slot : ℕ) (b : Buffer)
  /-- A buffer that was allocated is not returned; `free_pages` was called. -/
  | undo (b : Buffer)
  /-- `free_pages` was called. -/
  | hand (b : Buffer)
  deriving DecidableEq

namespace Registry

def empty : Registry := ⟨.empty, fun _ => none, fun _ => none, fun _ => none⟩

/-- The part of `handle_crash` on the service, its counter and the queue. -/
def handleCrash (s : Registry) (v : ℕ) : Option (Registry × List Happening) :=
  match s.services.ofVcpu v with
  | none => some (s, [])
  | some (i, svc) =>
    if svc.restartCount + 1 > u32Max then none
    else
      let name := svc.name.cut
      let svc := { svc with state := .crashed, restartCount := svc.restartCount + 1 }
      let (services, freed) := (s.services.set i svc).cleanupResources i
      let svc := { svc with dma := [] }
      let found := findMeta s.pkgMeta name
      let shouldRestart := svc.restartPolicy.permits svc.restartCount
      let log := freed.map .hand ++ [.crash i name (shouldRestart && found.isSome)]
      (bumpCrashCount s.counters name).map fun (counters, crashCount) =>
        let s := { s with services := services, counters := counters }
        if crashCount > maxCrashCount then ({ s with services := services.set i { svc with state := .stopped } }, log)
        else
          match shouldRestart, found with
          | true, some m =>
            ({ s with
                services := (services.set i { svc with state := .restarting }).free i
                deferred := pushDeferredRestart s.deferred ⟨name, m.elf, m.driverClass⟩ }, log)
          | _, _ => ({ s with services := services.set i { svc with state := .stopped } }, log)

/-- One turn of the loop of `process_deferred_restarts`. -/
def restart (s : Registry) (o : Services.Start) : Option (Registry × List Happening) :=
  match Slots.find maxDeferredRestarts (fun _ => true) s.deferred with
  | none => none
  | some i => (s.deferred i).map fun r =>
    ({ s with services := (s.services.startService r.name o).1, deferred := update s.deferred i none },
      [.attempt r.name])

/-- A driver of the package is started; its metadata is kept for a restart. -/
def load (s : Registry) (i : ℕ) (name : Name) (elf : List UInt8) (cls : DriverClass) (o : Services.Start) : Registry :=
  let (services, id) := s.services.startService name o
  let m : PkgMeta := ⟨Name.padded (name.takeWhile (· ≠ 0)), elf, cls⟩
  { s with
    services := services
    pkgMeta := if id.isSome && i < maxDrivers then update s.pkgMeta i (some m) else s.pkgMeta }

end Registry

/-! ### Histories -/

inductive LifeEvent
  | load (i : ℕ) (name : Name) (elf : List UInt8) (cls : DriverClass) (o : Services.Start)
  | crash (v : ℕ)
  | restart (o : Services.Start)
  | stop (i : ℕ)
  | dmaAlloc (v size : ℕ) (phys : Option ℕ)
  | dmaFree (v phys size : ℕ)

structure History where
  now : Registry
  log : List Happening

namespace History

def start : History := ⟨.empty, []⟩

/-- A call of `sys_dma_alloc`: the buffer that it returns, and those that it
hands to `free_pages`. A caller that is no service has no slot. -/
def allocLog (t : Services) (v size : ℕ) (r : DmaResult) : List Happening :=
  r.freed.map .undo ++
    if r.rax = u64Max then [] else [.issue ((t.findByVcpu v).getD maxServices) ⟨r.rax, dmaPages size⟩]

def step (s : History) : LifeEvent → Option History
  | .load i name elf cls o => some { s with now := s.now.load i name elf cls o }
  | .crash v => (s.now.handleCrash v).map fun (r, log) => ⟨r, log ++ s.log⟩
  | .restart o => (s.now.restart o).map fun (r, log) => ⟨r, log ++ s.log⟩
  | .stop i =>
    let r := s.now.services.stopService i
    some ⟨{ s.now with services := r.1 }, r.2.map .hand ++ s.log⟩
  | .dmaAlloc v size phys =>
    let r := sysDmaAlloc s.now.services v size phys
    some ⟨{ s.now with services := r.services }, allocLog s.now.services v size r ++ s.log⟩
  | .dmaFree v phys _ =>
    let r := sysDmaFree s.now.services v phys
    some ⟨{ s.now with services := r.services }, r.freed.map .hand ++ s.log⟩

end History

/-! ### Names -/

lemma takeWhile_append_zeros : ∀ (l : Name) (n : ℕ), (l ++ replicate n 0).takeWhile (· ≠ 0) = l.takeWhile (· ≠ 0)
  | [], n => by
    cases n with
    | zero => rfl
    | succ => rfl
  | a :: l, n => by
    rw [cons_append, takeWhile_cons, takeWhile_cons, takeWhile_append_zeros l n]

lemma takeWhile_take (p : UInt8 → Bool) : ∀ (l : Name) (n : ℕ), (l.take n).takeWhile p = (l.takeWhile p).take n
  | [], n => by simp
  | a :: l, 0 => rfl
  | a :: l, n + 1 => by
    rw [take_succ_cons, takeWhile_cons, takeWhile_cons]
    split
    · rw [take_succ_cons, takeWhile_take p l n]
    · rfl

/-- The three tables agree on a driver's name: what `handle_crash` looks up is
what is stored with the metadata. -/
lemma cut_padded (name : Name) : name.padded.cut = Name.padded (name.takeWhile (· ≠ 0)) := by
  unfold Name.cut Name.padded
  dsimp only
  rw [takeWhile_append_zeros, takeWhile_take]

/-- The service that is started for a deferred restart has its name. -/
lemma cut_padded_cut (name : Name) : name.padded.cut.padded.cut = name.padded.cut := by
  have htake : ∀ n : Name, Name.padded (n.take 31) = n.padded := fun n => by
    unfold Name.padded
    rw [take_take, Nat.min_self]
  have hpad : ∀ n : Name, n.padded.takeWhile (· ≠ 0) = (n.takeWhile (· ≠ 0)).take 31 := fun n => by
    unfold Name.padded
    rw [takeWhile_append_zeros, takeWhile_take]
  rw [cut_padded, cut_padded, hpad, htake, takeWhile_idem]

/-! ### What the operations do -/

namespace Services

variable {t t' : Services} {i j v phys pages : ℕ} {svc svc' : Service} {name : Name} {o : Start} {b : Buffer}

@[simp] lemma set_entries : (t.set i svc).entries = update t.entries i (some svc) := rfl

lemma ofVcpu_eq_some : t.ofVcpu v = some (i, svc) ↔ t.findByVcpu v = some i ∧ t.entries i = some svc := by
  unfold ofVcpu
  constructor
  · intro h
    obtain ⟨j, hj, hmap⟩ := bind_eq_some_iff.mp h
    obtain ⟨svc', hsvc, heq⟩ := map_eq_some_iff.mp hmap
    cases heq
    exact ⟨hj, hsvc⟩
  · intro ⟨hi, hsvc⟩
    rw [hi, bind_some, hsvc, map_some]

lemma alloc_eq_some (h : t.alloc name = some (t', i)) : t.entries i = none ∧
    t'.entries = update t.entries i (some ⟨name.padded, .loaded, 0, [], .onFailure 3, 0⟩) := by
  unfold alloc at h
  split at h
  · cases h
  · split at h
    · rename_i j hj
      cases h
      exact ⟨(Slots.free_eq_some.mp hj).2.1, rfl⟩
    · cases h

/-- A start adds at most one service, without buffers. -/
lemma startService_cases (t : Services) (name : Name) (o : Start) : (t.startService name o).1.entries = t.entries ∨
    ∃ i svc, t.entries i = none ∧ (t.startService name o).1.entries = update t.entries i (some svc) ∧
      svc.dma = [] ∧ svc.name = name.padded := by
  unfold startService
  split
  · exact .inl rfl
  · cases ha : t.alloc name with
    | none => exact .inl rfl
    | some p =>
      obtain ⟨t', i⟩ := p
      obtain ⟨hnone, ht'⟩ := alloc_eq_some ha
      refine .inr ?_
      dsimp only
      cases o.vcpu with
      | none => exact ⟨i, _, hnone, ht', rfl, rfl⟩
      | some v =>
        have hi : t'.entries i = some ⟨name.padded, .loaded, 0, [], .onFailure 3, 0⟩ := by rw [ht', update_self]
        simp only [hi]
        refine ⟨i, ⟨name.padded, .running, v, [], .onFailure 3, 0⟩, hnone, ?_, rfl, rfl⟩
        rw [set_entries, ht', update_idem]

lemma free_entries (t : Services) (i : ℕ) : (t.free i).entries = update t.entries i none := by
  unfold free
  split
  · rfl
  · rename_i h
    rw [not_isSome_iff_eq_none] at h
    rw [← h, update_eq_self]

lemma untrackDma_eq_some (h : t.untrackDma v phys = some (t', pages)) : ∃ i svc k, t.ofVcpu v = some (i, svc) ∧
    svc.dma[k]? = some ⟨phys, pages⟩ ∧ t'.entries = update t.entries i (some { svc with dma := Slots.swapRemove svc.dma k }) := by
  unfold untrackDma at h
  split at h
  · rename_i i svc hv
    split at h
    · rename_i k hk
      obtain ⟨b, hb, heq⟩ := map_eq_some_iff.mp h
      cases heq
      obtain ⟨hlt, hphys, -⟩ := List.findIdx?_eq_some_iff_getElem.mp hk
      obtain ⟨_, hget⟩ := List.getElem?_eq_some_iff.mp hb
      rw [hget] at hphys
      exact ⟨i, svc, k, hv, by rw [hb, ← of_decide_eq_true hphys], rfl⟩
    · cases h
  · cases h

/-- A free fails only for an address that is not recorded. -/
lemma untrackDma_eq_none : t.untrackDma v phys = none ↔ ∀ i svc, t.ofVcpu v = some (i, svc) → ∀ b ∈ svc.dma, b.phys ≠ phys := by
  unfold untrackDma
  cases hv : t.ofVcpu v with
  | none => simp
  | some p =>
    obtain ⟨i, svc⟩ := p
    dsimp only
    cases hk : svc.dma.findIdx? fun b => b.phys = phys with
    | none =>
      rw [List.findIdx?_eq_none_iff] at hk
      simpa using hk
    | some k =>
      obtain ⟨hlt, hphys, -⟩ := List.findIdx?_eq_some_iff_getElem.mp hk
      have hmem : svc.dma[k] ∈ svc.dma := getElem_mem hlt
      simp only [List.getElem?_eq_getElem hlt, map_some, reduceCtorEq, false_iff]
      intro h
      exact h i svc rfl _ hmem (of_decide_eq_true hphys)

lemma stopService_none (h : t.entries i = none) : t.stopService i = (t, []) := by
  simp [stopService, cleanupResources, h]

lemma stopService_some (h : t.entries i = some svc) : (t.stopService i).1.entries =
    update t.entries i (some { svc with state := .stopped, dma := [] }) ∧
      (t.stopService i).2 = svc.dma.filter fun b => b.phys ≠ 0 && b.pages > 0 := by
  simp [stopService, cleanupResources, h]

end Services

/-- A buffer is recorded and returned if its service has room; otherwise it is
freed, and nothing changes. -/
lemma sysDmaAlloc_cases (t : Services) (v size phys : ℕ) :
    (sysDmaAlloc t v size (some phys) = ⟨t, u64Max, [⟨phys, dmaPages size⟩]⟩ ∧
      ∀ i svc, t.ofVcpu v = some (i, svc) → maxDma ≤ svc.dma.length) ∨
    ∃ i svc, t.ofVcpu v = some (i, svc) ∧ svc.dma.length < maxDma ∧ sysDmaAlloc t v size (some phys) =
      ⟨t.set i { svc with dma := svc.dma ++ [⟨phys, dmaPages size⟩] }, phys, []⟩ := by
  unfold sysDmaAlloc Services.trackDma
  cases hv : t.ofVcpu v with
  | none => exact .inl ⟨rfl, fun _ _ h => by cases h⟩
  | some p =>
    obtain ⟨i, svc⟩ := p
    by_cases hroom : svc.dma.length ≥ maxDma
    · refine .inl ⟨by simp only [hroom, if_true], fun j svc' h => ?_⟩
      cases h
      exact hroom
    · exact .inr ⟨i, svc, rfl, not_le.mp hroom, by simp only [hroom, if_false]⟩

/-- A buffer is removed and freed, or nothing changes. -/
lemma sysDmaFree_cases (t : Services) (v phys : ℕ) : sysDmaFree t v phys = ⟨t, u64Max, []⟩ ∨
    ∃ i svc k pages, t.ofVcpu v = some (i, svc) ∧ svc.dma[k]? = some ⟨phys, pages⟩ ∧ (sysDmaFree t v phys).rax = 0 ∧
      (sysDmaFree t v phys).freed = [⟨phys, pages⟩] ∧ (sysDmaFree t v phys).services.entries =
        update t.entries i (some { svc with dma := Slots.swapRemove svc.dma k }) := by
  unfold sysDmaFree
  cases ht : t.untrackDma v phys with
  | none => exact .inl rfl
  | some r =>
    obtain ⟨t', pages⟩ := r
    obtain ⟨i, svc, k, hv, hk, heq⟩ := Services.untrackDma_eq_some ht
    exact .inr ⟨i, svc, k, pages, hv, hk, rfl, rfl, heq⟩

namespace Registry

variable {s s' : Registry} {v : ℕ} {log : List Happening}

/-- Whether a crash of the service is restarted, if the count allows it. -/
def permitted (s : Registry) (svc : Service) : Bool :=
  svc.restartPolicy.permits (svc.restartCount + 1) && (findMeta s.pkgMeta svc.name.cut).isSome

/-- The buffers of a service that are handed to `free_pages` when it goes. -/
def handed (svc : Service) : List Buffer := svc.dma.filter fun b => b.phys ≠ 0 && b.pages > 0

lemma handleCrash_cases (h : s.handleCrash v = some (s', log)) :
    (s.services.ofVcpu v = none ∧ s' = s ∧ log = []) ∨ ∃ i svc counters n, s.services.ofVcpu v = some (i, svc) ∧
      bumpCrashCount s.counters svc.name.cut = some (counters, n) ∧ s'.counters = counters ∧ s'.pkgMeta = s.pkgMeta ∧
      log = (handed svc).map .hand ++ [.crash i svc.name.cut (s.permitted svc)] ∧
      (∃ o, s'.services.entries = update s.services.entries i o ∧ ∀ svc', o = some svc' → svc'.dma = [] ∧ svc'.name = svc.name) ∧
      (if n ≤ maxCrashCount ∧ s.permitted svc = true then
        ∃ m : PkgMeta, s'.deferred = pushDeferredRestart s.deferred ⟨svc.name.cut, m.elf, m.driverClass⟩
      else s'.deferred = s.deferred) := by
  unfold handleCrash at h
  cases hv : s.services.ofVcpu v with
  | none =>
    rw [hv] at h
    cases h
    exact .inl ⟨rfl, rfl, rfl⟩
  | some p =>
    obtain ⟨i, svc⟩ := p
    rw [hv] at h
    dsimp only at h
    split at h
    · cases h
    · obtain ⟨⟨counters, n⟩, hbump, heq⟩ := map_eq_some_iff.mp h
      refine .inr ⟨i, svc, counters, n, rfl, hbump, ?_⟩
      have hclean : (s.services.set i { svc with state := .crashed, restartCount := svc.restartCount + 1 }).cleanupResources i =
          (s.services.set i { svc with state := .crashed, restartCount := svc.restartCount + 1, dma := [] }, handed svc) := by
        simp [Services.cleanupResources, Services.set, handed]
      rw [hclean] at heq
      dsimp only at heq
      have hset : ∀ a b : Service, ((s.services.set i a).set i b).entries = update s.services.entries i (some b) :=
        fun _ _ => update_idem ..
      split at heq
      · rename_i hloop
        cases heq
        refine ⟨rfl, rfl, rfl, ⟨_, hset _ _, fun svc' hsvc => Option.some.inj hsvc ▸ ⟨rfl, rfl⟩⟩, ?_⟩
        rw [if_neg fun h => absurd h.1 (by omega)]
      · rename_i hloop
        split at heq
        · rename_i m hpolicy hmeta
          cases heq
          refine ⟨rfl, rfl, rfl, ⟨none, ?_, fun _ hsvc => nomatch hsvc⟩, ?_⟩
          · rw [Services.free_entries, hset, update_idem]
          · have hperm : s.permitted svc = true := by
              rw [permitted, hpolicy, hmeta]
              rfl
            rw [if_pos ⟨not_lt.mp hloop, hperm⟩]
            exact ⟨m, rfl⟩
        · rename_i hno
          cases heq
          refine ⟨rfl, rfl, rfl, ⟨_, hset _ _, fun svc' hsvc => Option.some.inj hsvc ▸ ⟨rfl, rfl⟩⟩, ?_⟩
          rw [if_neg]
          intro ⟨_, hperm⟩
          obtain ⟨hpolicy, hsome⟩ := (Bool.and_eq_true _ _).mp hperm
          obtain ⟨m, hm⟩ := isSome_iff_exists.mp hsome
          exact hno m hpolicy hm

end Registry
end LodaxOS.Gdf
