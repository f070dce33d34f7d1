/-
# The scheduler (`kernel/src/scheduler.rs`, `vcpu.rs`, `percpu.rs`, `gdf.rs`)

vCPUs in gangs, run by a few CPUs. Every function that holds the gang table's
lock is one step; crash recovery, which does not, is one too. A CPU is
modelled by what its next `iretq` returns to: the frame, the floating-point
state, and the vCPU whose context that is.

Pages for kernel stacks come from outside (`none`: out of memory), as do the
addresses at which frames lie on kernel stacks.
-/
import LodaxOS.Arch.Syscall
import LodaxOS.Lib.Select
import LodaxOS.Virt.Shootdown

namespace LodaxOS.Sched

open Function
open Arch (TrapFrame VcpuType)
open Asm (Word)
open Tlb (maxCpus)
open Select (select)

/-! ### vCPUs -/

def maxGangs : ℕ := 32
def maxVcpusPerGang : ℕ := 8
def maxVcpus : ℕ := 128
def queueCapacity : ℕ := 256

def vruntimeTick : ℕ := 20
def vruntimeBias : ℕ := 8
def kernelStackSize : Word := 16384
def pageSize : Word := 0x1000
def iretqFrameSize : Word := 24

def u64Max : ℕ := 2 ^ 64 - 1

/-- `saturating_add` of a `u64`. -/
def satAdd (a b : ℕ) : ℕ := min (a + b) u64Max

/-- `FRAME_MAGIC`. -/
def frameMagic : ℕ := 0xDEADBEEFCAFEBABE

/-- The image that `fxsave` writes: 512 bytes. -/
abbrev FpuState := ℕ → BitVec 8

/-- `fninit` sets the x87 environment, the first 24 bytes of the image. -/
def fninit (f : FpuState) : FpuState := fun i =>
  if i = 0 then 0x7F else if i = 1 then 0x03 else if i < 24 then 0 else f i

def fpuStateInit : FpuState := fun i =>
  if i = 0 then 0x7F else if i = 1 then 0x03 else if i = 4 then 0xFF else if i = 24 then 0x80
  else if i = 25 then 0x1F else if i = 28 then 0xFF else if i = 29 then 0xFF else 0

inductive VcpuState
  | ready
  | running
  | halted
  | blocked
  | terminated
  | idle
  deriving DecidableEq

structure Vcpu where
  gangId : ℕ
  vcpuType : VcpuType
  state : VcpuState
  savedFrame : TrapFrame
  frameMagic : ℕ
  kernelStackTop : Word
  pml4 : Word
  vruntime : ℕ
  fpuState : FpuState

inductive GangState
  | active
  | halted
  deriving DecidableEq

structure Gang where
  vcpuIds : List (Option ℕ)
  vcpuCount : ℕ
  vruntime : ℕ
  runningCount : ℕ
  state : GangState

/-- The vCPUs of a gang. -/
def Gang.members (g : Gang) : List ℕ := g.vcpuIds.reduceOption

/-! ### CPUs -/

structure Cpu where
  online : Bool
  currentVcpu : ℕ
  idleVcpu : ℕ
  readyQueue : List ℕ
  taskCount : ℕ
  cr3 : Word
  /-- What the CPU's next `iretq` returns to. -/
  frame : TrapFrame
  fpu : FpuState
  /-- Whose context that is. -/
  executes : ℕ
  /-- In the exception handler, after `handle_crash`. -/
  crashing : Bool

structure State where
  vcpus : ℕ → Option Vcpu
  slabCount : ℕ
  gangs : ℕ → Option Gang
  count : ℕ
  cpus : ℕ → Cpu
  kernelPml4 : Word
  /-- The vCPUs of services, with the service's PML4. -/
  services : ℕ → Option Word
  /-- The context in which a vCPU was last suspended (no state of the kernel). -/
  suspended : ℕ → Option (TrapFrame × FpuState)

namespace State

variable (s : State)

def setVcpu (v : ℕ) (x : Option Vcpu) : State := { s with vcpus := update s.vcpus v x }

/-- `vcpu::with_mut`. -/
def modifyVcpu (v : ℕ) (f : Vcpu → Vcpu) : State := s.setVcpu v ((s.vcpus v).map f)

def setGang (i : ℕ) (g : Option Gang) : State := { s with gangs := update s.gangs i g }

def modifyGang (i : ℕ) (f : Gang → Gang) : State := s.setGang i ((s.gangs i).map f)

def modifyCpu (c : ℕ) (f : Cpu → Cpu) : State := { s with cpus := update s.cpus c (f (s.cpus c)) }

def setCurrent (c v : ℕ) : State := s.modifyCpu c fun cpu => { cpu with currentVcpu := v }

/-- `ReadyQueue::push`: a full queue drops. -/
def push (c v : ℕ) : State :=
  s.modifyCpu c fun cpu =>
    if cpu.readyQueue.length ≥ queueCapacity then cpu else { cpu with readyQueue := cpu.readyQueue ++ [v] }

def addTaskCount (c n : ℕ) : State := s.modifyCpu c fun cpu => { cpu with taskCount := cpu.taskCount + n }

/-- `vcpu::alloc`. -/
def alloc (gangId : ℕ) (pml4 : Word) (vcpuType : VcpuType) : Option (ℕ × State) :=
  if s.slabCount ≥ maxVcpus then none
  else
    match (List.range maxVcpus).find? fun i => (s.vcpus i).isNone with
    | none => none
    | some i =>
      let frame : TrapFrame :=
        ⟨0, 0, 0, 0, 0, 0, 0, 0, 0, 0, 0, 0, 0, 0, 0, 0, 0, 0, 0x08, 0x202, 0, 0x10⟩
      some (i, { s.setVcpu i (some ⟨gangId, vcpuType, .halted, frame, 0, 0, pml4, 0, fpuStateInit⟩) with
        slabCount := s.slabCount + 1 })

/-- `vcpu::free`, but for the memory it gives back. -/
def free (v : ℕ) : State :=
  if (s.vcpus v).isSome then { s.setVcpu v none with slabCount := s.slabCount - 1 } else s

/-- `find_least_loaded`. -/
def findLeastLoaded : ℕ :=
  (select (fun c => if (s.cpus c).online then some (s.cpus c).taskCount else none) u64Max (List.range maxCpus)).getD 0

end State

section

variable (s : State) (v i c : ℕ) (x : Option Vcpu) (g : Option Gang) (f : Vcpu → Vcpu) (fg : Gang → Gang) (fc : Cpu → Cpu)

@[simp] lemma setVcpu_vcpus : (s.setVcpu v x).vcpus = update s.vcpus v x := rfl
@[simp] lemma setVcpu_gangs : (s.setVcpu v x).gangs = s.gangs := rfl
@[simp] lemma setVcpu_cpus : (s.setVcpu v x).cpus = s.cpus := rfl
@[simp] lemma setVcpu_count : (s.setVcpu v x).count = s.count := rfl
@[simp] lemma setVcpu_suspended : (s.setVcpu v x).suspended = s.suspended := rfl
@[simp] lemma modifyVcpu_vcpus : (s.modifyVcpu v f).vcpus = update s.vcpus v ((s.vcpus v).map f) := rfl
@[simp] lemma modifyVcpu_gangs : (s.modifyVcpu v f).gangs = s.gangs := rfl
@[simp] lemma modifyVcpu_cpus : (s.modifyVcpu v f).cpus = s.cpus := rfl
@[simp] lemma setGang_vcpus : (s.setGang i g).vcpus = s.vcpus := rfl
@[simp] lemma setGang_gangs : (s.setGang i g).gangs = update s.gangs i g := rfl
@[simp] lemma setGang_cpus : (s.setGang i g).cpus = s.cpus := rfl
@[simp] lemma modifyGang_vcpus : (s.modifyGang i fg).vcpus = s.vcpus := rfl
@[simp] lemma modifyGang_gangs : (s.modifyGang i fg).gangs = update s.gangs i ((s.gangs i).map fg) := rfl
@[simp] lemma modifyCpu_vcpus : (s.modifyCpu c fc).vcpus = s.vcpus := rfl
@[simp] lemma modifyCpu_gangs : (s.modifyCpu c fc).gangs = s.gangs := rfl
@[simp] lemma modifyCpu_cpus : (s.modifyCpu c fc).cpus = update s.cpus c (fc (s.cpus c)) := rfl
@[simp] lemma modifyCpu_suspended : (s.modifyCpu c fc).suspended = s.suspended := rfl

end

/-! ### `schedule_inner` -/

/-- The slots of a gang without terminated vCPUs, which are freed; and how
many these were. -/
def cleanSlots (s : State) : List (Option ℕ) → State × List (Option ℕ) × ℕ
  | [] => (s, [], 0)
  | none :: slots =>
    let (s, slots, n) := cleanSlots s slots
    (s, none :: slots, n)
  | some v :: slots =>
    if (s.vcpus v).any fun x => x.state = .terminated then
      let (s, slots, n) := cleanSlots (s.free v) slots
      (s, none :: slots, n + 1)
    else
      let (s, slots, n) := cleanSlots s slots
      (s, some v :: slots, n)

variable (s : State)

def cleanGang (i : ℕ) : State :=
  match s.gangs i with
  | none => s
  | some g =>
    let (s, slots, n) := cleanSlots s g.vcpuIds
    if slots.all Option.isNone then s.setGang i none
    else s.setGang i (some { g with vcpuIds := slots, vcpuCount := g.vcpuCount - n })

/-- Step 0: clean up terminated vCPUs. -/
def cleanup : State := (List.range' 1 (s.count - 1)).foldl cleanGang s

/-- The frame as it is saved: an interrupt in ring 0 pushes no stack pointer. -/
def frameToSave (frame : TrapFrame) (frameAddr : Word) : TrapFrame :=
  if frame.cs &&& 3 ≠ 0 then frame else { frame with rsp := frameAddr + 160, ss := 0x10 }

/-- The gang's share of a tick. -/
def Gang.charge (g : Gang) : Gang :=
  { g with
    vruntime := satAdd g.vruntime (vruntimeTick * 100 / max g.vcpuCount 1)
    runningCount := g.runningCount - 1 }

/-- Step 1: save the current vCPU. -/
def saveCurrent (c : ℕ) (frame : TrapFrame) (frameAddr : Word) : State :=
  let cur := (s.cpus c).currentVcpu
  if cur = (s.cpus c).idleVcpu then s
  else
    match s.vcpus cur with
    | none => s
    | some x =>
      let x := { x with
        savedFrame := frameToSave frame frameAddr
        frameMagic := frameMagic
        fpuState := (s.cpus c).fpu }
      if x.state = .halted then s.setVcpu cur (some x)
      else if 0 < x.gangId ∧ x.gangId < maxGangs ∧ (s.gangs x.gangId).isSome then
        (s.modifyGang x.gangId Gang.charge).setVcpu cur
          (some { x with vruntime := satAdd x.vruntime vruntimeTick, state := .ready })
      else s.setVcpu cur (some x)

/-- The vruntime of an active gang that has vCPUs left to run, by its counters. -/
def gangKey (i : ℕ) : Option ℕ :=
  (s.gangs i).bind fun g => if g.state = .active ∧ 0 < g.vcpuCount - g.runningCount then some g.vruntime else none

/-- Step 2: the gang with the smallest vruntime. -/
def findBestGang : Option ℕ := select (gangKey s) u64Max (List.range' 1 (s.count - 1))

/-- The vruntime of a ready vCPU. -/
def vcpuKey (v : ℕ) : Option ℕ :=
  (s.vcpus v).bind fun x => if x.state = .ready then some x.vruntime else none

def pickVcpu (g : Gang) : Option ℕ := select (vcpuKey s) u64Max g.members

def countFreeCores : ℕ :=
  ((List.range maxCpus).filter fun c => (s.cpus c).online && (s.cpus c).currentVcpu = (s.cpus c).idleVcpu).length

/-- Step 3: how many vCPUs of the gang go to one core. -/
def perCore (demand freeCores : ℕ) : ℕ :=
  if freeCores ≥ demand then 1
  else if freeCores > 0 then (demand + freeCores - 1) / freeCores
  else 1

def addRunning (i : ℕ) : State := s.modifyGang i fun g => { g with runningCount := g.runningCount + 1 }

/-- Step 5: extra vCPUs go to the CPU's queue and are counted as running. -/
def pushExtra (c i : ℕ) (g : Gang) : ℕ → State → State
  | 0, s => s
  | n + 1, s =>
    match pickVcpu s g with
    | some v => pushExtra c i g n ((addRunning s i).push c v)
    | none => pushExtra c i g n s

/-- What `schedule_inner` leaves: the frame, the floating-point buffer, and
the vCPU whose frame was loaded, if one was. -/
structure Outcome where
  state : State
  switched : Bool
  pml4 : Word
  frame : TrapFrame
  fpuOut : FpuState
  loaded : Option ℕ

/-- Back to idle, as the books have it. -/
def toIdle (c : ℕ) : State := s.setCurrent c (s.cpus c).idleVcpu

def canonicalRip (rip : Word) : Bool := rip.sshiftRight 47 = -1 || rip >>> 47 = 0

/-- A frame that may be loaded: a stack, a known selector and an instruction
pointer in one of the halves. -/
def frameOk (f : TrapFrame) : Bool :=
  f.rsp ≠ 0 && (f.cs &&& 3 = 3 || f.cs &&& 3 = 0) && (f.cs = 0x08 || f.cs = 0x1B) && (f.rip = 0 || canonicalRip f.rip)

def fixSs (f : TrapFrame) : TrapFrame :=
  if f.cs &&& 3 = 3 ∧ f.ss ≠ 0x23 ∧ f.ss ≠ 0x2B then { f with ss := 0x23 }
  else if f.cs &&& 3 = 0 ∧ f.ss ≠ 0x10 ∧ f.ss ≠ 0x18 then { f with ss := 0x10 }
  else f

/-- `MAX_PML4_PHYS`. -/
def maxPml4Phys : Word := 0x100000000

/-- Step 6: load the next vCPU. The frame is overwritten before the checks. -/
def loadNext (c v : ℕ) (frame : TrapFrame) (fpuOut : FpuState) : Outcome :=
  match s.vcpus v with
  | none => ⟨toIdle s c, false, 0, frame, fpuOut, none⟩
  | some x =>
    let s := s.setVcpu v (some { x with state := .running, frameMagic := 0 })
    if x.vcpuType ≠ .idle ∧ (x.frameMagic ≠ frameMagic ∨ frameOk x.savedFrame = false) then
      ⟨toIdle s c, false, 0, x.savedFrame, x.fpuState, some v⟩
    else
      let frame := if x.vcpuType ≠ .idle then fixSs x.savedFrame else x.savedFrame
      let needSwitch := x.pml4 ≠ (s.cpus c).cr3 ∧ x.pml4 ≠ 0
      if needSwitch ∧ x.pml4 ≥ maxPml4Phys then ⟨toIdle s c, false, 0, frame, x.fpuState, some v⟩
      else ⟨s.setCurrent c v, true, if needSwitch then x.pml4 else 0, frame, x.fpuState, some v⟩

/-- Steps 2 to 6. -/
def chooseNext (c : ℕ) (frame : TrapFrame) (fpuOut : FpuState) : Outcome :=
  match findBestGang s with
  | none => ⟨toIdle s c, false, 0, frame, fpuOut, none⟩
  | some i =>
    match s.gangs i with
    | none => ⟨toIdle s c, false, 0, frame, fpuOut, none⟩
    | some g =>
      let per := perCore (g.vcpuCount - g.runningCount) (countFreeCores s)
      match pickVcpu s g with
      | none => ⟨toIdle s c, false, 0, frame, fpuOut, none⟩
      | some v =>
        let extra := if per > 1 then min (per - 1) (g.vcpuCount - (g.runningCount + 1)) else 0
        loadNext (pushExtra c i g extra (addRunning s i)) c v frame fpuOut

def scheduleInner (c : ℕ) (frame : TrapFrame) (frameAddr : Word) (fpuOut : FpuState) : Outcome :=
  if s.count < 1 then ⟨s, false, 0, frame, fpuOut, none⟩
  else chooseNext (saveCurrent (cleanup s) c frame frameAddr) c frame fpuOut

/-! ### The timer, blocking and waking -/

/-- The CPU goes on with what `schedule_inner` left: through `context_switch`,
or by returning from the interrupt. -/
def resume (c : ℕ) (o : Outcome) : State :=
  o.state.modifyCpu c fun cpu => { cpu with
    frame := o.frame
    fpu := if o.switched then o.fpuOut else cpu.fpu
    cr3 := if o.switched ∧ o.pml4 ≠ 0 then o.pml4 else cpu.cr3
    executes := o.loaded.getD cpu.executes }

/-- The context in which the current vCPU is suspended, and `fninit`, which
both callers of `schedule_inner` do first. -/
def suspend (c : ℕ) : State :=
  let cpu := s.cpus c
  let s := if cpu.currentVcpu = cpu.idleVcpu then s
    else { s with suspended := update s.suspended cpu.currentVcpu (some (cpu.frame, cpu.fpu)) }
  s.modifyCpu c fun cpu => { cpu with fpu := fninit cpu.fpu }

/-- The timer's interrupt. -/
def tick (c : ℕ) (frameAddr : Word) : State :=
  let s := suspend s c
  resume c (scheduleInner s c (s.cpus c).frame frameAddr (s.cpus c).fpu)

/-- The current vCPU is halted, and its gang runs one less. -/
def halt (v : ℕ) : State :=
  match s.vcpus v with
  | none => s
  | some x =>
    let s := s.setVcpu v (some { x with state := .halted })
    if 0 < x.gangId ∧ x.gangId < maxGangs then s.modifyGang x.gangId fun g => { g with runningCount := g.runningCount - 1 }
    else s

def blockCurrent (c : ℕ) (frameAddr : Word) : State :=
  if (s.cpus c).currentVcpu = (s.cpus c).idleVcpu then s
  else
    let s := suspend (halt s (s.cpus c).currentVcpu) c
    resume c (scheduleInner s c (s.cpus c).frame frameAddr (s.cpus c).fpu)

def wake (v : ℕ) : State :=
  match s.vcpus v with
  | none => s
  | some x =>
    if x.state = .halted then
      let s := s.setVcpu v (some { x with state := .ready, vruntime := 0 })
      let target := s.findLeastLoaded
      (s.push target v).addTaskCount target 1
    else s

/-- `send_response` puts the result into the caller's saved frame. A caller that
is blocked expects it there. -/
def reply (v : ℕ) (result : Word) : State :=
  { s.modifyVcpu v fun x => { x with savedFrame := { x.savedFrame with rax := result } } with
    suspended :=
      if (s.vcpus v).any fun x => x.state = .halted then
        update s.suspended v ((s.suspended v).map fun p => ({ p.1 with rax := result }, p.2))
      else s.suspended }

/-! ### Gangs -/

/-- Gang 0 is reserved. -/
def reserveZero : State := if s.count = 0 then { s with count := 1 } else s

def minGangVruntime : ℕ :=
  let m := (List.range s.count).foldl (fun m i =>
    match s.gangs i with
    | some g => if g.state = .active ∧ g.vruntime < m then g.vruntime else m
    | none => m) u64Max
  if m = u64Max then 0 else m

/-- The stack top above a guard page. -/
def stackTop (pages : Word) : Word := Arch.higherHalf + pages + pageSize + kernelStackSize

def entryFrame (entry arg pages : Word) : TrapFrame :=
  ⟨0, 0, 0, 0, 0, 0, 0, 0, 0, 0, 0, 0, 0, 0, arg, 0, 0, entry, 0x1B, 0x202, stackTop pages - iretqFrameSize, 0x23⟩

/-- `n` vCPUs of a new gang, each with a stack; or none, and those made so far
are freed. -/
def makeVcpus (gangId : ℕ) (entry arg : Word) : ℕ → List (Option Word) → State → List ℕ → State × Option (List ℕ)
  | 0, _, s, ids => (s, some ids)
  | n + 1, stackPages, s, ids =>
    match s.alloc gangId s.kernelPml4 .normal with
    | none => (ids.foldl State.free s, none)
    | some (v, s) =>
      match stackPages with
      | some pages :: stackPages =>
        makeVcpus gangId entry arg n stackPages (s.modifyVcpu v fun x => { x with
          state := .ready
          savedFrame := entryFrame entry arg pages
          kernelStackTop := stackTop pages
          pml4 := s.kernelPml4
          gangId := gangId }) (ids ++ [v])
      | _ => (ids.foldl State.free (s.free v), none)

def createGang (nVcpus : ℕ) (entry arg : Word) (stackPages : List (Option Word)) : State :=
  let s := reserveZero s
  if s.count ≥ maxGangs then s
  else
    let gangId := s.count
    let n := min nVcpus maxVcpusPerGang
    match makeVcpus gangId entry arg n stackPages s [] with
    | (s, none) => s
    | (s, some ids) =>
      let bestCpu := s.findLeastLoaded
      let s := (ids.foldl (fun s v => s.push bestCpu v) s).addTaskCount bestCpu n
      let vcpuIds := ids.map some ++ List.replicate (maxVcpusPerGang - n) none
      { s.setGang gangId (some ⟨vcpuIds, nVcpus, minGangVruntime s - vruntimeBias * nVcpus, 0, .active⟩) with
        count := s.count + 1 }

/-- `register_driver_vcpu`, and whether it did. -/
def registerDriverVcpu (v : ℕ) (stack : Option Word) : State × Bool :=
  match stack with
  | none => (s, false)
  | some pages =>
    let s := reserveZero s
    if s.count ≥ maxGangs then (s, false)
    else
      let gangId := s.count
      let s := s.modifyVcpu v fun x => { x with kernelStackTop := stackTop pages, gangId := gangId }
      let vcpuIds := some v :: List.replicate (maxVcpusPerGang - 1) none
      ({ s.setGang gangId (some ⟨vcpuIds, 1, 0, 0, .active⟩) with count := s.count + 1 }, true)

/-- `DriverClass` as a type of vCPU. -/
def driverType (hardware : Bool) : VcpuType := if hardware then .hardwareDriver else .abstractionDriver

/-- The first frame of a service, on its own stack. -/
def Vcpu.enter (x : Vcpu) (entry stackTop : Word) : Vcpu :=
  { x with
    savedFrame := { x.savedFrame with
      rip := entry, rsp := stackTop - 8, cs := 0x1B, ss := 0x23, rflags := 0x202, rdi := 0, rsi := 0, rdx := 0 }
    frameMagic := Sched.frameMagic
    state := .ready }

/-- `start_service` once the ELF is loaded. -/
def startService (hardware : Bool) (pml4 entry stackTop : Word) (stack : Option Word) : State :=
  match s.alloc 0 pml4 (driverType hardware) with
  | none => s
  | some (v, s) =>
    let s := s.modifyVcpu v fun x => x.enter entry stackTop
    let s := { s with services := update s.services v (some pml4) }
    match registerDriverVcpu s v stack with
    | (s, false) => s
    | (s, true) =>
      let bestCpu := s.findLeastLoaded
      (s.push bestCpu v).addTaskCount bestCpu 1

/-! ### Crashes -/

/-- A gang without a vCPU, if it still has others. -/
def Gang.remove (g : Gang) (v : ℕ) : Option Gang :=
  let slots := g.vcpuIds.map fun slot => if slot = some v then none else slot
  if slots.all Option.isNone then none
  else some { g with vcpuIds := slots, vcpuCount := g.vcpuCount - g.vcpuIds.count (some v) }

/-- `handle_crash`; whether the service is freed for a restart depends on its
policy. -/
def handleCrash (v : ℕ) (freed : Bool) : State :=
  match s.services v with
  | none => s
  | some pml4 =>
    let s := s.modifyVcpu v fun x => { x with state := .terminated, pml4 := pml4 }
    { s with
      gangs := fun i => if i < maxGangs then (s.gangs i).bind fun g => g.remove v else s.gangs i
      services := update s.services v (if freed then none else some 0) }

def isDriver (v : ℕ) : Bool :=
  (s.vcpus v).any fun x => x.vcpuType = .hardwareDriver || x.vcpuType = .abstractionDriver

/-- A ready driver with a frame that may be loaded. -/
def loadable (v : ℕ) : Bool :=
  (s.vcpus v).any fun x =>
    let f := x.savedFrame
    let ssValid := if f.cs &&& 3 = 0 then f.ss = 0x10 || f.ss = 0x18
      else if f.cs &&& 3 = 3 then f.ss = 0x23 || f.ss = 0x2B else false
    x.state = .ready && f.rsp ≠ 0 && (f.cs = 0x08 || f.cs = 0x1B) && ssValid && (f.rip = 0 || canonicalRip f.rip)

/-- `ReadyQueue::push`: a full queue drops the id. -/
def pushQueue (queue : List ℕ) (v : ℕ) : List ℕ := if queue.length ≥ queueCapacity then queue else queue ++ [v]

def pushBack (queue temp : List ℕ) : List ℕ := temp.foldl pushQueue queue

/-- What the loop of `switch_frame_to_next_driver` leaves: the queue, the driver
it took, and how many ids it popped. -/
structure Scan where
  queue : List ℕ
  next : Option ℕ
  popped : ℕ

/-- The loop with `n` pops left; vCPUs that are no drivers are set aside and
pushed back. -/
def scanQueue (s : State) : ℕ → List ℕ → List ℕ → ℕ → Scan
  | 0, queue, temp, popped => ⟨pushBack queue temp, none, popped⟩
  | _ + 1, [], temp, popped => ⟨pushBack [] temp, none, popped⟩
  | n + 1, v :: queue, temp, popped =>
    if isDriver s v then
      if loadable s v then ⟨pushBack queue temp, some v, popped + 1⟩
      else scanQueue s n (pushBack queue temp) [] (popped + 1)
    else if temp.length < 64 then scanQueue s n queue (temp ++ [v]) (popped + 1)
    else scanQueue s n (pushQueue queue v) temp (popped + 1)

/-- The scan of a CPU's queue. -/
def takeDriver (c : ℕ) : Scan := scanQueue s 64 (s.cpus c).readyQueue [] 0

/-- `switch_frame_to_next_driver`: the state, the frame and what it returns. -/
def switchFrameToNextDriver (c : ℕ) (frame : TrapFrame) : State × TrapFrame × Option (Word × Word) :=
  let r := takeDriver s c
  let s := s.modifyCpu c fun cpu => { cpu with readyQueue := r.queue }
  match r.next.bind s.vcpus, r.next with
  | some x, some v =>
    ((s.setVcpu v (some { x with state := .running, frameMagic := 0 })).setCurrent c v, x.savedFrame,
      some (x.pml4, x.kernelStackTop))
  | _, _ => (s, frame, none)

/-- `switch_frame_to_next_driver`, or `switch_frame_to_idle`. -/
def recover (c : ℕ) : State :=
  match switchFrameToNextDriver s c (s.cpus c).frame with
  | (s, frame, some (pml4, _)) => s.modifyCpu c fun cpu => { cpu with
      frame := frame, cr3 := pml4, executes := cpu.currentVcpu, crashing := false }
  | (s, frame, none) =>
    let idle := (s.cpus c).idleVcpu
    s.modifyCpu c fun cpu => { cpu with
      frame := ((s.vcpus idle).map Vcpu.savedFrame).getD frame
      currentVcpu := idle
      executes := if (s.vcpus idle).isSome then idle else cpu.executes
      crashing := false }

/-! ### Steps -/

inductive Event
  | user (c : ℕ) (frame : TrapFrame) (fpu : FpuState)
  | tick (c : ℕ) (frameAddr : Word)
  | block (c : ℕ) (frameAddr : Word)
  | wake (v : ℕ)
  | reply (v : ℕ) (result : Word)
  | createGang (nVcpus : ℕ) (entry arg : Word) (stackPages : List (Option Word))
  | register (v : ℕ) (stack : Option Word)
  | startService (hardware : Bool) (pml4 entry stackTop : Word) (stack : Option Word)
  | crash (c : ℕ) (freed : Bool)
  | recover (c : ℕ)

/-- The CPU is up and not in an exception handler. -/
def State.runs (s : State) (c : ℕ) : Bool := c < maxCpus && (s.cpus c).online && !(s.cpus c).crashing

def step : Event → Option State
  | .user c frame fpu => if s.runs c then some (s.modifyCpu c fun cpu => { cpu with frame := frame, fpu := fpu }) else none
  | .tick c frameAddr => if s.runs c then some (tick s c frameAddr) else none
  | .block c frameAddr => if s.runs c then some (blockCurrent s c frameAddr) else none
  | .wake v => some (wake s v)
  | .reply v result => some (reply s v result)
  | .createGang nVcpus entry arg stackPages => some (createGang s nVcpus entry arg stackPages)
  | .register v stack => some (registerDriverVcpu s v stack).1
  | .startService hardware pml4 entry stackTop stack => some (startService s hardware pml4 entry stackTop stack)
  | .crash c freed =>
    if s.runs c && isDriver s (s.cpus c).currentVcpu then
      some ((handleCrash s (s.cpus c).currentVcpu freed).modifyCpu c fun cpu => { cpu with crashing := true })
    else none
  | .recover c => if c < maxCpus && (s.cpus c).online && (s.cpus c).crashing then some (recover s c) else none

def idleFrame : TrapFrame :=
  ⟨0, 0, 0, 0, 0, 0, 0, 0, 0, 0, 0, 0, 0, 0, 0, 0, 0, Arch.higherHalf, 0x08, 0x202, Arch.higherHalf, 0x10⟩

/-- `n` CPUs are up, each on its idle vCPU. -/
def State.init (n : ℕ) (kernelPml4 : Word) : State where
  vcpus v := if v < min n maxCpus then
    some ⟨0, .idle, .idle, idleFrame, 0, 0, kernelPml4, 0, fpuStateInit⟩ else none
  slabCount := min n maxCpus
  gangs _ := none
  count := 0
  cpus c := ⟨c < min n maxCpus, c, c, [], 1, kernelPml4, idleFrame, fpuStateInit, c, false⟩
  kernelPml4 := kernelPml4
  services _ := none
  suspended _ := none

end LodaxOS.Sched
