/-
# Receiving commands (`sys_driver_recv`, `sys_driver_recv_block`)

A receive takes the command from the mailbox before it looks at the buffer, and
a receive that blocks is resumed in user mode with `rax = 0` and nothing in the
buffer: the code after `block_current` runs only if nothing else could
(`commands_lost`). In runs in which the buffer of a receive with a pending
command is valid, and blocks find nothing else to run (`Safe`), a receive that
returns 0 has put just the command it took into the buffer, and one that returns
an error took none (`commands_delivered`).
-/
import LodaxOS.Gdf.Rpc
import LodaxOS.Virt.UserCopy

namespace LodaxOS.Gdf

open Function Option
open Asm (Word)
open Traces (Run exec)

/-! ### The buffer -/

/-- Four words can be written at the address. -/
def Valid (m : Virt.Machine) (buf : ℕ) : Prop :=
  buf ≠ 0 ∧ buf % 8 = 0 ∧ buf + 32 ≤ 2 ^ 47 ∧ ∀ a, buf ≤ a → a < buf + 32 → Virt.probe m a = some true

/-- However many probes it takes, the copy to a valid buffer succeeds. -/
lemma Valid.copyToUser {m : Virt.Machine} {buf fuel : ℕ} {o : Virt.CopyOutcome} (h : Valid m buf)
    (ho : Virt.copyToUser m buf 4 fuel = some o) : o.result = .ok := by
  obtain ⟨h0, halign, hlt, hprobe⟩ := h
  rw [Virt.copyToUser_eq fuel (by decide) (by unfold Virt.higherHalf; omega)] at ho
  obtain ⟨r, hr, rfl⟩ := map_eq_some_iff.mp ho
  obtain ⟨n, hn⟩ := Virt.exists_probePages_ok (m := m) (by omega) hprobe
  rw [Virt.probePages_unique hr hn, if_pos rfl, Virt.copyNonoverlapping_eq h0 halign]

/-! ### Words in memory -/

def Message.words (m : Message) : List ℕ := [m.cmd, m.arg0, m.arg1, m.arg2]

/-- The bytes of words, least significant first, from an address on. -/
def store (memory : ℕ → ℕ) (dst : ℕ) (words : List ℕ) (addr : ℕ) : ℕ :=
  if dst ≤ addr ∧ addr < dst + 8 * words.length then words.getD ((addr - dst) / 8) 0 / 256 ^ ((addr - dst) % 8) % 256
  else memory addr

def Holds (memory : ℕ → ℕ) (dst : ℕ) (words : List ℕ) : Prop :=
  ∀ i < words.length, ∀ k < 8, memory (dst + 8 * i + k) = words.getD i 0 / 256 ^ k % 256

lemma holds_store (memory : ℕ → ℕ) (dst : ℕ) (words : List ℕ) : Holds (store memory dst words) dst words := by
  intro i hi k hk
  have hidx : (dst + 8 * i + k - dst) / 8 = i ∧ (dst + 8 * i + k - dst) % 8 = k := by omega
  rw [store, if_pos (by omega), hidx.1, hidx.2]

/-! ### The system calls -/

/-- Where a CPU is in `sys_driver_recv_block`. -/
inductive Receiving
  | out
  | blocking (vcpu buf : ℕ)
  /-- `block_current` returned. -/
  | returning (vcpu buf : ℕ)
  deriving DecidableEq

structure Inbox where
  rpc : Rpc
  /-- The bytes of each address space. -/
  memory : ℕ → ℕ → ℕ
  pc : ℕ → Receiving
  /-- The vCPUs that gave up their CPU inside `sys_driver_recv_block`, with
  their buffer. -/
  asleep : ℕ → Option ℕ

/-- What a driver continues with after a receive: the commands that were taken
from its mailbox for it, and the memory. -/
structure Received where
  vcpu : ℕ
  buf : ℕ
  rax : Word
  consumed : List Message
  memory : ℕ → ℕ

def Delivered (r : Received) : Prop :=
  (r.rax = 0 → ∃ m, r.consumed = [m] ∧ Holds r.memory r.buf m.words) ∧ (r.rax ≠ 0 → r.consumed = [])

inductive InboxEvent
  | rpc (e : RpcEvent)
  /-- The page tables are those of `m`, and `copy_to_user` makes at most `fuel`
  probes. -/
  | recv (c : ℕ) (m : Virt.Machine) (fuel buf : ℕ)
  | recvBlock (c : ℕ) (m : Virt.Machine) (fuel buf : ℕ)
  | block (c : ℕ) (frameAddr : Word)
  | retry (c : ℕ) (m : Virt.Machine) (fuel : ℕ)

/-- The CPU of an event that is no receive. -/
def RpcEvent.actor : RpcEvent → Option ℕ
  | .sched e => e.cpu
  | .register .. => none
  | .call c .. | .wakeTarget c | .block c _ | .recv c | .sleep c _ | .respond c _ | .writeResult c | .wakeCaller c
  | .sendCmd c .. | .wakeSent c | .crashTable c | .crash c _ => some c

def RpcEvent.receives : RpcEvent → Bool
  | .recv _ | .sleep .. => true
  | _ => false

namespace Inbox

def setRax (s : Inbox) (c : ℕ) (w : Word) : Inbox := { s with
  rpc := { s.rpc with sched := s.rpc.sched.modifyCpu c fun cpu => { cpu with frame := { cpu.frame with rax := w } } } }

/-- The page tables of the CPU. -/
def root (s : Inbox) (c : ℕ) : ℕ := (s.rpc.sched.cpus c).cr3.toNat % 2 ^ 52 / 0x1000 * 0x1000

def under (s : Inbox) (c : ℕ) (m : Virt.Machine) : Virt.Machine := { m with cr3 := s.root c }

def setTable (s : Inbox) (t : Table) : Inbox := { s with rpc := { s.rpc with table := t } }

/-- `recv` for a vCPU, and the copy to its buffer. The CPU does not come back
from a copy that panics, whose probes do not end, or that writes to an address
that is not canonical. -/
def receive (s : Inbox) (m : Virt.Machine) (fuel c v buf : ℕ) : Option (Inbox × Received) :=
  match recv s.rpc.table v with
  | (t, some msg) =>
    let s := s.setTable t
    (Virt.copyToUser (s.under c m) buf 4 fuel).bind fun o =>
      match o.result with
      | .ok =>
        let bytes := store (s.memory (s.root c)) buf msg.words
        if buf + 32 ≤ 2 ^ 47 then
          some ({ s with memory := update s.memory (s.root c) bytes }.setRax c 0, ⟨v, buf, 0, [msg], bytes⟩)
        else none
      | .err => some (s.setRax c (-1), ⟨v, buf, -1, [msg], s.memory (s.root c)⟩)
      | .panicked => none
  | (_, none) => some (s.setRax c (-1), ⟨v, buf, -1, [], s.memory (s.root c)⟩)

/-- The CPU may go on with a vCPU that sleeps in a receive. -/
def goesOn (s : Inbox) (c : ℕ) : Inbox × Option Received :=
  let cpu := s.rpc.sched.cpus c
  match s.asleep cpu.executes with
  | some buf =>
    ({ s with asleep := update s.asleep cpu.executes none },
      some ⟨cpu.executes, buf, cpu.frame.rax, [], s.memory (s.root c)⟩)
  | none => (s, none)

def step (s : Inbox) : InboxEvent → Option (Inbox × Option Received)
  | .rpc e =>
    if !e.receives && e.actor.all (fun c => s.pc c = .out) then
      (s.rpc.step e).map fun r =>
        match e.cpu with
        | some c => goesOn { s with rpc := r } c
        | none => ({ s with rpc := r }, none)
    else none
  | .recv c m fuel buf =>
    if s.pc c = .out && s.rpc.runs c then (s.receive m fuel c (s.rpc.current c) buf).map fun p => (p.1, some p.2) else none
  | .recvBlock c m fuel buf =>
    if s.pc c = .out && s.rpc.runs c then
      let v := s.rpc.current c
      if buf ≥ Virt.higherHalf then some (s.setRax c (-1), some ⟨v, buf, -1, [], s.memory (s.root c)⟩)
      else
        match recv s.rpc.table v with
        | (_, some _) => (s.receive m fuel c v buf).map fun p => (p.1, some p.2)
        | (_, none) => some ({ s.setRax c 0 with pc := update s.pc c (.blocking v buf) }, none)
    else none
  | .block c frameAddr =>
    match s.pc c with
    | .blocking v buf =>
      (s.rpc.schedStep (.block c frameAddr)).map fun r =>
        -- `context_switch` does not return.
        if Sched.blockSwitches s.rpc.sched c frameAddr then
          goesOn { s with rpc := r, pc := update s.pc c .out, asleep := update s.asleep v (some buf) } c
        else ({ s with rpc := r, pc := update s.pc c (.returning v buf) }, none)
    | _ => none
  | .retry c m fuel =>
    match s.pc c with
    | .returning v buf =>
      (s.receive m fuel c v buf).map fun p => ({ p.1 with pc := update p.1.pc c .out }, some p.2)
    | _ => none

def start (n : ℕ) (kernelPml4 : Word) (memory : ℕ → ℕ → ℕ) : Inbox :=
  ⟨Rpc.start n kernelPml4, memory, fun _ => .out, fun _ => none⟩

/-! ### The condition -/

/-- A receive that finds a command has a valid buffer, and a receive that has to
block finds no vCPU ready. -/
def Safe (s : Inbox) : InboxEvent → Prop
  | .rpc _ => True
  | .recv c m _ buf => (pendingEntry s.rpc.table (s.rpc.current c)).isSome → Valid (s.under c m) buf
  | .recvBlock c m _ buf => (pendingEntry s.rpc.table (s.rpc.current c)).isSome → Valid (s.under c m) buf
  | .block _ _ => ∀ v, ¬ Sched.IsReady s.rpc.sched v
  | .retry c m _ => ∀ v buf, s.pc c = .returning v buf → (pendingEntry s.rpc.table v).isSome → Valid (s.under c m) buf

def SafeStep (s : Inbox) (e : InboxEvent) (s' : Inbox) : Prop := s.Safe e ∧ ∃ r, s.step e = some (s', r)

variable {s s' : Inbox} {m : Virt.Machine} {fuel c v buf : ℕ} {r : Received}

/-! ### Delivery -/

lemma neg_one_ne_zero : (-1 : Word) ≠ 0 := by decide

/-- What a receive with a valid buffer does. -/
lemma receive_delivered (hvalid : (pendingEntry s.rpc.table v).isSome → Valid (s.under c m) buf)
    (h : s.receive m fuel c v buf = some (s', r)) :
    Delivered r ∧ (r.rax ≠ 0 → s'.rpc.table = s.rpc.table) ∧ s'.asleep = s.asleep := by
  unfold receive at h
  rcases recv_cases s.rpc.table v with ⟨-, heq⟩ | ⟨i, d, hi, -, -, -, heq⟩
  · rw [heq] at h
    cases h
    exact ⟨⟨fun h0 => absurd h0 neg_one_ne_zero, fun _ => rfl⟩, fun _ => rfl, rfl⟩
  · have hbuf : Valid (s.under c m) buf := hvalid (by rw [hi]; rfl)
    rw [heq] at h
    obtain ⟨o, ho, h⟩ := bind_eq_some_iff.mp h
    rw [hbuf.copyToUser ho] at h
    dsimp only at h
    rw [if_pos hbuf.2.2.1] at h
    cases h
    exact ⟨⟨fun _ => ⟨_, rfl, holds_store _ _ _⟩, fun h0 => absurd rfl h0⟩, fun h0 => absurd rfl h0, rfl⟩

/-- What a step does when no vCPU sleeps in a receive. -/
lemma step_delivered {e : InboxEvent} {o : Option Received} (hnone : s.asleep = fun _ => none) (hsafe : s.Safe e)
    (hstep : s.step e = some (s', o)) :
    s'.asleep = (fun _ => none) ∧ ∀ r, o = some r → Delivered r ∧ (r.rax ≠ 0 → s'.rpc.table = s.rpc.table) := by
  have hgoesOn : ∀ (t : Inbox) (c : ℕ), t.asleep = (fun _ => none) → t.goesOn c = (t, none) := by
    intro t c ht
    simp only [goesOn, ht]
  cases e with
  | rpc =>
    simp only [step, ite_none_right_eq_some, map_eq_some_iff] at hstep
    obtain ⟨-, t, -, heq⟩ := hstep
    have heq : ({ s with rpc := t }, none) = (s', o) := by
      split at heq
      · exact (hgoesOn { s with rpc := t } _ hnone).symm.trans heq
      · exact heq
    cases heq
    exact ⟨hnone, fun r hr => nomatch hr⟩
  | recv =>
    simp only [step, ite_none_right_eq_some, map_eq_some_iff] at hstep
    obtain ⟨-, ⟨t, r⟩, hrec, heq⟩ := hstep
    cases heq
    obtain ⟨hd, htable, hasleep⟩ := receive_delivered hsafe hrec
    exact ⟨hasleep.trans hnone, fun r' hr => Option.some.inj hr ▸ ⟨hd, htable⟩⟩
  | recvBlock =>
    simp only [step, ite_none_right_eq_some] at hstep
    obtain ⟨-, hstep⟩ := hstep
    split at hstep
    · cases hstep
      refine ⟨hnone, fun r hr => ?_⟩
      cases hr
      exact ⟨⟨fun h0 => absurd h0 neg_one_ne_zero, fun _ => rfl⟩, fun _ => rfl⟩
    · split at hstep
      · obtain ⟨⟨t, r⟩, hrec, heq⟩ := map_eq_some_iff.mp hstep
        cases heq
        obtain ⟨hd, htable, hasleep⟩ := receive_delivered hsafe hrec
        exact ⟨hasleep.trans hnone, fun r' hr => Option.some.inj hr ▸ ⟨hd, htable⟩⟩
      · cases hstep
        exact ⟨hnone, fun r hr => nomatch hr⟩
  | block =>
    simp only [step] at hstep
    split at hstep
    · rw [Sched.block_stays hsafe] at hstep
      obtain ⟨t, -, heq⟩ := map_eq_some_iff.mp hstep
      cases heq
      exact ⟨hnone, fun r hr => nomatch hr⟩
    · cases hstep
  | retry =>
    simp only [step] at hstep
    split at hstep
    · rename_i v buf hpc
      obtain ⟨⟨t, r⟩, hrec, heq⟩ := map_eq_some_iff.mp hstep
      cases heq
      obtain ⟨hd, htable, hasleep⟩ := receive_delivered (hsafe v buf hpc) hrec
      exact ⟨hasleep.trans hnone, fun r' hr => Option.some.inj hr ▸ ⟨hd, htable⟩⟩
    · cases hstep

/-- In every run whose steps are safe, and at every receive after it that is: a
driver continues with 0 and the command that was taken for it in its buffer, or
with an error and all commands still in the table. -/
theorem commands_delivered {n : ℕ} {kernelPml4 : Word} {memory : ℕ → ℕ → ℕ} {tr : List InboxEvent}
    (h : Run SafeStep (start n kernelPml4 memory) tr s) {e : InboxEvent} (hsafe : s.Safe e) (hstep : s.step e = some (s', some r)) :
    Delivered r ∧ (r.rax ≠ 0 → s'.rpc.table = s.rpc.table) := by
  have hkeep : ∀ (s : Inbox) e s', s.asleep = (fun _ => none) → SafeStep s e s' → s'.asleep = fun _ => none :=
    fun s e s' hs ⟨hok, _, hstep⟩ => (step_delivered hs hok hstep).1
  have hnone := Run.invariant hkeep h rfl
  exact (step_delivered hnone hsafe hstep).2 r rfl

/-- Every page can be written. -/
def openPages : ℕ → ℕ → Option ℕ := fun _ _ => some 3

/-- The service's page at 0x7000 can be written. -/
def bufferPage : Virt.Machine where
  phys := Phys.State.boot
  mem t i :=
    if t = 0x5000 ∧ i = 0 then 0x11007
    else if t = 0x11000 ∧ i = 0 then 0x12007
    else if t = 0x12000 ∧ i = 0 then 0x13007
    else if t = 0x13000 ∧ i = 7 then 0x14007
    else 0
  ptInitialized := true
  kernelPml4 := 0x1000
  cr3 := 0x1000

/-- One CPU; the driver's vCPU runs, and a command is sent to it. -/
def sentEvents : List InboxEvent :=
  [.rpc (.sched Rpc.serviceStart), .rpc (.sched (.tick 0 0x9000)), .rpc (.register [0x61] 1 (some 0x5000)),
    .rpc (.sendCmd 0 openPages [0x61] ⟨1, 2, 3, 4⟩), .rpc (.wakeSent 0)]

/-- The driver receives the command. -/
theorem commands_delivered_sent : ∃ s s' r, Run SafeStep (start 1 0x1000 fun _ _ => 0) sentEvents s ∧
    s.step (.recv 0 bufferPage 2 0x7000) = some (s', some r) ∧ r.rax = 0 ∧ Delivered r := by
  have hexec : (exec (fun s e => (step s e).map Prod.fst) (start 1 0x1000 fun _ _ => 0) sentEvents).bind
      (fun s => (s.step (.recv 0 bufferPage 2 0x7000)).bind fun p => p.2.map fun r => (s.root 0, r.rax)) = some (0x5000, 0) := by
    decide +kernel
  obtain ⟨s, hs, hrec⟩ := Option.bind_eq_some_iff.mp hexec
  obtain ⟨⟨s', o⟩, hstep, ho⟩ := Option.bind_eq_some_iff.mp hrec
  obtain ⟨r, rfl, heq⟩ := Option.map_eq_some_iff.mp ho
  obtain ⟨hroot, hrax⟩ := Prod.mk.inj heq
  have hrun : Run SafeStep (start 1 0x1000 fun _ _ => 0) sentEvents s := by
    have hsafe : ∀ e ∈ sentEvents, ∀ s : Inbox, s.Safe e := by
      intro e he s
      simp only [sentEvents, List.mem_cons, List.not_mem_nil, or_false] at he
      rcases he with rfl | rfl | rfl | rfl | rfl <;> trivial
    refine ((Traces.run_of_exec hs).and hsafe).mono fun s e s' ⟨hsafe, hstep⟩ => ⟨hsafe, ?_⟩
    obtain ⟨⟨t, o⟩, ht, rfl⟩ := Option.map_eq_some_iff.mp hstep
    exact ⟨o, ht⟩
  have hvalid : Valid (s.under 0 bufferPage) 0x7000 := by
    rw [under, hroot]
    refine ⟨by decide, rfl, by decide, fun a ha hlt => ?_⟩
    rw [Virt.probe_congr (show a / 0x1000 = 0x7000 / 0x1000 by omega)]
    rfl
  exact ⟨s, s', r, hrun, hstep, hrax, (commands_delivered hrun (e := .recv 0 bufferPage 2 0x7000) (fun _ => hvalid) hstep).1⟩

/-- Two services. The driver blocks in a receive; a command is sent to it. -/
def blockedEvents : List InboxEvent :=
  [.rpc (.sched Rpc.serviceStart), .rpc (.sched (.tick 0 0x9000)), .rpc (.sched (.tick 0 0x9000)), .rpc (.sched Rpc.serviceStart),
    .rpc (.register [0x61] 1 (some 0x5000)), .recvBlock 0 bufferPage 2 0x7000, .block 0 0x9000,
    .rpc (.sendCmd 0 openPages [0x61] ⟨1, 2, 3, 4⟩), .rpc (.wakeSent 0)]

/-- A run after which a step lets a driver continue with this. -/
def Continues (tr : List InboxEvent) (e : InboxEvent) (r : Received) : Prop :=
  ∃ s s', Run (fun s e s' => (step s e).map Prod.fst = some s') (start 1 0x1000 fun _ _ => 0) tr s ∧ s.step e = some (s', some r)

/-- A receive into a buffer that is not mapped takes the command and fails; and
a driver that was blocked in a receive continues with 0 and no command. -/
theorem commands_lost :
    (∃ r, Continues sentEvents (.recv 0 bufferPage 2 0x8000) r ∧ r.rax ≠ 0 ∧ r.consumed = [⟨1, 2, 3, 4⟩] ∧ ¬ Delivered r) ∧
    ∃ r, Continues blockedEvents (.rpc (.sched (.tick 0 0x9000))) r ∧ r.rax = 0 ∧ r.consumed = [] ∧ ¬ Delivered r := by
  have hcontinues : ∀ (tr : List InboxEvent) (e : InboxEvent) {w : Word} {l : List Message},
      ((exec (fun s e => (step s e).map Prod.fst) (start 1 0x1000 fun _ _ => 0) tr).bind fun s => (s.step e).bind fun p =>
        p.2.map fun r => (r.rax, r.consumed)) = some (w, l) → ∃ r, Continues tr e r ∧ r.rax = w ∧ r.consumed = l := by
    intro tr e w l hexec
    obtain ⟨s, hs, hrec⟩ := Option.bind_eq_some_iff.mp hexec
    obtain ⟨⟨s', o⟩, hstep, ho⟩ := Option.bind_eq_some_iff.mp hrec
    obtain ⟨r, rfl, heq⟩ := Option.map_eq_some_iff.mp ho
    cases heq
    exact ⟨r, ⟨s, s', Traces.run_of_exec hs, hstep⟩, rfl, rfl⟩
  constructor
  · obtain ⟨r, hr, hrax, hcons⟩ := hcontinues sentEvents (.recv 0 bufferPage 2 0x8000) (w := -1)
      (l := [⟨1, 2, 3, 4⟩]) (by decide +kernel)
    have hne : r.rax ≠ 0 := hrax ▸ neg_one_ne_zero
    refine ⟨r, hr, hne, hcons, fun hd => ?_⟩
    cases hcons.symm.trans (hd.2 hne)
  · obtain ⟨r, hr, hrax, hcons⟩ := hcontinues blockedEvents (.rpc (.sched (.tick 0 0x9000))) (w := 0) (l := [])
      (by decide +kernel)
    refine ⟨r, hr, hrax, hcons, fun hd => ?_⟩
    obtain ⟨m, hm, -⟩ := hd.1 hrax
    cases hcons.symm.trans hm

end Inbox
end LodaxOS.Gdf
