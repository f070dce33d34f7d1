/-
# Blocking calls between drivers (`driver_call`, `send_response`)

A call publishes its command, wakes the target and halts the caller; an answer
updates the table, writes the caller's saved `rax` and wakes it. Each of these
is a section of its own, and other CPUs run in between. `wake` does nothing for
a vCPU that is not halted, so that an answer that comes before the caller is
halted is lost (`rpc_lost_wakeup`). In runs in which answers come to halted
callers, nobody else wakes a caller, and no driver crashes that owes an answer
(`Smooth`), every halted caller is named by an entry that is not answered, or is
being answered, and goes on with its result (`rpc_answered`).
-/
import LodaxOS.Gdf.Mailbox
import LodaxOS.Sched.Waiting

namespace LodaxOS.Gdf

open Function Option Slots Sched
open Sched (post_eq post_of_core reply stepped wake wake_core)
open Asm (Word)
open Sched (status Posts Ranged Contexts Preserving Passes Still Busy ring3 Own FpuState)
open Arch (TrapFrame)
open Traces (Run exec)

/-! ### CPUs in the kernel -/

/-- Where a CPU is between two sections. -/
inductive Pc
  | out
  /-- `driver_call`: the command is published; the target is to be woken. -/
  | calling (target : ℕ)
  /-- The caller is to be halted. -/
  | blocking
  /-- `send_response`: the table is updated; the result is to be written. -/
  | answering (caller : ℕ) (result : Word)
  /-- The caller is to be woken. -/
  | waking (caller : ℕ)
  /-- `send_cmd`: the command is published; the target is to be woken. -/
  | sending (target : ℕ)
  /-- `handle_crash`: the entry is removed; the vCPU is to be terminated. -/
  | crashing
  deriving DecidableEq

structure Rpc where
  sched : Sched.State
  table : Table
  pc : ℕ → Pc
  /-- The vCPUs in a call that was accepted, with the answer if it was given (no
  state of the kernel). -/
  inside : ℕ → Option (Option Word)

inductive RpcEvent
  | sched (e : Sched.Event)
  | register (name : Name) (vcpuId : ℕ) (pml4 : Option ℕ)
  | call (c : ℕ) (target : Name) (message : Message)
  | wakeTarget (c : ℕ)
  | block (c : ℕ) (frameAddr : Word)
  | recv (c : ℕ)
  | sleep (c : ℕ) (frameAddr : Word)
  | respond (c : ℕ) (result : Word)
  | writeResult (c : ℕ)
  | wakeCaller (c : ℕ)
  | sendCmd (c : ℕ) (pte : ℕ → ℕ → Option ℕ) (name : Name) (message : Message)
  | wakeSent (c : ℕ)
  | crashTable (c : ℕ)
  | crash (c : ℕ) (freed : Bool)

/-- The CPU on which the scheduler may change the vCPU. -/
def RpcEvent.cpu : RpcEvent → Option ℕ
  | .sched e => e.cpu
  | .block c _ | .sleep c _ | .crash c _ => some c
  | _ => none

/-- The CPU answers a call of `v`. -/
def Pc.Answers (v : ℕ) : Pc → Prop
  | answering k _ | waking k => k = v
  | _ => False

def Pc.InCall : Pc → Prop
  | calling _ | blocking => True
  | _ => False

/-- What happens to the scheduler apart from calls and crashes. -/
def ordinary : Sched.Event → Bool
  | .user .. | .tick .. | .createGang .. | .register .. | .startService .. | .recover .. => true
  | _ => false

namespace Rpc

def current (s : Rpc) (c : ℕ) : ℕ := (s.sched.cpus c).currentVcpu

def setPc (s : Rpc) (c : ℕ) (p : Pc) : Rpc := { s with pc := update s.pc c p }

/-- A step of the scheduler. The vCPU with which the CPU goes on has left its
call. -/
def schedStep (s : Rpc) (e : Sched.Event) : Option Rpc :=
  (Sched.step s.sched e).map fun t => { s with
    sched := t
    inside := match e.cpu with
      | some c => update s.inside (t.cpus c).executes none
      | none => s.inside }

/-- The CPU runs a vCPU, outside of the kernel. -/
def runs (s : Rpc) (c : ℕ) : Bool := s.pc c = .out && s.sched.runs c

def step (s : Rpc) : RpcEvent → Option Rpc
  | .sched e => if ordinary e && e.cpu.all (fun c => s.pc c = .out) then s.schedStep e else none
  | .register name v pml4 => some { s with table := (registerDriver s.table name v pml4).1 }
  | .call c target message =>
    if s.runs c then
      match callDriver s.table target (s.current c) message with
      | (t, some w) =>
        some { s.setPc c (.calling w) with table := t, inside := update s.inside (s.current c) (some none) }
      | (t, none) => some { s with table := t }
    else none
  | .wakeTarget c =>
    match s.pc c with
    | .calling w => (s.schedStep (.wake w)).map fun s => s.setPc c .blocking
    | _ => none
  | .block c frameAddr => if s.pc c = .blocking then (s.schedStep (.block c frameAddr)).map fun s => s.setPc c .out else none
  | .recv c => if s.runs c then some { s with table := (recv s.table (s.current c)).1 } else none
  -- `sys_driver_recv_block` with nothing to receive; its `rax = 0` is a user's frame here.
  | .sleep c frameAddr => if s.runs c then s.schedStep (.block c frameAddr) else none
  | .respond c result =>
    if s.runs c then
      match sendResponse s.table (s.current c) result.toNat with
      | (t, none) => some { s with table := t }
      | (t, some k) =>
        if k = 0 then some { s with table := t }
        else some { s.setPc c (.answering k result) with
          table := t, inside := update s.inside k ((s.inside k).map fun _ => some result) }
    else none
  | .writeResult c =>
    match s.pc c with
    | .answering k result => (s.schedStep (.reply k result)).map fun s => s.setPc c (.waking k)
    | _ => none
  | .wakeCaller c =>
    match s.pc c with
    | .waking k => (s.schedStep (.wake k)).map fun s => s.setPc c .out
    | _ => none
  | .sendCmd c pte name message =>
    if s.pc c = .out then
      let r := Gdf.sendCmd pte s.table name message
      match r.wake with
      | some w => some { s.setPc c (.sending w) with table := r.table }
      | none => some { s with table := r.table }
    else none
  | .wakeSent c =>
    match s.pc c with
    | .sending w => (s.schedStep (.wake w)).map fun s => s.setPc c .out
    | _ => none
  | .crashTable c =>
    if s.runs c && Sched.isDriver s.sched (s.current c) then
      let t := if (s.sched.services (s.current c)).isSome then removeDriver s.table (s.current c) else s.table
      some { s.setPc c .crashing with table := t }
    else none
  | .crash c freed => if s.pc c = .crashing then (s.schedStep (.crash c freed)).map fun s => s.setPc c .out else none

def start (n : ℕ) (kernelPml4 : Word) : Rpc := ⟨Sched.State.init n kernelPml4, Table.empty, fun _ => .out, fun _ => none⟩

/-! ### The condition -/

/-- Of the scheduler, that it keeps contexts; callers are in user mode, answers
come to callers that are halted, no one else wakes a caller, and a driver that
crashes owes no answer. -/
def Smooth (s : Rpc) : RpcEvent → Prop
  | .sched e => Preserving s.sched e
  | .call c _ _ => s.current c ≠ 0 ∧ Busy s.sched c ∧ ring3 (s.sched.cpus c).frame
  | .wakeTarget c => ∀ w, s.pc c = .calling w → s.inside w = none
  | .block c frameAddr => Preserving s.sched (.block c frameAddr)
  | .sleep c frameAddr => Preserving s.sched (.block c frameAddr)
  | .respond c _ => ∀ i d, findByVcpu s.table (s.current c) = some i → s.table.entries i = some d → d.callerVcpu ≠ 0 →
    status s.sched d.callerVcpu = some .halted
  | .wakeSent c => ∀ w, s.pc c = .sending w → s.inside w = none
  | .crashTable c => ∀ i d, findByVcpu s.table (s.current c) = some i → s.table.entries i = some d → d.callerVcpu = 0
  | _ => True

def SmoothStep (s : Rpc) (e : RpcEvent) (s' : Rpc) : Prop := s.Smooth e ∧ s.step e = some s'

/-! ### The property -/

/-- An entry names the vCPU as caller of a command that is not answered. -/
def Named (s : Rpc) (v : ℕ) : Prop := ∃ i d, s.table.entries i = some d ∧ d.callerVcpu = v ∧ d.mailbox.flags ≠ .idle

/-- A CPU is about to wake the vCPU with its answer. -/
def Answered (s : Rpc) (v : ℕ) : Prop := ∃ c, (s.pc c).Answers v

end Rpc

/-! ### Stages of a call -/

/-- How far the call of `v` is. -/
inductive Stage (t : Sched.State) (pc : ℕ → Pc) (v : ℕ) : Option Word → Prop
  | calling {c : ℕ} (hpc : (pc c).InCall) (hc : (t.cpus c).currentVcpu = v) : Stage t pc v none
  | waiting {f : TrapFrame} {p : FpuState} (hst : status t v = some .halted) (hs : t.suspended v = some (f, p))
      (hring : ring3 f) : Stage t pc v none
  | answering {c : ℕ} {r : Word} {f : TrapFrame} {p : FpuState} (hpc : pc c = .answering v r) (hst : status t v = some .halted)
      (hs : t.suspended v = some (f, p)) (hring : ring3 f) : Stage t pc v (some r)
  | waking {c : ℕ} {r : Word} {f : TrapFrame} {p : FpuState} (hpc : pc c = .waking v) (hst : status t v = some .halted)
      (hs : t.suspended v = some (f, p)) (hring : ring3 f) (hrax : f.rax = r) : Stage t pc v (some r)
  | woken {r : Word} {f : TrapFrame} {p : FpuState} (hpc : ∀ c, ¬ (pc c).Answers v) (hst : status t v = some .ready)
      (hs : t.suspended v = some (f, p)) (hring : ring3 f) (hrax : f.rax = r) : Stage t pc v (some r)

variable {p : Pc} {w : ℕ} {table : Table}

namespace Stage

variable {t t' : Sched.State} {pc : ℕ → Pc} {v c : ℕ} {ans : Option Word}

variable (h : Stage t pc v ans)

include h

/-- A CPU that neither makes nor answers the call goes on. -/
lemma setPc (hcall : (pc c).InCall → (t.cpus c).currentVcpu ≠ v) (hold : ¬ (pc c).Answers v)
    (hnew : ¬ p.Answers v) : Stage t (update pc c p) v ans := by
  have hkeep : ∀ d, (pc d).InCall ∧ (t.cpus d).currentVcpu = v ∨ (pc d).Answers v → update pc c p d = pc d := by
    intro d hd
    refine update_of_ne (fun h => ?_) ..
    subst h
    exact hd.elim (fun h => hcall h.1 h.2) hold
  cases h with
  | @calling d hpc hc => exact .calling (c := d) (by rwa [hkeep d (.inl ⟨hpc, hc⟩)]) hc
  | waiting hst hs hring => exact .waiting hst hs hring
  | @answering d r f p hpc hst hs hring =>
    exact .answering (c := d) (by rwa [hkeep d (.inr (by rw [hpc]; rfl))]) hst hs hring
  | @waking d r f p hpc hst hs hring hrax =>
    exact .waking (c := d) (by rwa [hkeep d (.inr (by rw [hpc]; rfl))]) hst hs hring hrax
  | woken hpc hst hs hring hrax =>
    refine .woken (fun d => ?_) hst hs hring hrax
    by_cases hd : d = c
    · rw [hd, update_self]
      exact hnew
    · rw [update_of_ne hd]
      exact hpc d

/-- The scheduler did nothing to the vCPU. -/
lemma sched (hst : ∀ st, st = .halted ∨ st = .ready → status t v = some st → status t' v = some st)
    (hs : status t v = some .halted ∨ status t v = some .ready → t'.suspended v = t.suspended v)
    (hc : ∀ c, (pc c).InCall → (t.cpus c).currentVcpu = v → (t'.cpus c).currentVcpu = v) : Stage t' pc v ans := by
  cases h with
  | calling hpc hv => exact .calling hpc (hc _ hpc hv)
  | waiting hh hsus hring => exact .waiting (hst _ (.inl rfl) hh) ((hs (.inl hh)).trans hsus) hring
  | answering hpc hh hsus hring => exact .answering hpc (hst _ (.inl rfl) hh) ((hs (.inl hh)).trans hsus) hring
  | waking hpc hh hsus hring hrax => exact .waking hpc (hst _ (.inl rfl) hh) ((hs (.inl hh)).trans hsus) hring hrax
  | woken hpc hr hsus hring hrax => exact .woken hpc (hst _ (.inr rfl) hr) ((hs (.inr hr)).trans hsus) hring hrax

lemma still (hs : Still t t') : Stage t' pc v ans :=
  h.sched (fun _ _ hv => hs.status hv) (fun _ => congrFun hs.suspended v) fun c _ hv =>
    (post_eq (post_of_core (hs.cpus c))).2.1.trans hv

omit h in
/-- No CPU has a vCPU that waits. -/
lemma not_own (hp : Posts t) (ho : (t.cpus c).online = true) (hv : status t v = some .halted ∨ status t v = some .ready) :
    ¬ Own true t c v := by
  rintro ⟨-, hb, rfl⟩
  have hst : ∃ x, t.vcpus (t.cpus c).currentVcpu = some x ∧ (x.state = .ready ∨ x.state = .halted) := by
    rcases hv with h | h
    · obtain ⟨x, hx, hst⟩ := status_eq_some.mp h
      exact ⟨x, hx, .inr hst⟩
    · obtain ⟨x, hx, hst⟩ := status_eq_some.mp h
      exact ⟨x, hx, .inl hst⟩
  obtain ⟨x, hx, hst⟩ := hst
  exact (hp.not_current hx hst).1 c ho hb rfl

/-- A CPU that is not in a call goes on with another vCPU. -/
lemma passes (hp : Posts t) (ho : (t.cpus c).online = true) (hpass : Passes t t' c)
    (hpc : (pc c).InCall → (t.cpus c).currentVcpu ≠ v) (hex : (t'.cpus c).executes ≠ v) : Stage t' pc v ans := by
  refine h.sched (fun st hor hv => ?_) (fun hv => hpass.suspended v (not_own hp ho hv)) fun d hd hv => ?_
  · have hown : ¬ Own true t c v := by
      refine not_own hp ho ?_
      rcases hor with rfl | rfl
      · exact .inl hv
      · exact .inr hv
    rcases hpass.status v st hown hv with hsame | ⟨-, -, he⟩
    · exact hsame
    · exact absurd he hex
  · have hne : d ≠ c := fun h => hpc (h ▸ hd) (h ▸ hv)
    exact (post_eq (post_of_core (hpass.cpus d hne))).2.1.trans hv

lemma wake (hw : w ≠ v) : Stage (wake t w) pc v ans := by
  refine h.sched (fun st _ hv => ?_) (fun _ => congrFun (calm_wake t w).suspended v) fun c _ hv => ?_
  · rw [wake_status, if_neg fun h => hw h.1.symm]
    exact hv
  · exact (post_eq (post_of_core (wake_core t w c))).2.1.trans hv

lemma reply (hw : w ≠ v) (r : Word) : Stage (reply t w r) pc v ans := by
  refine h.sched (fun st _ hv => ?_) (fun _ => reply_suspended_of_ne t hw.symm r) fun c _ hv => hv
  rw [reply_status]
  exact hv

end Stage

/-! ### Entries and their callers -/

/-- Entries name just the callers that wait for an answer, each once. -/
structure Owed (t : Table) (inside : ℕ → Option (Option Word)) : Prop where
  named : ∀ i d, t.entries i = some d → d.callerVcpu ≠ 0 → inside d.callerVcpu = some none ∧ d.mailbox.flags ≠ .idle
  asked : ∀ v, inside v = some none → ∃ i d, t.entries i = some d ∧ d.callerVcpu = v
  once : ∀ i j d d', t.entries i = some d → t.entries j = some d' → d.callerVcpu ≠ 0 → d.callerVcpu = d'.callerVcpu → i = j
  zero : inside 0 = none

namespace Owed

variable {t : Table} {inside : ℕ → Option (Option Word)} {i v : ℕ} {d d' : DriverEntry}

section

variable (h : Owed t inside)

include h

lemma caller_of_idle (hd : t.entries i = some d) (hf : d.mailbox.flags = .idle) : d.callerVcpu = 0 := by
  by_contra hne
  exact (h.named i d hd hne).2 hf

/-- A caller that waits is named by another entry than `i`. -/
lemma asked_ne (hv : inside v = some none) (hi : ∀ d, t.entries i = some d → d.callerVcpu ≠ v) :
    ∃ j e, j ≠ i ∧ t.entries j = some e ∧ e.callerVcpu = v := by
  obtain ⟨j, e, he, hcaller⟩ := h.asked v hv
  exact ⟨j, e, fun hj => hi e (hj ▸ he) hcaller, he, hcaller⟩

lemma ne_zero (hv : inside v = some none) : v ≠ 0 := by
  rintro rfl
  rw [h.zero] at hv
  cases hv

/-- The entry `i` and the vCPUs in calls change: the new entry names a caller
that waits and no other entry names, and all other callers stay. -/
lemma change {t' : Table} {inside' : ℕ → Option (Option Word)} {o : Option DriverEntry}
    (ht : t'.entries = update t.entries i o)
    (hnew : ∀ e, o = some e → e.callerVcpu ≠ 0 → inside' e.callerVcpu = some none ∧ e.mailbox.flags ≠ .idle ∧
      ∀ j e', j ≠ i → t.entries j = some e' → e'.callerVcpu ≠ e.callerVcpu)
    (hkeep : ∀ j e, j ≠ i → t.entries j = some e → e.callerVcpu ≠ 0 → inside' e.callerVcpu = some none)
    (hask : ∀ v, inside' v = some none → (∃ e, o = some e ∧ e.callerVcpu = v) ∨
      ∃ j e, j ≠ i ∧ t.entries j = some e ∧ e.callerVcpu = v) (hzero : inside' 0 = none) : Owed t' inside' := by
  refine ⟨fun j e he hne => ?_, fun v hv => ?_, fun j k e e' he he' hne heq => ?_, hzero⟩
  · rw [ht] at he
    rcases update_eq_cases he with ⟨rfl, ho⟩ | ⟨hj, he⟩
    · exact ⟨(hnew e ho hne).1, (hnew e ho hne).2.1⟩
    · exact ⟨hkeep j e hj he hne, (h.named j e he hne).2⟩
  · rw [ht]
    rcases hask v hv with ⟨e, he, hcaller⟩ | ⟨j, e, hj, he, hcaller⟩
    · exact ⟨i, e, by rw [update_self, he], hcaller⟩
    · exact ⟨j, e, by rw [update_of_ne hj, he], hcaller⟩
  · rw [ht] at he he'
    rcases update_eq_cases he with ⟨rfl, ho⟩ | ⟨hj, he⟩
    · rcases update_eq_cases he' with ⟨rfl, -⟩ | ⟨hk, he'⟩
      · rfl
      · exact absurd heq.symm ((hnew e ho hne).2.2 k e' hk he')
    · rcases update_eq_cases he' with ⟨hk, ho⟩ | ⟨-, he'⟩
      · exact absurd heq ((hnew e' ho (heq ▸ hne)).2.2 j e hj he)
      · exact h.once j k e e' he he' hne heq

/-- An entry changes, and its caller does not. -/
lemma set (hd : t.entries i = some d) (hcaller : d'.callerVcpu = d.callerVcpu)
    (hf : d'.callerVcpu = 0 ∨ d'.mailbox.flags ≠ .idle) : Owed (t.set i d') inside := by
  refine h.change rfl (fun e he hne => ?_) (fun j e _ he hne => (h.named j e he hne).1) (fun v hv => ?_) h.zero
  · cases he
    have hidle := hf.resolve_left hne
    rw [hcaller] at hne ⊢
    exact ⟨(h.named i d hd hne).1, hidle, fun j e hj he heq => hj (h.once j i e d he hd (heq ▸ hne) heq)⟩
  · by_cases hv' : d.callerVcpu = v
    · exact .inl ⟨d', rfl, hcaller.trans hv'⟩
    · exact .inr (h.asked_ne hv fun e he => mem_unique hd he ▸ hv')

end

/-- A call is accepted by an entry. -/
lemma call (h : Owed t inside) (hd : t.entries i = some d) (hidle : d.mailbox.flags = .idle) (hv : v ≠ 0) (hin : inside v = none)
    (hcaller : d'.callerVcpu = v) (hf : d'.mailbox.flags ≠ .idle) : Owed (t.set i d') (update inside v (some none)) := by
  have hother : ∀ j e, t.entries j = some e → e.callerVcpu ≠ v := by
    rintro j e he rfl
    rw [(h.named j e he hv).1] at hin
    cases hin
  refine h.change rfl (fun e he _ => ?_) (fun j e _ he hne => ?_) (fun w hw => ?_) ?_
  · cases he
    rw [hcaller, update_self]
    exact ⟨rfl, hf, fun j e _ he => hother j e he⟩
  · rw [update_of_ne (hother j e he)]
    exact (h.named j e he hne).1
  · rcases update_eq_cases hw with ⟨rfl, -⟩ | ⟨-, hw⟩
    · exact .inl ⟨d', rfl, hcaller⟩
    · refine .inr (h.asked_ne hw fun e he => ?_)
      obtain rfl := mem_unique hd he
      rw [h.caller_of_idle hd hidle]
      exact (h.ne_zero hw).symm
  · rw [update_of_ne hv.symm]
    exact h.zero

/-- A call is answered. -/
lemma answer (h : Owed t inside) (hd : t.entries i = some d) (hne : d.callerVcpu ≠ 0) (hcaller : d'.callerVcpu = 0) (r : Word) :
    Owed (t.set i d') (update inside d.callerVcpu (some (some r))) := by
  refine h.change rfl (fun e he hne' => ?_) (fun j e hj he hne' => ?_) (fun w hw => .inr ?_) ?_
  · exact absurd (Option.some.inj he ▸ hcaller) hne'
  · rw [update_of_ne fun heq => hj (h.once j i e d he hd hne' heq)]
    exact (h.named j e he hne').1
  · obtain ⟨hw', hw⟩ := update_of_not (· = some none) (by simp) hw
    exact h.asked_ne hw fun e he => mem_unique hd he ▸ hw'.symm
  · rw [update_of_ne hne.symm]
    exact h.zero

/-- A vCPU that does not wait for an answer leaves its call. -/
lemma leave (h : Owed t inside) (hv : inside v ≠ some none) : Owed t (update inside v none) := by
  refine ⟨fun i d hd hne => ?_, fun w hw => ?_, h.once, ?_⟩
  · have hnamed := h.named i d hd hne
    have hother : d.callerVcpu ≠ v := fun heq => hv (heq ▸ hnamed.1)
    rw [update_of_ne hother]
    exact hnamed
  · exact h.asked w (update_of_not (· = some none) (by simp) hw).2
  · by_cases h0 : 0 = v
    · rw [h0, update_self]
    · rw [update_of_ne h0]
      exact h.zero

/-- An entry without a caller is removed. -/
lemma remove (h : Owed t inside) (hd : t.entries i = some d) (hzero : d.callerVcpu = 0) (n : ℕ) :
    Owed ⟨update t.entries i none, n⟩ inside := by
  refine h.change rfl (fun e he => (nomatch he)) (fun j e _ he hne => (h.named j e he hne).1) (fun v hv => .inr ?_) h.zero
  refine h.asked_ne hv fun e he => ?_
  obtain rfl := mem_unique hd he
  rw [hzero]
  exact (h.ne_zero hv).symm

/-- An entry without a caller is added. -/
lemma add (h : Owed t inside) (hnone : t.entries i = none) (hzero : d.callerVcpu = 0) (n : ℕ) :
    Owed { t.set i d with count := n } inside := by
  refine h.change rfl (fun e he hne => ?_) (fun j e _ he hne => (h.named j e he hne).1) (fun v hv => .inr ?_) h.zero
  · exact absurd (Option.some.inj he ▸ hzero) hne
  · exact h.asked_ne hv fun e he => nomatch hnone.symm.trans he

end Owed

/-! ### The invariant -/

namespace Rpc

structure Wired (s : Rpc) : Prop where
  posts : Posts s.sched
  ranged : Ranged s.sched
  contexts : Contexts s.sched
  owed : Owed s.table s.inside
  stage : ∀ v ans, s.inside v = some ans → Stage s.sched s.pc v ans
  calls : ∀ c, (s.pc c).InCall → s.inside (s.current c) = some none ∧ s.sched.runs c = true ∧ Busy s.sched c ∧
    ring3 (s.sched.cpus c).frame
  answers : ∀ c v, (s.pc c).Answers v → ∃ r, s.inside v = some (some r) ∧ ∀ r', s.pc c = .answering v r' → r' = r
  apart : ∀ c d v, (s.pc c).Answers v → (s.pc d).Answers v → c = d

lemma runs_iff {s : Rpc} {c : ℕ} : s.runs c = true ↔ s.pc c = .out ∧ s.sched.runs c = true := by simp [Rpc.runs]

namespace Wired

variable {s : Rpc} {t : Sched.State} {e : Sched.Event} {c v : ℕ}

lemma not_inCall (h : s.pc c = .out) : ¬ (s.pc c).InCall := by rw [h]; exact id

lemma not_answers (h : s.pc c = .out) (v : ℕ) : ¬ (s.pc c).Answers v := by rw [h]; exact id

section

variable (h : Wired s)

include h

/-- A caller that is being answered is halted. -/
lemma answered_halted (hpc : (s.pc c).Answers v) : status s.sched v = some .halted := by
  obtain ⟨r, hin, -⟩ := h.answers c v hpc
  cases h.stage v _ hin with
  | answering _ hst => exact hst
  | waking _ hst => exact hst
  | woken hno => exact absurd hpc (hno c)

omit h in
/-- A CPU of which only the queue changes is still in its call. -/
lemma calls_of_core {s t : Sched.State} (hcore : (t.cpus c).core = (s.cpus c).core) (hruns : s.runs c = true) (hb : Busy s c)
    (hring : ring3 (s.cpus c).frame) :
    (t.cpus c).currentVcpu = (s.cpus c).currentVcpu ∧ t.runs c = true ∧ Busy t c ∧ ring3 (t.cpus c).frame := by
  obtain ⟨hon, hcur, hidle, -⟩ := post_eq (post_of_core hcore)
  have hcrash : (t.cpus c).crashing = (s.cpus c).crashing :=
    (congrArg Sched.Cpu.crashing hcore : (t.cpus c).core.crashing = (s.cpus c).core.crashing)
  have hframe : (t.cpus c).frame = (s.cpus c).frame :=
    (congrArg Sched.Cpu.frame hcore : (t.cpus c).core.frame = (s.cpus c).core.frame)
  obtain ⟨hlt, hon', hnc⟩ := Sched.runs_iff.mp hruns
  exact ⟨hcur, Sched.runs_iff.mpr ⟨hlt, hon.trans hon', hcrash.trans hnc⟩, by rwa [Busy, hcur, hidle], by rwa [hframe]⟩

/-- What a CPU goes on with was not in a call, or finds its answer. -/
lemma resumes (hok : Preserving s.sched e) (hstep : Sched.step s.sched e = some t) (hc : e.cpu = some c)
    (hcall : (s.pc c).InCall → ∃ frameAddr, e = .block c frameAddr) {ans : Option Word}
    (hin : s.inside (t.cpus c).executes = some ans) : ∃ r, ans = some r ∧ (t.cpus c).frame.rax = r := by
  have hposts := h.posts.step h.ranged hok.1 hstep
  have hpass := step_passes h.posts h.ranged hok.1 hstep hc
  obtain ⟨ho, ho'⟩ := step_online hstep hc
  obtain ⟨hnh, hnr⟩ := hposts.executing ho'
  have hhalted : status s.sched (t.cpus c).executes ≠ some .halted := by
    intro hst
    rcases hpass.status _ _ (Stage.not_own h.posts ho (.inl hst)) hst with hsame | ⟨hbad, -⟩
    · exact hnh hsame
    · cases hbad
  cases h.stage _ ans hin with
  | @calling d hpc hcur =>
    obtain ⟨-, hruns, hb, -⟩ := h.calls d hpc
    by_cases hd : d = c
    · subst hd
      obtain ⟨frameAddr, rfl⟩ := hcall hpc
      cases stepped hstep
      obtain ⟨-, hst, -⟩ := block_halts h.ranged hok.1 hb
      rw [hcur] at hst
      exact absurd hst hnh
    · obtain ⟨hon, hcur', hidle, -⟩ := post_eq (post_of_core (hpass.cpus d hd))
      have hne := hposts.executes_ne ho' (hon.trans (Sched.runs_iff.mp hruns).2.1) (by rwa [Busy, hcur', hidle]) hd
      exact absurd (hcur'.trans hcur).symm hne
  | waiting hst => exact absurd hst hhalted
  | answering _ hst => exact absurd hst hhalted
  | waking _ hst => exact absurd hst hhalted
  | @woken r f p _ hst hs hring hrax =>
    refine ⟨r, rfl, ?_⟩
    rcases step_resumes hstep hc with hres | hsame
    · have hfaithful := (h.contexts.step h.posts h.ranged hok hstep).2 c hres
      have hsus := (hpass.suspended _ (Stage.not_own h.posts ho (.inr hst))).trans hs
      have hframe := (hfaithful f p hsus hring).1
      rw [← hrax]
      exact congrFun (congrArg Arch.User.reg hframe) .rax
    · rw [hsame] at hst
      exact absurd hst (h.posts.executing ho).2

/-- The CPU `c` goes on at `p`; the other CPUs are where they were, with their
vCPUs and callers. -/
lemma move {inside : ℕ → Option (Option Word)} (hp : Posts t) (hr : Ranged t) (hx : Contexts t)
    (ho : Owed table inside) (hstage : ∀ v ans, inside v = some ans → Stage t (update s.pc c p) v ans)
    (hcall : p.InCall → inside (t.cpus c).currentVcpu = some none ∧ t.runs c = true ∧ Busy t c ∧ ring3 (t.cpus c).frame)
    (hcalls : ∀ d, d ≠ c → (s.pc d).InCall → (t.cpus d).core = (s.sched.cpus d).core ∧ inside (s.current d) = some none)
    (hans : ∀ v, p.Answers v → (∃ r, inside v = some (some r) ∧ ∀ r', p = .answering v r' → r' = r) ∧
      ∀ d, d ≠ c → ¬ (s.pc d).Answers v)
    (hkeep : ∀ d v, d ≠ c → (s.pc d).Answers v → inside v = s.inside v) :
    Wired ⟨t, table, update s.pc c p, inside⟩ := by
  refine ⟨hp, hr, hx, ho, hstage, fun d hd => ?_, fun d v hd => ?_, fun d d' v hd hd' => ?_⟩
  · rcases update_cases Pc.InCall hd with ⟨rfl, hp⟩ | ⟨hdc, hd⟩
    · exact hcall hp
    · obtain ⟨-, hruns, hb, hring⟩ := h.calls d hd
      obtain ⟨hcur, hcalls'⟩ := calls_of_core (hcalls d hdc hd).1 hruns hb hring
      exact ⟨(congrArg inside hcur).trans (hcalls d hdc hd).2, hcalls'⟩
  · change ∃ r, inside v = some (some r) ∧ ∀ r', update s.pc c p d = .answering v r' → r' = r
    rcases update_cases (Pc.Answers v) hd with ⟨rfl, hp⟩ | ⟨hdc, hd⟩
    · rw [update_self]
      exact (hans v hp).1
    · rw [update_of_ne hdc]
      obtain ⟨r, hin, hr⟩ := h.answers d v hd
      exact ⟨r, (hkeep d v hdc hd).trans hin, hr⟩
  · rcases update_cases (Pc.Answers v) hd with ⟨rfl, hp⟩ | ⟨hdc, hd⟩
    · by_contra hne
      exact (hans v hp).2 d' (Ne.symm hne) ((update_cases (Pc.Answers v) hd').resolve_left fun hc => hne hc.1.symm).2
    · rcases update_cases (Pc.Answers v) hd' with ⟨-, hp⟩ | ⟨-, hd'⟩
      · exact absurd hd ((hans v hp).2 d hdc)
      · exact h.apart d d' v hd hd'

/-- A CPU goes on with some vCPU, outside of the kernel. -/
lemma goOn (hok : Preserving s.sched e) (hstep : Sched.step s.sched e = some t) (hc : e.cpu = some c)
    (hcall : (s.pc c).InCall → ∃ frameAddr, e = .block c frameAddr) (hans : ∀ v, ¬ (s.pc c).Answers v) :
    Wired { s with
      sched := t
      pc := update s.pc c .out
      inside := update s.inside (t.cpus c).executes none } := by
  have hposts := h.posts.step h.ranged hok.1 hstep
  have hpass := step_passes h.posts h.ranged hok.1 hstep hc
  obtain ⟨ho, ho'⟩ := step_online hstep hc
  refine h.move hposts (h.ranged.step hstep) (h.contexts.step h.posts h.ranged hok hstep).1 (h.owed.leave fun hin => ?_)
    (fun v ans hv => ?_) (fun hf => hf.elim) (fun d hdc hd => ?_) (fun _ hf => hf.elim) fun d v hdc hd => ?_
  · obtain ⟨r, hr, -⟩ := h.resumes hok hstep hc hcall hin
    cases hr
  · obtain ⟨hne, hv⟩ := update_of_not (· = some ans) (some_ne_none ans).symm hv
    by_cases hown : (s.pc c).InCall ∧ s.current c = v
    · obtain ⟨hpc, rfl⟩ := hown
      obtain ⟨hin, -, hb, hring⟩ := h.calls c hpc
      obtain rfl := mem_unique hin hv
      obtain ⟨frameAddr, rfl⟩ := hcall hpc
      cases stepped hstep
      obtain ⟨-, hst, hs⟩ := block_halts h.ranged hok.1 hb
      exact .waiting hst hs hring
    · have hstage := (h.stage v ans hv).passes h.posts ho hpass (fun hpc hcur => hown ⟨hpc, hcur⟩) hne.symm
      refine hstage.setPc (fun _ => ?_) (hans v) (fun h => h)
      rw [← hposts.executes c ho']
      exact hne.symm
  · obtain ⟨hin, hruns, hb, hring⟩ := h.calls d hd
    obtain ⟨hcur, hruns', hb', -⟩ := calls_of_core (hpass.cpus d hdc) hruns hb hring
    have hne := hposts.executes_ne ho' (Sched.runs_iff.mp hruns').2.1 hb' hdc
    rw [hcur] at hne
    exact ⟨hpass.cpus d hdc, (update_of_ne hne.symm ..).trans hin⟩
  · -- a caller that is answered is halted, so it is not the one that goes on
    refine update_of_ne (fun heq => ?_) ..
    have hst := h.answered_halted hd
    rcases hpass.status _ _ (Stage.not_own h.posts ho (.inl hst)) hst with hsame | ⟨hbad, -⟩
    · exact (hposts.executing ho').1 (heq ▸ hsame)
    · cases hbad

/-- Nothing but the table changes. -/
lemma setTable (ho : Owed table s.inside) : Wired { s with table := table } :=
  ⟨h.posts, h.ranged, h.contexts, ho, h.stage, h.calls, h.answers, h.apart⟩

/-- A CPU goes on inside the kernel, and all CPUs keep their vCPU. -/
lemma renew (hp : Posts t) (hr : Ranged t) (hx : Contexts t)
    (hcore : ∀ d, (t.cpus d).core = (s.sched.cpus d).core) (hcall : p.InCall → (s.pc c).InCall)
    (hans : ∀ v, p.Answers v → (s.pc c).Answers v) (hres : ∀ v r, p = .answering v r → s.pc c = .answering v r)
    (hstage : ∀ v ans, s.inside v = some ans → Stage t (update s.pc c p) v ans) :
    Wired { s with sched := t, pc := update s.pc c p } := by
  refine h.move hp hr hx h.owed hstage (fun hf => ?_) (fun d _ hd => ⟨hcore d, (h.calls d hd).1⟩) (fun v hv => ⟨?_, ?_⟩)
    fun _ _ _ _ => rfl
  · obtain ⟨hin, hruns, hb, hring⟩ := h.calls c (hcall hf)
    obtain ⟨hcur, hcalls⟩ := calls_of_core (hcore c) hruns hb hring
    exact ⟨(congrArg s.inside hcur).trans hin, hcalls⟩
  · obtain ⟨r, hin, hr⟩ := h.answers c v (hans v hv)
    exact ⟨r, hin, fun r' hr' => hr r' (hres v r' hr')⟩
  · exact fun d hdc hd => hdc (h.apart d c v hd (hans v hv))

/-- A CPU outside of the kernel enters it, and neither calls nor answers. -/
lemma enter (hpc : s.pc c = .out) (hcall : ¬ p.InCall) (hans : ∀ v, ¬ p.Answers v) :
    Wired { s with pc := update s.pc c p } :=
  h.renew h.posts h.ranged h.contexts (fun _ => rfl) (fun hf => absurd hf hcall) (fun v hf => absurd hf (hans v))
    (fun v _ hf => absurd (hf ▸ rfl) (hans v)) fun v ans hin =>
    (h.stage v ans hin).setPc (fun hf => absurd hf (not_inCall hpc)) (not_answers hpc v) (hans v)

/-- Between two sections of a CPU that answers no one. -/
lemma stage_setPc (hcore : ∀ d, (t.cpus d).core = (s.sched.cpus d).core) {ans : Option Word}
    (hin : s.inside v = some ans) (hcall : (s.pc c).InCall → p.InCall) (hold : ¬ (s.pc c).Answers v) (hnew : ¬ p.Answers v)
    (hstage : Stage t s.pc v ans) : Stage t (update s.pc c p) v ans := by
  have hcur : (t.cpus c).currentVcpu = s.current c := (post_eq (post_of_core (hcore c))).2.1
  by_cases hown : (s.pc c).InCall ∧ s.current c = v
  · obtain ⟨hpc, rfl⟩ := hown
    obtain rfl : none = ans := Option.some.inj ((h.calls c hpc).1.symm.trans hin)
    exact .calling (c := c) (by rw [update_self]; exact hcall hpc) hcur
  · exact hstage.setPc (fun hpc hv => hown ⟨hpc, hcur.symm.trans hv⟩) hold hnew

/-- A vCPU outside of calls is woken. -/
lemma wakes (hw : s.inside w = none) (hcall : p.InCall ↔ (s.pc c).InCall)
    (hold : ∀ v, ¬ (s.pc c).Answers v) (hnew : ∀ v, ¬ p.Answers v) :
    Wired { s with sched := wake s.sched w, pc := update s.pc c p } := by
  have hok : Preserving s.sched (.wake w) := ⟨trivial, trivial⟩
  have hstep : Sched.step s.sched (.wake w) = some (wake s.sched w) := rfl
  refine h.renew (h.posts.step h.ranged hok.1 hstep) (h.ranged.step hstep) (h.contexts.step h.posts h.ranged hok hstep).1
    (wake_core s.sched w) hcall.mp (fun v hv => absurd hv (hnew v)) (fun v r hv => absurd (hv ▸ rfl) (hnew v))
    fun v ans hin => ?_
  have hne : w ≠ v := by
    rintro rfl
    rw [hw] at hin
    cases hin
  exact h.stage_setPc (wake_core s.sched w) hin hcall.mpr (hold v) (hnew v) ((h.stage v ans hin).wake hne)

/-- The caller that a CPU answers has its result, or waits for it. -/
lemma answered_stage (hpc : (s.pc c).Answers v) : ∃ r f p, s.inside v = some (some r) ∧
    status s.sched v = some .halted ∧ s.sched.suspended v = some (f, p) ∧ ring3 f ∧
    (s.pc c = .answering v r ∨ s.pc c = .waking v ∧ f.rax = r) := by
  obtain ⟨r, hin, -⟩ := h.answers c v hpc
  cases h.stage v _ hin with
  | @answering d _ f p hd hst hs hring =>
    obtain rfl := h.apart c d v hpc (by rw [hd]; rfl)
    exact ⟨r, f, p, hin, hst, hs, hring, .inl hd⟩
  | @waking d _ f p hd hst hs hring hrax =>
    obtain rfl := h.apart c d v hpc (by rw [hd]; rfl)
    exact ⟨r, f, p, hin, hst, hs, hring, .inr ⟨hd, hrax⟩⟩
  | woken hno => exact absurd hpc (hno c)

/-- The result is written. -/
lemma writeResult {r : Word} (hpc : s.pc c = .answering v r) :
    Wired { s with sched := reply s.sched v r, pc := update s.pc c (.waking v) } := by
  have hans : (s.pc c).Answers v := by rw [hpc]; rfl
  obtain ⟨r', f, p, hin, hst, hs, hring, hpc' | ⟨hpc', -⟩⟩ := h.answered_stage hans
  · obtain ⟨-, rfl⟩ := Pc.answering.inj (hpc.symm.trans hpc')
    have hok : Preserving s.sched (.reply v r) := by
      refine ⟨trivial, fun x hx hready => ?_⟩
      have : status s.sched v = some .ready := status_eq_some.mpr ⟨x, hx, hready⟩
      rw [hst] at this
      cases this
    have hstep : Sched.step s.sched (.reply v r) = some (reply s.sched v r) := rfl
    refine h.renew (h.posts.step h.ranged hok.1 hstep) (h.ranged.step hstep) (h.contexts.step h.posts h.ranged hok hstep).1
      (fun _ => rfl) (fun hf => hf.elim) (fun w hw => ?_) (fun _ _ hf => nomatch hf) fun w ans hw => ?_
    · obtain rfl : v = w := hw
      exact hans
    · by_cases hvw : v = w
      · subst hvw
        obtain rfl : some r = ans := Option.mem_unique hin hw
        refine .waking (c := c) (update_self ..) ?_ (reply_suspended hst hs r) hring rfl
        rw [reply_status]
        exact hst
      · refine h.stage_setPc (t := reply s.sched v r) (p := .waking v) (fun _ => rfl) hw (fun hf => ?_) (fun hf => ?_) hvw
          ((h.stage w ans hw).reply hvw r)
        · rw [hpc] at hf
          exact hf
        · rw [hpc] at hf
          exact hvw hf
  · rw [hpc] at hpc'
    cases hpc'

/-- The caller is woken. -/
lemma wakeCaller (hpc : s.pc c = .waking v) : Wired { s with sched := wake s.sched v, pc := update s.pc c .out } := by
  have hans : (s.pc c).Answers v := by rw [hpc]; rfl
  obtain ⟨r, f, p, hin, hst, hs, hring, hpc' | ⟨-, hrax⟩⟩ := h.answered_stage hans
  · rw [hpc] at hpc'
    cases hpc'
  · have hok : Preserving s.sched (.wake v) := ⟨trivial, trivial⟩
    have hstep : Sched.step s.sched (.wake v) = some (wake s.sched v) := rfl
    refine h.renew (h.posts.step h.ranged hok.1 hstep) (h.ranged.step hstep) (h.contexts.step h.posts h.ranged hok hstep).1
      (wake_core s.sched v) (fun hf => hf.elim) (fun _ hf => hf.elim) (fun _ _ hf => nomatch hf) fun w ans hw => ?_
    by_cases hvw : v = w
    · subst hvw
      obtain rfl : some r = ans := Option.mem_unique hin hw
      refine .woken (fun d hd => ?_) ?_ ((congrFun (calm_wake s.sched v).suspended v).trans hs) hring hrax
      · by_cases hdc : d = c
        · rw [hdc, update_self] at hd
          exact hd
        · rw [update_of_ne hdc] at hd
          exact hdc (h.apart d c v hd hans)
      · rw [wake_status, if_pos ⟨rfl, hst⟩]
    · refine h.stage_setPc (wake_core s.sched v) hw (fun hf => ?_) (fun hf => ?_) (fun hf => hf) ((h.stage w ans hw).wake hvw)
      · rw [hpc] at hf
        exact hf
      · rw [hpc] at hf
        exact hvw hf

/-- A vCPU that runs outside of the kernel is in no call. -/
lemma outside (hruns : s.runs c = true) (hb : Busy s.sched c) : s.inside (s.current c) = none := by
  obtain ⟨hpc, hrun⟩ := runs_iff.mp hruns
  have ho := (Sched.runs_iff.mp hrun).2.1
  have hown : Own true s.sched c (s.current c) := ⟨rfl, hb, rfl⟩
  cases hin : s.inside (s.current c) with
  | none => rfl
  | some ans =>
    cases h.stage _ ans hin with
    | @calling d hd hcur =>
      have hdc : d ≠ c := fun heq => not_inCall hpc (heq ▸ hd)
      obtain ⟨-, hruns', hb', -⟩ := h.calls d hd
      have hne := h.posts.executes_ne ho (Sched.runs_iff.mp hruns').2.1 hb' hdc
      rw [h.posts.executes c ho] at hne
      exact absurd hcur.symm hne
    | waiting hst => exact absurd hown (Stage.not_own h.posts ho (.inl hst))
    | answering _ hst => exact absurd hown (Stage.not_own h.posts ho (.inl hst))
    | waking _ hst => exact absurd hown (Stage.not_own h.posts ho (.inl hst))
    | woken _ hst => exact absurd hown (Stage.not_own h.posts ho (.inr hst))

/-- A call is accepted. -/
lemma call (hruns : s.runs c = true) (hb : Busy s.sched c) (hring : ring3 (s.sched.cpus c).frame)
    (ho : Owed table (update s.inside (s.current c) (some none))) (w : ℕ) :
    Wired { s.setPc c (.calling w) with table := table, inside := update s.inside (s.current c) (some none) } := by
  have hout := h.outside hruns hb
  obtain ⟨hpc, hrun⟩ := runs_iff.mp hruns
  have hkeep : ∀ v x, s.inside v = some x → update s.inside (s.current c) (some none) v = s.inside v := by
    intro v x hv
    refine update_of_ne (fun heq => ?_) ..
    rw [heq, hout] at hv
    cases hv
  refine h.move h.posts h.ranged h.contexts ho (fun v ans hv => ?_) (fun _ => ⟨update_self .., hrun, hb, hring⟩)
    (fun d _ hd => ⟨rfl, (hkeep _ _ (h.calls d hd).1).trans (h.calls d hd).1⟩) (fun _ hf => hf.elim) fun d v _ hd => ?_
  · rcases update_eq_cases hv with ⟨rfl, heq⟩ | ⟨-, hv⟩
    · cases heq
      exact .calling (c := c) (by rw [update_self]; exact trivial) rfl
    · exact (h.stage v ans hv).setPc (fun hf => absurd hf (not_inCall hpc)) (not_answers hpc v) id
  · obtain ⟨r, hin, -⟩ := h.answers d v hd
    exact hkeep v _ hin

/-- A halted caller is answered. -/
lemma respond (hpc : s.pc c = .out) (hin : s.inside v = some none) (hst : status s.sched v = some .halted)
    {r : Word} (ho : Owed table (update s.inside v (some (some r)))) :
    Wired { s.setPc c (.answering v r) with table := table, inside := update s.inside v (some (some r)) } := by
  have hcur : ∀ d, (s.pc d).InCall → s.current d ≠ v := by
    rintro d hd rfl
    obtain ⟨-, hruns, hb, -⟩ := h.calls d hd
    exact Stage.not_own h.posts (Sched.runs_iff.mp hruns).2.1 (.inl hst) ⟨rfl, hb, rfl⟩
  have hno : ∀ d, ¬ (s.pc d).Answers v := by
    intro d hd
    obtain ⟨r', hin', -⟩ := h.answers d v hd
    rw [hin] at hin'
    cases hin'
  refine h.move h.posts h.ranged h.contexts ho (fun w ans hw => ?_) (fun hf => hf.elim)
    (fun d _ hd => ⟨rfl, (update_of_ne (hcur d hd) ..).trans (h.calls d hd).1⟩) (fun w hw => ?_) fun d w _ hd => ?_
  · rcases update_eq_cases hw with ⟨rfl, heq⟩ | ⟨hwv, hw⟩
    · cases heq
      cases h.stage w none hin with
      | calling hpc hc => exact absurd hc (hcur _ hpc)
      | waiting hst hs hring => exact .answering (c := c) (update_self ..) hst hs hring
    · exact (h.stage w ans hw).setPc (fun hf => absurd hf (not_inCall hpc)) (not_answers hpc w) fun hf => hwv hf.symm
  · obtain rfl : v = w := hw
    exact ⟨⟨r, update_self .., fun r' hr' => (Pc.answering.inj hr').2.symm⟩, fun d _ => hno d⟩
  · have hwv : w ≠ v := fun heq => hno d (heq ▸ hd)
    exact update_of_ne hwv ..

end

/-- A step after which a CPU goes on with some vCPU is one of the scheduler. -/
lemma scheduled {s s' : Rpc} {e : RpcEvent} (hstep : SmoothStep s e s') (hc : e.cpu = some c) :
    ∃ e' t, Preserving s.sched e' ∧ Sched.step s.sched e' = some t ∧ e'.cpu = some c ∧
      ((s.pc c).InCall → ∃ frameAddr, e' = .block c frameAddr) ∧ (∀ v, ¬ (s.pc c).Answers v) ∧
      s' = { s with
        sched := t
        pc := update s.pc c .out
        inside := update s.inside (t.cpus c).executes none } := by
  obtain ⟨hok, hstep⟩ := hstep
  have hout : ∀ {s' : Rpc}, s.pc c = .out → s' = { s with sched := s'.sched, inside := s'.inside } →
      s' = { s with sched := s'.sched, pc := update s.pc c .out, inside := s'.inside } := by
    intro s' hpc heq
    rw [← hpc, update_eq_self]
    exact heq
  cases e with
  | sched e =>
    simp only [Rpc.step, ite_none_right_eq_some, Rpc.schedStep, map_eq_some_iff, Bool.and_eq_true] at hstep
    obtain ⟨⟨-, hpc⟩, t, ht, rfl⟩ := hstep
    have hc : e.cpu = some c := hc
    rw [hc] at hpc ⊢
    have hpc : s.pc c = .out := by simpa using hpc
    exact ⟨e, t, hok, ht, hc, fun hf => absurd hf (not_inCall hpc), not_answers hpc, hout hpc rfl⟩
  | block d frameAddr =>
    cases hc
    simp only [Rpc.step, ite_none_right_eq_some, Rpc.schedStep, map_map, map_eq_some_iff] at hstep
    obtain ⟨hpc, t, ht, rfl⟩ := hstep
    exact ⟨_, t, hok, ht, rfl, fun _ => ⟨frameAddr, rfl⟩, fun v => by rw [hpc]; exact id, rfl⟩
  | sleep d frameAddr =>
    cases hc
    simp only [Rpc.step, ite_none_right_eq_some, Rpc.schedStep, map_eq_some_iff] at hstep
    obtain ⟨hruns, t, ht, rfl⟩ := hstep
    have hpc := (runs_iff.mp hruns).1
    exact ⟨_, t, hok, ht, rfl, fun _ => ⟨frameAddr, rfl⟩, not_answers hpc, hout hpc rfl⟩
  | crash d freed =>
    obtain rfl := Option.some.inj hc
    simp only [Rpc.step, ite_none_right_eq_some, Rpc.schedStep, map_map, map_eq_some_iff] at hstep
    obtain ⟨hpc, t, ht, rfl⟩ := hstep
    exact ⟨.crash d freed, t, ⟨trivial, trivial⟩, ht, rfl, fun hf => by rw [hpc] at hf; exact hf.elim,
      fun v => by rw [hpc]; exact id, rfl⟩
  | _ => cases hc

lemma step (h : Wired s) {s' : Rpc} {e : RpcEvent} (hstep : SmoothStep s e s') : Wired s' := by
  cases hc : e.cpu with
  | some =>
    obtain ⟨e', t, hok, ht, hc', hcall, hans, rfl⟩ := scheduled hstep hc
    exact h.goOn hok ht hc' hcall hans
  | none =>
  obtain ⟨hok, hstep⟩ := hstep
  cases e with
  | sched e =>
    simp only [Rpc.step, ite_none_right_eq_some, Rpc.schedStep, map_eq_some_iff, Bool.and_eq_true] at hstep
    obtain ⟨⟨hord, -⟩, t, ht, rfl⟩ := hstep
    have hc : e.cpu = none := hc
    rw [hc]
    have hstill := step_still ht hc (by rintro v rfl; cases hord) (by rintro v r rfl; cases hord)
    have hnew := h.renew (c := 0) (p := s.pc 0) (h.posts.step h.ranged hok.1 ht) (h.ranged.step ht)
      (h.contexts.step h.posts h.ranged hok ht).1 hstill.cpus id (fun _ => id) (fun _ _ => id)
      fun v ans hin => by
        rw [update_eq_self]
        exact (h.stage v ans hin).still hstill
    rwa [update_eq_self] at hnew
  | register name v pml4 =>
    simp only [Rpc.step, Option.some.injEq] at hstep
    subst hstep
    refine h.setTable ?_
    rcases registerDriver_cases s.table name v pml4 with heq | ⟨i, pml4', -, hnone, -, heq⟩
    · rw [heq]
      exact h.owed
    · rw [heq]
      exact h.owed.add hnone rfl _
  | call c target message =>
    simp only [Rpc.step, ite_none_right_eq_some] at hstep
    obtain ⟨hruns, hstep⟩ := hstep
    obtain ⟨hne, hb, hring⟩ := hok
    rcases callDriver_cases s.table target (s.current c) message with heq | ⟨i, d, -, hd, -, hidle, heq⟩
    · rw [heq] at hstep
      cases hstep
      exact h
    · rw [heq] at hstep
      cases hstep
      refine h.call hruns hb hring (h.owed.call hd hidle hne (h.outside hruns hb) rfl ?_) _
      exact nofun
  | recv c =>
    simp only [Rpc.step, ite_none_right_eq_some, Option.some.injEq] at hstep
    obtain ⟨-, rfl⟩ := hstep
    refine h.setTable ?_
    rcases recv_cases s.table (s.current c) with ⟨-, heq⟩ | ⟨i, d, -, hd, -, -, heq⟩
    · rw [heq]
      exact h.owed
    · rw [heq]
      exact h.owed.set hd rfl (.inr fun hf => nomatch hf)
  | respond c result =>
    simp only [Rpc.step, ite_none_right_eq_some] at hstep
    obtain ⟨hruns, hstep⟩ := hstep
    rcases sendResponse_cases s.table (s.current c) result.toNat with ⟨-, heq⟩ | ⟨i, d, hi, hd, -, heq⟩
    · rw [heq] at hstep
      cases hstep
      exact h
    · rw [heq] at hstep
      dsimp only at hstep
      split at hstep
      · rename_i hzero
        cases hstep
        exact h.setTable (h.owed.set hd hzero.symm (.inl rfl))
      · rename_i hne
        cases hstep
        have hin := (h.owed.named i d hd hne).1
        rw [hin]
        exact h.respond (runs_iff.mp hruns).1 hin (hok i d hi hd hne) (h.owed.answer hd hne rfl result)
  | sendCmd c pte name message =>
    simp only [Rpc.step, ite_none_right_eq_some] at hstep
    obtain ⟨hpc, hstep⟩ := hstep
    have howed : Owed (Gdf.sendCmd pte s.table name message).table s.inside := by
      rcases sendCmd_cases pte s.table name message with heq | ⟨i, d, -, hd, -, ⟨-, heq⟩ | ⟨-, w, wr, heq⟩⟩
      · rw [heq]
        exact h.owed
      · rw [heq]
        exact h.owed.set hd rfl (.inr fun hf => nomatch hf)
      · rw [heq]
        exact h.owed.set hd rfl (.inr fun hf => nomatch hf)
    split at hstep
    · rename_i w _
      cases hstep
      exact (h.enter (p := .sending w) hpc id fun _ => id).setTable howed
    · cases hstep
      exact h.setTable howed
  | crashTable c =>
    simp only [Rpc.step, ite_none_right_eq_some, Bool.and_eq_true] at hstep
    obtain ⟨⟨hruns, -⟩, hstep⟩ := hstep
    cases hstep
    refine (h.enter (p := .crashing) (runs_iff.mp hruns).1 id fun _ => id).setTable ?_
    dsimp only
    split
    · unfold removeDriver
      cases hi : findByVcpu s.table (s.current c) with
      | none => exact h.owed
      | some i =>
        obtain ⟨-, d, hd, -⟩ := findByVcpu_eq_some hi
        exact h.owed.remove hd (hok i d hi hd) _
    · exact h.owed
  | wakeTarget =>
    simp only [Rpc.step] at hstep
    split at hstep
    · rename_i w hpc
      cases hstep
      exact h.wakes (hok w hpc) (by rw [hpc]; exact Iff.rfl) (fun v => by rw [hpc]; exact id) fun _ => id
    · cases hstep
  | wakeSent =>
    simp only [Rpc.step] at hstep
    split at hstep
    · rename_i w hpc
      cases hstep
      exact h.wakes (hok w hpc) (by rw [hpc]; exact Iff.rfl) (fun v => by rw [hpc]; exact id) fun _ => id
    · cases hstep
  | writeResult =>
    simp only [Rpc.step] at hstep
    split at hstep
    · rename_i hpc
      cases hstep
      exact h.writeResult hpc
    · cases hstep
  | wakeCaller =>
    simp only [Rpc.step] at hstep
    split at hstep
    · rename_i hpc
      cases hstep
      exact h.wakeCaller hpc
    · cases hstep
  | block => cases hc
  | sleep => cases hc
  | crash => cases hc

lemma init (n : ℕ) (kernelPml4 : Word) : Wired (start n kernelPml4) where
  posts := Posts.init n kernelPml4
  ranged := Ranged.init n kernelPml4
  contexts := Contexts.init n kernelPml4
  owed := ⟨fun _ _ hd => (nomatch hd), fun _ hv => (nomatch hv), fun _ _ _ _ hd => (nomatch hd), rfl⟩
  stage := fun _ _ hv => nomatch hv
  calls := fun _ hf => hf.elim
  answers := fun _ _ hf => hf.elim
  apart := fun _ _ _ hf => hf.elim

end Wired

/-! ### Calls are answered -/

variable {s : Rpc}

/-- In every run whose steps are smooth: a caller that is halted is named by an
entry with a command that is not answered, or is just being answered; a caller
that goes on finds the answer to its own command; and no driver crashes while it
is called. -/
theorem rpc_answered {n : ℕ} {kernelPml4 : Word} {tr : List RpcEvent} (h : Run SmoothStep (start n kernelPml4) tr s) :
    (∀ v, s.inside v ≠ none → status s.sched v = some .halted → s.Named v ∨ s.Answered v) ∧
    (∀ e s' c, SmoothStep s e s' → e.cpu = some c → ∀ ans, s.inside (s'.sched.cpus c).executes = some ans →
      ∃ r, ans = some r ∧ (s'.sched.cpus c).frame.rax = r) ∧
    ∀ c s', SmoothStep s (.crashTable c) s' → ∀ v, s.inside v = some none → s'.Named v := by
  have hw : Wired s := h.invariant (fun _ _ _ hs hstep => hs.step hstep) (Wired.init n kernelPml4)
  have hnamed : ∀ {s : Rpc} (v : ℕ), Wired s → s.inside v = some none → s.Named v := by
    intro s v hw hin
    obtain ⟨i, d, hd, rfl⟩ := hw.owed.asked v hin
    have hne : d.callerVcpu ≠ 0 := by
      intro hzero
      rw [hzero, hw.owed.zero] at hin
      cases hin
    exact ⟨i, d, hd, rfl, (hw.owed.named i d hd hne).2⟩
  refine ⟨fun v hin hst => ?_, fun e s' c hstep hc ans hin => ?_, fun c s' hstep v hin => hnamed v (hw.step hstep) ?_⟩
  · obtain ⟨ans, hin⟩ := Option.ne_none_iff_exists'.mp hin
    cases hw.stage v ans hin with
    | calling => exact .inl (hnamed v hw hin)
    | waiting => exact .inl (hnamed v hw hin)
    | @answering c _ _ _ hpc => exact .inr ⟨c, by rw [hpc]; rfl⟩
    | @waking c _ _ _ hpc => exact .inr ⟨c, by rw [hpc]; rfl⟩
    | woken _ hready =>
      rw [hst] at hready
      cases hready
  · obtain ⟨e', t, hok, ht, hc', hcall, -, rfl⟩ := Wired.scheduled hstep hc
    exact hw.resumes hok ht hc' hcall hin
  · obtain ⟨-, hstep⟩ := hstep
    simp only [Rpc.step, Option.ite_none_right_eq_some] at hstep
    obtain rfl := Option.some.inj hstep.2
    exact hin

/-- A driver's service. -/
def serviceStart : Sched.Event := .startService true 0x5000 0x400000 0x800000 (some 0x10000)

/-- One CPU. The first service calls the second one, which is ready, and is about
to be halted. -/
def callEvents : List RpcEvent :=
  [.sched serviceStart, .sched (.tick 0 0x9000), .sched (.user 0 Sched.serviceFrame (Sched.fninit Sched.fpuStateInit)),
    .sched (.tick 0 0x9000), .sched serviceStart, .register [0x62] 2 (some 0x5000), .call 0 [0x62] ⟨1, 2, 3, 4⟩, .wakeTarget 0]

def called : Rpc := (exec step (start 1 0x1000) callEvents).get rfl

lemma called_run : Run SmoothStep (start 1 0x1000) callEvents called := by
  have htick : Preserving newService (.tick 0 0x9000) :=
    ⟨⟨newService_sound, fun hb => absurd rfl hb, fun hb => absurd rfl hb, fun hb => absurd rfl hb⟩, fun hb => absurd rfl hb⟩
  have hagain : Preserving (runningService (fninit fpuStateInit)) (.tick 0 0x9000) :=
    ⟨runningService_orderly _, fun _ => fninit_idem _⟩
  refine .cons ⟨⟨trivial, trivial⟩, rfl⟩ (.cons ⟨htick, rfl⟩ (.cons ⟨⟨trivial, trivial⟩, rfl⟩ (.cons ⟨hagain, rfl⟩
    (.cons ⟨⟨trivial, trivial⟩, rfl⟩ (.cons ⟨trivial, rfl⟩ (.cons ⟨⟨?_, ?_, ?_⟩, rfl⟩ (.cons ⟨?_, rfl⟩ (.nil _))))))))
  · change 1 ≠ 0
    decide
  · change ¬ 1 = 0
    decide
  · change serviceFrame.cs &&& 3 = 3
    decide
  · intro w hw
    obtain rfl := Pc.calling.inj ((rfl : Pc.calling 2 = _).trans hw)
    rfl

/-- Two gangs: that of the caller, which is charged for a tick, and that of the
target. -/
lemma called_gang {i : ℕ} {g : Sched.Gang} (hg : called.sched.gangs i = some g) :
    i = 1 ∧ g = ⟨some 1 :: List.replicate 7 none, 1, 2000, 1, .active⟩ ∨
    i = 2 ∧ g = ⟨some 2 :: List.replicate 7 none, 1, 0, 0, .active⟩ := by
  have hw : Wired called := called_run.invariant (fun _ _ _ hs hstep => hs.step hstep) (Wired.init 1 0x1000)
  have hrange := hw.ranged.2 i g hg
  have hcount : called.sched.count = 3 := by decide +kernel
  obtain rfl | rfl : i = 1 ∨ i = 2 := by omega
  · exact .inl ⟨rfl, Option.some.inj (hg.symm.trans rfl)⟩
  · exact .inr ⟨rfl, Option.some.inj (hg.symm.trans rfl)⟩

/-- The caller runs, and the target can be chosen. -/
lemma called_member {i v : ℕ} {g : Sched.Gang} {x : Sched.Vcpu} (hg : called.sched.gangs i = some g) (hv : v ∈ g.members)
    (hx : called.sched.vcpus v = some x) : x.state = .running ∨ x.state = .ready ∧ Sched.Loadable called.sched 0 x := by
  rcases called_gang hg with ⟨rfl, rfl⟩ | ⟨rfl, rfl⟩
  · obtain rfl : v = 1 := List.mem_singleton.mp hv
    obtain rfl := mem_unique hx rfl
    exact .inl rfl
  · obtain rfl : v = 2 := List.mem_singleton.mp hv
    obtain rfl := mem_unique hx rfl
    refine .inr ⟨rfl, rfl, ?_, .inl ?_, ?_⟩
    · decide +kernel
    · decide +kernel
    · decide +kernel

lemma called_preserving : Preserving called.sched (.block 0 0x9000) := by
  have hready : Sched.IsReady called.sched 2 := ⟨_, rfl, rfl⟩
  have htarget : Sched.Willing false called.sched 0 2 ⟨some 2 :: List.replicate 7 none, 1, 0, 0, .active⟩ :=
    ⟨rfl, rfl, 2, List.mem_singleton.mpr rfl, .inl hready⟩
  refine ⟨fun hb => ⟨⟨?_, ?_, ?_, ?_, ?_⟩, fun _ => ⟨_, _, rfl, rfl, rfl, List.mem_singleton.mpr rfl⟩, 2, _, htarget.1, rfl, 2,
    List.mem_singleton.mpr rfl, hready⟩, fun _ => ?_⟩
  · intro i g hg v hv x hx hst
    rcases called_member hg hv hx with hrun | ⟨hrun, -⟩
    · rw [hst] at hrun
      cases hrun
    · rw [hst] at hrun
      cases hrun
  · intro i g hw
    rcases called_gang hw.1 with ⟨rfl, rfl⟩ | ⟨rfl, rfl⟩
    · decide +kernel
    · decide +kernel
  · intro i g hg _ _ hno _ _ _
    rcases called_gang hg with ⟨rfl, rfl⟩ | ⟨rfl, rfl⟩
    · exact ⟨2, _, htarget, by decide +kernel⟩
    · exact absurd htarget hno
  · intro i g hg _ v hv x hx hst
    rcases called_member hg hv hx with hrun | ⟨-, hload⟩
    · rw [hst] at hrun
      cases hrun
    · exact hload
  · intro i g hg _
    rcases called_gang hg with ⟨rfl, rfl⟩ | ⟨rfl, rfl⟩
    · decide
    · decide
  · exact fninit_idem _

/-- The caller is halted, and the entry of the target names it. -/
theorem rpc_answered_halted : ∃ s, Run SmoothStep (start 1 0x1000) (callEvents ++ [.block 0 0x9000]) s ∧
    s.inside 1 = some none ∧ status s.sched 1 = some .halted ∧ (s.Named 1 ∨ s.Answered 1) := by
  have hexec : ((called.step (.block 0 0x9000)).map fun s => (s.inside 1, status s.sched 1)) = some (some none, some .halted) := by
    decide +kernel
  obtain ⟨s, hstep, heq⟩ := Option.map_eq_some_iff.mp hexec
  obtain ⟨hin, hst⟩ := Prod.mk.inj heq
  have hrun : Run SmoothStep (start 1 0x1000) (callEvents ++ [.block 0 0x9000]) s :=
    Run.append_iff.mpr ⟨_, called_run, .cons ⟨called_preserving, hstep⟩ (.nil _)⟩
  exact ⟨s, hrun, hin, hst, (rpc_answered hrun).1 1 (by rw [hin]; exact Option.some_ne_none _) hst⟩

/-- Two CPUs and a third service that waits. The target answers before the CPU
of the caller gets to halt it. -/
def lostEvents : List RpcEvent :=
  [.sched serviceStart, .sched (.tick 0 0x9000), .sched (.tick 0 0x9000), .sched serviceStart, .sched (.tick 1 0x9000),
    .sched (.tick 1 0x9000), .sched serviceStart, .register [0x62] 3 (some 0x5000), .call 0 [0x62] ⟨1, 2, 3, 4⟩, .wakeTarget 0,
    .recv 1, .respond 1 7, .writeResult 1, .wakeCaller 1, .block 0 0x9000]

def lost : Rpc := (exec step (start 2 0x1000) lostEvents).get rfl

/-- The caller is halted in its call, and no entry names it, and no CPU is about
to wake it. -/
theorem rpc_lost_wakeup : Run (fun s e s' => s.step e = some s') (start 2 0x1000) lostEvents lost ∧
    lost.inside 2 ≠ none ∧ status lost.sched 2 = some .halted ∧ ¬ lost.Named 2 ∧ ¬ lost.Answered 2 := by
  refine ⟨Traces.run_of_exec (Option.some_get _).symm, by decide +kernel, by decide +kernel, ?_, ?_⟩
  · rintro ⟨i, d, hd, hcaller, -⟩
    match i with
    | 0 =>
      obtain rfl := mem_unique hd rfl
      exact absurd hcaller (by decide +kernel)
    | i + 1 => exact absurd (hd.symm.trans rfl : some d = none) (Option.some_ne_none d)
  · rintro ⟨c, hc⟩
    match c with
    | 0 => exact hc
    | 1 => exact hc
    | c + 2 => exact hc

end Rpc
end LodaxOS.Gdf
