/-
# Context preservation

A vCPU goes on where it stopped: with the registers and the floating-point
state that it had when a tick or a block suspended it. This needs the x87
environment to be the initial one, since both do `fninit` before the state is
saved, and it needs crash recovery to find the driver's floating-point state in
the CPU, since it restores none.
-/
import LodaxOS.Arch.Switch
import LodaxOS.Sched.Exclusive

namespace LodaxOS.Sched

open Function
open Arch (TrapFrame VcpuType contextSwitch FrameApart contextSwitch_resumes)
open Asm (Word)
open Traces (Run)

variable {s s' : State} {c i v : ℕ} {g : Gang} {x : Vcpu} {frame : TrapFrame} {frameAddr : Word} {fpuOut : FpuState}

/-! ### Down to the instructions -/

/-- The CPU enters `context_switch` with what `schedule_inner` left. -/
structure Enters (c : ℕ) (o : Outcome) (m : Asm.State FpuState) : Prop where
  frame : TrapFrame.read m.mem (m.reg .r8) = o.frame
  pml4 : m.reg .r9 = o.pml4
  fpu : m.image (m.reg .r10) = o.fpuOut
  cr3 : m.cr3 = (o.state.cpus c).cr3
  apart : FrameApart m

/-- The frame, the page tables and the floating-point state that a CPU has
after a switch are those that `context_switch` returns to. -/
lemma resume_contextSwitch {o : Outcome} {m : Asm.State FpuState} (hswitched : o.switched = true) (hring : o.frame.cs &&& 3 ≠ 0)
    (hm : Enters c o m) : ∃ m', Asm.run contextSwitch 60 contextSwitch m = some ([.iretq], m') ∧
      Arch.iretq m' = ((resume c o).cpus c).frame.resumed ∧ m'.fpu = ((resume c o).cpus c).fpu ∧
      m'.cr3 = ((resume c o).cpus c).cr3 := by
  obtain ⟨m', hrun, hregs, hfpu', hcr3'⟩ := contextSwitch_resumes hm.frame hring hm.apart
  refine ⟨m', hrun, ?_, ?_, ?_⟩
  · simp [resume, hregs]
  · simp [resume, hswitched, hfpu', hm.fpu]
  · simp [resume, hswitched, hcr3', hm.pml4, hm.cr3]

/-! ### The property and the condition -/

def ring3 (f : TrapFrame) : Prop := f.cs &&& 3 = 3

/-- The CPU returns to the context in which its vCPU was last suspended. -/
def Faithful (s : State) (c : ℕ) : Prop :=
  ∀ f p, s.suspended (s.cpus c).executes = some (f, p) → ring3 f →
    (s.cpus c).frame.resumed = f.resumed ∧ (s.cpus c).fpu = p

/-- The events after which a CPU goes on with a vCPU that was suspended. -/
def Resumes (s : State) (c : ℕ) : Event → Prop
  | .tick d _ => d = c
  | .block d _ => d = c ∧ Busy s c
  | .recover d => d = c
  | _ => False

/-- The x87 environment of a vCPU that is suspended is the initial one, a
recovered driver finds its floating-point state in the CPU, and results go to
callers that are not ready. -/
def Unspoiled (s : State) : Event → Prop
  | .tick c _ => Busy s c → fninit (s.cpus c).fpu = (s.cpus c).fpu
  | .block c _ => Busy s c → fninit (s.cpus c).fpu = (s.cpus c).fpu
  | .recover c => ∀ v x, (takeDriver s c).next = some v → s.vcpus v = some x → x.fpuState = (s.cpus c).fpu
  | .reply v _ => ∀ x, s.vcpus v = some x → x.state ≠ .ready
  | _ => True

def Preserving (s : State) (e : Event) : Prop := Orderly s e ∧ Unspoiled s e

/-! ### The invariant -/

/-- If the vCPU waits, its saved context is the one it was suspended in. -/
def Kept (s : State) (v : ℕ) : Prop :=
  ∀ x f p, s.vcpus v = some x → (x.state = .ready ∨ x.state = .halted) → s.suspended v = some (f, p) → ring3 f →
    x.savedFrame = f ∧ x.fpuState = p

structure Contexts (s : State) : Prop where
  kept : ∀ v, Kept s v
  fresh : ∀ v, s.vcpus v = none → s.suspended v = none
  idle : ∀ c, (s.cpus c).online = true → s.suspended (s.cpus c).idleVcpu = none

lemma Contexts.calm (h : Contexts s) (hs : Calm s s') : Contexts s' := by
  refine ⟨fun v x' f p hx' hw hsus hring => ?_, fun v hv => ?_, fun c ho => ?_⟩
  · rw [hs.suspended] at hsus
    cases hx : s.vcpus v with
    | none => simp [h.fresh v hx] at hsus
    | some x =>
      obtain ⟨y, hy, -, hf, hp, hst⟩ := hs.vcpus v x hx
      obtain rfl := Option.mem_unique hy hx'
      have hw' : x.state = .ready ∨ x.state = .halted := by
        obtain hst | ⟨hh, -⟩ := hst
        · rwa [hst] at hw
        · exact .inr hh
      rw [hf, hp]
      exact h.kept v x f p hx hw' hsus hring
  · rw [hs.suspended]
    cases hx : s.vcpus v with
    | none => exact h.fresh v hx
    | some x =>
      obtain ⟨y, hy, -⟩ := hs.vcpus v x hx
      simp [hy] at hv
  · obtain ⟨hon, -, hi, -⟩ := post_eq (hs.cpus c)
    rw [hs.suspended, hi]
    exact h.idle c (hon ▸ ho)

/-- vCPUs that change do not wait. -/
lemma Contexts.change (h : Contexts s) (hs : s'.suspended = s.suspended)
    (hv : ∀ v, s'.vcpus v = s.vcpus v ∨ ∃ y, s'.vcpus v = some y ∧ (y.state = .running ∨ y.state = .terminated))
    (hc : ∀ d, (s'.cpus d).online = (s.cpus d).online ∧ (s'.cpus d).idleVcpu = (s.cpus d).idleVcpu) : Contexts s' := by
  refine ⟨fun v y f p hy hw hsus hring => ?_, fun v hnone => ?_, fun d ho => ?_⟩
  · rw [hs] at hsus
    obtain hsame | ⟨z, hz, hst⟩ := hv v
    · exact h.kept v y f p (hsame ▸ hy) hw hsus hring
    · obtain rfl := Option.mem_unique hz hy
      obtain hst | hst := hst
      · simp [hst] at hw
      · simp [hst] at hw
  · rw [hs]
    obtain hsame | ⟨z, hz, -⟩ := hv v
    · exact h.fresh v (hsame ▸ hnone)
    · simp [hz] at hnone
  · rw [hs, (hc d).2]
    exact h.idle d ((hc d).1 ▸ ho)

/-! ### Saving and loading -/

lemma saveCurrent_saved (frame : TrapFrame) (frameAddr : Word) (hb : Busy s c) (hx : s.vcpus (s.cpus c).currentVcpu = some x) :
    ∃ y, (saveCurrent s c frame frameAddr).vcpus (s.cpus c).currentVcpu = some y ∧
      y.savedFrame = frameToSave frame frameAddr ∧ y.fpuState = (s.cpus c).fpu := by
  unfold saveCurrent
  simp only [if_neg hb, hx]
  split
  · exact ⟨_, update_self .., rfl, rfl⟩
  · split
    · exact ⟨_, update_self .., rfl, rfl⟩
    · exact ⟨_, update_self .., rfl, rfl⟩

lemma frameToSave_ring3 (h : ring3 frame) : frameToSave frame frameAddr = frame := by
  rw [frameToSave, if_pos]
  rw [h]
  decide

lemma suspend_suspended_of_not_own {w : ℕ} (hw : ¬ Own true s c w) : (suspend s c).suspended w = s.suspended w := by
  rw [suspend_suspended]
  split
  · rfl
  · rename_i hb
    exact update_of_ne (fun h => hw ⟨rfl, hb, h⟩) ..

/-- The current vCPU is suspended and saved, in a state that differs from `s`
by this vCPU and by gangs. -/
lemma Contexts.save {r : State} (h : Contexts s) (hposts : Posts s) (ho : (s.cpus c).online = true)
    (hx : Busy s c → ∃ y, r.vcpus (s.cpus c).currentVcpu = some y) (hv : ∀ w, ¬ Own true s c w → r.vcpus w = s.vcpus w)
    (hc : ∀ d, (r.cpus d).post = (s.cpus d).post) (hs : r.suspended = (suspend s c).suspended)
    (hfpu : Busy s c → (r.cpus c).fpu = (s.cpus c).fpu) : Contexts (saveCurrent r c (s.cpus c).frame frameAddr) := by
  obtain ⟨-, hcur, hid, -⟩ := post_eq (hc c)
  have hbusy : Busy r c ↔ Busy s c := by rw [Busy, Busy, hcur, hid]
  have hvcpus : ∀ w, ¬ Own true s c w → (saveCurrent r c (s.cpus c).frame frameAddr).vcpus w = s.vcpus w := by
    intro w hw
    rw [saveCurrent_vcpus_of_ne, hv w hw]
    rw [hbusy, hcur]
    exact fun h => hw ⟨rfl, h⟩
  have hsaved : ∀ w, Own true s c w → s.vcpus w ≠ none ∧ ∃ y, (saveCurrent r c (s.cpus c).frame frameAddr).vcpus w = some y ∧
      y.savedFrame = frameToSave (s.cpus c).frame frameAddr ∧ y.fpuState = (s.cpus c).fpu := by
    rintro w ⟨-, hb, rfl⟩
    obtain ⟨y, hy⟩ := hx hb
    obtain ⟨x, hx, -⟩ := hposts.busy c ho hb
    obtain ⟨z, hz, hf, hp⟩ := saveCurrent_saved (s.cpus c).frame frameAddr (hbusy.mpr hb) (hcur.symm ▸ hy)
    exact ⟨by simp [hx], z, hcur ▸ hz, hf, hp.trans (hfpu hb)⟩
  refine ⟨fun w y f p hy hw hsus hring => ?_, fun w hw => ?_, fun d hod => ?_⟩
  · rw [saveCurrent_suspended, hs] at hsus
    by_cases hown : Own true s c w
    · obtain ⟨-, z, hz, hf, hp⟩ := hsaved w hown
      obtain rfl := Option.mem_unique hz hy
      obtain ⟨-, hb, rfl⟩ := hown
      rw [suspend_suspended, if_neg hb, update_self, Option.some.injEq, Prod.mk.injEq] at hsus
      obtain ⟨rfl, rfl⟩ := hsus
      exact ⟨hf.trans (frameToSave_ring3 hring), hp⟩
    · rw [suspend_suspended_of_not_own hown] at hsus
      exact h.kept w y f p (hvcpus w hown ▸ hy) hw hsus hring
  · rw [saveCurrent_suspended, hs]
    by_cases hown : Own true s c w
    · obtain ⟨-, z, hz, -⟩ := hsaved w hown
      simp [hz] at hw
    · rw [suspend_suspended_of_not_own hown]
      exact h.fresh w (hvcpus w hown ▸ hw)
  · rw [saveCurrent_cpus] at hod ⊢
    obtain ⟨hon, -, hi, -⟩ := post_eq (hc d)
    rw [saveCurrent_suspended, hs, hi, suspend_suspended_of_not_own]
    · exact h.idle d (hon ▸ hod)
    · exact fun h' => (hposts.current_unshared ho h'.2.1).2 d (hon ▸ hod) h'.2.2

lemma fixSs_resumed (f : TrapFrame) : (fixSs f).resumed = f.resumed := by
  unfold fixSs
  split
  · rfl
  · split <;> rfl

/-- Loading a ready vCPU resumes it where it stopped. -/
lemma Contexts.installs {t : State} (h : Contexts s) (hi : Installs s t c) : Contexts t ∧ Faithful t c := by
  obtain ⟨v, x, s2, hx, hr, hv2, hs2, hc2, rfl⟩ := hi
  obtain ⟨hothers, hself⟩ := post_installed (c := c) (v := v) (x := x) hc2
  simp only [Cpu.post, Prod.mk.injEq] at hself
  obtain ⟨hon, -, hid, hex⟩ := hself
  refine ⟨h.change hs2 (fun w => ?_) (fun d => ?_), fun f p hsw hring => ?_⟩
  · by_cases hw : w = v
    · subst hw
      exact .inr ⟨_, update_self .., .inl rfl⟩
    · rw [← hv2]
      exact .inl (update_of_ne hw ..)
  · by_cases hd : d = c
    · rw [hd]
      exact ⟨hon, hid⟩
    · obtain ⟨hon', -, hid', -⟩ := post_eq (hothers d hd)
      exact ⟨hon', hid'⟩
  · have hsus : (resume c (installed s2 c v x)).suspended = s.suspended := hs2
    rw [hex, hsus] at hsw
    obtain ⟨hf, hp⟩ := h.kept v x f p hx (.inl hr) hsw hring
    have hframe : ((resume c (installed s2 c v x)).cpus c).frame = if x.vcpuType ≠ .idle then fixSs x.savedFrame else x.savedFrame := by
      simp [resume, installed]
    have hfpu : ((resume c (installed s2 c v x)).cpus c).fpu = x.fpuState := by simp [resume, installed]
    rw [hframe, hfpu, ← hf]
    refine ⟨?_, hp⟩
    split
    · exact fixSs_resumed _
    · rfl

/-! ### Ticks and blocks -/

/-- On its idle vCPU a CPU has no context to go back to. -/
lemma Contexts.faithful_idle (h : Contexts s) (hposts : Posts s) (ho : (s.cpus c).online = true) (hb : ¬ Busy s c) :
    Faithful s c := by
  intro f p hsus
  rw [hposts.executes c ho, not_not.mp hb, h.idle c ho] at hsus
  simp at hsus

lemma calm_suspend (hb : ¬ Busy s c) : Calm s (suspend s c) := by
  refine ⟨fun v x hx => ⟨x, by rw [suspend_vcpus, hx], rfl, rfl, rfl, .inl rfl⟩, (samePosts_suspend s c).cpus, ?_⟩
  rw [suspend_suspended, if_pos (not_not.mp hb)]

/-- After a tick the contexts are kept, and the CPU has one of them. -/
lemma Contexts.tick (h : Contexts s) (hposts : Posts s) (hr : Ranged s) (ho : (s.cpus c).online = true)
    (hok : Orderly s (.tick c frameAddr)) (hfpu : Busy s c → fninit (s.cpus c).fpu = (s.cpus c).fpu) :
    Contexts (tick s c frameAddr) ∧ Faithful (tick s c frameAddr) c := by
  have hnt := hok.1.suspend.noTerminated
  obtain ⟨-, hi | ⟨hb, hcalm, -⟩⟩ := tick_cases hr hok
  · refine Contexts.installs (h.save hposts ho (fun hb => ?_) (fun w _ => ?_) (fun d => ?_) (cleanup_suspended hnt) fun hb => ?_) hi
    · obtain ⟨x, hx, -⟩ := hposts.busy c ho hb
      exact ⟨x, by rw [cleanup_vcpus hnt, suspend_vcpus, hx]⟩
    · rw [cleanup_vcpus hnt, suspend_vcpus]
    · rw [cleanup_cpus hnt]
      exact (samePosts_suspend s c).cpus d
    · rw [cleanup_cpus hnt, suspend_cpus, update_self]
      exact hfpu hb
  · have hall := (calm_suspend hb).trans hcalm
    have hposts' := hposts.same hall.samePosts
    obtain ⟨hon, hc, hid, -⟩ := post_eq (hall.cpus c)
    refine ⟨h.calm hall, (h.calm hall).faithful_idle hposts' (hon.trans ho) ?_⟩
    rwa [Busy, hc, hid]

lemma Contexts.block (h : Contexts s) (hposts : Posts s) (hr : Ranged s) (ho : (s.cpus c).online = true) (hb : Busy s c)
    (hok : Orderly s (.block c frameAddr)) (hfpu : fninit (s.cpus c).fpu = (s.cpus c).fpu) :
    Contexts (blockCurrent s c frameAddr) ∧ Faithful (blockCurrent s c frameAddr) c := by
  obtain ⟨hsound, hseat, -⟩ := hok hb
  obtain ⟨x, g, hx, -, hg, -⟩ := hseat hb
  obtain ⟨hpos, hlt'⟩ := hr.bounds hg
  have hnt := noTerminated_blocked hsound.noTerminated hx hg hpos hlt'
  obtain ⟨hvcpus, -, -, hcpus⟩ := blocked_frame hx hg hpos hlt'
  refine Contexts.installs (h.save hposts ho (fun _ => ?_) (fun w hown => ?_) (fun d => ?_) ?_ fun _ => ?_)
    (block_cases hr hok hb).2
  · exact ⟨_, by rw [cleanup_vcpus hnt, hvcpus, update_self]⟩
  · rw [cleanup_vcpus hnt, hvcpus, update_of_ne fun h => hown ⟨rfl, hb, h⟩]
  · rw [cleanup_cpus hnt, hcpus, ← suspend_cpus]
    exact (samePosts_suspend s c).cpus d
  · rw [cleanup_suspended hnt, blocked, halt_eq hx hg hpos hlt', suspend_suspended, suspend_suspended]
    rfl
  · rw [cleanup_cpus hnt, hcpus, update_self]
    exact hfpu

/-! ### Crashes and results -/

lemma Contexts.crash {freed : Bool} (h : Contexts s) (v : ℕ) :
    Contexts ((handleCrash s v freed).modifyCpu c fun cpu => { cpu with crashing := true }) := by
  have hmark : ∀ s : State, Contexts s → Contexts (s.modifyCpu c fun cpu => { cpu with crashing := true }) :=
    fun s h => h.calm (.modifyCpu rfl)
  refine hmark _ ?_
  unfold handleCrash
  cases s.services v with
  | none => exact h
  | some pml4 =>
    refine h.change rfl (fun w => ?_) fun d => ⟨rfl, rfl⟩
    by_cases hw : w = v
    · subst hw
      cases hx : s.vcpus w with
      | none => exact .inl (by simp [hx])
      | some x => exact .inr ⟨{ x with state := .terminated, pml4 := pml4 }, by simp [hx], .inr rfl⟩
    · exact .inl (by simp [hw])

/-- Recovery restores the frame of a driver, and no floating-point state. -/
lemma Contexts.recover (h : Contexts s) (hposts : Posts s) (ho : (s.cpus c).online = true)
    (hok : Unspoiled s (.recover c)) : Contexts (recover s c) ∧ Faithful (recover s c) c := by
  obtain ⟨x0, hx0, -⟩ := hposts.idle c ho
  have hok' : ∀ v x, (takeDriver s c).next = some v → s.vcpus v = some x → x.fpuState = (s.cpus c).fpu := hok
  rcases recover_cases s c with ⟨v, x, hv, hx, hr, heq⟩ | ⟨-, heq⟩
  · rw [heq]
    refine ⟨h.change rfl (fun w => ?_) fun d => ?_, fun f p hsus hring => ?_⟩
    · by_cases hw : w = v
      · subst hw
        exact .inr ⟨_, update_self .., .inl rfl⟩
      · exact .inl (update_of_ne hw ..)
    · by_cases hd : d = c
      · subst hd
        simp
      · simp [hd]
    · have hsus' : s.suspended v = some (f, p) := by simpa using hsus
      obtain ⟨hf, hp⟩ := h.kept v x f p hx (.inl hr) hsus' hring
      have hfpu := hok' v x hv hx
      simp [hf, ← hp, hfpu]
  · rw [heq]
    refine ⟨h.change rfl (fun w => .inl rfl) fun d => ?_, fun f p hsus => ?_⟩
    · by_cases hd : d = c
      · subst hd
        simp
      · simp [hd]
    · simp [hx0, h.idle c ho] at hsus

/-- The result goes into the context of a caller that is blocked. -/
lemma Contexts.reply {result : Word} (h : Contexts s) (hok : Unspoiled s (.reply v result)) : Contexts (reply s v result) := by
  have hnone : ∀ w, s.suspended w = none → (Sched.reply s v result).suspended w = none := by
    intro w hw
    unfold Sched.reply
    dsimp only
    split
    · by_cases hwv : w = v
      · subst hwv
        rw [update_self, hw]
        rfl
      · rw [update_of_ne hwv, hw]
    · exact hw
  refine ⟨fun w y f p hy hw hsus hring => ?_, fun w hw => ?_, fun d ho => hnone _ (h.idle d ho)⟩
  · by_cases hwv : w = v
    · subst hwv
      obtain ⟨x, hx, rfl⟩ : ∃ x, s.vcpus w = some x ∧ { x with savedFrame := { x.savedFrame with rax := result } } = y := by
        simpa [Sched.reply] using hy
      have hhalted : x.state = .halted := hw.resolve_left (hok x hx)
      obtain ⟨f0, hsus0, rfl⟩ : ∃ f0, s.suspended w = some (f0, p) ∧ { f0 with rax := result } = f := by
        simpa [Sched.reply, hx, hhalted] using hsus
      obtain ⟨hf, hp⟩ := h.kept w x f0 p hx (.inr hhalted) hsus0 hring
      exact ⟨by rw [hf], hp⟩
    · have hsus' : s.suspended w = some (f, p) := by
        simp only [Sched.reply] at hsus
        split at hsus
        · rwa [update_of_ne hwv] at hsus
        · exact hsus
      have hy' : s.vcpus w = some y := by simpa [Sched.reply, hwv] using hy
      exact h.kept w y f p hy' hw hsus' hring
  · refine hnone w (h.fresh w ?_)
    by_cases hwv : w = v
    · subst hwv
      simpa [Sched.reply] using hw
    · simpa [Sched.reply, hwv] using hw

/-! ### Runs -/

lemma Contexts.init (n : ℕ) (kernelPml4 : Word) : Contexts (State.init n kernelPml4) :=
  ⟨fun _ _ _ _ _ _ hsus => by simp [State.init] at hsus, fun _ _ => rfl, fun _ _ => rfl⟩

/-- A step keeps the contexts; one that resumes a vCPU resumes it in its own. -/
lemma Contexts.step {e : Event} (h : Contexts s) (hposts : Posts s) (hr : Ranged s) (hok : Preserving s e)
    (hstep : step s e = some s') : Contexts s' ∧ ∀ c, Resumes s c e → Faithful s' c := by
  obtain ⟨hord, hun⟩ := hok
  cases stepped hstep with
  | user =>
    exact ⟨h.calm (.modifyCpu rfl), fun _ => False.elim⟩
  | tick c frameAddr _ ho =>
    obtain ⟨hkept, hfaithful⟩ := h.tick hposts hr ho hord hun
    exact ⟨hkept, fun d hd => hd ▸ hfaithful⟩
  | block c frameAddr _ ho =>
    by_cases hb : Busy s c
    · obtain ⟨hkept, hfaithful⟩ := h.block hposts hr ho hb hord (hun hb)
      exact ⟨hkept, fun d hd => hd.1 ▸ hfaithful⟩
    · rw [blockCurrent, if_pos (not_not.mp hb)]
      exact ⟨h, fun d hd => absurd (hd.1 ▸ hd.2) hb⟩
  | wake v =>
    exact ⟨h.calm (calm_wake s v), fun _ => False.elim⟩
  | reply =>
    exact ⟨h.reply hun, fun _ => False.elim⟩
  | createGang =>
    exact ⟨h.calm (still_createGang ..).calm, fun _ => False.elim⟩
  | register =>
    exact ⟨h.calm (still_register ..).calm, fun _ => False.elim⟩
  | startService =>
    exact ⟨h.calm (still_startService ..).calm, fun _ => False.elim⟩
  | crash =>
    exact ⟨h.crash _, fun _ => False.elim⟩
  | recover c ho =>
    obtain ⟨hkept, hfaithful⟩ := h.recover hposts ho hun
    exact ⟨hkept, fun d hd => hd ▸ hfaithful⟩

/-- After every resumption in a run of which each step preserves. -/
theorem context_preserved {n : ℕ} {kernelPml4 : Word} {tr : List Event} {e : Event} (h : Runs Preserving n kernelPml4 tr s)
    (hok : Preserving s e) (hstep : step s e = some s') (hres : Resumes s c e) : Faithful s' c := by
  have hkeep : ∀ s e s', (Posts s ∧ Ranged s ∧ Contexts s) → (Preserving s e ∧ Sched.step s e = some s') →
      (Posts s' ∧ Ranged s' ∧ Contexts s') :=
    fun s e s' ⟨hp, hr, hc⟩ hstep => ⟨hp.step hr hstep.1.1 hstep.2, hr.step hstep.2, (hc.step hp hr hstep.1 hstep.2).1⟩
  obtain ⟨hp, hr, hc⟩ := Run.invariant hkeep h ⟨Posts.init n kernelPml4, Ranged.init n kernelPml4, Contexts.init n kernelPml4⟩
  exact (hc.step hp hr hok hstep).2 c hres

lemma fninit_idem (f : FpuState) : fninit (fninit f) = fninit f := by
  funext i
  simp only [fninit]
  split <;> simp_all

/-- A frame of the service, in the middle of a computation. -/
def serviceFrame : TrapFrame := { idleFrame with rax := 42, rip := 0x400010, cs := 0x1B, rsp := 0x7FF000, ss := 0x23 }

/-- The service runs on the only CPU, with the floating-point state `fpu`. -/
def runningService (fpu : FpuState) : State :=
  (tick newService 0 0x9000).modifyCpu 0 fun cpu => { cpu with frame := serviceFrame, fpu := fpu }

lemma runningService_run (fpu : FpuState) :
    Runs Preserving 1 0x1000 (oneService ++ [.user 0 serviceFrame fpu]) (runningService fpu) := by
  have htick : Preserving newService (.tick 0 0x9000) :=
    ⟨⟨newService_sound, fun hb => absurd rfl hb, fun hb => absurd rfl hb, fun hb => absurd rfl hb⟩, fun hb => absurd rfl hb⟩
  exact .cons ⟨⟨trivial, trivial⟩, rfl⟩ (.cons ⟨htick, rfl⟩ (.cons ⟨⟨trivial, trivial⟩, rfl⟩ (.nil _)))

lemma runningService_orderly (fpu : FpuState) : Orderly (runningService fpu) (.tick 0 0x9000) := by
  have hrun : Runs (fun _ _ => True) 1 0x1000 _ (runningService fpu) :=
    (runningService_run fpu).mono fun _ _ _ h => ⟨trivial, h.2⟩
  have hcount : (runningService fpu).count = 2 := rfl
  have hbusy : Busy (runningService fpu) 0 := by
    change ¬ 1 = 0
    decide
  refine ⟨sound_single 1 1 rfl (fun i g hg hi => ?_) rfl (fun v => List.mem_singleton) rfl ?_ (.inr ⟨rfl, hbusy, rfl⟩) ?_
    (fun h => ?_) ?_, fun _ => ⟨_, _, rfl, rfl, rfl, ?_⟩, fun _ x g hx hg => ?_, fun _ x hx => ?_⟩
  · have hrange := (Ranged.of_runs hrun).2 i g hg
    omega
  · intro h
    change VcpuState.running = .terminated at h
    simp at h
  · change 0 < 1
    decide
  · change VcpuState.running = .ready at h
    simp at h
  · change 0 + vruntimeTick * 100 < u64Max
    decide
  · exact List.mem_singleton.mpr rfl
  · obtain rfl := Option.mem_unique hx rfl
    obtain rfl := Option.mem_unique hg rfl
    rfl
  · obtain rfl := Option.mem_unique hx rfl
    refine ⟨?_, .inl ?_, ?_⟩
    · change frameOk (frameToSave serviceFrame 0x9000) = true
      decide +kernel
    · change (0x5000 : Word) < maxPml4Phys
      decide
    · change 0 + vruntimeTick < u64Max
      decide

/-- A tick suspends the service, and the CPU goes on with it. -/
theorem context_preserved_service : ∃ s', step (runningService (fninit fpuStateInit)) (.tick 0 0x9000) = some s' ∧
    Faithful s' 0 ∧ (s'.cpus 0).executes = 1 ∧ (s'.suspended 1).isSome = true := by
  refine ⟨_, rfl, context_preserved (runningService_run _) ⟨runningService_orderly _, fun _ => ?_⟩ rfl rfl, ?_, ?_⟩
  · exact fninit_idem _
  · decide +kernel
  · decide +kernel

/-- After every resumption through `context_switch`, its instructions return to
the context in which the vCPU was suspended. -/
theorem context_switched {n : ℕ} {kernelPml4 : Word} {tr : List Event} {e : Event} {o : Outcome} {m : Asm.State FpuState}
    (h : Runs Preserving n kernelPml4 tr s) (hok : Preserving s e) (hstep : step s e = some (resume c o))
    (hres : Resumes s c e) (hswitched : o.switched = true) (hm : Enters c o m)
    (hsus : (resume c o).suspended ((resume c o).cpus c).executes = some (frame, fpuOut)) (hring : ring3 frame) :
    ∃ m', Asm.run contextSwitch 60 contextSwitch m = some ([.iretq], m') ∧ Arch.iretq m' = frame.resumed ∧
      m'.fpu = fpuOut ∧ m'.cr3 = ((resume c o).cpus c).cr3 := by
  have hkeep : ∀ s e s', (Posts s ∧ Ranged s ∧ Contexts s) → (Preserving s e ∧ Sched.step s e = some s') →
      (Posts s' ∧ Ranged s' ∧ Contexts s') :=
    fun s e s' ⟨hp, hr, hc⟩ hstep => ⟨hp.step hr hstep.1.1 hstep.2, hr.step hstep.2, (hc.step hp hr hstep.1 hstep.2).1⟩
  obtain ⟨hp, hr, hc⟩ := Run.invariant hkeep h ⟨Posts.init n kernelPml4, Ranged.init n kernelPml4, Contexts.init n kernelPml4⟩
  obtain ⟨hframe, hfpu⟩ := (hc.step hp hr hok hstep).2 c hres frame fpuOut hsus hring
  -- the frame that is loaded is of ring 3 too, so the switch takes the way to user mode
  have hcs : o.frame.cs = frame.cs := by simpa [resume, TrapFrame.resumed] using congrArg Arch.User.cs hframe
  have huser : o.frame.cs &&& 3 ≠ 0 := by
    rw [hcs, hring]
    decide
  obtain ⟨m', hrun, hregs, hfpu', hcr3⟩ := resume_contextSwitch hswitched huser hm
  exact ⟨m', hrun, hregs.trans hframe, hfpu'.trans hfpu, hcr3⟩

/-- The service goes on after a tick, in the middle of its computation. -/
theorem context_switched_service : ∃ o m m', Enters 0 o m ∧
    step (runningService (fninit fpuStateInit)) (.tick 0 0x9000) = some (resume 0 o) ∧
    Asm.run contextSwitch 60 contextSwitch m = some ([.iretq], m') ∧ Arch.iretq m' = serviceFrame.resumed := by
  have hall : ∀ o : Outcome, Enters 0 o ⟨update (update (fun _ => 0x8000) .r8 0x9000) .r9 o.pml4,
      TrapFrame.write (fun _ => 0) 0x9000 o.frame, fun _ => o.fpuOut, o.fpuOut, (o.state.cpus 0).cr3, false, 0, 0⟩ := by
    refine fun o => ⟨TrapFrame.read_write .., rfl, rfl, rfl, ?_⟩
    change ∀ i < 22, ∀ j < 5, Asm.above 0x9000 i ≠ Asm.below 0x8000 (j + 1)
    decide
  obtain ⟨m', hrun, hregs, -⟩ := context_switched (c := 0) (runningService_run (fninit fpuStateInit))
    ⟨runningService_orderly _, fun _ => fninit_idem _⟩ rfl rfl (by decide +kernel) (hall _) rfl rfl
  exact ⟨_, _, m', hall _, rfl, hrun, hregs⟩

/-- The service has unmasked an exception in the x87 control word. It is
masked again after a tick. -/
theorem context_preserved_control : ∃ s s', Runs (fun _ _ => True) 1 0x1000
      (oneService ++ [.user 0 serviceFrame (update fpuStateInit 0 0x7E)]) s ∧
    step s (.tick 0 0x9000) = some s' ∧ Resumes s 0 (.tick 0 0x9000) ∧ ¬ Faithful s' 0 := by
  refine ⟨_, _, .cons ⟨trivial, rfl⟩ (.cons ⟨trivial, rfl⟩ (.cons ⟨trivial, rfl⟩ (.nil _))), rfl, rfl, fun h => ?_⟩
  have hfpu := congrFun (h serviceFrame (update fpuStateInit 0 0x7E) rfl rfl).2 0
  revert hfpu
  decide +kernel

end LodaxOS.Sched
