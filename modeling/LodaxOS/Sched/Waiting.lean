/-
# What a step does to the other vCPUs

A step on one CPU may take that CPU's vCPU away and give it one that was
ready. All other vCPUs keep their states and the contexts in which they were
suspended, and the other CPUs are as they were (`Passes`). Steps that belong
to no CPU change only queues (`Still`), but for waking and for results.
-/
import LodaxOS.Sched.Context

namespace LodaxOS.Sched

open Function
open Option (map some)
open Arch (TrapFrame VcpuType)
open Asm (Word)

variable {s s' : State} {c v : ℕ} {x : Vcpu} {frameAddr : Word} {e : Event}

def status (s : State) (v : ℕ) : Option VcpuState := (s.vcpus v).map Vcpu.state

lemma status_eq_some {st : VcpuState} : status s v = some st ↔ ∃ x, s.vcpus v = some x ∧ x.state = st :=
  Option.map_eq_some_iff

lemma status_congr (h : s'.vcpus v = s.vcpus v) : status s' v = status s v := congrArg (map Vcpu.state) h

/-- The CPU may have given up its vCPU and taken one that was ready. -/
structure Passes (s s' : State) (c : ℕ) : Prop where
  status : ∀ v st, ¬ Own true s c v → status s v = some st →
    status s' v = some st ∨ st = .ready ∧ status s' v = some .running ∧ (s'.cpus c).executes = v
  suspended : ∀ v, ¬ Own true s c v → s'.suspended v = s.suspended v
  cpus : ∀ d, d ≠ c → (s'.cpus d).core = (s.cpus d).core

lemma Still.status (h : Still s s') {st : VcpuState} (hv : status s v = some st) : Sched.status s' v = some st := by
  obtain ⟨x, hx, rfl⟩ := status_eq_some.mp hv
  obtain ⟨y, hy, -, -, -, hst⟩ := h.vcpus v x hx
  exact status_eq_some.mpr ⟨y, hy, hst⟩

/-! ### Other CPUs -/

lemma cleanup_cpus_eq (s : State) : (cleanup s).cpus = s.cpus := by
  have hclean : ∀ (s : State) (i : ℕ), (cleanGang s i).cpus = s.cpus := by
    intro s i
    unfold cleanGang
    split
    · rfl
    · rename_i g _
      dsimp only
      split <;> exact (cleanSlots_only g.vcpuIds s).frame.2.2
  have hall : ∀ (l : List ℕ) (s : State), (l.foldl cleanGang s).cpus = s.cpus := by
    intro l
    induction l with
    | nil => exact fun _ => rfl
    | cons i l ih => exact fun s => (ih _).trans (hclean s i)
  exact hall _ s

lemma halt_cpus (s : State) (v : ℕ) : (halt s v).cpus = s.cpus := by
  unfold halt
  split
  · rfl
  · dsimp only
    split <;> rfl

section

variable {d : ℕ} (hd : d ≠ c)

include hd

lemma setCurrent_cpus_of_ne (s : State) (w : ℕ) : (s.setCurrent c w).cpus d = s.cpus d := update_of_ne hd ..

lemma pushExtra_cpus_of_ne (i : ℕ) (g : Gang) : ∀ (n : ℕ) (s : State), (pushExtra c i g n s).cpus d = s.cpus d
  | 0, _ => rfl
  | n + 1, s => by
    unfold pushExtra
    split
    · rw [pushExtra_cpus_of_ne i g n]
      exact update_of_ne hd ..
    · exact pushExtra_cpus_of_ne i g n s

lemma chooseNext_cpus_of_ne (s : State) (frame : TrapFrame) (fpuOut : FpuState) :
    (chooseNext s c frame fpuOut).state.cpus d = s.cpus d := by
  obtain ⟨heq, -⟩ | ⟨i, g, v, -, -, -, heq⟩ := chooseNext_cases s c frame fpuOut
  · rw [heq]
    exact setCurrent_cpus_of_ne hd ..
  · have hload : ∀ s : State, (loadNext s c v frame fpuOut).state.cpus d = s.cpus d := by
      intro s
      cases hx : s.vcpus v with
      | none =>
        simp only [loadNext, hx]
        exact setCurrent_cpus_of_ne hd ..
      | some =>
        obtain ⟨w, -, hw⟩ := loadNext_state s c frame fpuOut hx
        rw [hw]
        exact setCurrent_cpus_of_ne hd ..
    rw [heq, hload, pushExtra_cpus_of_ne hd]
    rfl

lemma resume_schedule_cpus_of_ne (s : State) (frame : TrapFrame) (frameAddr : Word) (fpuOut : FpuState) :
    (resume c (scheduleInner s c frame frameAddr fpuOut)).cpus d = s.cpus d := by
  have hresume : ∀ o : Outcome, (resume c o).cpus d = o.state.cpus d := fun o => update_of_ne hd ..
  rw [hresume]
  unfold scheduleInner
  split
  · rfl
  · rw [chooseNext_cpus_of_ne hd, saveCurrent_cpus, cleanup_cpus_eq]

lemma suspend_cpus_of_ne (s : State) : (suspend s c).cpus d = s.cpus d := by
  rw [suspend_cpus, update_of_ne hd]

lemma tick_cpus_of_ne (s : State) (frameAddr : Word) : (tick s c frameAddr).cpus d = s.cpus d := by
  unfold tick
  dsimp only
  rw [resume_schedule_cpus_of_ne hd, suspend_cpus_of_ne hd]

lemma blockCurrent_cpus_of_ne (s : State) (frameAddr : Word) : (blockCurrent s c frameAddr).cpus d = s.cpus d := by
  unfold blockCurrent
  split
  · rfl
  · dsimp only
    rw [resume_schedule_cpus_of_ne hd, suspend_cpus_of_ne hd, halt_cpus]

end

/-! ### Steps on a CPU -/

/-- A CPU that gives up its vCPU and installs a ready one. -/
lemma Handover.passes {s1 : State} (h : Handover s s1 c) (hi : Installs s1 s' c)
    (hs : ∀ v, ¬ Own true s c v → s1.suspended v = s.suspended v) (hc : ∀ d, d ≠ c → (s'.cpus d).core = (s.cpus d).core) :
    Passes s s' c := by
  obtain ⟨w, x, s2, hx, hxr, hv2, hs2, hc2, rfl⟩ := hi
  obtain ⟨-, hself⟩ := post_installed (c := c) (v := w) (x := x) hc2
  simp only [Cpu.post, Prod.mk.injEq] at hself
  refine ⟨fun v st hown hv => ?_, fun v hown => ?_, hc⟩
  · have hkept := h.kept v hown
    by_cases hvw : v = w
    · subst hvw
      obtain ⟨y, hy, rfl⟩ := status_eq_some.mp hv
      obtain rfl : x = y := some.inj (hx.symm.trans (hkept.trans hy))
      exact .inr ⟨hxr, status_eq_some.mpr ⟨_, update_self .., rfl⟩, hself.2.2.2⟩
    · refine .inl ((status_congr ?_).trans hv)
      change update s2.vcpus w _ v = _
      rw [update_of_ne hvw, hv2, hkept]
  · change s2.suspended v = _
    rw [hs2, hs v hown]

lemma Passes.of_eq (hv : s'.vcpus = s.vcpus) (hs : ∀ v, ¬ Own true s c v → s'.suspended v = s.suspended v)
    (hc : ∀ d, d ≠ c → (s'.cpus d).core = (s.cpus d).core) : Passes s s' c :=
  ⟨fun v _ _ h => .inl ((status_congr (congrFun hv v)).trans h), hs, hc⟩

lemma passes_suspend (h : Passes (suspend s c) s' c) : Passes s s' c := by
  refine ⟨fun v st hown hv => ?_, fun v hown => ?_, fun d hd => ?_⟩
  · exact h.status v st (own_suspend.not.mpr hown) ((status_congr (by rw [suspend_vcpus])).trans hv)
  · rw [h.suspended v (own_suspend.not.mpr hown), suspend_suspended_of_not_own hown]
  · rw [h.cpus d hd, suspend_cpus_of_ne hd]

lemma passes_tick (hr : Ranged s) (hok : Orderly s (.tick c frameAddr)) : Passes s (tick s c frameAddr) c := by
  have hnt := hok.1.suspend.noTerminated
  have hcpus : ∀ d, d ≠ c → ((tick s c frameAddr).cpus d).core = ((suspend s c).cpus d).core := by
    intro d hd
    rw [tick_cpus_of_ne hd, suspend_cpus_of_ne hd]
  refine passes_suspend ?_
  obtain ⟨hover, hi | ⟨-, hcalm, hvcpus⟩⟩ := tick_cases hr hok
  · refine hover.passes hi (fun v _ => ?_) hcpus
    rw [saveCurrent_suspended, cleanup_suspended hnt]
  · exact .of_eq hvcpus (fun v _ => by rw [hcalm.suspended]) hcpus

/-- The blocked vCPU is halted, in the context of its call. -/
lemma block_halts (hr : Ranged s) (hok : Orderly s (.block c frameAddr)) (hb : Busy s c) :
    Passes s (blockCurrent s c frameAddr) c ∧ status (blockCurrent s c frameAddr) (s.cpus c).currentVcpu = some .halted ∧
    (blockCurrent s c frameAddr).suspended (s.cpus c).currentVcpu = some ((s.cpus c).frame, (s.cpus c).fpu) := by
  obtain ⟨hsound, hseat, -⟩ := hok hb
  obtain ⟨x, g, hx, -, hg, -⟩ := hseat hb
  obtain ⟨hpos, hlt'⟩ := hr.bounds hg
  have hnt := noTerminated_blocked hsound.noTerminated hx hg hpos hlt'
  have hsus : ∀ v, (saveCurrent (cleanup (blocked s c)) c (s.cpus c).frame frameAddr).suspended v =
      (suspend s c).suspended v := by
    intro v
    rw [saveCurrent_suspended, cleanup_suspended hnt, blocked, halt_eq hx hg hpos hlt', suspend_suspended, suspend_suspended]
    rfl
  obtain ⟨hover, hi⟩ := block_cases hr hok hb
  refine ⟨hover.passes hi (fun v hown => ?_) (fun d hd => ?_), ?_, ?_⟩
  · rw [hsus, suspend_suspended_of_not_own hown]
  · rw [blockCurrent_cpus_of_ne hd]
  · obtain ⟨w, y, s2, hy, hyr, hv2, -, -, heq⟩ := hi
    obtain ⟨s1, hs1, ⟨z, hz, hvcpus⟩, -⟩ :=
      saveCurrent_blocked (s.cpus c).frame frameAddr hsound.noTerminated hb hx hg hpos hlt'
    rw [hs1, hvcpus] at hv2 hy
    have hne : (s.cpus c).currentVcpu ≠ w := by
      intro h
      rw [← h, update_self] at hy
      cases hy
      rw [hz] at hyr
      cases hyr
    rw [heq]
    refine status_eq_some.mpr ⟨z, ?_, hz⟩
    change update s2.vcpus w _ _ = _
    rw [update_of_ne hne, hv2, update_self]
  · obtain ⟨w, y, s2, -, -, -, hs2, -, heq⟩ := hi
    rw [heq]
    change s2.suspended _ = _
    rw [hs2, hsus, suspend_suspended, if_neg hb, update_self]

lemma passes_recover (hp : Posts s) (ho : (s.cpus c).online = true) : Passes s (recover s c) c := by
  obtain ⟨x0, hx0, -⟩ := hp.idle c ho
  rcases recover_cases s c with ⟨v, x, -, hx, hr, heq⟩ | ⟨-, heq⟩
  · rw [heq]
    refine ⟨fun w st _ hw => ?_, fun _ _ => rfl, fun d hd => by simp [hd]⟩
    by_cases hwv : w = v
    · subst hwv
      obtain ⟨y, hy, rfl⟩ := status_eq_some.mp hw
      obtain rfl := Option.mem_unique hx hy
      exact .inr ⟨hr, status_eq_some.mpr ⟨_, update_self .., rfl⟩, by simp⟩
    · exact .inl ((status_congr (update_of_ne hwv ..)).trans hw)
  · rw [heq]
    refine .of_eq rfl (fun _ _ => rfl) fun d hd => ?_
    simp [hd]

lemma handleCrash_suspended (s : State) (v : ℕ) (freed : Bool) : (handleCrash s v freed).suspended = s.suspended := by
  unfold handleCrash
  split <;> rfl

lemma passes_crash (hp : Posts s) (ho : (s.cpus c).online = true) (hdriver : isDriver s (s.cpus c).currentVcpu = true)
    (freed : Bool) : Passes s ((handleCrash s (s.cpus c).currentVcpu freed).modifyCpu c fun cpu => { cpu with crashing := true }) c := by
  have hb := hp.busy_of_driver ho hdriver
  by_cases hsvc : (s.services (s.cpus c).currentVcpu).isSome = true
  · obtain ⟨-, hcpus, hvcpus, -⟩ := handleCrash_frame freed hsvc
    refine ⟨fun v st hown hv => .inl ((status_congr (hvcpus v ?_)).trans hv), fun v _ => ?_, fun d hd => ?_⟩
    · exact fun h => hown ⟨rfl, hb, h⟩
    · rw [modifyCpu_suspended, handleCrash_suspended]
    · rw [modifyCpu_cpus, update_of_ne hd, hcpus]
  · have hnone : handleCrash s (s.cpus c).currentVcpu freed = s := by
      rw [Option.not_isSome_iff_eq_none] at hsvc
      rw [handleCrash, hsvc]
    rw [hnone]
    exact .of_eq rfl (fun _ _ => rfl) fun d hd => by simp [hd]

/-! ### All steps -/

/-- The CPU on which an event happens. -/
def Event.cpu : Event → Option ℕ
  | .user c _ _ | .tick c _ | .block c _ | .crash c _ | .recover c => some c
  | _ => none

lemma step_passes (hp : Posts s) (hr : Ranged s) (hok : Orderly s e) (hstep : step s e = some s') (hc : e.cpu = some c) :
    Passes s s' c := by
  cases stepped hstep with
  | user d =>
    cases hc
    exact .of_eq rfl (fun _ _ => rfl) fun d hd => by simp [hd]
  | tick =>
    cases hc
    exact passes_tick hr hok
  | block d =>
    obtain rfl := some.inj hc
    by_cases hb : Busy s d
    · exact (block_halts hr hok hb).1
    · rw [blockCurrent, if_pos (not_not.mp hb)]
      exact .of_eq rfl (fun _ _ => rfl) fun _ _ => rfl
  | crash d freed ho hdriver =>
    cases hc
    exact passes_crash hp ho hdriver freed
  | recover d ho =>
    cases hc
    exact passes_recover hp ho
  | _ => cases hc

/-- The steps of no CPU, but for waking and results. -/
lemma step_still (hstep : step s e = some s') (hc : e.cpu = none) (hwake : ∀ v, e ≠ .wake v) (hreply : ∀ v r, e ≠ .reply v r) :
    Still s s' := by
  cases stepped hstep with
  | wake v => exact absurd rfl (hwake v)
  | reply v r => exact absurd rfl (hreply v r)
  | createGang =>
    exact still_createGang ..
  | register =>
    exact still_register ..
  | startService =>
    exact still_startService ..
  | _ => cases hc

/-! ### Waking and results -/

/-- Only the vCPU changes: if it is halted, it is ready. -/
lemma wake_status (s : State) (v w : ℕ) :
    status (wake s v) w = if w = v ∧ status s v = some .halted then some .ready else status s w := by
  unfold wake
  cases hx : s.vcpus v with
  | none =>
    rw [if_neg]
    rintro ⟨rfl, h⟩
    rw [status, hx] at h
    cases h
  | some x =>
    have hv : status s v = some x.state := by rw [status, hx, Option.map_some]
    dsimp only
    split
    · rename_i hh
      by_cases hw : w = v
      · subst hw
        rw [if_pos ⟨rfl, hv.trans (congrArg some hh)⟩]
        exact status_eq_some.mpr ⟨_, update_self .., rfl⟩
      · rw [if_neg fun h => hw h.1]
        exact status_congr (update_of_ne hw ..)
    · rename_i hh
      rw [if_neg]
      rintro ⟨-, h⟩
      exact hh (Option.mem_unique hv h)

lemma wake_core (s : State) (v c : ℕ) : ((wake s v).cpus c).core = (s.cpus c).core := by
  unfold wake
  cases s.vcpus v with
  | none => rfl
  | some =>
    dsimp only
    split
    · exact ((still_push _ _ v).trans (still_addTaskCount _ _ 1)).cpus c
    · rfl

lemma reply_status (s : State) (v w : ℕ) (result : Word) : status (reply s v result) w = status s w := by
  unfold reply status
  by_cases hw : w = v
  · subst hw
    cases hx : s.vcpus w with
    | none => simp [hx]
    | some => simp [hx]
  · simp [hw]

lemma reply_suspended_of_ne (s : State) {v w : ℕ} (hw : w ≠ v) (result : Word) :
    (reply s v result).suspended w = s.suspended w := by
  unfold reply
  dsimp only
  split
  · exact update_of_ne hw ..
  · rfl

/-- A halted caller finds the result in its context. -/
lemma reply_suspended {f : TrapFrame} {p : FpuState} (hv : status s v = some .halted) (hs : s.suspended v = some (f, p))
    (result : Word) : (reply s v result).suspended v = some ({ f with rax := result }, p) := by
  obtain ⟨x, hx, hst⟩ := status_eq_some.mp hv
  simp [reply, hx, hst, hs]

/-! ### The CPU of a step -/

lemma schedule_online (s : State) (c : ℕ) (frame : TrapFrame) (frameAddr : Word) (fpuOut : FpuState) :
    ((resume c (scheduleInner s c frame frameAddr fpuOut)).cpus c).online = (s.cpus c).online := by
  have hchoose : ∀ s : State, ((chooseNext s c frame fpuOut).state.cpus c).online = (s.cpus c).online := by
    intro s
    obtain ⟨heq, -⟩ | ⟨i, g, v, -, -, -, heq⟩ := chooseNext_cases s c frame fpuOut
    · rw [heq]
      simp [toIdle, State.setCurrent]
    · have hload : ∀ s : State, ((loadNext s c v frame fpuOut).state.cpus c).online = (s.cpus c).online := by
        intro s
        cases hx : s.vcpus v with
        | none => simp [loadNext, hx, toIdle, State.setCurrent]
        | some =>
          obtain ⟨w, -, hw⟩ := loadNext_state s c frame fpuOut hx
          rw [hw]
          simp [State.setCurrent]
      rw [heq, hload]
      obtain ⟨q, hq⟩ := pushExtra_cpu c i g c (if perCore (g.vcpuCount - g.runningCount) (countFreeCores s) > 1 then
        min (perCore (g.vcpuCount - g.runningCount) (countFreeCores s) - 1) (g.vcpuCount - (g.runningCount + 1)) else 0)
        (addRunning s i)
      rw [hq]
      rfl
  have hresume : ∀ o : Outcome, ((resume c o).cpus c).online = (o.state.cpus c).online := fun o => by simp [resume]
  rw [hresume]
  unfold scheduleInner
  split
  · rfl
  · rw [hchoose, saveCurrent_cpus, cleanup_cpus_eq]

/-- The CPU of a step is online before and after it. -/
lemma step_online (hstep : step s e = some s') (hc : e.cpu = some c) :
    (s.cpus c).online = true ∧ (s'.cpus c).online = true := by
  cases stepped hstep with
  | user d frame fpu _ ho =>
    cases hc
    exact ⟨ho, by simpa using ho⟩
  | tick d frameAddr _ ho =>
    obtain rfl := some.inj hc
    exact ⟨ho, (schedule_online ..).trans ((suspend_cpu s d d).1.trans ho)⟩
  | block d frameAddr _ ho =>
    obtain rfl := some.inj hc
    refine ⟨ho, ?_⟩
    unfold blockCurrent
    split
    · exact ho
    · refine (schedule_online ..).trans ((suspend_cpu _ d d).1.trans ?_)
      rw [halt_cpus]
      exact ho
  | crash d freed ho =>
    cases hc
    refine ⟨ho, ?_⟩
    unfold handleCrash
    split
    · simpa using ho
    · simpa using ho
  | recover d ho =>
    cases hc
    refine ⟨ho, ?_⟩
    rcases recover_cases s c with ⟨_, _, -, -, -, heq⟩ | ⟨-, heq⟩ <;> simpa [heq] using ho
  | _ => cases hc

/-- A vCPU that a CPU goes on with after a step was suspended, or is the one
that it had. -/
lemma step_resumes (hstep : step s e = some s') (hc : e.cpu = some c) :
    Resumes s c e ∨ (s'.cpus c).executes = (s.cpus c).executes := by
  cases stepped hstep with
  | user =>
    cases hc
    exact .inr (by simp)
  | tick => exact .inl (some.inj hc)
  | block d =>
    obtain rfl := some.inj hc
    by_cases hb : Busy s d
    · exact .inl ⟨rfl, hb⟩
    · rw [blockCurrent, if_pos (not_not.mp hb)]
      exact .inr rfl
  | crash =>
    cases hc
    refine .inr ?_
    unfold handleCrash
    split
    · simp
    · simp
  | recover => exact .inl (some.inj hc)
  | _ => cases hc

/-- What one CPU executes is not the vCPU of another that is busy. -/
lemma Posts.executes_ne {d : ℕ} (h : Posts s) (ho : (s.cpus c).online = true) (ho' : (s.cpus d).online = true)
    (hb : Busy s d) (hd : d ≠ c) : (s.cpus c).executes ≠ (s.cpus d).currentVcpu := by
  rw [h.executes c ho]
  intro heq
  by_cases hc : Busy s c
  · exact hd (h.apart c d ho ho' hc hb heq).symm
  · exact (h.current_unshared ho' hb).2 c ho ((not_not.mp hc).symm.trans heq)

/-- What a CPU executes does not wait. -/
lemma Posts.executing (h : Posts s) (ho : (s.cpus c).online = true) :
    status s (s.cpus c).executes ≠ some .halted ∧ status s (s.cpus c).executes ≠ some .ready := by
  refine ⟨fun hst => ?_, fun hst => ?_⟩
  · obtain ⟨x, hx, hh⟩ := status_eq_some.mp hst
    exact (h.exclusive.2.2 c x ho hx).2 hh
  · obtain ⟨x, hx, hr⟩ := status_eq_some.mp hst
    exact (h.exclusive.2.2 c x ho hx).1 hr

/-! ### A block that finds nothing to run -/

/-- Whether `block_current` goes on with another vCPU, and so does not return. -/
def blockSwitches (s : State) (c : ℕ) (frameAddr : Word) : Bool :=
  (s.cpus c).currentVcpu ≠ (s.cpus c).idleVcpu &&
    (let s := suspend (halt s (s.cpus c).currentVcpu) c
     (scheduleInner s c (s.cpus c).frame frameAddr (s.cpus c).fpu).switched)

lemma cleanSlots_vcpus : ∀ (slots : List (Option ℕ)) (s : State) {v : ℕ} {x : Vcpu},
    (cleanSlots s slots).1.vcpus v = some x → s.vcpus v = some x
  | [], _, _, _, h => h
  | none :: slots, s, _, _, h => cleanSlots_vcpus slots s h
  | some w :: slots, s, v, x, h => by
    unfold cleanSlots at h
    split at h
    · have hfree : (s.free w).vcpus v = some x := cleanSlots_vcpus slots (s.free w) h
      unfold State.free at hfree
      split at hfree
      · by_cases hv : v = w
        · simp [hv] at hfree
        · simpa [hv] using hfree
      · exact hfree
    · exact cleanSlots_vcpus slots s h

/-- The clean-up makes no vCPU. -/
lemma cleanup_vcpus_of (h : (cleanup s).vcpus v = some x) : s.vcpus v = some x := by
  have hclean : ∀ (s : State) (i : ℕ), (cleanGang s i).vcpus v = some x → s.vcpus v = some x := by
    intro s i h
    unfold cleanGang at h
    split at h
    · exact h
    · rename_i g _
      dsimp only at h
      split at h
      · exact cleanSlots_vcpus g.vcpuIds s h
      · exact cleanSlots_vcpus g.vcpuIds s h
  have hall : ∀ (l : List ℕ) (s : State), (l.foldl cleanGang s).vcpus v = some x → s.vcpus v = some x := by
    intro l
    induction l with
    | nil => exact fun _ h => h
    | cons i l ih => exact fun s h => hclean s i (ih _ h)
  exact hall _ s h

/-- A vCPU that is ready once a halted one is saved was ready before. -/
lemma ready_save {frame : TrapFrame} (hh : ∀ x, s.vcpus (s.cpus c).currentVcpu = some x → x.state = .halted)
    (h : IsReady (saveCurrent s c frame frameAddr) v) : IsReady s v := by
  obtain ⟨y, hy, hr⟩ := h
  by_cases hv : Busy s c ∧ v = (s.cpus c).currentVcpu
  · obtain ⟨hb, rfl⟩ := hv
    unfold saveCurrent at hy
    rw [if_neg hb] at hy
    cases hx : s.vcpus (s.cpus c).currentVcpu with
    | none => simp [hx] at hy
    | some x =>
      simp only [hx, hh x hx, if_pos] at hy
      rw [setVcpu_vcpus, update_self, some.injEq] at hy
      subst hy
      cases hr
  · rw [saveCurrent_vcpus_of_ne hv] at hy
    exact ⟨y, hy, hr⟩

lemma halt_vcpus_cases (hx : (halt s v).vcpus w = some x) : w = v ∧ x.state = .halted ∨ w ≠ v ∧ s.vcpus w = some x := by
  unfold halt at hx
  cases hv : s.vcpus v with
  | none =>
    rw [hv] at hx
    refine .inr ⟨?_, hx⟩
    rintro rfl
    cases hv.symm.trans hx
  | some y =>
    rw [hv] at hx
    have hx : update s.vcpus v (some { y with state := .halted }) w = some x := by
      dsimp only at hx
      split at hx
      · exact hx
      · exact hx
    by_cases hw : w = v
    · rw [hw, update_self, some.injEq] at hx
      exact .inl ⟨hw, hx ▸ rfl⟩
    · rw [update_of_ne hw] at hx
      exact .inr ⟨hw, hx⟩

/-- If no vCPU is ready, `block_current` returns. -/
lemma block_stays (h : ∀ v, ¬ IsReady s v) : blockSwitches s c frameAddr = false := by
  rw [Bool.eq_false_iff]
  intro hs
  simp only [blockSwitches, Bool.and_eq_true, decide_eq_true_eq] at hs
  obtain ⟨-, hs⟩ := hs
  have hcur : ((cleanup (blocked s c)).cpus c).currentVcpu = (s.cpus c).currentVcpu := by
    rw [cleanup_cpus_eq, (suspend_cpu _ c c).2.1, halt_cpus]
  have hnone : ∀ v, ¬ IsReady (cleanup (blocked s c)) v := by
    rintro v ⟨x, hx, hr⟩
    have hx := cleanup_vcpus_of hx
    rw [suspend_vcpus] at hx
    rcases halt_vcpus_cases hx with ⟨-, hst⟩ | ⟨-, hx⟩
    · rw [hr] at hst
      cases hst
    · exact h v ⟨x, hx, hr⟩
  have hhalted : ∀ x, (cleanup (blocked s c)).vcpus (s.cpus c).currentVcpu = some x → x.state = .halted := by
    intro x hx
    have hx := cleanup_vcpus_of hx
    rw [suspend_vcpus] at hx
    rcases halt_vcpus_cases hx with ⟨-, hst⟩ | ⟨hne, -⟩
    · exact hst
    · exact absurd rfl hne
  unfold scheduleInner at hs
  split at hs
  · cases hs
  · obtain ⟨heq, -⟩ | ⟨i, g, v, -, -, hp, -⟩ := chooseNext_cases (saveCurrent (cleanup (blocked s c)) c
      ((blocked s c).cpus c).frame frameAddr) c
      ((blocked s c).cpus c).frame ((blocked s c).cpus c).fpu
    · rw [heq] at hs
      cases hs
    · obtain ⟨-, x, hx, hr, -⟩ := pickVcpu_eq_some hp
      exact hnone v (ready_save (by rwa [hcur]) ⟨x, hx, hr⟩)

end LodaxOS.Sched
