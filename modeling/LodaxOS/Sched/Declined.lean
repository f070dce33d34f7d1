/-
# A schedule pass that declines

`schedule_inner` says with its first result whether the CPU is to switch. When
it says no, the CPU returns to what it was doing, so the pass should have
changed nothing beyond saving the current vCPU. It has not exactly when it
found no vCPU to run. A vCPU that was found and then rejected, for its canary,
its frame or its PML4, stays behind as running: its gang counts it, its canary
is gone, and its frame stands where the CPU returns from.
-/
import LodaxOS.Sched.Waiting

namespace LodaxOS.Sched

open Function State Option
open Arch (TrapFrame)
open Asm (Word)

variable {s : State} {c : ℕ} {frame : TrapFrame} {frameAddr : Word} {fpuOut : FpuState}

/-- What a pass that does not switch may change: nothing but the vCPU it saved,
the terminated ones, and which vCPU is the current one. -/
structure Undisturbed (s : State) (c : ℕ) (frame : TrapFrame) (frameAddr : Word) (o : Outcome) : Prop where
  resumes : o.frame = frame
  running : ∀ v x, o.state.vcpus v = some x → x.state = .running → ∃ y, s.vcpus v = some y ∧ y.state = .running
  counts : ∀ i, (o.state.gangs i).map Gang.runningCount = ((saved s c frame frameAddr).gangs i).map Gang.runningCount
  frames : ∀ v x, ¬ (Busy s c ∧ v = (s.cpus c).currentVcpu) → o.state.vcpus v = some x →
    ∃ y, s.vcpus v = some y ∧ x.savedFrame = y.savedFrame ∧ x.frameMagic = y.frameMagic
  queues : ∀ d, (o.state.cpus d).readyQueue = (s.cpus d).readyQueue

/-- Saving makes no vCPU running. -/
lemma saveCurrent_running_of {v : ℕ} {x : Vcpu} (hx : (saveCurrent s c frame frameAddr).vcpus v = some x)
    (hr : x.state = .running) : ∃ y, s.vcpus v = some y ∧ y.state = .running := by
  by_cases hv : Busy s c ∧ v = (s.cpus c).currentVcpu
  · obtain ⟨hb, rfl⟩ := hv
    unfold saveCurrent at hx
    rw [if_neg hb] at hx
    cases hcur : s.vcpus (s.cpus c).currentVcpu with
    | none =>
      simp only [hcur] at hx
      cases hx
    | some y =>
      refine ⟨y, rfl, ?_⟩
      simp only [hcur] at hx
      split at hx
      · rw [setVcpu_vcpus, update_self, Option.some.injEq] at hx
        rw [← hx] at hr
        exact hr
      split at hx
      · rw [setVcpu_vcpus, update_self, Option.some.injEq] at hx
        rw [← hx] at hr
        cases hr
      · rw [setVcpu_vcpus, update_self, Option.some.injEq] at hx
        rw [← hx] at hr
        exact hr
  · rw [saveCurrent_vcpus_of_ne hv] at hx
    exact ⟨x, hx, hr⟩

/-- Saving and putting the CPU to idle disturbs nothing. -/
lemma undisturbed_toIdle (h : ¬ s.count < 1) : Undisturbed s c frame frameAddr
    ⟨toIdle (saveCurrent (cleanup s) c frame frameAddr) c, false, 0, frame, fpuOut, none⟩ where
  resumes := rfl
  running v x hx hr := by
    obtain ⟨y, hy, hrun⟩ := saveCurrent_running_of hx hr
    exact ⟨y, cleanup_vcpus_of hy, hrun⟩
  counts i := by rw [saved, if_neg h, toIdle, setCurrent, modifyCpu_gangs]
  frames v x hv hx := by
    have hcpus : (cleanup s).cpus = s.cpus := cleanup_cpus_eq s
    have hsame : (saveCurrent (cleanup s) c frame frameAddr).vcpus v = (cleanup s).vcpus v :=
      saveCurrent_vcpus_of_ne (by rw [Busy, hcpus]; exact hv)
    exact ⟨x, cleanup_vcpus_of (hsame.symm.trans hx), rfl, rfl⟩
  queues d := by
    have hcpus : (saveCurrent (cleanup s) c frame frameAddr).cpus = s.cpus :=
      (saveCurrent_cpus _ c).trans (cleanup_cpus_eq s)
    by_cases hd : d = c
    · subst hd
      simp only [toIdle, setCurrent, modifyCpu_cpus, update_self, hcpus]
    · simp only [toIdle, setCurrent, modifyCpu_cpus, update_of_ne hd, hcpus]

/-- Extra vCPUs are only counted upwards. -/
lemma pushExtra_runningCount (c i : ℕ) (g : Gang) : ∀ (n : ℕ) (s : State) (g0 : Gang), s.gangs i = some g0 →
    ∃ g1, (pushExtra c i g n s).gangs i = some g1 ∧ g0.runningCount ≤ g1.runningCount
  | 0, _, g0, hg => ⟨g0, hg, le_rfl⟩
  | n + 1, s, g0, hg => by
    unfold pushExtra
    split
    · rename_i v _
      have hnext : ((addRunning s i).push c v).gangs i = some { g0 with runningCount := g0.runningCount + 1 } := by
        simp only [State.push, addRunning, modifyCpu_gangs, modifyGang_gangs, update_self, hg, map_some]
      obtain ⟨g1, hg1, hle⟩ := pushExtra_runningCount c i g n _ _ hnext
      exact ⟨g1, hg1, (Nat.le_succ _).trans hle⟩
    · exact pushExtra_runningCount c i g n s g0 hg

lemma loadNext_gangs (s : State) (c v : ℕ) : (loadNext s c v frame fpuOut).state.gangs = s.gangs := by
  cases hx : s.vcpus v with
  | none => simp only [loadNext, hx, toIdle, setCurrent, modifyCpu_gangs]
  | some x =>
    obtain ⟨w, -, hw⟩ := loadNext_state s c frame fpuOut hx
    rw [hw]
    rfl

lemma not_undisturbed {v : ℕ} {o : Outcome} (hready : status s v = some .ready)
    (hrunning : status o.state v = some .running) : ¬ Undisturbed s c frame frameAddr o := by
  intro h
  obtain ⟨x, hx, hr⟩ := status_eq_some.mp hrunning
  obtain ⟨y, hy, hr'⟩ := h.running v x hx hr
  rw [status, hy, map_some, hr'] at hready
  cases hready

/-- A pass leaves things as they were exactly if it found no vCPU to run. -/
lemma undisturbed_iff : Undisturbed s c frame frameAddr (scheduleInner s c frame frameAddr fpuOut) ↔
    chosen (saved s c frame frameAddr) = none := by
  by_cases hcount : s.count < 1
  · have hsaved : saved s c frame frameAddr = s := if_pos hcount
    rw [scheduleInner, if_pos hcount]
    refine iff_of_true ⟨rfl, fun v x hx hr => ⟨x, hx, hr⟩, fun i => ?_, fun v x _ hx => ⟨x, hx, rfl, rfl⟩, fun d => rfl⟩ ?_
    · rw [hsaved]
    · rw [hsaved, chosen_of_count hcount]
  have hsaved : saved s c frame frameAddr = saveCurrent (cleanup s) c frame frameAddr := if_neg hcount
  have hpass : scheduleInner s c frame frameAddr fpuOut = chooseNext (saved s c frame frameAddr) c frame fpuOut := by
    rw [scheduleInner, if_neg hcount, hsaved]
  rw [hpass]
  rcases chooseNext_cases (saved s c frame frameAddr) c frame fpuOut with ⟨heq, hnone⟩ | ⟨i, g, v, hi, hg, hv, heq⟩
  · have hchosen : chosen (saved s c frame frameAddr) = none := by
      rcases hnone with h | ⟨i, g, hi, hg, hp⟩
      · rw [chosen, h, bind_none]
      · rw [chosen, hi, bind_some, hg, bind_some, hp]
    rw [heq, hsaved] at *
    exact iff_of_true (undisturbed_toIdle hcount) hchosen
  · refine iff_of_false (fun h => ?_) (fun h => ?_)
    · -- the gang still counts the vCPU that was found
      have hadd : (addRunning (saved s c frame frameAddr) i).gangs i =
          some { g with runningCount := g.runningCount + 1 } := by
        simp only [addRunning, modifyGang_gangs, update_self, hg, map_some]
      obtain ⟨g1, hg1, hle⟩ := pushExtra_runningCount c i g _ _ _ hadd
      have hcounts := h.counts i
      rw [heq, loadNext_gangs, hg1, hg, map_some, map_some, Option.some.injEq] at hcounts
      exact absurd hle (by rw [hcounts]; exact Nat.not_succ_le_self _)
    · rw [chosen, hi, bind_some, hg, bind_some, hv] at h
      cases h

/-- A pass that does not switch leaves things as they were, in any state, exactly
if the vCPU that is found in the saved state, if there is one, passes the
checks of its canary, its frame and its PML4. -/
theorem declined_undisturbed_iff (s : State) (c : ℕ) (frame : TrapFrame) (frameAddr : Word) (fpuOut : FpuState) :
    ((scheduleInner s c frame frameAddr fpuOut).switched = false →
        Undisturbed s c frame frameAddr (scheduleInner s c frame frameAddr fpuOut)) ↔
      ∀ v x, chosen (saved s c frame frameAddr) = some v → (saved s c frame frameAddr).vcpus v = some x →
        accepts (saved s c frame frameAddr) c x = true := by
  rw [undisturbed_iff]
  rcases scheduleInner_cases s c frame frameAddr fpuOut with ⟨hswitched, hreject⟩ | ⟨v, x, hv, hx, hok, hswitched, -⟩
  · refine ⟨fun h v x hv => ?_, fun h _ => Option.eq_none_iff_forall_ne_some.mpr fun v hv => ?_⟩
    · rw [h hswitched] at hv
      cases hv
    · obtain ⟨x, -, hx, -⟩ := chooseNext_of_some hv c frame fpuOut
      have hok := h v x hv hx
      rw [hreject v x hv hx] at hok
      cases hok
  · refine iff_of_true (fun h => ?_) fun w y hw hy => ?_
    · rw [hswitched] at h
      cases h
    · obtain rfl := mem_unique hv hw
      rw [mem_unique hy hx, hok]

/-- A vCPU of `create_gang` has no canary: the first tick rejects it and leaves
it running, with its frame in the place of the idle loop's. -/
theorem declined_leaves_running : ∃ tr s o, Runs (fun _ _ => True) 1 0x1000 tr s ∧
    o = scheduleInner s 0 idleFrame 0x9000 fpuStateInit ∧ o.switched = false ∧ o.frame.rip = 0x400000 ∧
      idleFrame.rip ≠ 0x400000 ∧ ¬ Undisturbed s 0 idleFrame 0x9000 o := by
  refine ⟨[.createGang 1 0x400000 0 [some 0x10000]], _, _, .cons ⟨trivial, rfl⟩ (.nil _), rfl, ?_, ?_, ?_,
    not_undisturbed (v := 1) ?_ ?_⟩ <;> decide +kernel

end LodaxOS.Sched
