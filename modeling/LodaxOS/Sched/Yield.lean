/-
# Yielding and leaving

`sys_yield` and `sys_exit` are one call, `block_current`. A vCPU that yields
should stay eligible, and one that exits should not execute again. After the
call it is halted, whatever the state, so a vCPU that yields waits for someone
to wake it; and anyone can wake one that exited. Where nothing else is ready
the call even returns to the vCPU that exited.
-/
import LodaxOS.Sched.Waiting

namespace LodaxOS.Sched

open Function State
open Arch (TrapFrame)
open Asm (Word)
open Traces (Run)

variable {s : State} {c v : ℕ} {frameAddr : Word}

def sysYield (s : State) (c : ℕ) (frameAddr : Word) : State := blockCurrent s c frameAddr

def sysExit (s : State) (c : ℕ) (frameAddr : Word) : State := blockCurrent s c frameAddr

def Eligible (s : State) (v : ℕ) : Prop := status s v = some .ready ∨ status s v = some .running

/-- An event that neither wakes the vCPU nor is its own block or crash. -/
def Quiet (v : ℕ) (s : State) : Event → Prop
  | .wake w => w ≠ v
  | .block d _ => (s.cpus d).currentVcpu ≠ v
  | .crash d _ => (s.cpus d).currentVcpu ≠ v
  | _ => True

/-- What the two calls promise the vCPU that makes one, if it is not the CPU's
idle one. -/
structure MeansIt (s : State) (c : ℕ) (frameAddr : Word) : Prop where
  yield : Busy s c → ∀ tr t, Run (fun u e u' => Quiet (s.cpus c).currentVcpu u e ∧ step u e = some u')
    (sysYield s c frameAddr) tr t → Eligible t (s.cpus c).currentVcpu
  exit : Busy s c → ∀ tr t, Run (fun u e u' => step u e = some u') (sysExit s c frameAddr) tr t →
    ∀ d, (t.cpus d).online = true → (t.cpus d).executes ≠ (s.cpus c).currentVcpu

/-- A vCPU that is halted when the next one is looked for is not it. -/
lemma chooseNext_halted {frame : TrapFrame} {fpuOut : FpuState} (hh : ∀ x, s.vcpus v = some x → x.state = .halted) :
    (chooseNext s c frame fpuOut).state.vcpus v = s.vcpus v := by
  rcases chooseNext_cases s c frame fpuOut with ⟨heq, -⟩ | ⟨i, g, w, -, -, hw, heq⟩
  · rw [heq, toIdle, setCurrent, modifyCpu_vcpus]
  · obtain ⟨-, x, hx, hready, -⟩ := pickVcpu_eq_some hw
    have hne : v ≠ w := by
      rintro rfl
      cases (hh x hx).symm.trans hready
    have hx' : (pushExtra c i g (if perCore (g.vcpuCount - g.runningCount) (countFreeCores s) > 1 then
        min (perCore (g.vcpuCount - g.runningCount) (countFreeCores s) - 1) (g.vcpuCount - (g.runningCount + 1)) else 0)
        (addRunning s i)).vcpus w = some x := by
      rw [pushExtra_vcpus, addRunning, modifyGang_vcpus, hx]
    obtain ⟨u, -, hu⟩ := loadNext_state _ c frame fpuOut hx'
    rw [heq, hu, setCurrent, modifyCpu_vcpus, setVcpu_vcpus, update_of_ne hne, pushExtra_vcpus, addRunning,
      modifyGang_vcpus]

/-- After `block_current` the caller is halted. -/
lemma blockCurrent_halts (hb : Busy s c) {x : Vcpu}
    (hx : (blockCurrent s c frameAddr).vcpus (s.cpus c).currentVcpu = some x) : x.state = .halted := by
  set v := (s.cpus c).currentVcpu with hv
  rw [blockCurrent, if_neg hb] at hx
  have hhalt : ∀ x, (suspend (halt s v) c).vcpus v = some x → x.state = .halted := by
    intro x hx
    rw [suspend_vcpus] at hx
    rcases halt_vcpus_cases hx with ⟨-, hst⟩ | ⟨hne, -⟩
    · exact hst
    · exact absurd rfl hne
  have hclean : ∀ x, (cleanup (suspend (halt s v) c)).vcpus v = some x → x.state = .halted :=
    fun x hx => hhalt x (cleanup_vcpus_of hx)
  have hcur : ((cleanup (suspend (halt s v) c)).cpus c).currentVcpu = v := by
    rw [cleanup_cpus_eq, (suspend_cpu _ c c).2.1, halt_cpus]
  have hsave : ∀ frame x, (saveCurrent (cleanup (suspend (halt s v) c)) c frame frameAddr).vcpus v = some x →
      x.state = .halted := by
    intro frame x hx
    by_contra hst
    unfold saveCurrent at hx
    dsimp only at hx
    rw [hcur] at hx
    split at hx
    · exact hst (hclean x hx)
    · cases hy : (cleanup (suspend (halt s v) c)).vcpus v with
      | none =>
        rw [hy] at hx
        cases hy.symm.trans hx
      | some y =>
        simp only [hy, hclean y hy, if_pos] at hx
        rw [setVcpu_vcpus, update_self, Option.some.injEq] at hx
        rw [← hx] at hst
        exact hst rfl
  dsimp only [resume, modifyCpu_vcpus, scheduleInner] at hx
  split at hx
  · exact hhalt x hx
  · rw [← hv, chooseNext_halted (hsave _)] at hx
    exact hsave _ x hx

lemma not_meansIt (hb : Busy s c) : ¬ MeansIt s c frameAddr := by
  intro h
  have hhalts : ∀ x, (blockCurrent s c frameAddr).vcpus (s.cpus c).currentVcpu = some x → x.state = .halted :=
    fun x => blockCurrent_halts hb
  rcases h.yield hb [] _ (.nil _) with hst | hst
  · obtain ⟨x, hx, hready⟩ := status_eq_some.mp hst
    cases hready.symm.trans (hhalts x hx)
  · obtain ⟨x, hx, hrunning⟩ := status_eq_some.mp hst
    cases hrunning.symm.trans (hhalts x hx)

/-- The two calls keep their promise in no state in which a vCPU other than
the idle one can make them. -/
theorem yield_exit_iff (s : State) (c : ℕ) (frameAddr : Word) : MeansIt s c frameAddr ↔ ¬ Busy s c :=
  ⟨fun h hb => not_meansIt hb h, fun hb => ⟨fun h => absurd h hb, fun h => absurd h hb⟩⟩

/-- A service alone on its CPU: after the call it is halted, and it executes;
woken, it is installed again. -/
theorem yield_exit_service : ∃ s s1 s2, Runs (fun _ _ => True) 1 0x1000 oneService s ∧
    s1 = sysExit s 0 0x9000 ∧ Run (fun u e u' => step u e = some u') s1 [.wake 1, .tick 0 0x9000] s2 ∧
      ((s.cpus 0).currentVcpu = 1 ∧ status s1 1 = some .halted ∧ (s1.cpus 0).online = true ∧ (s1.cpus 0).executes = 1 ∧
        (s1.cpus 0).frame.rip = 0x400000 ∧ status s2 1 = some .running ∧ (s2.cpus 0).executes = 1) ∧
        ¬ MeansIt s 0 0x9000 := by
  refine ⟨_, _, _, .cons ⟨trivial, rfl⟩ (.cons ⟨trivial, rfl⟩ (.nil _)), rfl, .cons rfl (.cons rfl (.nil _)), ?_,
    not_meansIt ?_⟩
  · decide +kernel
  · unfold Busy
    decide +kernel

end LodaxOS.Sched
