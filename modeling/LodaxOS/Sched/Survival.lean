/-
# What becomes of a vCPU

A step of the scheduler frees a vCPU only if it is terminated, and otherwise
keeps its type and its kernel stack. Only the crash of a service terminates one
(`step_follows`), and only `register_driver_vcpu` gives it another stack.
-/
import LodaxOS.Sched.Choice

namespace LodaxOS.Sched

open Arch (TrapFrame VcpuType)
open Asm (Word)

variable {s s' : State} {v w c : ℕ} {frame : TrapFrame} {frameAddr : Word} {fpuOut : FpuState}

/-- What a change of a vCPU keeps. -/
def Vcpu.Like (x x' : Vcpu) : Prop :=
  x'.vcpuType = x.vcpuType ∧ x'.kernelStackTop = x.kernelStackTop ∧ (x'.state = .terminated → x.state = .terminated)

lemma Vcpu.Like.refl (x : Vcpu) : x.Like x := ⟨rfl, rfl, id⟩

lemma Vcpu.Like.trans {x y z : Vcpu} (h : x.Like y) (h' : y.Like z) : x.Like z :=
  ⟨h'.1.trans h.1, h'.2.1.trans h.2.1, fun ht => h.2.2 (h'.2.2 ht)⟩

/-- The vCPU is freed, if it is terminated, or goes on; a free slot stays free. -/
def Follows (v : ℕ) (s s' : State) : Prop :=
  match s.vcpus v with
  | none => s'.vcpus v = none
  | some x => (x.state = .terminated ∧ s'.vcpus v = none) ∨ ∃ x', s'.vcpus v = some x' ∧ x.Like x'

lemma follows_of_eq (h : s'.vcpus v = s.vcpus v) : Follows v s s' := by
  unfold Follows
  cases hx : s.vcpus v with
  | none => exact h.trans hx
  | some x => exact .inr ⟨x, h.trans hx, .refl x⟩

lemma Follows.trans {m : State} (h : Follows v s m) (h' : Follows v m s') : Follows v s s' := by
  unfold Follows at h h' ⊢
  cases hx : s.vcpus v with
  | none =>
    rw [hx] at h
    rw [h] at h'
    exact h'
  | some x =>
    rw [hx] at h
    rcases h with ⟨hterm, hfree⟩ | ⟨y, hy, hlike⟩
    · rw [hfree] at h'
      exact .inl ⟨hterm, h'⟩
    · rw [hy] at h'
      rcases h' with ⟨hterm, hfree⟩ | ⟨z, hz, hlike'⟩
      · exact .inl ⟨hlike.2.2 hterm, hfree⟩
      · exact .inr ⟨z, hz, hlike.trans hlike'⟩

/-- A vCPU that is there is changed. -/
lemma follows_setVcpu {w : ℕ} {x x' : Vcpu} (hx : s.vcpus w = some x) (h : x.Like x') : Follows v s (s.setVcpu w (some x')) := by
  by_cases hv : v = w
  · subst hv
    unfold Follows
    rw [hx]
    exact .inr ⟨x', by simp, h⟩
  · exact follows_of_eq (by simp [hv])

lemma follows_modifyVcpu (w : ℕ) (f : Vcpu → Vcpu) (h : ∀ x, s.vcpus w = some x → x.Like (f x)) :
    Follows v s (s.modifyVcpu w f) := by
  unfold State.modifyVcpu
  cases hx : s.vcpus w with
  | none =>
    refine follows_of_eq ?_
    by_cases hv : v = w
    · simp [hv, hx]
    · simp [hv]
  | some x => exact follows_setVcpu hx (h x hx)

/-! ### The pass of the scheduler -/

/-- The clean-up frees terminated vCPUs only. -/
lemma follows_cleanSlots : ∀ (slots : List (Option ℕ)) (s : State), Follows v s (cleanSlots s slots).1
  | [], s => follows_of_eq rfl
  | none :: slots, s => follows_cleanSlots slots s
  | some w :: slots, s => by
    unfold cleanSlots
    split
    · rename_i hterm
      refine Follows.trans (m := s.free w) ?_ (follows_cleanSlots slots (s.free w))
      by_cases hv : v = w
      · subst hv
        obtain ⟨x, hx, hstate⟩ := (Option.any_eq_true ..).mp hterm
        unfold Follows
        rw [hx]
        exact .inl ⟨of_decide_eq_true hstate, by rw [free_vcpus, Function.update_self]⟩
      · exact follows_of_eq (by rw [free_vcpus, Function.update_of_ne hv])
    · exact follows_cleanSlots slots s

lemma follows_cleanGang (s : State) (i : ℕ) : Follows v s (cleanGang s i) := by
  unfold cleanGang
  cases s.gangs i with
  | none => exact follows_of_eq rfl
  | some g =>
    have h : Follows v s (cleanSlots s g.vcpuIds).1 := follows_cleanSlots g.vcpuIds s
    dsimp only
    split
    · exact h.trans (follows_of_eq rfl)
    · exact h.trans (follows_of_eq rfl)

lemma follows_cleanup : Follows v s (cleanup s) := by
  have hfold : ∀ (l : List ℕ) (s : State), Follows v s (l.foldl cleanGang s) := by
    intro l
    induction l with
    | nil => exact fun s => follows_of_eq rfl
    | cons i l ih => exact fun s => (follows_cleanGang s i).trans (ih _)
  exact hfold _ s

lemma follows_saveCurrent : Follows v s (saveCurrent s c frame frameAddr) := by
  unfold saveCurrent
  dsimp only
  split
  · exact follows_of_eq rfl
  · cases hx : s.vcpus (s.cpus c).currentVcpu with
    | none => exact follows_of_eq rfl
    | some x =>
      dsimp only
      split
      · exact follows_setVcpu hx ⟨rfl, rfl, id⟩
      · split
        · exact Follows.trans (m := s.modifyGang x.gangId Gang.charge) (follows_of_eq rfl) (follows_setVcpu hx ⟨rfl, rfl, nofun⟩)
        · exact follows_setVcpu hx ⟨rfl, rfl, id⟩

lemma follows_loadNext : Follows v s (loadNext s c w frame fpuOut).state := by
  cases hx : s.vcpus w with
  | none =>
    unfold loadNext
    rw [hx]
    exact follows_of_eq rfl
  | some x =>
    obtain ⟨u, -, heq⟩ := loadNext_state s c frame fpuOut hx
    rw [heq]
    exact Follows.trans (m := s.setVcpu w (some { x with state := .running, frameMagic := 0 }))
      (follows_setVcpu hx ⟨rfl, rfl, nofun⟩) (follows_of_eq rfl)

lemma follows_chooseNext : Follows v s (chooseNext s c frame fpuOut).state := by
  rcases chooseNext_cases s c frame fpuOut with ⟨heq, -⟩ | ⟨i, g, w, -, -, -, heq⟩
  · rw [heq]
    exact follows_of_eq rfl
  · rw [heq]
    refine Follows.trans (follows_of_eq ?_) follows_loadNext
    rw [pushExtra_vcpus]
    rfl

lemma follows_schedule : Follows v s (resume c (scheduleInner s c frame frameAddr fpuOut)) := by
  refine Follows.trans (m := (scheduleInner s c frame frameAddr fpuOut).state) ?_ (follows_of_eq rfl)
  unfold scheduleInner
  split
  · exact follows_of_eq rfl
  · exact follows_cleanup.trans (follows_saveCurrent.trans follows_chooseNext)

lemma follows_suspend : Follows v s (suspend s c) := follows_of_eq (by rw [suspend_vcpus])

lemma follows_halt : Follows v s (halt s w) := by
  unfold halt
  cases hx : s.vcpus w with
  | none => exact follows_of_eq rfl
  | some x =>
    have hset : Follows v s (s.setVcpu w (some { x with state := .halted })) := follows_setVcpu hx ⟨rfl, rfl, nofun⟩
    dsimp only
    split
    · exact hset.trans (follows_of_eq rfl)
    · exact hset

lemma follows_wake (s : State) (w : ℕ) : Follows v s (wake s w) := by
  unfold wake
  cases hx : s.vcpus w with
  | none => exact follows_of_eq rfl
  | some x =>
    dsimp only
    split
    · exact Follows.trans (m := s.setVcpu w (some { x with state := .ready, vruntime := 0 }))
        (follows_setVcpu hx ⟨rfl, rfl, nofun⟩) (follows_of_eq rfl)
    · exact follows_of_eq rfl

lemma follows_recover (s : State) (c : ℕ) : Follows v s (recover s c) := by
  rcases recover_cases s c with ⟨w, x, -, hx, -, heq⟩ | ⟨-, heq⟩
  · rw [heq]
    exact Follows.trans (m := s.setVcpu w (some { x with state := .running, frameMagic := 0 }))
      (follows_setVcpu hx ⟨rfl, rfl, nofun⟩) (follows_of_eq rfl)
  · rw [heq]
    exact follows_of_eq rfl

/-! ### Making vCPUs -/

/-- A vCPU that is there is not made. -/
lemma alloc_of_some {gangId w : ℕ} {pml4 : Word} {t : VcpuType} (h : s.alloc gangId pml4 t = some (w, s'))
    (hv : s.vcpus v ≠ none) : v ≠ w ∧ s'.vcpus v = s.vcpus v := by
  obtain ⟨hnone, -, x, hx⟩ := alloc_eq_some h
  have hne : v ≠ w := by
    rintro rfl
    exact hv hnone
  exact ⟨hne, by rw [hx, Function.update_of_ne hne]⟩

lemma reserveZero_vcpus (s : State) : (reserveZero s).vcpus = s.vcpus := (reserveZero_eq s).1

lemma createGang_of_some (nVcpus : ℕ) (entry arg : Word) (stackPages : List (Option Word)) (hv : s.vcpus v ≠ none) :
    (createGang s nVcpus entry arg stackPages).vcpus v = s.vcpus v := by
  unfold createGang
  dsimp only
  split
  · rw [reserveZero_vcpus]
  · rw [← reserveZero_vcpus s] at hv ⊢
    generalize reserveZero s = s0 at hv ⊢
    have hmade := (makeVcpus_spec s0.count entry arg (min nVcpus maxVcpusPerGang) stackPages s0 []).2
    cases hr : makeVcpus s0.count entry arg (min nVcpus maxVcpusPerGang) stackPages s0 [] with
    | mk s1 r =>
      rw [hr] at hmade
      rcases hmade with ⟨rfl, hold⟩ | ⟨new, hsome, -, -, hnew, hold⟩
      · simpa using hold v
      · obtain rfl : r = some ([] ++ new) := hsome
        refine (congrFun (pushAll_vcpus _ _ _) v).trans (hold v fun hmem => ?_)
        exact hv (hnew v hmem).1

/-- Another vCPU's stack is its own affair. -/
lemma registerDriverVcpu_of_ne {w : ℕ} (hv : v ≠ w) (s : State) (stack : Option Word) :
    (registerDriverVcpu s w stack).1.vcpus v = s.vcpus v := by
  unfold registerDriverVcpu
  cases stack with
  | none => rfl
  | some pages =>
    dsimp only
    split
    · rw [reserveZero_vcpus]
    · simp [hv, reserveZero_vcpus]

lemma startService_of_some (hardware : Bool) (pml4 entry stackTop : Word) (stack : Option Word) (hv : s.vcpus v ≠ none) :
    (startService s hardware pml4 entry stackTop stack).vcpus v = s.vcpus v := by
  unfold startService
  cases ha : s.alloc 0 pml4 (driverType hardware) with
  | none => rfl
  | some p =>
    obtain ⟨w, s1⟩ := p
    obtain ⟨hne, halloc⟩ := alloc_of_some ha hv
    dsimp only
    have hreg := registerDriverVcpu_of_ne hne { s1.modifyVcpu w (·.enter entry stackTop) with
      services := Function.update (s1.modifyVcpu w (·.enter entry stackTop)).services w (some pml4) } stack
    have hstart : (s1.modifyVcpu w (·.enter entry stackTop)).vcpus v = s.vcpus v := by simp [hne, halloc]
    split
    · rename_i heq
      rw [heq] at hreg
      exact hreg.trans hstart
    · rename_i heq
      rw [heq] at hreg
      exact hreg.trans hstart

/-! ### Steps -/

/-- The event is the crash of the vCPU, which runs a service. -/
def Fells (s : State) (v : ℕ) : Event → Prop
  | .crash c _ => (s.cpus c).currentVcpu = v ∧ (s.services v).isSome = true
  | _ => False

/-- The event gives the vCPU a stack. -/
def Registers (v : ℕ) : Event → Prop
  | .register w _ => w = v
  | _ => False

/-- Only its crash ends a vCPU, and only `register_driver_vcpu` changes its stack. -/
lemma step_follows {e : Event} (h : step s e = some s') (hv : s.vcpus v ≠ none) (hf : ¬ Fells s v e) (hr : ¬ Registers v e) :
    Follows v s s' := by
  cases stepped h with
  | user c frame fpu =>
    exact follows_of_eq rfl
  | tick c frameAddr =>
    exact follows_suspend.trans follows_schedule
  | block c frameAddr =>
    unfold blockCurrent
    split
    · exact follows_of_eq rfl
    · exact follows_halt.trans (follows_suspend.trans follows_schedule)
  | wake w =>
    exact follows_wake s w
  | reply w result =>
    exact Follows.trans (follows_modifyVcpu w (fun x => { x with savedFrame := { x.savedFrame with rax := result } })
      fun x _ => ⟨rfl, rfl, id⟩) (follows_of_eq rfl)
  | createGang nVcpus entry arg stackPages =>
    exact follows_of_eq (createGang_of_some nVcpus entry arg stackPages hv)
  | register w stack =>
    exact follows_of_eq (registerDriverVcpu_of_ne (Ne.symm hr) s stack)
  | startService hardware pml4 entry stackTop stack =>
    exact follows_of_eq (startService_of_some hardware pml4 entry stackTop stack hv)
  | crash c freed =>
    refine Follows.trans (m := handleCrash s (s.cpus c).currentVcpu freed) (follows_of_eq ?_) (follows_of_eq rfl)
    by_cases hsvc : (s.services (s.cpus c).currentVcpu).isSome = true
    · have hne : v ≠ (s.cpus c).currentVcpu := fun he => hf ⟨he.symm, he ▸ hsvc⟩
      exact (handleCrash_frame freed hsvc).2.2.1 v hne
    · rw [Option.not_isSome_iff_eq_none] at hsvc
      unfold handleCrash
      rw [hsvc]
  | recover c =>
    exact follows_recover s c

/-! ### Lives -/

/-- The vCPU is there, not terminated, and of the type. -/
def Alive (s : State) (v : ℕ) (t : VcpuType) : Prop := ∃ x, s.vcpus v = some x ∧ x.state ≠ .terminated ∧ x.vcpuType = t

/-- The vCPU is alive in the second state if it is in the first. -/
def Survives (v : ℕ) (s s' : State) : Prop := ∀ t, Alive s v t → Alive s' v t

lemma Follows.survives (h : Follows v s s') : Survives v s s' := by
  rintro t ⟨x, hx, hs, ht⟩
  unfold Follows at h
  rw [hx] at h
  rcases h with ⟨hterm, -⟩ | ⟨x', hx', htype, -, hterm⟩
  · exact absurd hterm hs
  · exact ⟨x', hx', mt hterm hs, htype.trans ht⟩

lemma survives_registerDriverVcpu (s : State) (w : ℕ) (stack : Option Word) :
    Survives v s (registerDriverVcpu s w stack).1 := by
  rintro t ⟨x, hx, hs, ht⟩
  by_cases hv : v = w
  · subst hv
    unfold registerDriverVcpu
    cases stack with
    | none => exact ⟨x, hx, hs, ht⟩
    | some pages =>
      dsimp only
      split
      · exact ⟨x, by rw [reserveZero_vcpus, hx], hs, ht⟩
      · refine ⟨{ x with kernelStackTop := stackTop pages, gangId := (reserveZero s).count }, ?_, hs, ht⟩
        simp [reserveZero_vcpus, hx]
  · exact ⟨x, (registerDriverVcpu_of_ne hv s stack).trans hx, hs, ht⟩

/-- Only its crash ends a vCPU. -/
lemma step_survives {e : Event} (h : step s e = some s') (hf : ¬ Fells s v e) : Survives v s s' := by
  intro t ht
  have hv : s.vcpus v ≠ none := by
    obtain ⟨x, hx, -⟩ := ht
    rw [hx]
    exact nofun
  by_cases hr : Registers v e
  · cases e with
    | register w stack =>
      rw [← Option.some.inj h]
      exact survives_registerDriverVcpu s w stack t ht
    | _ => exact hr.elim
  · exact (step_follows h hv hf hr).survives t ht

end LodaxOS.Sched
