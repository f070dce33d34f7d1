/-
# Which vCPU is chosen

`schedule` finds a vCPU by the gangs' counters and checks it after it was
taken. It installs a ready vCPU of least vruntime, of an active gang of least
vruntime, exactly if that is the vCPU that the counters lead to, and it passes
the checks. vCPUs made by `create_gang` do not: they have no canary.
-/
import LodaxOS.Sched.Books

namespace LodaxOS.Sched

open Arch (TrapFrame VcpuType)
open Asm (Word)
open Tlb (maxCpus)
open Select Function Option
open Traces (Run)

section

variable (back : Bool) (s : State) (c : ℕ)

def IsReady (v : ℕ) : Prop := ∃ x, s.vcpus v = some x ∧ x.state = .ready

/-- An active gang with a ready vCPU. -/
def HasReady (i : ℕ) (g : Gang) : Prop :=
  s.gangs i = some g ∧ g.state = .active ∧ ∃ v ∈ g.members, IsReady s v

/-- The page tables of a vCPU may be loaded on a CPU. -/
def PmlOk (x : Vcpu) : Prop := x.pml4 < maxPml4Phys ∨ x.pml4 = (s.cpus c).cr3

/-- The vCPU passes the checks before it is installed. -/
def Loadable (x : Vcpu) : Prop :=
  x.frameMagic = frameMagic ∧ frameOk x.savedFrame = true ∧ PmlOk s c x ∧ x.vruntime < u64Max

/-- The current vCPU, if the CPU gives it back (a tick does, a block does not). -/
def Own (v : ℕ) : Prop := back = true ∧ Busy s c ∧ v = (s.cpus c).currentVcpu

/-- A vCPU of the gang can be chosen. -/
def Willing (i : ℕ) (g : Gang) : Prop :=
  s.gangs i = some g ∧ g.state = .active ∧ ∃ v ∈ g.members, IsReady s v ∨ Own back s c v

/-- A gang's vruntime when the choice is made: the gang of a vCPU that is given
back is charged for the tick. -/
def due (i : ℕ) (g : Gang) : ℕ :=
  if back = true ∧ currentGang s c = some i then g.charge.vruntime else g.vruntime

/-- Before a CPU chooses: the counters of an active gang show that it has a
vCPU that can be chosen, if it has one; a gang without one is behind one with
one; and ready vCPUs may be loaded. -/
structure Sound : Prop where
  noTerminated : NoTerminated s
  shown : ∀ i g, Willing back s c i g → 0 < demand s c i g
  behind : ∀ i g, s.gangs i = some g → g.state = .active → 0 < demand s c i g → ¬ Willing back s c i g →
    ∀ j g', Willing back s c j g' → ∃ k gk, Willing back s c k gk ∧ due back s c k gk < g.vruntime
  loadable : ∀ i g, s.gangs i = some g → g.state = .active → ∀ v ∈ g.members, ∀ x, s.vcpus v = some x → x.state = .ready →
    Loadable s c x
  vruntime : ∀ i g, s.gangs i = some g → g.state = .active → g.vruntime + vruntimeTick * 100 < u64Max

/-- The current vCPU, if not the idle one, runs and is a member of its gang. -/
def Seated : Prop :=
  Busy s c → ∃ x g, s.vcpus (s.cpus c).currentVcpu = some x ∧ x.state = .running ∧ s.gangs x.gangId = some g ∧
    (s.cpus c).currentVcpu ∈ g.members

/-- The current vCPU can be chosen again once it is saved. -/
def Returns (frame : TrapFrame) (frameAddr : Word) : Prop :=
  Busy s c → ∀ x, s.vcpus (s.cpus c).currentVcpu = some x →
    frameOk (frameToSave frame frameAddr) = true ∧ PmlOk s c x ∧ x.vruntime + vruntimeTick < u64Max

/-! ### The choice -/

/-- When the next vCPU is chosen. -/
structure Fair : Prop where
  range : ∀ i g, s.gangs i = some g → 0 < i ∧ i < s.count
  shown : ∀ i g, HasReady s i g → g.runningCount < g.vcpuCount
  behind : ∀ i g, s.gangs i = some g → g.state = .active → g.runningCount < g.vcpuCount → ¬ HasReady s i g →
    ∀ j g', HasReady s j g' → ∃ k gk, HasReady s k gk ∧ gk.vruntime < g.vruntime
  loadable : ∀ i g, s.gangs i = some g → g.state = .active → ∀ v ∈ g.members, ∀ x, s.vcpus v = some x → x.state = .ready →
    Loadable s c x
  vruntime : ∀ i g, s.gangs i = some g → g.state = .active → g.vruntime < u64Max

end

variable {s s' : State} {c i v : ℕ} {g : Gang} {x : Vcpu} {frame : TrapFrame} {frameAddr : Word} {fpuOut : FpuState}

lemma pushExtra_vcpus (c i : ℕ) (g : Gang) : ∀ (n : ℕ) (s : State), (pushExtra c i g n s).vcpus = s.vcpus
  | 0, _ => rfl
  | n + 1, s => by
    unfold pushExtra
    split
    · rw [pushExtra_vcpus c i g n]
      rfl
    · exact pushExtra_vcpus c i g n s

lemma pushExtra_suspended (c i : ℕ) (g : Gang) : ∀ (n : ℕ) (s : State), (pushExtra c i g n s).suspended = s.suspended
  | 0, _ => rfl
  | n + 1, s => by
    unfold pushExtra
    split
    · rw [pushExtra_suspended c i g n]
      rfl
    · exact pushExtra_suspended c i g n s

/-- Extra vCPUs change nothing of a CPU but its queue. -/
lemma pushExtra_cpu (c i : ℕ) (g : Gang) (d : ℕ) : ∀ (n : ℕ) (s : State), ∃ q, (pushExtra c i g n s).cpus d =
    { s.cpus d with readyQueue := q }
  | 0, s => ⟨(s.cpus d).readyQueue, rfl⟩
  | n + 1, s => by
    unfold pushExtra
    split
    · rename_i v _
      obtain ⟨q, hq⟩ := pushExtra_cpu c i g d n ((addRunning s i).push c v)
      refine ⟨q, ?_⟩
      rw [hq]
      by_cases hd : d = c
      · subst hd
        simp only [State.push, modifyCpu_cpus, update_self]
        split
        · rfl
        · rfl
      · simp only [State.push, modifyCpu_cpus, update_of_ne hd]
        rfl
    · exact pushExtra_cpu c i g d n s

/-- A vCPU with its frame is installed. -/
def installed (s : State) (c v : ℕ) (x : Vcpu) : Outcome where
  state := (s.setVcpu v (some { x with state := .running, frameMagic := 0 })).setCurrent c v
  switched := true
  pml4 := if x.pml4 ≠ (s.cpus c).cr3 ∧ x.pml4 ≠ 0 then x.pml4 else 0
  frame := if x.vcpuType ≠ .idle then fixSs x.savedFrame else x.savedFrame
  fpuOut := x.fpuState
  loaded := some v

/-- The checks of step 6: canary and frame, unless it is an idle vCPU, and PML4. -/
def accepts (s : State) (c : ℕ) (x : Vcpu) : Bool :=
  (x.vcpuType = .idle || x.frameMagic = frameMagic && frameOk x.savedFrame) &&
    (x.pml4 = (s.cpus c).cr3 || x.pml4 = 0 || x.pml4 < maxPml4Phys)

lemma accepts_iff : accepts s c x = true ↔
    ¬ (x.vcpuType ≠ .idle ∧ (x.frameMagic ≠ frameMagic ∨ frameOk x.savedFrame = false)) ∧
    ¬ ((x.pml4 ≠ (s.cpus c).cr3 ∧ x.pml4 ≠ 0) ∧ x.pml4 ≥ maxPml4Phys) := by
  simp only [accepts, Bool.and_eq_true, Bool.or_eq_true, decide_eq_true_eq, ge_iff_le, ← BitVec.not_lt, not_and_or,
    not_not, not_or, ne_eq, Bool.not_eq_false]

lemma loadNext_accepted (hx : s.vcpus v = some x) (h : accepts s c x = true) (frame : TrapFrame) (fpuOut : FpuState) :
    loadNext s c v frame fpuOut = installed s c v x := by
  obtain ⟨hveto, hpml⟩ := accepts_iff.mp h
  unfold loadNext
  simp only [hx, setVcpu_cpus]
  rw [if_neg hveto]
  exact if_neg hpml

lemma loadNext_rejected (hx : s.vcpus v = some x) (h : accepts s c x = false) (frame : TrapFrame) (fpuOut : FpuState) :
    (loadNext s c v frame fpuOut).switched = false := by
  unfold loadNext
  simp only [hx, setVcpu_cpus]
  by_cases hveto : x.vcpuType ≠ .idle ∧ (x.frameMagic ≠ frameMagic ∨ frameOk x.savedFrame = false)
  · rw [if_pos hveto]
  · have hpml : (x.pml4 ≠ (s.cpus c).cr3 ∧ x.pml4 ≠ 0) ∧ x.pml4 ≥ maxPml4Phys := by
      by_contra hpml
      rw [accepts_iff.mpr ⟨hveto, hpml⟩] at h
      cases h
    rw [if_neg hveto]
    exact congrArg Outcome.switched (if_pos hpml)

lemma Loadable.accepts (h : Loadable s c x) : accepts s c x = true := by
  obtain ⟨hm, hf, hp, -⟩ := h
  rcases hp with hlt | heq
  · simp [Sched.accepts, hm, hf, hlt]
  · simp [Sched.accepts, hm, hf, heq]

/-- A vCPU that may be loaded is. -/
lemma loadNext_ok (hx : s.vcpus v = some x) (hl : Loadable s c x) (frame : TrapFrame) (fpuOut : FpuState) :
    loadNext s c v frame fpuOut = installed s c v x :=
  loadNext_accepted hx hl.accepts frame fpuOut

/-- The vCPU that steps 2 to 4 find: by the counters a gang, in it a ready one. -/
def chosen (s : State) : Option ℕ := (findBestGang s).bind fun i => (s.gangs i).bind (pickVcpu s)

lemma chooseNext_of_none (h : chosen s = none) (c : ℕ) (frame : TrapFrame) (fpuOut : FpuState) :
    chooseNext s c frame fpuOut = ⟨toIdle s c, false, 0, frame, fpuOut, none⟩ := by
  rcases chooseNext_cases s c frame fpuOut with ⟨heq, -⟩ | ⟨i, g, v, hi, hg, hv, -⟩
  · exact heq
  · rw [chosen, hi, bind_some, hg, bind_some, hv] at h
    cases h

/-- What was found is loaded, from a state with the same vCPUs and CR3. -/
lemma chooseNext_of_some (h : chosen s = some v) (c : ℕ) (frame : TrapFrame) (fpuOut : FpuState) :
    ∃ x s1, s.vcpus v = some x ∧ s1.vcpus = s.vcpus ∧ accepts s1 c = accepts s c ∧
      chooseNext s c frame fpuOut = loadNext s1 c v frame fpuOut := by
  rcases chooseNext_cases s c frame fpuOut with ⟨-, hnone⟩ | ⟨i, g, w, hi, hg, hw, heq⟩
  · rcases hnone with hi | ⟨i, g, hi, hg, hp⟩
    · rw [chosen, hi] at h
      cases h
    · rw [chosen, hi, bind_some, hg, bind_some, hp] at h
      cases h
  · rw [chosen, hi, bind_some, hg, bind_some, hw] at h
    obtain rfl := Option.some.inj h
    obtain ⟨-, x, hx, -⟩ := pickVcpu_eq_some hw
    obtain ⟨q, hq⟩ := pushExtra_cpu c i g c _ (addRunning s i)
    refine ⟨x, _, hx, pushExtra_vcpus c i g _ (addRunning s i), ?_, heq⟩
    funext y
    unfold accepts
    rw [hq]
    rfl

lemma Fair.findBestGang (h : Fair s c) (hr : HasReady s i g) : ∃ j, findBestGang s = some j := by
  have hlt := h.shown i g hr
  obtain ⟨hg, ha, -⟩ := hr
  exact select_isSome (mem_gangRange.mpr (h.range i g hg)) (gangKey_eq_some.mpr ⟨g, hg, ha, hlt, rfl⟩) (h.vruntime i g hg ha)

lemma Fair.pickVcpu (h : Fair s c) (hr : HasReady s i g) : ∃ v, pickVcpu s g = some v := by
  obtain ⟨hg, ha, v, hv, x, hx, hready⟩ := hr
  exact select_isSome hv (vcpuKey_eq_some.mpr ⟨x, hx, hready, rfl⟩) (h.loadable i g hg ha v hv x hx hready).2.2.2

/-- The chosen vCPU and what choosing it leaves. -/
lemma Fair.chooses (h : Fair s c) (hr : ∃ i g, HasReady s i g) (frame : TrapFrame) (fpuOut : FpuState) :
    ∃ i g v x s1, HasReady s i g ∧ v ∈ g.members ∧ s.vcpus v = some x ∧ x.state = .ready ∧
      (∀ j g', HasReady s j g' → g.vruntime ≤ g'.vruntime) ∧
      (∀ w ∈ g.members, ∀ y, s.vcpus w = some y → y.state = .ready → x.vruntime ≤ y.vruntime) ∧
      s1.vcpus = s.vcpus ∧ s1.suspended = s.suspended ∧ (∀ d, ∃ q, s1.cpus d = { s.cpus d with readyQueue := q }) ∧
      Loadable s1 c x ∧ chooseNext s c frame fpuOut = loadNext s1 c v frame fpuOut := by
  obtain ⟨i0, g0, hr⟩ := hr
  obtain ⟨i, hi⟩ := h.findBestGang hr
  obtain ⟨-, -, g, hg, ha, hlt, hmin⟩ := findBestGang_eq_some hi
  have hmin' : ∀ j g', HasReady s j g' → g.vruntime ≤ g'.vruntime := by
    intro j g' hr'
    obtain ⟨hj0, hj⟩ := h.range j g' hr'.1
    exact hmin j g' hj0 hj hr'.1 hr'.2.1 (h.shown j g' hr')
  have hready : HasReady s i g := by
    by_contra hno
    obtain ⟨k, gk, hk, hltk⟩ := h.behind i g hg ha hlt hno i0 g0 hr
    exact absurd hltk (not_lt.mpr (hmin' k gk hk))
  obtain ⟨v, hv⟩ := h.pickVcpu hready
  obtain ⟨hmem, x, hx, hxr, hvmin⟩ := pickVcpu_eq_some hv
  obtain ⟨-, hnone | ⟨j, g', hj, hg', hp⟩⟩ | ⟨j, g', w, hj, hg', hp, heq⟩ := chooseNext_cases s c frame fpuOut
  · simp [hi] at hnone
  · obtain rfl := mem_unique hi hj
    obtain rfl := mem_unique hg hg'
    simp [hv] at hp
  · obtain rfl := mem_unique hi hj
    obtain rfl := mem_unique hg hg'
    obtain rfl := mem_unique hv hp
    obtain ⟨q, hq⟩ := pushExtra_cpu c i g c _ (addRunning s i)
    refine ⟨i, g, v, x, _, hready, hmem, hx, hxr, hmin', hvmin, pushExtra_vcpus c i g _ (addRunning s i),
      pushExtra_suspended c i g _ (addRunning s i), fun d => pushExtra_cpu c i g d _ (addRunning s i), ?_, heq⟩
    obtain ⟨hm, hf, hp, hvr⟩ := h.loadable i g hg ha v hmem x hx hxr
    refine ⟨hm, hf, ?_, hvr⟩
    rw [PmlOk, hq]
    exact hp

/-- Without a ready vCPU the CPU stays where it is. -/
lemma chooseNext_idle (hno : ¬ ∃ i g, HasReady s i g) (c : ℕ) (frame : TrapFrame) (fpuOut : FpuState) :
    chooseNext s c frame fpuOut = ⟨toIdle s c, false, 0, frame, fpuOut, none⟩ := by
  obtain ⟨heq, -⟩ | ⟨i, g, v, hi, hg, hp, -⟩ := chooseNext_cases s c frame fpuOut
  · exact heq
  · obtain ⟨-, -, g', hg', ha, hlt, -⟩ := findBestGang_eq_some hi
    obtain rfl := mem_unique hg hg'
    obtain ⟨hv, x, hx, hxr, -⟩ := pickVcpu_eq_some hp
    exact absurd ⟨i, g, hg, ha, v, hv, x, hx, hxr⟩ hno

/-! ### Live gangs in every run -/

/-- Live gangs have numbers above 0 that have been given out. -/
def Ranged (s : State) : Prop := s.count ≤ maxGangs ∧ ∀ i g, s.gangs i = some g → 0 < i ∧ i < s.count

lemma Ranged.bounds {i : ℕ} (hr : Ranged s) (hg : s.gangs i = some g) : 0 < i ∧ i < maxGangs :=
  (hr.2 i g hg).imp_right fun h => h.trans_le hr.1

/-- No gang is new. -/
def NoNewGang (s s' : State) : Prop := s'.count = s.count ∧ ∀ i, s.gangs i = none → s'.gangs i = none

lemma NoNewGang.of_eq (hg : s'.gangs = s.gangs) (hc : s'.count = s.count) : NoNewGang s s' :=
  ⟨hc, fun i hi => by rw [hg, hi]⟩

lemma NoNewGang.trans {s1 s2 s3 : State} (h : NoNewGang s1 s2) (h' : NoNewGang s2 s3) : NoNewGang s1 s3 :=
  ⟨h'.1.trans h.1, fun i hi => h'.2 i (h.2 i hi)⟩

lemma Ranged.of_noNewGang (h : Ranged s) (hs : NoNewGang s s') : Ranged s' := by
  refine ⟨hs.1 ▸ h.1, fun i g hg => ?_⟩
  rw [hs.1]
  cases hi : s.gangs i with
  | none => simp [hs.2 i hi] at hg
  | some g' => exact h.2 i g' hi

/-- The same slots of the gang table are taken. -/
def SameSlots (s s' : State) : Prop := s'.count = s.count ∧ ∀ i, (s'.gangs i).isSome = (s.gangs i).isSome

lemma SameSlots.of_eq (hg : s'.gangs = s.gangs) (hc : s'.count = s.count) : SameSlots s s' :=
  ⟨hc, fun i => by rw [hg]⟩

lemma SameSlots.trans {s1 s2 s3 : State} (h : SameSlots s1 s2) (h' : SameSlots s2 s3) : SameSlots s1 s3 :=
  ⟨h'.1.trans h.1, fun i => (h'.2 i).trans (h.2 i)⟩

lemma SameSlots.noNewGang (h : SameSlots s s') : NoNewGang s s' := by
  refine ⟨h.1, fun i hi => ?_⟩
  have hsome := h.2 i
  rw [hi] at hsome
  simpa using hsome

lemma sameSlots_modifyGang (s : State) (i : ℕ) (f : Gang → Gang) : SameSlots s (s.modifyGang i f) := by
  refine ⟨rfl, fun j => ?_⟩
  by_cases hji : j = i
  · subst hji
    simp
  · simp [hji]

lemma cleanSlots_only : ∀ (slots : List (Option ℕ)) (s : State), OnlyVcpus s (cleanSlots s slots).1
  | [], _ => rfl
  | none :: slots, s => cleanSlots_only slots s
  | some v :: slots, s => by
    unfold cleanSlots
    split
    · exact (free_only s v).trans (cleanSlots_only slots (s.free v))
    · exact cleanSlots_only slots s

lemma noNewGang_cleanGang (s : State) (i : ℕ) : NoNewGang s (cleanGang s i) := by
  unfold cleanGang
  cases hg : s.gangs i with
  | none => exact .of_eq rfl rfl
  | some g =>
    obtain ⟨hgangs, hcount, -⟩ := (cleanSlots_only g.vcpuIds s).frame
    have hset : ∀ o, NoNewGang s ((cleanSlots s g.vcpuIds).1.setGang i o) := by
      intro o
      refine ⟨hcount, fun j hj => ?_⟩
      have hne : j ≠ i := fun h => by simp [h, hg] at hj
      rw [setGang_gangs, update_of_ne hne, hgangs, hj]
    dsimp only
    split
    · exact hset _
    · exact hset _

lemma noNewGang_cleanup (s : State) : NoNewGang s (cleanup s) := by
  have hall : ∀ (l : List ℕ) (s : State), NoNewGang s (l.foldl cleanGang s) := by
    intro l
    induction l with
    | nil => exact fun s => .of_eq rfl rfl
    | cons i l ih => exact fun s => (noNewGang_cleanGang s i).trans (ih _)
  exact hall _ s

lemma sameSlots_save : SameSlots s (saveCurrent s c frame frameAddr) := by
  unfold saveCurrent
  dsimp only
  split
  · exact .of_eq rfl rfl
  · split
    · exact .of_eq rfl rfl
    · split
      · exact .of_eq rfl rfl
      · split
        · exact (sameSlots_modifyGang s _ _).trans (.of_eq rfl rfl)
        · exact .of_eq rfl rfl

lemma sameSlots_halt : SameSlots s (halt s v) := by
  unfold halt
  split
  · exact .of_eq rfl rfl
  · dsimp only
    split
    · exact SameSlots.trans (.of_eq rfl rfl) (sameSlots_modifyGang _ _ _)
    · exact .of_eq rfl rfl

lemma sameSlots_pushExtra (c i : ℕ) (g : Gang) : ∀ (n : ℕ) (s : State), SameSlots s (pushExtra c i g n s)
  | 0, _ => .of_eq rfl rfl
  | n + 1, s => by
    unfold pushExtra
    split
    · exact ((sameSlots_modifyGang s i _).trans (.of_eq rfl rfl)).trans (sameSlots_pushExtra c i g n _)
    · exact sameSlots_pushExtra c i g n s

lemma sameSlots_loadNext : SameSlots s (loadNext s c v frame fpuOut).state := by
  cases hx : s.vcpus v with
  | none =>
    simp only [loadNext, hx]
    exact .of_eq rfl rfl
  | some =>
    obtain ⟨w, -, hw⟩ := loadNext_state s c frame fpuOut hx
    rw [hw]
    exact .of_eq rfl rfl

lemma sameSlots_choose : SameSlots s (chooseNext s c frame fpuOut).state := by
  obtain ⟨heq, -⟩ | ⟨i, g, v, -, -, -, heq⟩ := chooseNext_cases s c frame fpuOut
  · rw [heq]
    exact .of_eq rfl rfl
  · rw [heq]
    exact ((sameSlots_modifyGang _ i _).trans (sameSlots_pushExtra c i g _ _)).trans sameSlots_loadNext

/-- Only the clean-up takes gangs out. -/
lemma sameSlots_schedule :
    SameSlots (if s.count < 1 then s else cleanup s) (scheduleInner s c frame frameAddr fpuOut).state := by
  unfold scheduleInner
  split
  · exact .of_eq rfl rfl
  · exact sameSlots_save.trans sameSlots_choose

lemma noNewGang_schedule : NoNewGang s (scheduleInner s c frame frameAddr fpuOut).state := by
  refine NoNewGang.trans ?_ sameSlots_schedule.noNewGang
  split
  · exact .of_eq rfl rfl
  · exact noNewGang_cleanup s

lemma sameSlots_suspend : SameSlots s (suspend s c) := .of_eq (suspend_gangs s c) (suspend_count s c)

lemma noNewGang_handleCrash (s : State) (v : ℕ) (freed : Bool) : NoNewGang s (handleCrash s v freed) := by
  unfold handleCrash
  split
  · exact .of_eq rfl rfl
  · refine ⟨rfl, fun i hi => ?_⟩
    dsimp only
    split
    · rw [modifyVcpu_gangs, hi, bind_none]
    · exact hi

lemma sameSlots_recover (s : State) (c : ℕ) : SameSlots s (recover s c) := by
  rcases recover_cases s c with ⟨_, _, -, -, -, heq⟩ | ⟨-, heq⟩ <;> rw [heq] <;> exact .of_eq rfl rfl

/-- A gang gets the next number. -/
structure AddsGang (s s' : State) : Prop where
  pos : 0 < s.count
  lt : s.count < maxGangs
  count : s'.count = s.count + 1
  gangs : ∃ g, s'.gangs = update s.gangs s.count (some g)

/-- At most one gang is new. -/
def Enrols (s s' : State) : Prop := SameSlots s s' ∨ SameSlots (reserveZero s) s' ∨ AddsGang (reserveZero s) s'

lemma Enrols.congr_right {s1 s2 : State} (h : Enrols s s1) (hg : s2.gangs = s1.gangs) (hc : s2.count = s1.count) :
    Enrols s s2 := by
  rcases h with h | h | h
  · exact .inl (h.trans (.of_eq hg hc))
  · exact .inr (.inl (h.trans (.of_eq hg hc)))
  · exact .inr (.inr ⟨h.pos, h.lt, hc.trans h.count, h.gangs.imp fun _ => hg.trans⟩)

lemma reserveZero_congr {s1 : State} (hg : s1.gangs = s.gangs) (hc : s1.count = s.count) :
    (reserveZero s1).gangs = (reserveZero s).gangs ∧ (reserveZero s1).count = (reserveZero s).count := by
  unfold reserveZero
  rw [hc]
  split
  · exact ⟨hg, rfl⟩
  · exact ⟨hg, hc⟩

lemma Enrols.congr_left {s1 : State} (h : Enrols s1 s') (hg : s1.gangs = s.gangs) (hc : s1.count = s.count) : Enrols s s' := by
  obtain ⟨hg0, hc0⟩ := reserveZero_congr hg hc
  rcases h with h | h | h
  · exact .inl (SameSlots.trans (.of_eq hg hc) h)
  · exact .inr (.inl (SameSlots.trans (.of_eq hg0 hc0) h))
  · exact .inr (.inr ⟨hc0 ▸ h.pos, hc0 ▸ h.lt, hc0 ▸ h.count, hg0 ▸ hc0 ▸ h.gangs⟩)

lemma createGang_enrols (s : State) (nVcpus : ℕ) (entry arg : Word) (stackPages : List (Option Word)) :
    Enrols s (createGang s nVcpus entry arg stackPages) := by
  have hpos := reserveZero_pos s
  unfold Sched.createGang Enrols
  generalize Sched.reserveZero s = s0 at hpos ⊢
  dsimp only
  split
  · exact .inr (.inl (.of_eq rfl rfl))
  · rename_i hlt
    obtain ⟨honly, -⟩ := makeVcpus_spec s0.count entry arg (min nVcpus maxVcpusPerGang) stackPages s0 []
    generalize makeVcpus s0.count entry arg (min nVcpus maxVcpusPerGang) stackPages s0 [] = r at honly ⊢
    obtain ⟨s1, made⟩ := r
    obtain ⟨hgangs, hcount, -⟩ := honly.frame
    cases made with
    | none => exact .inr (.inl (.of_eq hgangs hcount))
    | some ids =>
      have hpush := (sameBooks_pushAll s1.findLeastLoaded ids s1).trans
        (sameBooks_addTaskCount _ s1.findLeastLoaded (min nVcpus maxVcpusPerGang))
      refine .inr (.inr ⟨hpos, by omega, ?_, _, congrArg (fun f => update f s0.count _) (hpush.gangs.trans hgangs)⟩)
      exact congrArg (· + 1) (hpush.count.trans hcount)

lemma register_enrols (s : State) (v : ℕ) (stack : Option Word) : Enrols s (registerDriverVcpu s v stack).1 := by
  unfold registerDriverVcpu
  split
  · exact .inl (.of_eq rfl rfl)
  · dsimp only
    split
    · exact .inr (.inl (.of_eq rfl rfl))
    · rename_i hlt
      exact .inr (.inr ⟨reserveZero_pos s, by omega, rfl, _, rfl⟩)

lemma startService_enrols (s : State) (hardware : Bool) (pml4 entry stackTop : Word) (stack : Option Word) :
    Enrols s (startService s hardware pml4 entry stackTop stack) := by
  unfold Sched.startService
  cases ha : s.alloc 0 pml4 (driverType hardware) with
  | none => exact .inl (.of_eq rfl rfl)
  | some p =>
    obtain ⟨v, s1⟩ := p
    obtain ⟨-, honly, -⟩ := alloc_eq_some ha
    obtain ⟨hgangs, hcount, -⟩ := honly.frame
    have hreg := (register_enrols { s1.modifyVcpu v (fun x => x.enter entry stackTop) with
      services := update (s1.modifyVcpu v fun x => x.enter entry stackTop).services v (some pml4) }
      v stack).congr_left (s := s) hgangs hcount
    dsimp only
    generalize registerDriverVcpu _ v stack = r at hreg ⊢
    obtain ⟨s2, done⟩ := r
    cases done with
    | false => exact hreg
    | true => exact hreg.congr_right rfl rfl

lemma Ranged.reserveZero (h : Ranged s) : Ranged (reserveZero s) := by
  unfold Sched.reserveZero
  split
  · rename_i h0
    refine ⟨by simp [maxGangs], fun i g hg => ?_⟩
    have hrange := h.2 i g hg
    omega
  · exact h

lemma Ranged.enrols (h : Ranged s) (hs : Enrols s s') : Ranged s' := by
  rcases hs with hs | hs | hs
  · exact h.of_noNewGang hs.noNewGang
  · exact h.reserveZero.of_noNewGang hs.noNewGang
  · obtain ⟨g, hg⟩ := hs.gangs
    have hlt := hs.lt
    have hcount := hs.count
    refine ⟨by omega, fun i g' hi => ?_⟩
    rw [hg] at hi
    by_cases hic : i = (Sched.reserveZero s).count
    · have hpos := hs.pos
      omega
    · rw [update_of_ne hic] at hi
      have hrange := h.reserveZero.2 i g' hi
      omega

lemma Ranged.step {e : Event} (h : Ranged s) (hstep : step s e = some s') : Ranged s' := by
  cases stepped hstep with
  | user =>
    exact h.of_noNewGang (.of_eq rfl rfl)
  | tick c =>
    exact h.of_noNewGang ((sameSlots_suspend.noNewGang.trans noNewGang_schedule).trans (.of_eq rfl rfl))
  | block c =>
    unfold blockCurrent
    split
    · exact h
    · exact h.of_noNewGang (((sameSlots_halt.trans sameSlots_suspend).noNewGang.trans noNewGang_schedule).trans
        (.of_eq rfl rfl))
  | wake v =>
    exact h.of_noNewGang (.of_eq (sameBooks_wake s v).gangs (sameBooks_wake s v).count)
  | reply =>
    exact h.of_noNewGang (.of_eq rfl rfl)
  | createGang =>
    exact h.enrols (createGang_enrols ..)
  | register =>
    exact h.enrols (register_enrols ..)
  | startService =>
    exact h.enrols (startService_enrols ..)
  | crash c freed =>
    exact h.of_noNewGang ((noNewGang_handleCrash s _ freed).trans (.of_eq rfl rfl))
  | recover c =>
    exact h.of_noNewGang (sameSlots_recover s c).noNewGang

lemma Ranged.init (n : ℕ) (kernelPml4 : Word) : Ranged (State.init n kernelPml4) :=
  ⟨Nat.zero_le _, fun _ _ hg => by simp [State.init] at hg⟩

/-- In every run. -/
lemma Ranged.of_runs {cond : State → Event → Prop} {n : ℕ} {kernelPml4 : Word} {tr : List Event}
    (h : Runs cond n kernelPml4 tr s) : Ranged s :=
  h.invariant (fun _ _ _ hs hstep => hs.step hstep.2) (Ranged.init n kernelPml4)

/-! ### After the current vCPU is saved -/

/-- What the choice sees of the state before: the same gangs with their
demands, and as ready vCPUs those that were, and the one given back. -/
structure Gives (back : Bool) (s s₁ : State) (c : ℕ) : Prop where
  count : s₁.count = s.count
  gangs : ∀ i g1, s₁.gangs i = some g1 → ∃ g, s.gangs i = some g ∧ g1.members = g.members ∧ g1.state = g.state ∧
    (g1.runningCount < g1.vcpuCount ↔ 0 < demand s c i g) ∧ g1.vruntime = due back s c i g
  stays : ∀ i g, Willing back s c i g → ∃ g1, s₁.gangs i = some g1
  ready : ∀ v, IsReady s₁ v ↔ IsReady s v ∨ Own back s c v
  saved : ∀ v x, s₁.vcpus v = some x → x.state = .ready → s.vcpus v = some x ∨ Loadable s₁ c x
  cr3 : (s₁.cpus c).cr3 = (s.cpus c).cr3

lemma due_bounds (back : Bool) (s : State) (c i : ℕ) (g : Gang) (hg : g.vruntime ≤ u64Max) :
    g.vruntime ≤ due back s c i g ∧ due back s c i g ≤ g.vruntime + vruntimeTick * 100 := by
  unfold due
  split
  · have hle : vruntimeTick * 100 / max g.vcpuCount 1 ≤ vruntimeTick * 100 := Nat.div_le_self ..
    simp only [Gang.charge, satAdd]
    generalize vruntimeTick * 100 / max g.vcpuCount 1 = share at hle ⊢
    omega
  · exact ⟨le_rfl, Nat.le_add_right ..⟩

section

variable {back : Bool} {s₁ : State}

lemma Gives.hasReady_iff (hs : Gives back s s1 c) {g1 : Gang} (hg : s.gangs i = some g) (hg1 : s1.gangs i = some g1)
    (hm : g1.members = g.members) (hst : g1.state = g.state) : HasReady s1 i g1 ↔ Willing back s c i g := by
  rw [HasReady, Willing, hm, hst]
  simp only [hs.ready, hg, hg1, true_and]

lemma Sound.fair (h : Sound back s c) (hr : Ranged s) (hs : Gives back s s1 c) : Fair s1 c where
  range i g1 hg1 := by
    obtain ⟨g, hg, -⟩ := hs.gangs i g1 hg1
    rw [hs.count]
    exact hr.2 i g hg
  shown i g1 hready := by
    obtain ⟨g, hg, hm, hst, hiff, -⟩ := hs.gangs i g1 hready.1
    exact hiff.mpr (h.shown i g ((hs.hasReady_iff hg hready.1 hm hst).mp hready))
  behind i g1 hg1 ha hlt hno j g2 hready := by
    obtain ⟨g, hg, hm, hst, hiff, hdue⟩ := hs.gangs i g1 hg1
    obtain ⟨g', hg', hm', hst', -⟩ := hs.gangs j g2 hready.1
    have hunwilling : ¬ Willing back s c i g := fun hw => hno ((hs.hasReady_iff hg hg1 hm hst).mpr hw)
    obtain ⟨k, gk, hk, hltk⟩ := h.behind i g hg (hst ▸ ha) (hiff.mp hlt) hunwilling j g'
      ((hs.hasReady_iff hg' hready.1 hm' hst').mp hready)
    obtain ⟨g3, hg3⟩ := hs.stays k gk hk
    obtain ⟨gk', hgk, hmk, hstk, -, hduek⟩ := hs.gangs k g3 hg3
    obtain rfl := mem_unique hgk hk.1
    refine ⟨k, g3, (hs.hasReady_iff hgk hg3 hmk hstk).mpr hk, ?_⟩
    have hmax := h.vruntime i g hg (hst ▸ ha)
    rw [hduek, hdue]
    exact lt_of_lt_of_le hltk (due_bounds back s c i g (by omega)).1
  loadable i g1 hg1 ha v hv x hx hxr := by
    obtain ⟨g, hg, hm, hst, -⟩ := hs.gangs i g1 hg1
    obtain hold | hnew := hs.saved v x hx hxr
    · have hl := h.loadable i g hg (hst ▸ ha) v (hm ▸ hv) x hold hxr
      rwa [Loadable, PmlOk, ← hs.cr3] at hl
    · exact hnew
  vruntime i g1 hg1 ha := by
    obtain ⟨g, hg, -, hst, -, hdue⟩ := hs.gangs i g1 hg1
    have hmax := h.vruntime i g hg (hst ▸ ha)
    rw [hdue]
    exact lt_of_le_of_lt (due_bounds back s c i g (by omega)).2 hmax

end

lemma demand_pos_iff (hne : currentGang s c ≠ some i) : g.runningCount < g.vcpuCount ↔ 0 < demand s c i g := by
  rw [demand, if_neg hne]
  omega

/-- The gangs when one less of the current vCPU's gang runs. -/
lemma gives_gangs (back : Bool) (g1 : Gang) {f : ℕ → Option Gang} (hb : Busy s c)
    (hx : s.vcpus (s.cpus c).currentVcpu = some x) (hg : s.gangs x.gangId = some g)
    (hf : ∀ i g', f i = some g' → update s.gangs x.gangId (some g1) i = some g')
    (hids : g1.members = g.members) (hst : g1.state = g.state) (hn : g1.vcpuCount = g.vcpuCount)
    (hr : g1.runningCount = g.runningCount - 1) (hv : g1.vruntime = if back then g.charge.vruntime else g.vruntime) :
    ∀ i g', f i = some g' → ∃ g, s.gangs i = some g ∧ g'.members = g.members ∧ g'.state = g.state ∧
      (g'.runningCount < g'.vcpuCount ↔ 0 < demand s c i g) ∧ g'.vruntime = due back s c i g := by
  intro i g' hg'
  have hup := hf i g' hg'
  have hcur := currentGang_eq hb hx
  by_cases hi : i = x.gangId
  · rw [hi, update_self] at hup
    obtain rfl : g1 = g' := Option.some.inj hup
    refine ⟨g, hi ▸ hg, hids, hst, ?_, ?_⟩
    · rw [demand, hcur, if_pos (by rw [hi]), hn, hr]
      omega
    · rw [hv, due, hcur, hi]
      simp
  · rw [update_of_ne hi] at hup
    have hne : currentGang s c ≠ some i := by
      rw [hcur]
      exact fun h => hi (Option.some.inj h).symm
    refine ⟨g', hup, rfl, rfl, demand_pos_iff hne, ?_⟩
    rw [due, if_neg fun h => hne h.2]

lemma gives_save (hnt : NoTerminated s) (hr : Ranged s) (hseat : Seated s c) (hret : Returns s c frame frameAddr) :
    Gives true s (saveCurrent (cleanup s) c frame frameAddr) c := by
  have hcpus := cleanup_cpus hnt
  have hvcpus := cleanup_vcpus hnt
  have hcount := (noNewGang_cleanup s).1
  by_cases hb : Busy s c
  · obtain ⟨x, g, hx, hrun, hg, hm⟩ := hseat hb
    obtain ⟨hpos, hlt⟩ := hr.bounds hg
    have hb' : Busy (cleanup s) c := by rwa [Busy, hcpus]
    have hx' : (cleanup s).vcpus ((cleanup s).cpus c).currentVcpu = some x := by rw [hcpus, hvcpus, hx]
    rw [saveCurrent_running hb' hx' hrun (cleanup_gangs_of_member hnt hg hm) hpos hlt, hcpus]
    obtain ⟨hok, hpml, hvr⟩ := hret hb x hx
    refine ⟨hcount, ?_, fun i gi hw => ?_, fun v => ?_, fun v y hy hyr => ?_, by rw [setVcpu_cpus, setGang_cpus, hcpus]⟩
    · refine gives_gangs true g.charge hb hx hg (fun i g' hg' => ?_) rfl rfl rfl rfl rfl
      rw [setVcpu_gangs, setGang_gangs] at hg'
      by_cases hi : i = x.gangId
      · rw [hi, update_self] at hg' ⊢
        exact hg'
      · rw [update_of_ne hi] at hg' ⊢
        exact cleanup_gangs hnt hg'
    · obtain ⟨hgi, -, v, hv, -⟩ := hw
      rw [setVcpu_gangs, setGang_gangs]
      by_cases hi : i = x.gangId
      · exact ⟨g.charge, by rw [hi, update_self]⟩
      · exact ⟨gi, by rw [update_of_ne hi, cleanup_gangs_of_member hnt hgi hv]⟩
    · unfold IsReady Own
      rw [setVcpu_vcpus, setGang_vcpus, hvcpus]
      by_cases hv : v = (s.cpus c).currentVcpu
      · simp [hv, hb]
      · simp [hv]
    · rw [setVcpu_vcpus, setGang_vcpus, hvcpus] at hy
      by_cases hv : v = (s.cpus c).currentVcpu
      · rw [hv, update_self] at hy
        cases hy
        refine .inr ⟨rfl, hok, ?_, ?_⟩
        · rw [PmlOk, setVcpu_cpus, setGang_cpus, hcpus]
          exact hpml
        · simp only [satAdd]
          omega
      · rw [update_of_ne hv] at hy
        exact .inl hy
  · have hb' : ¬ Busy (cleanup s) c := by rwa [Busy, hcpus]
    have hcur : currentGang s c = none := by
      rw [Busy, not_not] at hb
      rw [currentGang, if_pos hb]
    rw [saveCurrent_idle hb']
    refine ⟨hcount, fun i g hg => ⟨g, cleanup_gangs hnt hg, rfl, rfl, demand_pos_iff (by simp [hcur]), ?_⟩, fun i g hw => ?_,
      fun v => ?_, fun v y hy _ => .inl (hvcpus ▸ hy), by rw [hcpus]⟩
    · rw [due, if_neg (by simp [hcur])]
    · obtain ⟨hg, -, v, hv, -⟩ := hw
      exact ⟨g, cleanup_gangs_of_member hnt hg hv⟩
    · unfold IsReady Own
      rw [hvcpus]
      simp [hb]

/-! ### When the choice is right -/

/-- The state in which the next vCPU is looked for. -/
def saved (s : State) (c : ℕ) (frame : TrapFrame) (frameAddr : Word) : State :=
  if s.count < 1 then s else saveCurrent (cleanup s) c frame frameAddr

lemma chosen_of_count (h : s.count < 1) : chosen s = none := by
  rw [chosen, findBestGang, show s.count - 1 = 0 by omega]
  rfl

/-- A pass installs the vCPU that is found in the saved state, if that passes
the checks, and declines otherwise. -/
lemma scheduleInner_cases (s : State) (c : ℕ) (frame : TrapFrame) (frameAddr : Word) (fpuOut : FpuState) :
    ((scheduleInner s c frame frameAddr fpuOut).switched = false ∧
      ∀ v x, chosen (saved s c frame frameAddr) = some v → (saved s c frame frameAddr).vcpus v = some x →
        accepts (saved s c frame frameAddr) c x = false) ∨
    ∃ v x, chosen (saved s c frame frameAddr) = some v ∧ (saved s c frame frameAddr).vcpus v = some x ∧
      accepts (saved s c frame frameAddr) c x = true ∧ (scheduleInner s c frame frameAddr fpuOut).switched = true ∧
      (scheduleInner s c frame frameAddr fpuOut).loaded = some v ∧
      ((scheduleInner s c frame frameAddr fpuOut).state.cpus c).currentVcpu = v := by
  by_cases hcount : s.count < 1
  · rw [scheduleInner, saved, if_pos hcount, if_pos hcount, chosen_of_count hcount]
    exact .inl ⟨rfl, fun v x hv => by cases hv⟩
  rw [scheduleInner, saved, if_neg hcount, if_neg hcount]
  generalize saveCurrent (cleanup s) c frame frameAddr = s1
  cases hv : chosen s1 with
  | none =>
    rw [chooseNext_of_none hv]
    exact .inl ⟨rfl, fun v x hv => by cases hv⟩
  | some v =>
    obtain ⟨x, s2, hx, hvcpus, haccepts, hload⟩ := chooseNext_of_some hv c frame fpuOut
    rw [hload]
    cases hok : accepts s1 c x with
    | false =>
      refine .inl ⟨loadNext_rejected (hvcpus ▸ hx) (by rw [haccepts, hok]) .., fun w y hw hy => ?_⟩
      obtain rfl := Option.some.inj hw
      rw [mem_unique hy hx, hok]
    | true =>
      rw [loadNext_accepted (hvcpus ▸ hx) (by rw [haccepts, hok])]
      exact .inr ⟨v, x, rfl, hx, hok, rfl, rfl, by simp [installed, State.setCurrent]⟩

/-- One CPU and a service that has not run yet. -/
def newService : State := startService (State.init 1 0x1000) true 0x5000 0x400000 0x800000 (some 0x10000)

lemma newService_run : Runs (fun _ _ => True) 1 0x1000 [.startService true 0x5000 0x400000 0x800000 (some 0x10000)] newService :=
  .cons ⟨trivial, rfl⟩ (.nil _)

/-- The service's vCPU is the only one of the only gang. -/
lemma newService_gang (hg : newService.gangs i = some g) : i = 1 ∧ g = ⟨some 1 :: List.replicate 7 none, 1, 0, 0, .active⟩ := by
  have hrange := (Ranged.of_runs newService_run).2 i g hg
  have hcount : newService.count = 2 := by decide +kernel
  obtain rfl : i = 1 := by omega
  exact ⟨rfl, (Option.some.inj (hg.symm.trans rfl))⟩

/-- The only vCPU of a gang can be chosen, and those of all other gangs run on
other CPUs. -/
lemma sound_single (i0 v0 : ℕ) {g0 : Gang} {x0 : Vcpu} (hg0 : s.gangs i0 = some g0)
    (hrest : ∀ i g, s.gangs i = some g → i ≠ i0 → demand s c i g = 0 ∧ g.vruntime + vruntimeTick * 100 < u64Max ∧
      ∀ v ∈ g.members, ¬ Own true s c v ∧ ∀ x, s.vcpus v = some x → x.state = .running)
    (ha : g0.state = .active) (hm : ∀ v, v ∈ g0.members ↔ v = v0) (hx0 : s.vcpus v0 = some x0) (hst : x0.state ≠ .terminated)
    (hw : IsReady s v0 ∨ Own true s c v0) (hd : 0 < demand s c i0 g0) (hl : x0.state = .ready → Loadable s c x0)
    (hvr : g0.vruntime + vruntimeTick * 100 < u64Max) : Sound true s c := by
  have hgang : ∀ i g, s.gangs i = some g → i = i0 → g = g0 := fun i g hg hi => mem_unique (hi ▸ hg) hg0
  have hvcpu : ∀ i g, s.gangs i = some g → ∀ v ∈ g.members, ∀ x, s.vcpus v = some x → x = x0 ∨ x.state = .running := by
    intro i g hg v hv x hx
    by_cases hi : i = i0
    · obtain rfl := hgang i g hg hi
      obtain rfl := (hm v).mp hv
      exact .inl (mem_unique hx hx0)
    · exact .inr (((hrest i g hg hi).2.2 v hv).2 x hx)
  refine ⟨fun i g hg v hv x hx => ?_, fun i g hw => ?_, fun i g hg _ hpos hno => ?_, fun i g hg _ v hv x hx hr => ?_,
    fun i g hg _ => ?_⟩
  · rcases hvcpu i g hg v hv x hx with rfl | h
    · exact hst
    · simp [h]
  · by_cases hi : i = i0
    · obtain rfl := hgang i g hw.1 hi
      exact hi ▸ hd
    · obtain ⟨hg, -, v, hv, ⟨x, hx, hready⟩ | hown⟩ := hw
      · rw [((hrest i g hg hi).2.2 v hv).2 x hx] at hready
        cases hready
      · exact absurd hown ((hrest i g hg hi).2.2 v hv).1
  · by_cases hi : i = i0
    · obtain rfl := hgang i g hg hi
      exact absurd ⟨hg, ha, v0, (hm v0).mpr rfl, hw⟩ hno
    · exact absurd (hrest i g hg hi).1 hpos.ne'
  · rcases hvcpu i g hg v hv x hx with rfl | h
    · exact hl hr
    · rw [h] at hr
      cases hr
  · by_cases hi : i = i0
    · obtain rfl := hgang i g hg hi
      exact hvr
    · exact (hrest i g hg hi).2.1

lemma newService_sound : Sound true newService 0 := by
  refine sound_single 1 1 rfl (fun i g hg hi => absurd (newService_gang hg).1 hi) rfl (fun v => List.mem_singleton) rfl ?_
    (.inl ⟨_, rfl, rfl⟩) ?_ (fun _ => ⟨?_, ?_, .inl ?_, ?_⟩) ?_
  · decide
  · decide +kernel
  · rfl
  · decide +kernel
  · decide
  · decide
  · decide

end LodaxOS.Sched
