/-
# Exclusive execution

Who executes which vCPU. In runs whose ticks and blocks find the scheduler's
books in order and a vCPU to go to, every CPU executes its current vCPU, no
two CPUs the same, and none that waits. A vCPU that blocks with nothing else
to run goes on all the same.
-/
import LodaxOS.Sched.Choice

namespace LodaxOS.Sched

open Function
open Arch (TrapFrame VcpuType)
open Asm (Word)
open Traces (Run)

variable {s s' : State} {c i v : ℕ} {g : Gang} {x : Vcpu} {frame : TrapFrame} {frameAddr : Word} {fpuOut : FpuState}

/-- No vCPU but an idle one is executed twice, every CPU executes its current
vCPU, and what is executed does not wait. -/
def Exclusive (s : State) : Prop :=
  (∀ c d x, c ≠ d → (s.cpus c).online = true → (s.cpus d).online = true → (s.cpus c).executes = (s.cpus d).executes →
    s.vcpus (s.cpus c).executes = some x → x.vcpuType = .idle) ∧
  (∀ c, (s.cpus c).online = true → (s.cpus c).executes = (s.cpus c).currentVcpu) ∧
  ∀ c x, (s.cpus c).online = true → s.vcpus (s.cpus c).executes = some x → x.state ≠ .ready ∧ x.state ≠ .halted

/-! ### The condition -/

/-- The current vCPU's gang is active. -/
def Enlisted (s : State) (c : ℕ) : Prop :=
  Busy s c → ∀ x g, s.vcpus (s.cpus c).currentVcpu = some x → s.gangs x.gangId = some g → g.state = .active

/-- Ticks find the books in order and a current vCPU that can go on; blocks
find another vCPU. -/
def Orderly (s : State) : Event → Prop
  | .tick c frameAddr => Sound true s c ∧ Seated s c ∧ Enlisted s c ∧ Returns s c (s.cpus c).frame frameAddr
  | .block c _ => Busy s c → Sound false s c ∧ Seated s c ∧ ∃ i g, HasReady s i g
  | _ => True

/-! ### The invariant -/

/-- The parts of a CPU that say whom it executes. -/
def Cpu.post (cpu : Cpu) : Bool × ℕ × ℕ × ℕ := (cpu.online, cpu.currentVcpu, cpu.idleVcpu, cpu.executes)

/-- Every CPU executes its current vCPU: its idle one, or one that runs, or has
just crashed, and that no other CPU has. -/
structure Posts (s : State) : Prop where
  executes : ∀ c, (s.cpus c).online = true → (s.cpus c).executes = (s.cpus c).currentVcpu
  busy : ∀ c, (s.cpus c).online = true → Busy s c →
    ∃ x, s.vcpus (s.cpus c).currentVcpu = some x ∧ (x.state = .running ∨ x.state = .terminated)
  apart : ∀ c d, (s.cpus c).online = true → (s.cpus d).online = true → Busy s c → Busy s d →
    (s.cpus c).currentVcpu = (s.cpus d).currentVcpu → c = d
  idle : ∀ c, (s.cpus c).online = true → ∃ x, s.vcpus (s.cpus c).idleVcpu = some x ∧ x.vcpuType = .idle ∧ x.state = .idle

lemma Posts.exclusive (h : Posts s) : Exclusive s := by
  have hidle : ∀ c x, (s.cpus c).online = true → ¬ Busy s c → s.vcpus (s.cpus c).executes = some x →
      x.vcpuType = .idle ∧ x.state = .idle := by
    intro c x ho hb hx
    rw [Busy, not_not] at hb
    rw [h.executes c ho, hb] at hx
    obtain ⟨y, hy, ht⟩ := h.idle c ho
    obtain rfl := Option.mem_unique hy hx
    exact ht
  refine ⟨fun c d x hne ho ho' heq hx => ?_, h.executes, fun c x ho hx => ?_⟩
  · by_cases hb : Busy s c
    · by_cases hb' : Busy s d
      · rw [h.executes c ho, h.executes d ho'] at heq
        exact absurd (h.apart c d ho ho' hb hb' heq) hne
      · exact (hidle d x ho' hb' (heq ▸ hx)).1
    · exact (hidle c x ho hb hx).1
  · by_cases hb : Busy s c
    · obtain ⟨y, hy, hcases⟩ := h.busy c ho hb
      rw [h.executes c ho, hy] at hx
      cases hx
      obtain hr | ht := hcases
      · simp [hr]
      · simp [ht]
    · simp [(hidle c x ho hb hx).2]

/-! ### Steps that post no one -/

/-- CPUs execute whom they did, and no vCPU that does not wait changes its
state. -/
structure SamePosts (s s' : State) : Prop where
  vcpus : ∀ v x, s.vcpus v = some x → x.state ≠ .ready → x.state ≠ .halted →
    ∃ x', s'.vcpus v = some x' ∧ x'.state = x.state ∧ x'.vcpuType = x.vcpuType
  cpus : ∀ c, (s'.cpus c).post = (s.cpus c).post

lemma post_eq {cpu cpu' : Cpu} (h : cpu'.post = cpu.post) : cpu'.online = cpu.online ∧ cpu'.currentVcpu = cpu.currentVcpu ∧
    cpu'.idleVcpu = cpu.idleVcpu ∧ cpu'.executes = cpu.executes := by
  simpa [Cpu.post] using h

variable {f : Cpu → Cpu}

lemma SamePosts.modifyCpu (hf : (f (s.cpus c)).post = (s.cpus c).post) : SamePosts s (s.modifyCpu c f) where
  vcpus v x hx _ _ := ⟨x, hx, rfl, rfl⟩
  cpus d := by
    by_cases hd : d = c
    · subst hd
      rw [modifyCpu_cpus, update_self, hf]
    · rw [modifyCpu_cpus, update_of_ne hd]

lemma Posts.same (h : Posts s) (hs : SamePosts s s') : Posts s' := by
  have hbusy : ∀ c, Busy s' c ↔ Busy s c := by
    intro c
    obtain ⟨-, hc, hi, -⟩ := post_eq (hs.cpus c)
    rw [Busy, Busy, hc, hi]
  refine ⟨fun c ho => ?_, fun c ho hb => ?_, fun c d ho ho' hb hb' heq => ?_, fun c ho => ?_⟩
  · obtain ⟨hon, hc, -, he⟩ := post_eq (hs.cpus c)
    rw [he, hc]
    exact h.executes c (hon ▸ ho)
  · obtain ⟨hon, hc, -, -⟩ := post_eq (hs.cpus c)
    obtain ⟨x, hx, hcases⟩ := h.busy c (hon ▸ ho) ((hbusy c).mp hb)
    obtain ⟨x', hx', hst, -⟩ := hs.vcpus _ x hx (by obtain h | h := hcases <;> simp [h]) (by obtain h | h := hcases <;> simp [h])
    exact ⟨x', by rw [hc, hx'], by rw [hst]; exact hcases⟩
  · obtain ⟨hon, hc, -⟩ := post_eq (hs.cpus c)
    obtain ⟨hon', hc', -⟩ := post_eq (hs.cpus d)
    rw [hc, hc'] at heq
    exact h.apart c d (hon ▸ ho) (hon' ▸ ho') ((hbusy c).mp hb) ((hbusy d).mp hb') heq
  · obtain ⟨hon, -, hi, -⟩ := post_eq (hs.cpus c)
    obtain ⟨x, hx, ht, hst⟩ := h.idle c (hon ▸ ho)
    obtain ⟨x', hx', hst', ht'⟩ := hs.vcpus _ x hx (by simp [hst]) (by simp [hst])
    exact ⟨x', by rw [hi, hx'], ht'.trans ht, hst'.trans hst⟩

lemma samePosts_reply (s : State) (v : ℕ) (result : Word) : SamePosts s (reply s v result) where
  vcpus w x hx _ _ := by
    by_cases hw : w = v
    · subst hw
      exact ⟨{ x with savedFrame := { x.savedFrame with rax := result } }, by simp [reply, hx], rfl, rfl⟩
    · exact ⟨x, by simp [reply, hw, hx], rfl, rfl⟩
  cpus _ := rfl

lemma samePosts_suspend (s : State) (c : ℕ) : SamePosts s (suspend s c) := by
  refine ⟨fun v x hx _ _ => ⟨x, by rw [suspend_vcpus, hx], rfl, rfl⟩, fun d => ?_⟩
  rw [suspend_cpus]
  by_cases hd : d = c
  · subst hd
    rw [update_self]
    rfl
  · rw [update_of_ne hd]

/-! ### Steps without the scheduler -/

/-- CPUs execute whom they did, and of the vCPUs there were, saved contexts
stay; a halted one may become ready. -/
structure Calm (s s' : State) : Prop where
  vcpus : ∀ v x, s.vcpus v = some x → ∃ x', s'.vcpus v = some x' ∧ x'.vcpuType = x.vcpuType ∧
    x'.savedFrame = x.savedFrame ∧ x'.fpuState = x.fpuState ∧ (x'.state = x.state ∨ x.state = .halted ∧ x'.state = .ready)
  cpus : ∀ c, (s'.cpus c).post = (s.cpus c).post
  suspended : s'.suspended = s.suspended

lemma Calm.samePosts (h : Calm s s') : SamePosts s s' where
  vcpus v x hx _ hh := by
    obtain ⟨x', hx', ht, -, -, hst | ⟨hhalt, -⟩⟩ := h.vcpus v x hx
    · exact ⟨x', hx', hst, ht⟩
    · exact absurd hhalt hh
  cpus := h.cpus

lemma Calm.trans {s1 s2 s3 : State} (h : Calm s1 s2) (h' : Calm s2 s3) : Calm s1 s3 where
  vcpus v x hx := by
    obtain ⟨y, hy, ht, hf, hp, hst⟩ := h.vcpus v x hx
    obtain ⟨z, hz, ht', hf', hp', hst'⟩ := h'.vcpus v y hy
    refine ⟨z, hz, ht'.trans ht, hf'.trans hf, hp'.trans hp, ?_⟩
    obtain hst | ⟨hh, hr⟩ := hst
    · rwa [hst] at hst'
    · rw [hr] at hst'
      simp only [reduceCtorEq, false_and, or_false] at hst'
      exact .inr ⟨hh, hst'⟩
  cpus c := (h'.cpus c).trans (h.cpus c)
  suspended := h'.suspended.trans h.suspended

lemma Calm.of_eq (hv : ∀ v x, s.vcpus v = some x → s'.vcpus v = some x) (hc : s'.cpus = s.cpus)
    (hs : s'.suspended = s.suspended) : Calm s s' :=
  ⟨fun v x hx => ⟨x, hv v x hx, rfl, rfl, rfl, .inl rfl⟩, fun c => by rw [hc], hs⟩

lemma Calm.refl (s : State) : Calm s s := .of_eq (fun _ _ h => h) rfl rfl

lemma Calm.modifyCpu (hf : (f (s.cpus c)).post = (s.cpus c).post) : Calm s (s.modifyCpu c f) :=
  ⟨fun _ x hx => ⟨x, hx, rfl, rfl, rfl, .inl rfl⟩, (SamePosts.modifyCpu hf).cpus, rfl⟩

/-- A CPU without its queue. -/
def Cpu.core (cpu : Cpu) : Cpu := { cpu with readyQueue := [], taskCount := 0 }

lemma post_of_core {cpu cpu' : Cpu} (h : cpu'.core = cpu.core) : cpu'.post = cpu.post :=
  (congrArg Cpu.post h : cpu'.core.post = cpu.core.post)

/-- Only queues change, and of the vCPUs there were, neither states nor saved
contexts. -/
structure Still (s s' : State) : Prop where
  vcpus : ∀ v x, s.vcpus v = some x → ∃ x', s'.vcpus v = some x' ∧ x'.vcpuType = x.vcpuType ∧
    x'.savedFrame = x.savedFrame ∧ x'.fpuState = x.fpuState ∧ x'.state = x.state
  cpus : ∀ c, (s'.cpus c).core = (s.cpus c).core
  suspended : s'.suspended = s.suspended

lemma Still.calm (h : Still s s') : Calm s s' where
  vcpus v x hx := by
    obtain ⟨y, hy, ht, hf, hp, hst⟩ := h.vcpus v x hx
    exact ⟨y, hy, ht, hf, hp, .inl hst⟩
  cpus c := post_of_core (h.cpus c)
  suspended := h.suspended

lemma Still.trans {s1 s2 s3 : State} (h : Still s1 s2) (h' : Still s2 s3) : Still s1 s3 where
  vcpus v x hx := by
    obtain ⟨y, hy, ht, hf, hp, hst⟩ := h.vcpus v x hx
    obtain ⟨z, hz, ht', hf', hp', hst'⟩ := h'.vcpus v y hy
    exact ⟨z, hz, ht'.trans ht, hf'.trans hf, hp'.trans hp, hst'.trans hst⟩
  cpus c := (h'.cpus c).trans (h.cpus c)
  suspended := h'.suspended.trans h.suspended

lemma Still.of_eq (hv : ∀ v x, s.vcpus v = some x → s'.vcpus v = some x) (hc : s'.cpus = s.cpus)
    (hs : s'.suspended = s.suspended) : Still s s' :=
  ⟨fun v x hx => ⟨x, hv v x hx, rfl, rfl, rfl, rfl⟩, fun c => by rw [hc], hs⟩

lemma Still.refl (s : State) : Still s s := .of_eq (fun _ _ h => h) rfl rfl

lemma Still.modifyCpu (hf : (f (s.cpus c)).core = (s.cpus c).core) : Still s (s.modifyCpu c f) := by
  refine ⟨fun _ x hx => ⟨x, hx, rfl, rfl, rfl, rfl⟩, fun d => ?_, rfl⟩
  by_cases hd : d = c
  · subst hd
    rw [modifyCpu_cpus, update_self, hf]
  · rw [modifyCpu_cpus, update_of_ne hd]

lemma still_push (s : State) (c v : ℕ) : Still s (s.push c v) := .modifyCpu (by split <;> rfl)

lemma still_addTaskCount (s : State) (c n : ℕ) : Still s (s.addTaskCount c n) := .modifyCpu rfl

lemma calm_wake (s : State) (v : ℕ) : Calm s (wake s v) := by
  unfold wake
  cases hx : s.vcpus v with
  | none => exact .refl s
  | some x =>
    dsimp only
    split
    · rename_i hh
      have hset : Calm s (s.setVcpu v (some { x with state := .ready, vruntime := 0 })) := by
        refine ⟨fun w y hy => ?_, fun _ => rfl, rfl⟩
        by_cases hw : w = v
        · subst hw
          obtain rfl := Option.mem_unique hx hy
          exact ⟨{ x with state := .ready, vruntime := 0 }, update_self .., rfl, rfl, rfl, .inr ⟨hh, rfl⟩⟩
        · exact ⟨y, (update_of_ne hw ..).trans hy, rfl, rfl, rfl, .inl rfl⟩
      exact hset.trans ((still_push _ _ v).trans (still_addTaskCount _ _ 1)).calm
    · exact .refl s

lemma still_pushAll (c : ℕ) : ∀ (ids : List ℕ) (s : State), Still s (ids.foldl (fun s v => s.push c v) s)
  | [], s => .refl s
  | v :: ids, s => (still_push s c v).trans (still_pushAll c ids (s.push c v))

lemma still_reserveZero (s : State) : Still s (reserveZero s) := by
  unfold reserveZero
  split
  · exact .of_eq (fun _ _ h => h) rfl rfl
  · exact .refl s

lemma still_createGang (s : State) (nVcpus : ℕ) (entry arg : Word) (stackPages : List (Option Word)) :
    Still s (createGang s nVcpus entry arg stackPages) := by
  refine (still_reserveZero s).trans ?_
  unfold createGang
  generalize reserveZero s = s0
  dsimp only
  split
  · exact .refl s0
  · obtain ⟨honly, hcases⟩ := makeVcpus_spec s0.count entry arg (min nVcpus maxVcpusPerGang) stackPages s0 []
    generalize makeVcpus s0.count entry arg (min nVcpus maxVcpusPerGang) stackPages s0 [] = r at honly hcases ⊢
    obtain ⟨s1, made⟩ := r
    have hmade : Still s0 s1 := by
      refine .of_eq (fun w x hx => ?_) honly.frame.2.2 honly.suspended
      obtain ⟨-, hvcpus⟩ | ⟨new, -, -, -, hnew, hold⟩ := hcases
      · simpa [hx] using hvcpus w
      · have hw : w ∉ new := fun hw => by simp [(hnew w hw).1] at hx
        exact (hold w hw).trans hx
    cases made with
    | none => exact hmade
    | some ids =>
      refine hmade.trans (((still_pushAll s1.findLeastLoaded ids s1).trans
        (still_addTaskCount _ s1.findLeastLoaded (min nVcpus maxVcpusPerGang))).trans ?_)
      exact .of_eq (fun _ _ h => h) rfl rfl

lemma still_register (s : State) (v : ℕ) (stack : Option Word) : Still s (registerDriverVcpu s v stack).1 := by
  unfold registerDriverVcpu
  split
  · exact .refl s
  · refine (still_reserveZero s).trans ?_
    dsimp only
    split
    · exact .refl _
    · rename_i pages _
      refine ⟨fun w x hx => ?_, fun _ => rfl, rfl⟩
      by_cases hw : w = v
      · subst hw
        exact ⟨{ x with kernelStackTop := stackTop pages, gangId := (reserveZero s).count }, by simp [hx], rfl, rfl, rfl, rfl⟩
      · exact ⟨x, by simp [hw, hx], rfl, rfl, rfl, rfl⟩

lemma still_startService (s : State) (hardware : Bool) (pml4 entry stackTop : Word) (stack : Option Word) :
    Still s (startService s hardware pml4 entry stackTop stack) := by
  unfold startService
  cases ha : s.alloc 0 pml4 (driverType hardware) with
  | none => exact .refl s
  | some p =>
    obtain ⟨v, s1⟩ := p
    obtain ⟨hv, honly, x, hs1⟩ := alloc_eq_some ha
    have hnew : Still s { s1.modifyVcpu v (fun x => x.enter entry stackTop) with
        services := update (s1.modifyVcpu v fun x => x.enter entry stackTop).services v (some pml4) } := by
      refine .of_eq (fun w y hy => ?_) honly.frame.2.2 honly.suspended
      have hne : w ≠ v := fun h => by simp [h, hv] at hy
      change update s1.vcpus v _ w = some y
      rw [update_of_ne hne, hs1, update_of_ne hne, hy]
    have hreg := hnew.trans (still_register _ v stack)
    dsimp only
    generalize registerDriverVcpu _ v stack = r at hreg ⊢
    obtain ⟨s2, done⟩ := r
    cases done with
    | false => exact hreg
    | true => exact hreg.trans ((still_push ..).trans (still_addTaskCount ..))

/-! ### Steps that post a vCPU -/

/-- A CPU takes its idle vCPU, or one that does not wait and that no other CPU
has; the vCPUs of the others are as they were, and so are the idle ones. -/
lemma Posts.install (h : Posts s) (hcpus : ∀ d, d ≠ c → (s'.cpus d).post = (s.cpus d).post)
    (hc : (s'.cpus c).post = ((s.cpus c).online, v, (s.cpus c).idleVcpu, v))
    (hv : v = (s.cpus c).idleVcpu ∨ (∃ x, s'.vcpus v = some x ∧ (x.state = .running ∨ x.state = .terminated)) ∧
      ∀ d, d ≠ c → (s.cpus d).online = true → Busy s d → (s.cpus d).currentVcpu ≠ v)
    (hothers : ∀ d, d ≠ c → (s.cpus d).online = true → Busy s d →
      s'.vcpus (s.cpus d).currentVcpu = s.vcpus (s.cpus d).currentVcpu)
    (hidle : ∀ d, (s.cpus d).online = true → s'.vcpus (s.cpus d).idleVcpu = s.vcpus (s.cpus d).idleVcpu) : Posts s' := by
  have hself : (s'.cpus c).online = (s.cpus c).online ∧ (s'.cpus c).currentVcpu = v ∧
      (s'.cpus c).idleVcpu = (s.cpus c).idleVcpu ∧ (s'.cpus c).executes = v := by
    simpa [Cpu.post] using hc
  obtain ⟨hon, hcur, hid, hex⟩ := hself
  have hbusy : ∀ d, d ≠ c → (Busy s' d → Busy s d) := by
    intro d hd hb
    obtain ⟨-, hc, hi, -⟩ := post_eq (hcpus d hd)
    rwa [Busy, hc, hi] at hb
  have hunshared : Busy s' c → (∃ x, s'.vcpus v = some x ∧ (x.state = .running ∨ x.state = .terminated)) ∧
      ∀ d, d ≠ c → (s.cpus d).online = true → Busy s d → (s.cpus d).currentVcpu ≠ v := by
    intro hb
    rw [Busy, hcur, hid] at hb
    exact hv.resolve_left hb
  refine ⟨fun d ho => ?_, fun d ho hb => ?_, fun d e ho ho' hb hb' heq => ?_, fun d ho => ?_⟩
  · by_cases hd : d = c
    · rw [hd, hex, hcur]
    · obtain ⟨hon', hc', -, he'⟩ := post_eq (hcpus d hd)
      rw [he', hc']
      exact h.executes d (hon' ▸ ho)
  · by_cases hd : d = c
    · subst hd
      obtain ⟨⟨x, hx, hr⟩, -⟩ := hunshared hb
      exact ⟨x, by rw [hcur, hx], hr⟩
    · obtain ⟨hon', hc', -⟩ := post_eq (hcpus d hd)
      rw [hc', hothers d hd (hon' ▸ ho) (hbusy d hd hb)]
      exact h.busy d (hon' ▸ ho) (hbusy d hd hb)
  · by_cases hd : d = c
    · by_cases he : e = c
      · rw [hd, he]
      · subst hd
        obtain ⟨hon', hc', -⟩ := post_eq (hcpus e he)
        rw [hcur, hc'] at heq
        exact absurd heq.symm ((hunshared hb).2 e he (hon' ▸ ho') (hbusy e he hb'))
    · obtain ⟨hon', hc', -⟩ := post_eq (hcpus d hd)
      by_cases he : e = c
      · subst he
        rw [hcur, hc'] at heq
        exact absurd heq ((hunshared hb').2 d hd (hon' ▸ ho) (hbusy d hd hb))
      · obtain ⟨hon'', hc'', -⟩ := post_eq (hcpus e he)
        rw [hc', hc''] at heq
        exact h.apart d e (hon' ▸ ho) (hon'' ▸ ho') (hbusy d hd hb) (hbusy e he hb') heq
  · have hsame : (s'.cpus d).online = (s.cpus d).online ∧ (s'.cpus d).idleVcpu = (s.cpus d).idleVcpu := by
      by_cases hd : d = c
      · rw [hd]
        exact ⟨hon, hid⟩
      · obtain ⟨hon', -, hi', -⟩ := post_eq (hcpus d hd)
        exact ⟨hon', hi'⟩
    rw [hsame.1] at ho
    rw [hsame.2, hidle d ho]
    exact h.idle d ho

/-- No CPU has a vCPU that waits. -/
lemma Posts.not_current (h : Posts s) (hx : s.vcpus v = some x) (hw : x.state = .ready ∨ x.state = .halted) :
    (∀ d, (s.cpus d).online = true → Busy s d → (s.cpus d).currentVcpu ≠ v) ∧
    ∀ d, (s.cpus d).online = true → (s.cpus d).idleVcpu ≠ v := by
  refine ⟨fun d ho hb heq => ?_, fun d ho heq => ?_⟩
  · obtain ⟨y, hy, hst⟩ := h.busy d ho hb
    rw [heq, hx] at hy
    cases hy
    obtain hw | hw := hw
    · simp [hw] at hst
    · simp [hw] at hst
  · obtain ⟨y, hy, -, hst⟩ := h.idle d ho
    rw [heq, hx] at hy
    cases hy
    obtain hw | hw := hw
    · simp [hw] at hst
    · simp [hw] at hst

/-- The current vCPU of a busy CPU is no one else's. -/
lemma Posts.current_unshared (h : Posts s) (ho : (s.cpus c).online = true) (hb : Busy s c) :
    (∀ d, d ≠ c → (s.cpus d).online = true → Busy s d → (s.cpus d).currentVcpu ≠ (s.cpus c).currentVcpu) ∧
    ∀ d, (s.cpus d).online = true → (s.cpus d).idleVcpu ≠ (s.cpus c).currentVcpu := by
  refine ⟨fun d hd ho' hb' heq => hd (h.apart d c ho' ho hb' hb heq), fun d ho' heq => ?_⟩
  obtain ⟨x, hx, hst⟩ := h.busy c ho hb
  obtain ⟨y, hy, -, hst'⟩ := h.idle d ho'
  rw [heq, hx] at hy
  cases hy
  simp [hst'] at hst

/-- A choice is installed: the vCPU was ready or is the CPU's own, and vCPUs
but these are as before. -/
lemma Posts.switch (h : Posts s) (ho : (s.cpus c).online = true)
    (hold : ∀ w, w ≠ v → ¬ Own true s c w → s'.vcpus w = s.vcpus w) (hready : IsReady s v ∨ Own true s c v)
    (hrun : ∃ x, s'.vcpus v = some x ∧ x.state = .running) (hcpus : ∀ d, d ≠ c → (s'.cpus d).post = (s.cpus d).post)
    (hc : (s'.cpus c).post = ((s.cpus c).online, v, (s.cpus c).idleVcpu, v)) : Posts s' := by
  have hfree : (∀ d, d ≠ c → (s.cpus d).online = true → Busy s d → (s.cpus d).currentVcpu ≠ v) ∧
      ∀ d, (s.cpus d).online = true → (s.cpus d).idleVcpu ≠ v := by
    obtain ⟨x, hx, hr⟩ | ⟨-, hb, rfl⟩ := hready
    · obtain ⟨h1, h2⟩ := h.not_current hx (.inl hr)
      exact ⟨fun d _ => h1 d, h2⟩
    · exact h.current_unshared ho hb
  refine h.install hcpus hc (.inr ⟨hrun.imp fun _ hx => ⟨hx.1, .inl hx.2⟩, hfree.1⟩) (fun d hd ho' hb' => ?_) (fun d ho' => ?_)
  · refine hold _ (hfree.1 d hd ho' hb') fun ⟨_, hb, heq⟩ => ?_
    exact (h.current_unshared ho hb).1 d hd ho' hb' heq
  · refine hold _ (hfree.2 d ho') fun ⟨_, hb, heq⟩ => ?_
    exact (h.current_unshared ho hb).2 d ho' heq

/-! ### Ticks -/

lemma busy_suspend : Busy (suspend s c) c ↔ Busy s c := by
  rw [Busy, Busy, (suspend_cpu s c c).2.1, (suspend_cpu s c c).2.2]

lemma own_suspend {back : Bool} : Own back (suspend s c) c v ↔ Own back s c v := by
  rw [Own, Own, busy_suspend, (suspend_cpu s c c).2.1]

lemma pmlOk_suspend : PmlOk (suspend s c) c x ↔ PmlOk s c x := by
  rw [PmlOk, PmlOk, suspend_cpus, update_self]

lemma Sound.suspend {back : Bool} (h : Sound back s c) : Sound back (suspend s c) c := by
  have hgang : currentGang (Sched.suspend s c) c = currentGang s c := by
    rw [currentGang, currentGang, (suspend_cpu s c c).2.1, (suspend_cpu s c c).2.2, suspend_vcpus]
  have hdemand : ∀ i g, demand (Sched.suspend s c) c i g = demand s c i g := fun i g => by rw [demand, demand, hgang]
  have hdue : ∀ i g, due back (Sched.suspend s c) c i g = due back s c i g := fun i g => by rw [due, due, hgang]
  have hwilling : ∀ i g, Willing back (Sched.suspend s c) c i g ↔ Willing back s c i g := by
    intro i g
    unfold Willing IsReady
    simp only [suspend_gangs, suspend_vcpus, own_suspend]
  refine ⟨?_, ?_, ?_, ?_, ?_⟩
  · unfold NoTerminated
    rw [suspend_gangs, suspend_vcpus]
    exact h.noTerminated
  · simp only [hwilling, hdemand]
    exact h.shown
  · simp only [hwilling, hdemand, hdue, suspend_gangs]
    exact h.behind
  · unfold Loadable
    simp only [suspend_gangs, suspend_vcpus, pmlOk_suspend]
    exact h.loadable
  · rw [suspend_gangs]
    exact h.vruntime

/-- What a CPU that goes on with an installed vCPU executes. -/
lemma post_installed {s2 : State} (hs2 : ∀ d, (s2.cpus d).post = (s.cpus d).post) :
    (∀ d, d ≠ c → ((resume c (installed s2 c v x)).cpus d).post = (s.cpus d).post) ∧
    ((resume c (installed s2 c v x)).cpus c).post = ((s.cpus c).online, v, (s.cpus c).idleVcpu, v) := by
  refine ⟨fun d hd => ?_, ?_⟩
  · rw [← hs2 d]
    simp [resume, installed, State.setCurrent, hd]
  · obtain ⟨hon, -, hi, -⟩ := post_eq (hs2 c)
    simp [resume, installed, State.setCurrent, Cpu.post, hon, hi]

/-- The CPU goes on with a vCPU that was ready. -/
def Installs (s t : State) (c : ℕ) : Prop :=
  ∃ (v : ℕ) (x : Vcpu) (s2 : State), s.vcpus v = some x ∧ x.state = .ready ∧ s2.vcpus = s.vcpus ∧ s2.suspended = s.suspended ∧
    (∀ d, (s2.cpus d).post = (s.cpus d).post) ∧ t = resume c (installed s2 c v x)

/-- In `s1` the CPU has given up its vCPU, and changed no other. -/
structure Handover (s s1 : State) (c : ℕ) : Prop where
  ready : ∀ v, IsReady s1 v → IsReady s v ∨ Own true s c v
  kept : ∀ w, ¬ Own true s c w → s1.vcpus w = s.vcpus w
  posts : ∀ d, (s1.cpus d).post = (s.cpus d).post

lemma Posts.installs {s1 t : State} (h : Posts s) (ho : (s.cpus c).online = true) (hover : Handover s s1 c)
    (hi : Installs s1 t c) : Posts t := by
  obtain ⟨v, x, s2, hx, hxr, hv2, -, hc2, rfl⟩ := hi
  obtain ⟨hothers, hself⟩ := post_installed (v := v) (x := x) fun d => (hc2 d).trans (hover.posts d)
  refine h.switch ho (fun w hw hown => ?_) (hover.ready v ⟨x, hx, hxr⟩) ⟨_, update_self .., rfl⟩ hothers hself
  change update s2.vcpus v _ w = _
  rw [update_of_ne hw, hv2, hover.kept w hown]

/-- When the books are in order, `schedule_inner` installs a ready vCPU, if
there is one. -/
lemma Fair.installs (h : Fair (saveCurrent (cleanup s) c frame frameAddr) c)
    (hr : ∃ i g, HasReady (saveCurrent (cleanup s) c frame frameAddr) i g) (fpuOut : FpuState) :
    Installs (saveCurrent (cleanup s) c frame frameAddr) (resume c (scheduleInner s c frame frameAddr fpuOut)) c := by
  obtain ⟨i, g, v, x, s2, hready, -, hx, hxr, -, -, hv2, hs2, hc2, hl, heq⟩ := h.chooses hr frame fpuOut
  refine ⟨v, x, s2, hx, hxr, hv2, hs2, fun d => ?_, ?_⟩
  · obtain ⟨q, hq⟩ := hc2 d
    rw [hq]
    rfl
  · have hcount : (saveCurrent (cleanup s) c frame frameAddr).count = s.count :=
      ((noNewGang_cleanup s).trans sameSlots_save.noNewGang).1
    have hrange := h.range i g hready.1
    rw [scheduleInner, if_neg (by omega), heq, loadNext_ok (hv2 ▸ hx) hl]

/-- The vCPU that a CPU saves can be chosen. -/
lemma hasReady_save (hnt : NoTerminated s) (hr : Ranged s) (hb : Busy s c) (hseat : Seated s c) (hen : Enlisted s c) :
    ∃ i g, HasReady (saveCurrent (cleanup s) c frame frameAddr) i g := by
  obtain ⟨x, g, hx, hrun, hg, hm⟩ := hseat hb
  obtain ⟨hpos, hlt⟩ := hr.bounds hg
  have hcpus := cleanup_cpus hnt
  have hb' : Busy (cleanup s) c := by rwa [Busy, hcpus]
  have hx' : (cleanup s).vcpus ((cleanup s).cpus c).currentVcpu = some x := by rw [hcpus, cleanup_vcpus hnt, hx]
  rw [saveCurrent_running hb' hx' hrun (cleanup_gangs_of_member hnt hg hm) hpos hlt, hcpus]
  exact ⟨x.gangId, g.charge, update_self .., hen hb x g hx hg, (s.cpus c).currentVcpu, hm, _, update_self .., rfl⟩

/-- The CPU saves its vCPU and goes on with a ready one; or nothing is ready,
and then it had none to save. -/
lemma schedule_cases (hr : Ranged s) (hsound : Sound true s c) (hseat : Seated s c) (hen : Enlisted s c)
    (hret : Returns s c frame frameAddr) :
    Handover s (saveCurrent (cleanup s) c frame frameAddr) c ∧
    (Installs (saveCurrent (cleanup s) c frame frameAddr) (resume c (scheduleInner s c frame frameAddr fpuOut)) c ∨
      ¬ Busy s c ∧ Calm s (resume c (scheduleInner s c frame frameAddr fpuOut)) ∧
        (resume c (scheduleInner s c frame frameAddr fpuOut)).vcpus = s.vcpus) := by
  have hnt := hsound.noTerminated
  have hgives := gives_save hnt hr hseat hret
  have hcpus : (saveCurrent (cleanup s) c frame frameAddr).cpus = s.cpus := by rw [saveCurrent_cpus, cleanup_cpus hnt]
  refine ⟨⟨fun v => (hgives.ready v).mp, fun w hown => ?_, fun d => by rw [hcpus]⟩, ?_⟩
  · rw [saveCurrent_vcpus_of_ne, cleanup_vcpus hnt]
    rw [Busy, cleanup_cpus hnt]
    exact fun h => hown ⟨rfl, h⟩
  by_cases hready : ∃ i g, HasReady (saveCurrent (cleanup s) c frame frameAddr) i g
  · exact .inl ((hsound.fair hr hgives).installs hready fpuOut)
  · have hb : ¬ Busy s c := fun hb => hready (hasReady_save hnt hr hb hseat hen)
    have hb' : ¬ Busy (cleanup s) c := by rwa [Busy, cleanup_cpus hnt]
    have hidle : (s.cpus c).currentVcpu = (s.cpus c).idleVcpu := not_not.mp hb
    refine .inr ⟨hb, ?_⟩
    rw [scheduleInner]
    split
    · exact ⟨.modifyCpu rfl, rfl⟩
    · rw [chooseNext_idle hready, saveCurrent_idle hb']
      refine ⟨?_, cleanup_vcpus hnt⟩
      have hclean : Calm s (cleanup s) :=
        .of_eq (fun v x hx => by rw [cleanup_vcpus hnt, hx]) (cleanup_cpus hnt) (cleanup_suspended hnt)
      have hstay : Calm (cleanup s) (toIdle (cleanup s) c) :=
        .modifyCpu (f := fun cpu => { cpu with currentVcpu := ((cleanup s).cpus c).idleVcpu })
          (by simp [Cpu.post, cleanup_cpus hnt, hidle])
      have hgo : Calm (toIdle (cleanup s) c) (resume c ⟨toIdle (cleanup s) c, false, 0, frame, fpuOut, none⟩) :=
        .modifyCpu rfl
      exact hclean.trans (hstay.trans hgo)

lemma tick_cases (hr : Ranged s) (hok : Orderly s (.tick c frameAddr)) :
    Handover (suspend s c) (saveCurrent (cleanup (suspend s c)) c (s.cpus c).frame frameAddr) c ∧
    (Installs (saveCurrent (cleanup (suspend s c)) c (s.cpus c).frame frameAddr) (tick s c frameAddr) c ∨
      ¬ Busy s c ∧ Calm (suspend s c) (tick s c frameAddr) ∧ (tick s c frameAddr).vcpus = (suspend s c).vcpus) := by
  obtain ⟨hsound, hseat, hen, hret⟩ := hok
  have hframe : ((suspend s c).cpus c).frame = (s.cpus c).frame := by rw [suspend_cpus, update_self]
  rw [← busy_suspend, tick, hframe]
  refine schedule_cases (hr.of_noNewGang sameSlots_suspend.noNewGang) hsound.suspend ?_ ?_ ?_
  · rw [Seated, busy_suspend, (suspend_cpu s c c).2.1, suspend_vcpus, suspend_gangs]
    exact hseat
  · rw [Enlisted, busy_suspend, (suspend_cpu s c c).2.1, suspend_vcpus, suspend_gangs]
    exact hen
  · rw [Returns, busy_suspend, (suspend_cpu s c c).2.1, suspend_vcpus]
    simp only [pmlOk_suspend]
    exact hret

lemma Posts.tick (h : Posts s) (hr : Ranged s) (ho : (s.cpus c).online = true) (hok : Orderly s (.tick c frameAddr)) :
    Posts (tick s c frameAddr) := by
  have hs := h.same (samePosts_suspend s c)
  obtain ⟨hover, hi | ⟨-, hcalm, -⟩⟩ := tick_cases hr hok
  · exact hs.installs ((suspend_cpu s c c).1.trans ho) hover hi
  · exact hs.same hcalm.samePosts

/-! ### Blocks -/

/-- What a block leaves before the next vCPU is chosen. -/
abbrev blocked (s : State) (c : ℕ) : State := suspend (halt s (s.cpus c).currentVcpu) c

/-- The current vCPU is halted, and its gang runs one less. -/
lemma blocked_frame (hx : s.vcpus (s.cpus c).currentVcpu = some x) (hg : s.gangs x.gangId = some g)
    (hpos : 0 < x.gangId) (hlt : x.gangId < maxGangs) :
    (blocked s c).vcpus = update s.vcpus (s.cpus c).currentVcpu (some { x with state := .halted }) ∧
    (blocked s c).gangs = update s.gangs x.gangId (some { g with runningCount := g.runningCount - 1 }) ∧
    (blocked s c).count = s.count ∧
    (blocked s c).cpus = update s.cpus c { s.cpus c with fpu := fninit (s.cpus c).fpu } := by
  rw [suspend_vcpus, suspend_gangs, suspend_count, suspend_cpus, halt_eq hx hg hpos hlt]
  exact ⟨rfl, rfl, rfl, rfl⟩

lemma noTerminated_blocked (hnt : NoTerminated s) (hx : s.vcpus (s.cpus c).currentVcpu = some x)
    (hg : s.gangs x.gangId = some g) (hpos : 0 < x.gangId) (hlt : x.gangId < maxGangs) :
    NoTerminated (blocked s c) := by
  obtain ⟨hvcpus, hgangs, -⟩ := blocked_frame hx hg hpos hlt
  intro i g' hg' v hv y hy
  rw [hvcpus] at hy
  rw [hgangs] at hg'
  by_cases hvc : v = (s.cpus c).currentVcpu
  · rw [hvc, update_self] at hy
    cases hy
    simp
  · rw [update_of_ne hvc] at hy
    by_cases hi : i = x.gangId
    · rw [hi, update_self] at hg'
      cases hg'
      exact hnt x.gangId g hg v hv y hy
    · rw [update_of_ne hi] at hg'
      exact hnt i g' hg' v hv y hy

/-- The state in which the next vCPU is chosen after a block. -/
lemma saveCurrent_blocked (frame : TrapFrame) (frameAddr : Word) (hnt : NoTerminated s) (hb : Busy s c)
    (hx : s.vcpus (s.cpus c).currentVcpu = some x)
    (hg : s.gangs x.gangId = some g) (hpos : 0 < x.gangId) (hlt : x.gangId < maxGangs) :
    ∃ s1 : State, saveCurrent (cleanup (blocked s c)) c frame frameAddr = s1 ∧
      (∃ y : Vcpu, y.state = .halted ∧ s1.vcpus = update s.vcpus (s.cpus c).currentVcpu (some y)) ∧
      s1.gangs = (cleanup (blocked s c)).gangs ∧ s1.count = s.count ∧
      s1.cpus = update s.cpus c { s.cpus c with fpu := fninit (s.cpus c).fpu } := by
  have hnt' := noTerminated_blocked hnt hx hg hpos hlt
  obtain ⟨hvcpus, -, hcount, hcpus⟩ := blocked_frame hx hg hpos hlt
  generalize blocked s c = s' at *
  have hcur : ((cleanup s').cpus c).currentVcpu = (s.cpus c).currentVcpu ∧ ((cleanup s').cpus c).idleVcpu = (s.cpus c).idleVcpu := by
    rw [cleanup_cpus hnt', hcpus, update_self]
    exact ⟨rfl, rfl⟩
  have hb' : Busy (cleanup s') c := by rwa [Busy, hcur.1, hcur.2]
  have hx' : (cleanup s').vcpus ((cleanup s').cpus c).currentVcpu = some { x with state := .halted } := by
    rw [hcur.1, cleanup_vcpus hnt', hvcpus, update_self]
  refine ⟨_, saveCurrent_halted hb' hx' rfl, ⟨{ x with
    state := .halted
    savedFrame := frameToSave frame frameAddr
    frameMagic := frameMagic
    fpuState := ((cleanup s').cpus c).fpu }, rfl, ?_⟩, rfl, ?_, ?_⟩
  · rw [setVcpu_vcpus, hcur.1, cleanup_vcpus hnt', hvcpus, update_idem]
  · rw [setVcpu_count, (noNewGang_cleanup s').1, hcount]
  · rw [setVcpu_cpus, cleanup_cpus hnt', hcpus]

lemma isReady_update {y : Vcpu} (hx : s.vcpus v = some x) (hxr : x.state ≠ .ready) (hy : y.state ≠ .ready)
    (hs : s'.vcpus = update s.vcpus v (some y)) (w : ℕ) : IsReady s' w ↔ IsReady s w := by
  unfold IsReady
  rw [hs]
  by_cases hw : w = v
  · subst hw
    simp [hx, hxr, hy]
  · simp [hw]

/-- Gangs with a vCPU stay, with their vCPUs. -/
lemma blocked_gang {j : ℕ} {gi : Gang} (hnt : NoTerminated s')
    (hgangs : s'.gangs = update s.gangs j (some { g with runningCount := g.runningCount - 1 }))
    (hg : s.gangs j = some g) (hgi : s.gangs i = some gi) (hv : v ∈ gi.members) :
    ∃ g', (cleanup s').gangs i = some g' ∧ g'.members = gi.members ∧ g'.state = gi.state := by
  by_cases hi : i = j
  · subst hi
    obtain rfl := Option.mem_unique hg hgi
    refine ⟨{ g with runningCount := g.runningCount - 1 }, cleanup_gangs_of_member hnt ?_ hv, rfl, rfl⟩
    rw [hgangs, update_self]
  · refine ⟨gi, cleanup_gangs_of_member hnt ?_ hv, rfl, rfl⟩
    rw [hgangs, update_of_ne hi, hgi]

lemma gives_halt (frame : TrapFrame) (frameAddr : Word) (hnt : NoTerminated s) (hr : Ranged s) (hb : Busy s c) (hseat : Seated s c) :
    Gives false s (saveCurrent (cleanup (blocked s c)) c frame frameAddr) c := by
  obtain ⟨x, g, hx, hrun, hg, hm⟩ := hseat hb
  obtain ⟨hpos, hlt'⟩ := hr.bounds hg
  have hnt' := noTerminated_blocked hnt hx hg hpos hlt'
  obtain ⟨-, hgangs, -⟩ := blocked_frame hx hg hpos hlt'
  obtain ⟨s1, heq, ⟨y, hyh, hvcpus⟩, hg1, hcount, hcpus⟩ :=
    saveCurrent_blocked frame frameAddr hnt hb hx hg hpos hlt'
  rw [heq]
  refine ⟨hcount, ?_, fun i gi hw => ?_, fun v => ?_, fun v z hz hzr => ?_, by rw [hcpus, update_self]⟩
  · refine gives_gangs false { g with runningCount := g.runningCount - 1 } hb hx hg (fun i g' hg' => ?_) rfl rfl rfl rfl rfl
    rw [hg1] at hg'
    rw [← hgangs]
    exact cleanup_gangs hnt' hg'
  · obtain ⟨hgi, -, v, hv, -⟩ := hw
    obtain ⟨g', hg', -⟩ := blocked_gang hnt' hgangs hg hgi hv
    exact ⟨g', by rw [hg1, hg']⟩
  · rw [isReady_update hx (by simp [hrun]) (by simp [hyh]) hvcpus]
    simp [Own]
  · rw [hvcpus] at hz
    by_cases hv : v = (s.cpus c).currentVcpu
    · rw [hv, update_self] at hz
      cases hz
      simp [hyh] at hzr
    · rw [update_of_ne hv] at hz
      exact .inl hz

/-- A ready vCPU can still be chosen after the current one is halted. -/
lemma hasReady_halt (hnt : NoTerminated s) (hr : Ranged s) (hb : Busy s c) (hseat : Seated s c) (hready : ∃ i g, HasReady s i g) :
    ∃ i g, HasReady (saveCurrent (cleanup (blocked s c)) c frame frameAddr) i g := by
  obtain ⟨x, g, hx, hrun, hg, hm⟩ := hseat hb
  obtain ⟨hpos, hlt'⟩ := hr.bounds hg
  have hnt' := noTerminated_blocked hnt hx hg hpos hlt'
  obtain ⟨-, hgangs, -⟩ := blocked_frame hx hg hpos hlt'
  obtain ⟨s1, heq, ⟨y, hyh, hvcpus⟩, hg1, -, -⟩ :=
    saveCurrent_blocked frame frameAddr hnt hb hx hg hpos hlt'
  obtain ⟨i, gi, hgi, ha, v, hv, hvr⟩ := hready
  have hvr' : IsReady s1 v := (isReady_update hx (by simp [hrun]) (by simp [hyh]) hvcpus v).mpr hvr
  obtain ⟨g', hg', hm', hst'⟩ := blocked_gang hnt' hgangs hg hgi hv
  rw [heq]
  exact ⟨i, g', by rw [hg1, hg'], hst'.trans ha, v, hm' ▸ hv, hvr'⟩

/-- The CPU halts its vCPU and goes on with a ready one. -/
lemma block_cases (hr : Ranged s) (hok : Orderly s (.block c frameAddr)) (hb : Busy s c) :
    Handover s (saveCurrent (cleanup (blocked s c)) c (s.cpus c).frame frameAddr) c ∧
    Installs (saveCurrent (cleanup (blocked s c)) c (s.cpus c).frame frameAddr)
      (blockCurrent s c frameAddr) c := by
  obtain ⟨hsound, hseat, hready⟩ := hok hb
  have hnt := hsound.noTerminated
  obtain ⟨x, g, hx, hrun, hg, hm⟩ := hseat hb
  obtain ⟨hpos, hlt'⟩ := hr.bounds hg
  have hframe : ((blocked s c).cpus c).frame = (s.cpus c).frame := by
    rw [(blocked_frame hx hg hpos hlt').2.2.2, update_self]
  have hgives := gives_halt (s.cpus c).frame frameAddr hnt hr hb hseat
  refine ⟨⟨fun v hv => ?_, fun w hown => ?_, fun d => ?_⟩, ?_⟩
  · exact .inl (((hgives.ready v).mp hv).resolve_right fun h => Bool.false_ne_true h.1)
  · obtain ⟨s1, hs1, ⟨z, -, hvcpus⟩, -⟩ := saveCurrent_blocked (s.cpus c).frame frameAddr hnt hb hx hg hpos hlt'
    rw [hs1, hvcpus, update_of_ne fun h => hown ⟨rfl, hb, h⟩]
  · obtain ⟨s1, hs1, -, -, -, hcpus⟩ := saveCurrent_blocked (s.cpus c).frame frameAddr hnt hb hx hg hpos hlt'
    rw [hs1, hcpus]
    by_cases hd : d = c
    · rw [hd, update_self]
      rfl
    · rw [update_of_ne hd]
  · rw [blockCurrent, if_neg hb]
    dsimp only
    rw [hframe]
    exact (hsound.fair hr hgives).installs (hasReady_halt hnt hr hb hseat hready) _

lemma Posts.block (h : Posts s) (hr : Ranged s) (ho : (s.cpus c).online = true) (hok : Orderly s (.block c frameAddr)) :
    Posts (blockCurrent s c frameAddr) := by
  by_cases hb : Busy s c
  · obtain ⟨hover, hi⟩ := block_cases hr hok hb
    exact h.installs ho hover hi
  · rw [blockCurrent, if_pos (not_not.mp hb)]
    exact h

/-! ### Crashes -/

/-- An idle vCPU is no driver. -/
lemma Posts.busy_of_driver (h : Posts s) (ho : (s.cpus c).online = true)
    (hdriver : isDriver s (s.cpus c).currentVcpu = true) : Busy s c := by
  intro hidle
  obtain ⟨x, hx, ht, -⟩ := h.idle c ho
  rw [isDriver, hidle, hx] at hdriver
  simp [ht] at hdriver

lemma Posts.crash {freed : Bool} (h : Posts s) (ho : (s.cpus c).online = true) (hdriver : isDriver s (s.cpus c).currentVcpu = true) :
    Posts ((handleCrash s (s.cpus c).currentVcpu freed).modifyCpu c fun cpu => { cpu with crashing := true }) := by
  have hb := h.busy_of_driver ho hdriver
  by_cases hsvc : (s.services (s.cpus c).currentVcpu).isSome = true
  · obtain ⟨-, hcpus, hvcpus, hself⟩ := handleCrash_frame freed hsvc
    obtain ⟨x, hx, -⟩ := h.busy c ho hb
    obtain ⟨x', hx', ht, -⟩ := hself x hx
    obtain ⟨hothers, hidle⟩ := h.current_unshared ho hb
    refine h.install (v := (s.cpus c).currentVcpu) (fun d hd => ?_) ?_ (.inr ⟨⟨x', hx', .inr ht⟩, hothers⟩)
      (fun d hd ho' hb' => hvcpus _ (hothers d hd ho' hb')) (fun d ho' => hvcpus _ (hidle d ho'))
    · rw [modifyCpu_cpus, update_of_ne hd, hcpus]
    · rw [modifyCpu_cpus, update_self, hcpus]
      simp [Cpu.post, h.executes c ho]
  · have hnone : handleCrash s (s.cpus c).currentVcpu freed = s := by
      rw [Option.not_isSome_iff_eq_none] at hsvc
      rw [handleCrash, hsvc]
    rw [hnone]
    exact h.same (.modifyCpu rfl)

/-- Recovery takes a ready driver, or goes to the idle vCPU. -/
lemma Posts.recover (h : Posts s) (ho : (s.cpus c).online = true) : Posts (recover s c) := by
  obtain ⟨x0, hx0, -⟩ := h.idle c ho
  rcases recover_cases s c with ⟨v, x, -, hx, hr, heq⟩ | ⟨-, heq⟩
  · rw [heq]
    refine h.switch (c := c) (v := v) ho (fun w hw _ => ?_) (.inl ⟨x, hx, hr⟩) ⟨_, update_self .., rfl⟩
      (fun d hd => ?_) ?_
    · simp [hw]
    · simp [hd]
    · simp [Cpu.post]
  · rw [heq]
    refine h.install (c := c) (v := (s.cpus c).idleVcpu) (fun d hd => ?_) ?_ (.inl rfl) (fun _ _ _ _ => rfl) (fun _ _ => rfl)
    · simp [hd]
    · simp [Cpu.post, hx0]

/-! ### Runs -/

lemma Posts.init (n : ℕ) (kernelPml4 : Word) : Posts (State.init n kernelPml4) where
  executes _ _ := rfl
  busy _ _ hb := absurd rfl hb
  apart _ _ _ _ hb := absurd rfl hb
  idle c ho := by
    have hc : c < min n Tlb.maxCpus := by simpa [State.init] using ho
    exact ⟨_, if_pos hc, rfl, rfl⟩

lemma Posts.step {e : Event} (h : Posts s) (hr : Ranged s) (hok : Orderly s e) (hstep : step s e = some s') : Posts s' := by
  cases stepped hstep with
  | user =>
    exact h.same (.modifyCpu rfl)
  | tick c frameAddr _ ho =>
    exact h.tick hr ho hok
  | block c frameAddr _ ho =>
    exact h.block hr ho hok
  | wake v =>
    exact h.same (calm_wake s v).samePosts
  | reply v result =>
    exact h.same (samePosts_reply s v result)
  | createGang =>
    exact h.same (still_createGang ..).calm.samePosts
  | register =>
    exact h.same (still_register ..).calm.samePosts
  | startService =>
    exact h.same (still_startService ..).calm.samePosts
  | crash c freed ho hdriver =>
    exact h.crash ho hdriver
  | recover c ho =>
    exact h.recover ho

/-- In every state of an orderly run. -/
theorem exclusive_execution {n : ℕ} {kernelPml4 : Word} {tr : List Event} (h : Runs Orderly n kernelPml4 tr s) : Exclusive s := by
  have hkeep : ∀ s e s', (Posts s ∧ Ranged s) → (Orderly s e ∧ step s e = some s') → (Posts s' ∧ Ranged s') :=
    fun s e s' hs hstep => ⟨hs.1.step hs.2 hstep.1 hstep.2, hs.2.step hstep.2⟩
  have hinv := Run.invariant hkeep h ⟨Posts.init n kernelPml4, Ranged.init n kernelPml4⟩
  exact hinv.1.exclusive

/-- After the ticks, each CPU executes the vCPU of a service. -/
theorem exclusive_execution_services : ∃ s, Runs Orderly 2 0x1000 twoServices s ∧ Exclusive s ∧ (s.cpus 0).executes = 2 ∧
    (s.cpus 1).executes = 3 := by
  have hfirst : Runs (fun _ _ => True) 2 0x1000 (twoServices.take 1) newFirst := .cons ⟨trivial, rfl⟩ (.nil _)
  have hsecond : Runs (fun _ _ => True) 2 0x1000 (twoServices.take 3) newSecond :=
    .cons ⟨trivial, rfl⟩ (.cons ⟨trivial, rfl⟩ (.cons ⟨trivial, rfl⟩ (.nil _)))
  have htick : Orderly newFirst (.tick 0 0x9000) := by
    refine ⟨sound_single 1 2 rfl (fun i g hg hi => ?_) rfl (fun v => List.mem_singleton) rfl (by decide) (.inl ⟨_, rfl, rfl⟩)
      (by decide +kernel) (fun _ => ⟨rfl, by decide +kernel, .inl (by decide), by decide⟩) (by decide),
      fun hb => absurd rfl hb, fun hb => absurd rfl hb, fun hb => absurd rfl hb⟩
    have hrange := (Ranged.of_runs hfirst).2 i g hg
    have hcount : newFirst.count = 2 := by decide +kernel
    omega
  have htick' : Orderly newSecond (.tick 1 0xA000) := by
    refine ⟨sound_single 2 3 rfl (fun i g hg hi => ?_) rfl (fun v => List.mem_singleton) rfl (by decide) (.inl ⟨_, rfl, rfl⟩)
      (by decide +kernel) (fun _ => ⟨rfl, by decide +kernel, .inl (by decide), by decide⟩) (by decide),
      fun hb => absurd rfl hb, fun hb => absurd rfl hb, fun hb => absurd rfl hb⟩
    have hrange := (Ranged.of_runs hsecond).2 i g hg
    have hcount : newSecond.count = 3 := by decide +kernel
    obtain rfl : i = 1 := by omega
    -- the first service runs on the other CPU
    obtain rfl : _ = g := Option.some.inj (rfl.trans hg)
    refine ⟨by decide +kernel, by decide, fun v hv => ⟨fun h => h.2.1 rfl, fun x hx => ?_⟩⟩
    obtain rfl := List.mem_singleton.mp hv
    obtain rfl : _ = x := Option.some.inj (rfl.trans hx)
    rfl
  have hrun : Runs Orderly 2 0x1000 twoServices (tick newSecond 1 0xA000) :=
    .cons ⟨trivial, rfl⟩ (.cons ⟨htick, rfl⟩ (.cons ⟨trivial, rfl⟩ (.cons ⟨htick', rfl⟩ (.nil _))))
  exact ⟨_, hrun, exclusive_execution hrun, by decide +kernel⟩

/-- The only vCPU blocks. Nothing else is ready, so the CPU goes on executing
it: it is halted, and the current vCPU is said to be the idle one. -/
theorem exclusive_execution_blocked : ∃ tr s, Runs (fun _ _ => True) 1 0x1000 tr s ∧ ¬ Exclusive s := by
  refine ⟨[.startService true 0x5000 0x400000 0x800000 (some 0x10000), .tick 0 0x9000, .block 0 0x9000], _,
    .cons ⟨trivial, rfl⟩ (.cons ⟨trivial, rfl⟩ (.cons ⟨trivial, rfl⟩ (.nil _))), fun h => ?_⟩
  have hexecutes := h.2.1 0 (by decide +kernel)
  revert hexecutes
  decide +kernel

end LodaxOS.Sched
