/-
# Gang accounting

A gang counts its vCPUs and those of them that run. The counters are right in
every run that asks for at most eight vCPUs a gang, registers vCPUs that are
free for it, never puts several vCPUs of a gang on one core, and in which a
vCPU that crashes is alone in its gang and is followed by the idle one.
-/
import LodaxOS.Sched.Steps

namespace LodaxOS.Sched

open Function List Option
open Arch (TrapFrame VcpuType)
open Asm (Word)
open Tlb (maxCpus)
open Traces (Run)

variable {s s' : State} {c i v : ℕ} {g : Gang} {x : Vcpu} {out : Option ℕ}

def isRunning (s : State) (v : ℕ) : Bool := (s.vcpus v).any fun x => x.state = .running

/-- The counters of every live gang are right. -/
def Accounting (s : State) : Prop :=
  ∀ i g, s.gangs i = some g → g.vcpuCount = g.members.length ∧ g.runningCount = g.members.countP (isRunning s) ∧
    g.runningCount ≤ g.vcpuCount

/-! ### The condition -/

/-- The gang of the vCPU that a CPU is about to save. -/
def currentGang (s : State) (c : ℕ) : Option ℕ :=
  if (s.cpus c).currentVcpu = (s.cpus c).idleVcpu then none else (s.vcpus (s.cpus c).currentVcpu).map Vcpu.gangId

/-- The vCPUs of a gang that do not run once a CPU has given up its own. -/
def demand (s : State) (c i : ℕ) (g : Gang) : ℕ :=
  g.vcpuCount - (g.runningCount - if currentGang s c = some i then 1 else 0)

/-- Some cores are free, but fewer than a gang asks for. -/
def Emulates (s : State) (c : ℕ) : Prop :=
  0 < countFreeCores s ∧ ∃ i g, s.gangs i = some g ∧ g.state = .active ∧ countFreeCores s < demand s c i g

/-- A vCPU that may be given to a new gang. -/
def Registrable (s : State) (v : ℕ) : Prop :=
  (∃ x, s.vcpus v = some x ∧ x.state ≠ .running ∧ x.state ≠ .terminated) ∧ ∀ i g, s.gangs i = some g → v ∉ g.members

/-- A crash of the vCPU takes its whole gang away. -/
def Alone (s : State) (v : ℕ) : Prop := ∀ i g, s.gangs i = some g → v ∈ g.members → g.members = [v]

/-- The steps that keep the counters right. -/
def Counted (s : State) : Event → Prop
  | .tick c _ => ¬ Emulates s c
  | .block c _ => ¬ Emulates s c
  | .createGang nVcpus _ _ _ => nVcpus ≤ maxVcpusPerGang
  | .register v _ => Registrable s v
  | .crash c _ => (s.services (s.cpus c).currentVcpu).isSome → Alone s (s.cpus c).currentVcpu
  | .recover c => (takeDriver s c).next = none
  | _ => True

/-! ### The invariant -/

/-- What a CPU's current vCPU is, if not its idle one: a running member of its
gang, or one that has crashed and is about to be replaced. -/
def Manned (s : State) (c : ℕ) : Prop :=
  ∃ x, s.vcpus (s.cpus c).currentVcpu = some x ∧ (x.state = .terminated ∧ (s.cpus c).crashing = true ∨
      x.state = .running ∧ ∃ g, s.gangs x.gangId = some g ∧ (s.cpus c).currentVcpu ∈ g.members)

/-- The counters are right, gangs do not share vCPUs, and neither do CPUs. One
CPU may be left out while it is between two vCPUs. -/
structure Books (out : Option ℕ) (s : State) : Prop where
  count_le : s.count ≤ maxGangs
  range : ∀ i g, s.gangs i = some g → 0 < i ∧ i < s.count
  nodup : ∀ i g, s.gangs i = some g → g.members.Nodup
  slots : ∀ i g, s.gangs i = some g → g.vcpuCount = g.members.length
  running : ∀ i g, s.gangs i = some g → g.runningCount = g.members.countP (isRunning s)
  member : ∀ i g, s.gangs i = some g → ∀ v ∈ g.members, ∃ x, s.vcpus v = some x ∧ x.gangId = i ∧ x.state ≠ .terminated
  manned : ∀ c, c ∉ out → Busy s c → Manned s c
  apart : ∀ c c', c ∉ out → c' ∉ out → Busy s c → Busy s c' → (s.cpus c).currentVcpu = (s.cpus c').currentVcpu → c = c'
  idle : ∀ c, (s.cpus c).online = true → ∃ x, s.vcpus (s.cpus c).idleVcpu = some x ∧ x.vcpuType = .idle

lemma Books.accounting (h : Books out s) : Accounting s := by
  intro i g hg
  refine ⟨h.slots i g hg, h.running i g hg, ?_⟩
  rw [h.slots i g hg, h.running i g hg]
  exact countP_le_length

lemma Books.noTerminated (h : Books out s) : NoTerminated s := by
  intro i g hg v hv x hx
  obtain ⟨y, hy, -, ht⟩ := h.member i g hg v hv
  obtain rfl := mem_unique hy hx
  exact ht

/-! ### What the books do not see -/

/-- The parts of a vCPU and of a CPU that the books are about. -/
def Vcpu.tag (x : Vcpu) : ℕ × VcpuType × Bool × Bool :=
  (x.gangId, x.vcpuType, x.state = .running, x.state = .terminated)
def Cpu.tag (cpu : Cpu) : ℕ × ℕ × Bool × Bool := (cpu.currentVcpu, cpu.idleVcpu, cpu.crashing, cpu.online)

/-- The second state has the books of the first; it may have more vCPUs. -/
structure SameBooks (s s' : State) : Prop where
  vcpus : ∀ v x, s.vcpus v = some x → ∃ x', s'.vcpus v = some x' ∧ x'.tag = x.tag
  gangs : s'.gangs = s.gangs
  count : s'.count = s.count
  cpus : ∀ c, (s'.cpus c).tag = (s.cpus c).tag

lemma SameBooks.of_eq (hv : s'.vcpus = s.vcpus) (hg : s'.gangs = s.gangs) (hn : s'.count = s.count) (hc : s'.cpus = s.cpus) :
    SameBooks s s' :=
  ⟨fun v x hx => ⟨x, by rw [hv, hx], rfl⟩, hg, hn, fun c => by rw [hc]⟩

lemma SameBooks.trans {s1 s2 s3 : State} (h : SameBooks s1 s2) (h' : SameBooks s2 s3) : SameBooks s1 s3 where
  vcpus v x hx := by
    obtain ⟨y, hy, ht⟩ := h.vcpus v x hx
    obtain ⟨z, hz, ht'⟩ := h'.vcpus v y hy
    exact ⟨z, hz, ht'.trans ht⟩
  gangs := h'.gangs.trans h.gangs
  count := h'.count.trans h.count
  cpus c := (h'.cpus c).trans (h.cpus c)

lemma SameBooks.some (h : SameBooks s s') (hx : s.vcpus v = some x) : ∃ x', s'.vcpus v = some x' ∧ x'.gangId = x.gangId ∧
    x'.vcpuType = x.vcpuType ∧ (x'.state = .running ↔ x.state = .running) ∧
    (x'.state = .terminated ↔ x.state = .terminated) := by
  obtain ⟨x', hx', ht⟩ := h.vcpus v x hx
  exact ⟨x', hx', by simpa [Vcpu.tag] using ht⟩

lemma isRunning_eq (hx : s.vcpus v = some x) : isRunning s v = decide (x.state = .running) := by
  rw [isRunning, hx]
  rfl

lemma SameBooks.cpu (h : SameBooks s s') (c : ℕ) : (s'.cpus c).currentVcpu = (s.cpus c).currentVcpu ∧
    (s'.cpus c).idleVcpu = (s.cpus c).idleVcpu ∧ (s'.cpus c).crashing = (s.cpus c).crashing ∧
    (s'.cpus c).online = (s.cpus c).online := by
  have ht := h.cpus c
  simp only [Cpu.tag, Prod.mk.injEq] at ht
  exact ht

lemma SameBooks.busy (h : SameBooks s s') : Busy s' c ↔ Busy s c := by
  obtain ⟨hc, hi, -⟩ := h.cpu c
  rw [Busy, Busy, hc, hi]

lemma Books.same (h : Books out s) (hs : SameBooks s s') : Books out s' where
  count_le := hs.count ▸ h.count_le
  range := by rw [hs.gangs, hs.count]; exact h.range
  nodup := by rw [hs.gangs]; exact h.nodup
  slots := by rw [hs.gangs]; exact h.slots
  running i g hg := by
    rw [hs.gangs] at hg
    rw [h.running i g hg]
    refine countP_congr fun v hv => ?_
    obtain ⟨x, hx, -⟩ := h.member i g hg v hv
    obtain ⟨x', hx', -, -, hr, -⟩ := hs.some hx
    rw [isRunning_eq hx, isRunning_eq hx', decide_eq_true_iff, decide_eq_true_iff, hr]
  member i g hg v hv := by
    rw [hs.gangs] at hg
    obtain ⟨x, hx, hi, ht⟩ := h.member i g hg v hv
    obtain ⟨x', hx', hi', -, -, ht'⟩ := hs.some hx
    exact ⟨x', hx', hi'.trans hi, fun h => ht (ht'.mp h)⟩
  manned c hc hb := by
    obtain ⟨x, hx, hcases⟩ := h.manned c hc (hs.busy.mp hb)
    obtain ⟨hcur, -, hcrash, -⟩ := hs.cpu c
    obtain ⟨x', hx', hi', -, hr', ht'⟩ := hs.some hx
    refine ⟨x', by rw [hcur, hx'], ?_⟩
    rw [ht', hr', hi', hcur, hcrash, hs.gangs]
    exact hcases
  apart c c' hc hc' hb hb' heq := by
    rw [(hs.cpu c).1, (hs.cpu c').1] at heq
    exact h.apart c c' hc hc' (hs.busy.mp hb) (hs.busy.mp hb') heq
  idle c ho := by
    obtain ⟨-, hi, -, hon⟩ := hs.cpu c
    obtain ⟨x, hx, ht⟩ := h.idle c (hon ▸ ho)
    obtain ⟨x', hx', -, ht', -⟩ := hs.some hx
    exact ⟨x', by rw [hi, hx'], ht'.trans ht⟩

variable {f : Cpu → Cpu}

lemma sameBooks_modifyCpu (hf : (f (s.cpus c)).tag = (s.cpus c).tag) : SameBooks s (s.modifyCpu c f) where
  vcpus _ x hx := ⟨x, hx, rfl⟩
  gangs := rfl
  count := rfl
  cpus d := by
    by_cases hd : d = c
    · subst hd
      rw [modifyCpu_cpus, update_self, hf]
    · rw [modifyCpu_cpus, update_of_ne hd]

lemma sameBooks_setVcpu {x' : Vcpu} (hx : ∀ x, s.vcpus v = some x → x'.tag = x.tag) :
    SameBooks s (s.setVcpu v (some x')) where
  vcpus w y hy := by
    by_cases hw : w = v
    · subst hw
      exact ⟨x', by rw [setVcpu_vcpus, update_self], hx y hy⟩
    · exact ⟨y, by rw [setVcpu_vcpus, update_of_ne hw, hy], rfl⟩
  gangs := rfl
  count := rfl
  cpus _ := rfl

lemma sameBooks_push (s : State) (c v : ℕ) : SameBooks s (s.push c v) :=
  sameBooks_modifyCpu (by split <;> rfl)

lemma sameBooks_addTaskCount (s : State) (c n : ℕ) : SameBooks s (s.addTaskCount c n) := sameBooks_modifyCpu rfl

lemma sameBooks_suspend (s : State) (c : ℕ) : SameBooks s (suspend s c) := by
  unfold suspend
  dsimp only
  split
  · exact sameBooks_modifyCpu rfl
  · refine SameBooks.trans ?_ (sameBooks_modifyCpu rfl)
    exact .of_eq rfl rfl rfl rfl

lemma sameBooks_resume (c : ℕ) (o : Outcome) : SameBooks o.state (resume c o) := sameBooks_modifyCpu rfl

lemma sameBooks_reply (s : State) (v : ℕ) (result : Word) : SameBooks s (reply s v result) where
  vcpus w y hy := by
    by_cases hw : w = v
    · subst hw
      exact ⟨{ y with savedFrame := { y.savedFrame with rax := result } }, by simp [reply, hy], rfl⟩
    · exact ⟨y, by simp [reply, hw, hy], rfl⟩
  gangs := rfl
  count := rfl
  cpus _ := rfl

/-- Waking makes a halted vCPU ready; the books tell only running and
terminated ones apart. -/
lemma sameBooks_wake (s : State) (v : ℕ) : SameBooks s (wake s v) := by
  unfold wake
  cases hx : s.vcpus v with
  | none => exact .of_eq rfl rfl rfl rfl
  | some =>
    dsimp only
    split
    · rename_i hh
      refine SameBooks.trans (sameBooks_setVcpu fun y hy => ?_)
        ((sameBooks_push _ _ v).trans (sameBooks_addTaskCount _ _ 1))
      obtain rfl := mem_unique hx hy
      simp [Vcpu.tag, hh]
    · exact .of_eq rfl rfl rfl rfl

/-! ### One vCPU changes its state -/

/-- Counting with a predicate that differs at one element. -/
lemma countP_update {p q : ℕ → Bool} (hpq : ∀ w, w ≠ v → q w = p w) : ∀ {l : List ℕ}, l.Nodup → v ∈ l →
    l.countP q + (if p v then 1 else 0) = l.countP p + (if q v then 1 else 0)
  | w :: l, hnd, hv => by
    obtain ⟨hw, hnd⟩ := nodup_cons.mp hnd
    rw [countP_cons, countP_cons]
    by_cases hwv : w = v
    · subst hwv
      have hrest : l.countP q = l.countP p := countP_congr fun u hu => by rw [hpq u fun h => hw (h ▸ hu)]
      rw [hrest]
      omega
    · have ih := countP_update hpq hnd ((mem_cons.mp hv).resolve_left (Ne.symm hwv))
      rw [hpq w hwv]
      omega

lemma isRunning_setVcpu_self {x' : Vcpu} : isRunning (s.setVcpu v (some x')) v = decide (x'.state = .running) := by
  simp [isRunning]

lemma isRunning_setVcpu_of_ne {w : ℕ} {x' : Option Vcpu} (hw : w ≠ v) : isRunning (s.setVcpu v x') w = isRunning s w := by
  simp [isRunning, hw]

section

variable {out out' : Option ℕ} {x' : Vcpu} {g' : Gang}

/-- A member of a gang changes its state and the gang its counter, as they
should. CPUs that had the vCPU as their current one are left out, unless it
runs afterwards. -/
lemma Books.setState (h : Books out s) (hx : s.vcpus v = some x) (hg : s.gangs i = some g) (hv : v ∈ g.members)
    (hgang : x'.gangId = x.gangId) (htype : x'.vcpuType = x.vcpuType) (hstate : x'.state ≠ .terminated) (hids : g'.vcpuIds = g.vcpuIds)
    (hcount : g'.vcpuCount = g.vcpuCount)
    (hrun : g'.runningCount + (if x.state = .running then 1 else 0) = g.runningCount + if x'.state = .running then 1 else 0)
    (hout : ∀ c, c ∉ out' → c ∉ out ∧ (Busy s c → (s.cpus c).currentVcpu = v → x'.state = .running)) :
    Books out' ((s.setGang i (some g')).setVcpu v (some x')) := by
  have hmem : g'.members = g.members := congrArg reduceOption hids
  obtain ⟨y, hy, hi, -⟩ := h.member i g hg v hv
  obtain rfl := mem_unique hy hx
  have hnotMem : ∀ j gj, s.gangs j = some gj → j ≠ i → v ∉ gj.members := by
    intro j gj hgj hj hvj
    obtain ⟨z, hz, hzj, -⟩ := h.member j gj hgj v hvj
    obtain rfl := mem_unique hz hx
    exact hj (hzj.symm.trans hi)
  -- a live gang is the old one, up to the counter
  have hgangs : ∀ j gj, ((s.setGang i (some g')).setVcpu v (some x')).gangs j = some gj →
      ∃ g0, s.gangs j = some g0 ∧ gj.members = g0.members ∧ gj.vcpuCount = g0.vcpuCount ∧
        (j ≠ i ∧ gj = g0 ∨ j = i ∧ gj = g' ∧ g0 = g) := by
    intro j gj hgj
    rw [setVcpu_gangs, setGang_gangs] at hgj
    by_cases hj : j = i
    · subst hj
      rw [update_self] at hgj
      obtain rfl : g' = gj := Option.some.inj hgj
      exact ⟨g, hg, hmem, hcount, .inr ⟨rfl, rfl, rfl⟩⟩
    · rw [update_of_ne hj] at hgj
      exact ⟨gj, hgj, rfl, rfl, .inl ⟨hj, rfl⟩⟩
  refine ⟨h.count_le, ?_, ?_, ?_, ?_, ?_, ?_, ?_, ?_⟩
  · intro j gj hgj
    obtain ⟨g0, hg0, -⟩ := hgangs j gj hgj
    exact h.range j g0 hg0
  · intro j gj hgj
    obtain ⟨g0, hg0, hm, -⟩ := hgangs j gj hgj
    exact hm ▸ h.nodup j g0 hg0
  · intro j gj hgj
    obtain ⟨g0, hg0, hm, hc, -⟩ := hgangs j gj hgj
    rw [hc, hm]
    exact h.slots j g0 hg0
  · intro j gj hgj
    obtain ⟨g0, hg0, hm, -, ⟨hj, rfl⟩ | ⟨rfl, rfl, rfl⟩⟩ := hgangs j gj hgj
    · rw [h.running j gj hg0]
      refine countP_congr fun w hw => ?_
      have hwv : w ≠ v := fun heq => hnotMem j gj hg0 hj (heq ▸ hw)
      rw [isRunning_setVcpu_of_ne hwv]
      rfl
    · have hcp := countP_update (v := v) (p := isRunning s) (q := isRunning ((s.setGang j (some gj)).setVcpu v (some x')))
        (fun w hw => isRunning_setVcpu_of_ne hw) (h.nodup j g0 hg0) hv
      rw [isRunning_setVcpu_self, ← h.running j g0 hg0] at hcp
      rw [isRunning_eq hx] at hcp
      rw [hm]
      simp only [decide_eq_true_eq] at hcp
      omega
  · intro j gj hgj w hw
    obtain ⟨g0, hg0, hm, -⟩ := hgangs j gj hgj
    obtain ⟨z, hz, hzj, hzt⟩ := h.member j g0 hg0 w (hm ▸ hw)
    by_cases hwv : w = v
    · subst hwv
      obtain rfl := mem_unique hz hx
      exact ⟨x', by rw [setVcpu_vcpus, update_self], hgang.trans hzj, hstate⟩
    · exact ⟨z, by rw [setVcpu_vcpus, update_of_ne hwv]; exact hz, hzj, hzt⟩
  · intro d hd hb
    obtain ⟨hd, hcur⟩ := hout d hd
    obtain ⟨z, hz, hcases⟩ := h.manned d hd hb
    by_cases hwv : (s.cpus d).currentVcpu = v
    · refine ⟨x', ?_, .inr ⟨hcur hb hwv, g', ?_, ?_⟩⟩
      · change update s.vcpus v (some x') (s.cpus d).currentVcpu = some x'
        rw [hwv, update_self]
      · rw [hgang, hi]
        exact update_self ..
      · change (s.cpus d).currentVcpu ∈ g'.members
        rw [hwv, hmem]
        exact hv
    · refine ⟨z, ?_, hcases.imp_right fun ⟨hr, g0, hg0, hm⟩ => ⟨hr, ?_⟩⟩
      · change update s.vcpus v (some x') (s.cpus d).currentVcpu = some z
        rw [update_of_ne hwv, hz]
      · by_cases hzi : z.gangId = i
        · refine ⟨g', by rw [hzi]; exact update_self .., ?_⟩
          rw [hzi, hg] at hg0
          obtain rfl : g = g0 := Option.some.inj hg0
          rw [hmem]
          exact hm
        · exact ⟨g0, (update_of_ne hzi ..).trans hg0, hm⟩
  · intro d d' hd hd' hb hb' heq
    exact h.apart d d' (hout d hd).1 (hout d' hd').1 hb hb' heq
  · intro d ho
    obtain ⟨z, hz, ht⟩ := h.idle d ho
    by_cases hdv : (s.cpus d).idleVcpu = v
    · rw [hdv, hx] at hz
      cases hz
      refine ⟨x', ?_, htype.trans ht⟩
      change update s.vcpus v (some x') (s.cpus d).idleVcpu = some x'
      rw [hdv, update_self]
    · exact ⟨z, (update_of_ne hdv ..).trans hz, ht⟩

end

/-! ### Saving -/

lemma Books.weaken (h : Books none s) : Books out s :=
  ⟨h.count_le, h.range, h.nodup, h.slots, h.running, h.member, fun c _ => h.manned c (by simp),
    fun c c' _ _ => h.apart c c' (by simp) (by simp), h.idle⟩

lemma Books.cleanup (h : Books out s) : Books out (cleanup s) := by
  have hnt := h.noTerminated
  have hgangs : ∀ i g, (Sched.cleanup s).gangs i = some g → s.gangs i = some g := fun i g => cleanup_gangs hnt
  have hrest : (Sched.cleanup s).vcpus = s.vcpus ∧ (Sched.cleanup s).cpus = s.cpus ∧ (Sched.cleanup s).count = s.count := by
    rw [cleanup_eq hnt]
    exact ⟨rfl, rfl, rfl⟩
  obtain ⟨hv, hc, hn⟩ := hrest
  refine ⟨hn ▸ h.count_le, fun i g hg => hn ▸ h.range i g (hgangs i g hg), fun i g hg => h.nodup i g (hgangs i g hg),
    fun i g hg => h.slots i g (hgangs i g hg), fun i g hg => ?_, fun i g hg => hv ▸ h.member i g (hgangs i g hg),
    fun c ho hb => ?_, ?_, by rw [hv, hc]; exact h.idle⟩
  · rw [h.running i g (hgangs i g hg)]
    refine countP_congr fun w _ => ?_
    rw [isRunning, isRunning, hv]
  · rw [Busy, hc] at hb
    obtain ⟨x, hx, hcases⟩ := h.manned c ho hb
    rw [Manned, hc, hv]
    refine ⟨x, hx, hcases.imp_right ?_⟩
    rintro ⟨hr, g, hg, hm⟩
    exact ⟨hr, g, cleanup_gangs_of_member hnt hg hm, hm⟩
  · unfold Busy
    rw [hc]
    exact h.apart

/-- The current vCPU of a CPU that is not in an exception handler runs, and
its gang counts it. -/
lemma Books.current (h : Books out s) (ho : c ∉ out) (hb : Busy s c) (hc : (s.cpus c).crashing = false) :
    ∃ x g, s.vcpus (s.cpus c).currentVcpu = some x ∧ x.state = .running ∧ s.gangs x.gangId = some g ∧
      (s.cpus c).currentVcpu ∈ g.members ∧ 0 < x.gangId ∧ x.gangId < maxGangs ∧ 0 < g.runningCount := by
  obtain ⟨x, hx, ⟨-, hcrash⟩ | ⟨hr, g, hg, hm⟩⟩ := h.manned c ho hb
  · rw [hc] at hcrash
    simp at hcrash
  · obtain ⟨hpos, hlt⟩ := h.range _ g hg
    refine ⟨x, g, hx, hr, hg, hm, hpos, lt_of_lt_of_le hlt h.count_le, ?_⟩
    rw [h.running _ g hg, countP_pos_iff]
    exact ⟨_, hm, by rw [isRunning_eq hx, decide_eq_true_iff]; exact hr⟩

/-- No other CPU has the vCPU that a CPU gives up. -/
lemma Books.other {d : ℕ} (h : Books none s) (hb : Busy s c) (hd : d ∉ some c) :
    d ∉ (none : Option ℕ) ∧ (Busy s d → (s.cpus d).currentVcpu ≠ (s.cpus c).currentVcpu) := by
  refine ⟨by simp, fun hbd heq => hd ?_⟩
  exact congrArg some (h.apart c d (by simp) (by simp) hb hbd heq.symm)

variable {frame : TrapFrame} {frameAddr : Word} {fpuOut : FpuState}

lemma Books.save (h : Books none s) (hc : (s.cpus c).crashing = false) : Books (some c) (saveCurrent s c frame frameAddr) := by
  by_cases hb : Busy s c
  · obtain ⟨x, g, hx, hr, hg, hm, hpos, hlt, hcount⟩ := h.current (by simp) hb hc
    rw [saveCurrent_running hb hx hr hg hpos hlt]
    refine h.setState hx hg hm rfl rfl (by simp) rfl rfl ?_ fun d hd => ?_
    · simp only [hr, Gang.charge, if_true, reduceCtorEq, if_false]
      omega
    · obtain ⟨hd, hne⟩ := h.other hb hd
      exact ⟨hd, fun hbd heq => absurd heq (hne hbd)⟩
  · rw [saveCurrent_idle hb]
    exact h.weaken

lemma Books.halt (h : Books none s) (hb : Busy s c) (hc : (s.cpus c).crashing = false) :
    Books (some c) (halt s (s.cpus c).currentVcpu) := by
  obtain ⟨x, g, hx, hr, hg, hm, hpos, hlt, hcount⟩ := h.current (by simp) hb hc
  rw [halt_eq hx hg hpos hlt]
  refine h.setState hx hg hm rfl rfl (by simp) rfl rfl ?_ fun d hd => ?_
  · simp only [hr, if_true, reduceCtorEq, if_false]
    omega
  · obtain ⟨hd, hne⟩ := h.other hb hd
    exact ⟨hd, fun hbd heq => absurd heq (hne hbd)⟩

/-! ### Loading -/

/-- What the CPU that is left out does to itself. -/
lemma Books.modifyOut (h : Books (some c) s) (hidle : (f (s.cpus c)).idleVcpu = (s.cpus c).idleVcpu)
    (honline : (f (s.cpus c)).online = (s.cpus c).online) : Books (some c) (s.modifyCpu c f) := by
  have hother : ∀ d, d ∉ some c → (s.modifyCpu c f).cpus d = s.cpus d := by
    intro d hd
    exact update_of_ne (fun heq => hd (congrArg some heq.symm)) ..
  refine ⟨h.count_le, h.range, h.nodup, h.slots, h.running, h.member, fun d hd hb => ?_,
    fun d d' hd hd' hb hb' heq => ?_, fun d ho => ?_⟩
  · have hman := h.manned d hd (by rwa [Busy, hother d hd] at hb)
    unfold Manned at hman ⊢
    rw [hother d hd]
    exact hman
  · rw [hother d hd, hother d' hd'] at heq
    exact h.apart d d' hd hd' (by rwa [Busy, hother d hd] at hb) (by rwa [Busy, hother d' hd'] at hb') heq
  · by_cases hd : d = c
    · subst hd
      rw [modifyCpu_cpus, update_self] at ho ⊢
      rw [hidle]
      exact h.idle d (honline ▸ ho)
    · rw [modifyCpu_cpus, update_of_ne hd] at ho ⊢
      exact h.idle d ho

/-- The CPU that was left out has a vCPU of its own, or its idle one. -/
lemma Books.close (h : Books (some c) s)
    (hin : Busy s c → Manned s c ∧ ∀ d, d ≠ c → Busy s d → (s.cpus d).currentVcpu ≠ (s.cpus c).currentVcpu) : Books none s := by
  have hout : ∀ d, d ≠ c → d ∉ some c := by
    intro d hd
    simpa using Ne.symm hd
  refine ⟨h.count_le, h.range, h.nodup, h.slots, h.running, h.member, fun d _ hb => ?_, fun d d' _ _ hb hb' heq => ?_, h.idle⟩
  · by_cases hd : d = c
    · exact hd ▸ (hin (hd ▸ hb)).1
    · exact h.manned d (hout d hd) hb
  · by_cases hd : d = c
    · by_cases hd' : d' = c
      · rw [hd, hd']
      · subst hd
        exact absurd heq.symm ((hin hb).2 d' hd' hb')
    · by_cases hd' : d' = c
      · subst hd'
        exact absurd heq ((hin hb').2 d hd hb)
      · exact h.apart d d' (hout d hd) (hout d' hd') hb hb' heq

lemma Books.toIdle (h : Books (some c) s) (hcur : (f (s.cpus c)).currentVcpu = (s.cpus c).idleVcpu)
    (hidle : (f (s.cpus c)).idleVcpu = (s.cpus c).idleVcpu) (honline : (f (s.cpus c)).online = (s.cpus c).online) :
    Books none (s.modifyCpu c f) := by
  refine (h.modifyOut hidle honline).close fun hb => absurd ?_ hb
  rw [modifyCpu_cpus, update_self, hcur, hidle]

/-- No gang asks for more than one vCPU a core. -/
def Fits (s : State) : Prop :=
  countFreeCores s = 0 ∨ ∀ i g, s.gangs i = some g → g.state = .active → g.vcpuCount - g.runningCount ≤ countFreeCores s

lemma perCore_of_fits (h : Fits s) (hg : s.gangs i = some g) (ha : g.state = .active) :
    perCore (g.vcpuCount - g.runningCount) (countFreeCores s) = 1 := by
  unfold perCore
  obtain h0 | hle := h
  · simp [h0]
  · rw [if_pos (hle i g hg ha)]

lemma Books.choose (h : Books (some c) s) (hfits : Fits s) : Books none (chooseNext s c frame fpuOut).state := by
  obtain ⟨heq, -⟩ | ⟨i, g, v, hb, hg, hp, heq⟩ := chooseNext_cases s c frame fpuOut
  · rw [heq]
    exact h.toIdle (f := fun cpu => { cpu with currentVcpu := (s.cpus c).idleVcpu }) rfl rfl rfl
  · obtain ⟨-, -, g', hg', ha, -⟩ := findBestGang_eq_some hb
    obtain rfl := mem_unique hg hg'
    obtain ⟨hv, x, hx, hr, -⟩ := pickVcpu_eq_some hp
    rw [perCore_of_fits hfits hg ha, if_neg (by omega)] at heq
    obtain ⟨y, hy, hi, -⟩ := h.member i g hg v hv
    obtain rfl := mem_unique hy hx
    have hadd : addRunning s i = s.setGang i (some { g with runningCount := g.runningCount + 1 }) := by
      rw [addRunning, State.modifyGang, hg, map_some]
    obtain ⟨w, hw, hstate⟩ := loadNext_state (addRunning s i) c frame fpuOut hx
    rw [heq, pushExtra, hstate, hadd]
    -- no CPU has a ready vCPU as its current one
    have hfree : ∀ d, d ≠ c → Busy s d → (s.cpus d).currentVcpu ≠ v := by
      intro d hd hbd hcur
      obtain ⟨z, hz, hcases⟩ := h.manned d (by simpa using Ne.symm hd) hbd
      rw [hcur] at hz
      obtain rfl := mem_unique hz hx
      rw [hr] at hcases
      simp at hcases
    have hbooks : Books (some c) ((s.setGang i (some { g with runningCount := g.runningCount + 1 })).setVcpu v
        (some { y with state := .running, frameMagic := 0 })) :=
      h.setState hx hg hv rfl rfl (by simp) rfl rfl (by simp [hr]) fun d hd => ⟨hd, fun _ _ => rfl⟩
    obtain rfl | rfl := hw
    · refine (hbooks.modifyOut (f := fun cpu => { cpu with currentVcpu := w }) rfl rfl).close fun _ => ⟨?_, fun d hd hbd => ?_⟩
      · refine ⟨{ y with state := .running, frameMagic := 0 }, ?_, .inr ⟨rfl, { g with runningCount := g.runningCount + 1 }, ?_, ?_⟩⟩
        · simp
        · simp [hi]
        · rw [modifyCpu_cpus, update_self]
          exact hv
      · rw [modifyCpu_cpus, update_self, update_of_ne hd]
        rw [Busy, modifyCpu_cpus, update_of_ne hd] at hbd
        exact hfree d hd hbd
    · exact hbooks.toIdle (f := fun cpu => { cpu with currentVcpu := (s.cpus c).idleVcpu }) rfl rfl rfl

/-! ### Scheduling -/

lemma countFreeCores_congr (h : ∀ d, (s'.cpus d).online = (s.cpus d).online ∧
    (s'.cpus d).currentVcpu = (s.cpus d).currentVcpu ∧ (s'.cpus d).idleVcpu = (s.cpus d).idleVcpu) :
    countFreeCores s' = countFreeCores s := by
  unfold countFreeCores
  congr 2
  funext d
  obtain ⟨ho, hc, hi⟩ := h d
  rw [ho, hc, hi]

lemma fits_of_demand (he : ¬ Emulates s c) (hfree : countFreeCores s' = countFreeCores s)
    (hg : ∀ i g', s'.gangs i = some g' → ∃ g, s.gangs i = some g ∧ g'.state = g.state ∧
      g'.vcpuCount - g'.runningCount ≤ demand s c i g) : Fits s' := by
  rw [Fits, hfree]
  by_cases h0 : countFreeCores s = 0
  · exact .inl h0
  · refine .inr fun i g' hg' ha => ?_
    obtain ⟨g, hgi, hst, hle⟩ := hg i g' hg'
    by_contra hlt
    exact he ⟨by omega, i, g, hgi, hst ▸ ha, by omega⟩

lemma currentGang_eq (hb : Busy s c) (hx : s.vcpus (s.cpus c).currentVcpu = some x) : currentGang s c = some x.gangId := by
  rw [currentGang, if_neg hb, hx, map_some]

/-- One less of the current vCPU's gang runs. -/
lemma demand_of_update {g1 : Gang} (hb : Busy s c) (hx : s.vcpus (s.cpus c).currentVcpu = some x)
    (hg : s.gangs x.gangId = some g) (hst : g1.state = g.state) (hn : g1.vcpuCount = g.vcpuCount)
    (hr : g1.runningCount = g.runningCount - 1) :
    ∀ i g', update s.gangs x.gangId (some g1) i = some g' → ∃ g, s.gangs i = some g ∧ g'.state = g.state ∧
      g'.vcpuCount - g'.runningCount ≤ demand s c i g := by
  intro i g' hg'
  by_cases hi : i = x.gangId
  · rw [hi, update_self] at hg'
    obtain rfl : g1 = g' := Option.some.inj hg'
    refine ⟨g, hi ▸ hg, hst, ?_⟩
    rw [demand, currentGang_eq hb hx, if_pos (by rw [hi]), hn, hr]
  · rw [update_of_ne hi] at hg'
    refine ⟨g', hg', rfl, ?_⟩
    rw [demand]
    omega

/-- The clean-up takes only empty gangs away. -/
lemma not_emulates_cleanup (h : NoTerminated s) (he : ¬ Emulates s c) : ¬ Emulates (cleanup s) c := by
  have hfree : countFreeCores (cleanup s) = countFreeCores s :=
    countFreeCores_congr fun d => by rw [cleanup_cpus h]; exact ⟨rfl, rfl, rfl⟩
  intro ⟨hpos, i, g, hg, ha, hlt⟩
  rw [hfree, demand, currentGang, cleanup_cpus h, cleanup_vcpus h] at hlt
  exact he ⟨hfree ▸ hpos, i, g, cleanup_gangs h hg, ha, hlt⟩

lemma fits_save (h : Books none s) (hc : (s.cpus c).crashing = false) (he : ¬ Emulates s c) :
    Fits (saveCurrent s c frame frameAddr) := by
  by_cases hb : Busy s c
  · obtain ⟨x, g, hx, hr, hg, -, hpos, hlt, -⟩ := h.current (by simp) hb hc
    rw [saveCurrent_running hb hx hr hg hpos hlt]
    exact fits_of_demand he (countFreeCores_congr fun _ => ⟨rfl, rfl, rfl⟩) (demand_of_update hb hx hg rfl rfl rfl)
  · rw [saveCurrent_idle hb]
    refine fits_of_demand he rfl fun i g hg => ⟨g, hg, rfl, ?_⟩
    rw [demand]
    omega

lemma not_emulates_suspend (he : ¬ Emulates s c) : ¬ Emulates (suspend s c) c := by
  have hfree : countFreeCores (suspend s c) = countFreeCores s := countFreeCores_congr (suspend_cpu s c)
  have hgang : currentGang (suspend s c) c = currentGang s c := by
    rw [currentGang, currentGang, (suspend_cpu s c c).2.1, (suspend_cpu s c c).2.2, suspend_vcpus]
  intro ⟨hpos, i, g, hg, ha, hlt⟩
  rw [suspend_gangs] at hg
  rw [hfree, demand, hgang] at hlt
  exact he ⟨hfree ▸ hpos, i, g, hg, ha, hlt⟩

lemma Books.schedule (h : Books none s) (hc : (s.cpus c).crashing = false) (he : ¬ Emulates s c) :
    Books none (scheduleInner s c frame frameAddr fpuOut).state := by
  have hcrash : ((Sched.cleanup s).cpus c).crashing = false := by rw [cleanup_cpus h.noTerminated, hc]
  unfold scheduleInner
  split
  · exact h
  · exact (h.cleanup.save hcrash).choose (fits_save h.cleanup hcrash (not_emulates_cleanup h.noTerminated he))

/-- The vCPU is halted before it is saved. -/
lemma Books.scheduleHalted (h : Books none s) (hb : Busy s c) (hc : (s.cpus c).crashing = false) (he : ¬ Emulates s c) :
    Books none (scheduleInner (suspend (Sched.halt s (s.cpus c).currentVcpu) c) c frame frameAddr fpuOut).state := by
  obtain ⟨x, g, hx, -, hg, -, hpos, hlt, -⟩ := h.current (by simp) hb hc
  have hhalted : Books (some c) (suspend (Sched.halt s (s.cpus c).currentVcpu) c) :=
    (h.halt hb hc).same (sameBooks_suspend ..)
  rw [halt_eq hx hg hpos hlt] at hhalted ⊢
  obtain ⟨s1, hs1⟩ : ∃ s1, s1 = suspend ((s.setGang x.gangId (some { g with runningCount := g.runningCount - 1 })).setVcpu
    (s.cpus c).currentVcpu (some { x with state := .halted })) c := ⟨_, rfl⟩
  rw [← hs1] at hhalted ⊢
  have hnt := hhalted.noTerminated
  have hcpu : ∀ d, ((Sched.cleanup s1).cpus d).online = (s.cpus d).online ∧
      ((Sched.cleanup s1).cpus d).currentVcpu = (s.cpus d).currentVcpu ∧
      ((Sched.cleanup s1).cpus d).idleVcpu = (s.cpus d).idleVcpu := by
    intro d
    rw [cleanup_cpus hnt, hs1]
    exact suspend_cpu _ c d
  have hcur : (Sched.cleanup s1).vcpus ((Sched.cleanup s1).cpus c).currentVcpu = some { x with state := .halted } := by
    rw [(hcpu c).2.1, cleanup_vcpus hnt, hs1, suspend_vcpus, setVcpu_vcpus, update_self]
  have hbusy : Busy (Sched.cleanup s1) c := by
    rw [Busy, (hcpu c).2.1, (hcpu c).2.2]
    exact hb
  unfold scheduleInner
  split
  · rename_i h0
    have hrange := (h.range _ g hg).2
    rw [hs1, suspend_count] at h0
    exact absurd (lt_trans hpos hrange) (not_lt.mpr (Nat.le_of_lt_succ h0))
  · rw [saveCurrent_halted hbusy hcur rfl]
    refine (hhalted.cleanup.same (sameBooks_setVcpu fun y hy => ?_)).choose ?_
    · obtain rfl : { x with state := .halted } = y := Option.mem_unique hcur hy
      rfl
    · refine fits_of_demand he (countFreeCores_congr hcpu) fun i g' hg' => ?_
      have hold := cleanup_gangs hnt hg'
      rw [hs1, suspend_gangs] at hold
      refine demand_of_update hb hx hg ?_ ?_ ?_ i g' hold
      · rfl
      · rfl
      · rfl

/-! ### New gangs -/

/-- A gang of vCPUs that no other gang has and no CPU runs. -/
lemma Books.addGang {ids : List ℕ} (h : Books none s) (hpos : 0 < s.count) (hlt : s.count < maxGangs)
    (hgangs : s'.gangs = update s.gangs s.count (some g)) (hcount : s'.count = s.count + 1)
    (hcpus : ∀ c, (s'.cpus c).tag = (s.cpus c).tag) (hids : g.members = ids) (hnd : ids.Nodup)
    (hn : g.vcpuCount = ids.length) (hr : g.runningCount = 0)
    (hnew : ∀ v ∈ ids, ∃ x, s'.vcpus v = some x ∧ x.gangId = s.count ∧ x.state ≠ .running ∧ x.state ≠ .terminated)
    (hfree : ∀ v ∈ ids, ∀ x, s.vcpus v = some x → x.state ≠ .running ∧ x.state ≠ .terminated)
    (hapart : ∀ v ∈ ids, ∀ i g, s.gangs i = some g → v ∉ g.members)
    (hold : ∀ v, v ∉ ids → s'.vcpus v = s.vcpus v)
    (htype : ∀ v x, s.vcpus v = some x → ∃ x', s'.vcpus v = some x' ∧ x'.vcpuType = x.vcpuType) : Books none s' := by
  subst hids
  have hcases : ∀ j gj, s'.gangs j = some gj → j = s.count ∧ gj = g ∨ j ≠ s.count ∧ s.gangs j = some gj := by
    intro j gj hgj
    rw [hgangs] at hgj
    by_cases hj : j = s.count
    · rw [hj, update_self] at hgj
      exact .inl ⟨hj, (Option.some.inj hgj).symm⟩
    · rw [update_of_ne hj] at hgj
      exact .inr ⟨hj, hgj⟩
  have hkeep : ∀ j gj, s.gangs j = some gj → s'.gangs j = some gj := by
    intro j gj hgj
    rw [hgangs, update_of_ne (ne_of_lt (h.range j gj hgj).2), hgj]
  have hcpu : ∀ c, (s'.cpus c).currentVcpu = (s.cpus c).currentVcpu ∧ (s'.cpus c).idleVcpu = (s.cpus c).idleVcpu ∧
      (s'.cpus c).crashing = (s.cpus c).crashing ∧ (s'.cpus c).online = (s.cpus c).online := by
    intro c
    have ht := hcpus c
    simp only [Cpu.tag, Prod.mk.injEq] at ht
    exact ht
  have hbusy : ∀ c, Busy s' c → Busy s c := by
    intro c hb
    rwa [Busy, (hcpu c).1, (hcpu c).2.1] at hb
  refine ⟨by omega, fun j gj hgj => ?_, fun j gj hgj => ?_, fun j gj hgj => ?_, fun j gj hgj => ?_,
    fun j gj hgj v hv => ?_, fun c ho hb => ?_, fun c c' ho ho' hb hb' heq => ?_, fun c ho => ?_⟩
  · obtain ⟨rfl, -⟩ | ⟨-, hgj⟩ := hcases j gj hgj
    · omega
    · have hrange := h.range j gj hgj
      omega
  · obtain ⟨-, rfl⟩ | ⟨-, hgj⟩ := hcases j gj hgj
    · exact hnd
    · exact h.nodup j gj hgj
  · obtain ⟨-, rfl⟩ | ⟨-, hgj⟩ := hcases j gj hgj
    · exact hn
    · exact h.slots j gj hgj
  · obtain ⟨-, rfl⟩ | ⟨-, hgj⟩ := hcases j gj hgj
    · rw [hr, eq_comm, countP_eq_zero]
      intro v hv
      obtain ⟨x, hx, -, hrun, -⟩ := hnew v hv
      rw [isRunning_eq hx, decide_eq_true_iff]
      exact hrun
    · rw [h.running j gj hgj]
      refine countP_congr fun v hv => ?_
      rw [isRunning, isRunning, hold v fun hmem => hapart v hmem j gj hgj hv]
  · obtain ⟨rfl, rfl⟩ | ⟨-, hgj⟩ := hcases j gj hgj
    · obtain ⟨x, hx, hi, -, ht⟩ := hnew v hv
      exact ⟨x, hx, hi, ht⟩
    · rw [hold v fun hmem => hapart v hmem j gj hgj hv]
      exact h.member j gj hgj v hv
  · obtain ⟨x, hx, hx'⟩ := h.manned c ho (hbusy c hb)
    have hne : (s.cpus c).currentVcpu ∉ g.members := by
      intro hmem
      obtain ⟨hrun, hterm⟩ := hfree _ hmem x hx
      obtain ⟨ht, -⟩ | ⟨hr', -⟩ := hx'
      · exact hterm ht
      · exact hrun hr'
    rw [Manned, (hcpu c).1, (hcpu c).2.2.1, hold _ hne]
    refine ⟨x, hx, hx'.imp_right ?_⟩
    rintro ⟨hrun, gx, hgx, hm⟩
    exact ⟨hrun, gx, hkeep _ gx hgx, hm⟩
  · rw [(hcpu c).1, (hcpu c').1] at heq
    exact h.apart c c' ho ho' (hbusy c hb) (hbusy c' hb') heq
  · rw [(hcpu c).2.1]
    obtain ⟨x, hx, ht⟩ := h.idle c ((hcpu c).2.2.2 ▸ ho)
    obtain ⟨x', hx', ht'⟩ := htype _ x hx
    exact ⟨x', hx', ht'.trans ht⟩

lemma Books.reserveZero (h : Books none s) : Books none (reserveZero s) := by
  unfold Sched.reserveZero
  split
  · rename_i h0
    have hnone : ∀ i g, s.gangs i ≠ some g := by
      intro i g hg
      have hrange := h.range i g hg
      omega
    exact ⟨by simp [maxGangs], fun i g hg => absurd hg (hnone i g), h.nodup, h.slots, h.running, h.member, h.manned, h.apart,
      h.idle⟩
  · exact h

lemma reserveZero_pos (s : State) : 0 < (reserveZero s).count := by
  unfold reserveZero
  split
  · exact Nat.one_pos
  · omega

lemma reserveZero_eq (s : State) : (reserveZero s).vcpus = s.vcpus ∧ (reserveZero s).gangs = s.gangs ∧
    (reserveZero s).cpus = s.cpus := by
  unfold reserveZero
  split
  · exact ⟨rfl, rfl, rfl⟩
  · exact ⟨rfl, rfl, rfl⟩

lemma members_of_slots (ids : List ℕ) (n : ℕ) : (ids.map some ++ replicate n none).reduceOption = ids := by
  rw [reduceOption_append, reduceOption_replicate_none, append_nil, reduceOption, filterMap_map]
  exact filterMap_some

lemma Books.register (h : Books none s) (hv : Registrable s v) (stack : Option Word) :
    Books none (registerDriverVcpu s v stack).1 := by
  obtain ⟨⟨x, hx, hrun, hterm⟩, hapart⟩ := hv
  obtain ⟨hvcpus, hgangs, -⟩ := reserveZero_eq s
  have hzero := h.reserveZero
  have hpos := reserveZero_pos s
  unfold registerDriverVcpu
  split
  · exact h
  · dsimp only
    split
    · exact hzero
    · rename_i pages hlt
      refine hzero.addGang hpos (by omega) rfl rfl (fun _ => rfl) (members_of_slots [v] 7) (by simp) rfl rfl ?_ ?_ ?_ ?_ ?_
      · intro w hw
        obtain rfl := mem_singleton.mp hw
        refine ⟨{ x with kernelStackTop := stackTop pages, gangId := (Sched.reserveZero s).count }, ?_, rfl, hrun, hterm⟩
        simp [hvcpus, hx]
      · intro w hw y hy
        obtain rfl := mem_singleton.mp hw
        rw [hvcpus, hx] at hy
        cases hy
        exact ⟨hrun, hterm⟩
      · intro w hw i g hg
        obtain rfl := mem_singleton.mp hw
        exact hapart i g (hgangs ▸ hg)
      · intro w hw
        have hne : w ≠ v := by simpa using hw
        simp [hne]
      · intro w y hy
        by_cases hw : w = v
        · subst hw
          exact ⟨{ y with kernelStackTop := stackTop pages, gangId := (Sched.reserveZero s).count }, by simp [hy], rfl⟩
        · exact ⟨y, by simp [hw, hy], rfl⟩

lemma sameBooks_pushAll (c : ℕ) : ∀ (ids : List ℕ) (s : State), SameBooks s (ids.foldl (fun s v => s.push c v) s)
  | [], _ => .of_eq rfl rfl rfl rfl
  | v :: ids, s => (sameBooks_push s c v).trans (sameBooks_pushAll c ids (s.push c v))

lemma pushAll_vcpus (c : ℕ) : ∀ (ids : List ℕ) (s : State), (ids.foldl (fun s v => s.push c v) s).vcpus = s.vcpus
  | [], _ => rfl
  | v :: ids, s => pushAll_vcpus c ids (s.push c v)

lemma Books.createGang {nVcpus : ℕ} {entry arg : Word} {stackPages : List (Option Word)} (h : Books none s)
    (hn : nVcpus ≤ maxVcpusPerGang) : Books none (createGang s nVcpus entry arg stackPages) := by
  have hzero := h.reserveZero
  have hpos := reserveZero_pos s
  unfold Sched.createGang
  generalize Sched.reserveZero s = s0 at hzero hpos ⊢
  dsimp only
  split
  · exact hzero
  · rename_i hlt
    rw [min_eq_left hn]
    obtain ⟨honly, hcases⟩ := makeVcpus_spec s0.count entry arg nVcpus stackPages s0 []
    generalize makeVcpus s0.count entry arg nVcpus stackPages s0 [] = r at honly hcases ⊢
    obtain ⟨s1, made⟩ := r
    obtain ⟨hgangs, hcount, hcpus⟩ := honly.frame
    obtain ⟨hnone, hvcpus⟩ | ⟨ids, hsome, hlen, hnd, hnew, hold⟩ := hcases
    · dsimp only at hnone hvcpus
      subst hnone
      exact hzero.same (.of_eq (funext fun w => by simpa using hvcpus w) hgangs hcount hcpus)
    · dsimp only at hsome hnew hold
      subst hsome
      rw [nil_append]
      dsimp only
      have hpush := (sameBooks_pushAll s1.findLeastLoaded ids s1).trans
        (sameBooks_addTaskCount _ s1.findLeastLoaded nVcpus)
      have hvcpus : ((ids.foldl (fun s v => s.push s1.findLeastLoaded v) s1).addTaskCount s1.findLeastLoaded nVcpus).vcpus =
          s1.vcpus := pushAll_vcpus s1.findLeastLoaded ids s1
      generalize (ids.foldl (fun s v => s.push s1.findLeastLoaded v) s1).addTaskCount s1.findLeastLoaded nVcpus = s2
        at hpush hvcpus ⊢
      have hgangs2 : ∀ G, update s2.gangs s0.count (some G) = update s0.gangs s0.count (some G) := by
        intro G
        rw [hpush.gangs, hgangs]
      refine hzero.addGang hpos (by omega) (hgangs2 _) ?_ (fun c => ?_) (members_of_slots ids _) hnd hlen.symm rfl
        (fun w hw => ?_) (fun w hw x hx => ?_) (fun w hw i g hg hmem => ?_) (fun w hw => ?_)
        (fun w x hx => ?_)
      · change s2.count + 1 = s0.count + 1
        rw [hpush.count, hcount]
      · change (s2.cpus c).tag = _
        rw [hpush.cpus, hcpus]
      · obtain ⟨-, x, hx, hi, hready⟩ := hnew w hw
        refine ⟨x, ?_, hi, by rw [hready]; simp, by rw [hready]; simp⟩
        change s2.vcpus w = some x
        rw [hvcpus, hx]
      · rw [(hnew w hw).1] at hx
        simp at hx
      · obtain ⟨x, hx, -⟩ := hzero.member i g hg w hmem
        rw [(hnew w hw).1] at hx
        simp at hx
      · change s2.vcpus w = s0.vcpus w
        rw [hvcpus, hold w hw]
      · have hw : w ∉ ids := fun hw => by simp [(hnew w hw).1] at hx
        refine ⟨x, ?_, rfl⟩
        change s2.vcpus w = some x
        rw [hvcpus, hold w hw, hx]

lemma Books.startService {hardware : Bool} {pml4 entry stackTop : Word} {stack : Option Word} (h : Books none s) :
    Books none (startService s hardware pml4 entry stackTop stack) := by
  unfold Sched.startService
  cases ha : s.alloc 0 pml4 (driverType hardware) with
  | none => exact h
  | some p =>
    obtain ⟨v, s1⟩ := p
    obtain ⟨hv, honly, x, hs1⟩ := alloc_eq_some ha
    obtain ⟨hgangs, hcount, hcpus⟩ := honly.frame
    dsimp only
    have hvcpus : (s1.modifyVcpu v fun x => x.enter entry stackTop).vcpus = update s.vcpus v (some (x.enter entry stackTop)) := by
      rw [modifyVcpu_vcpus, hs1, update_self, map_some, update_idem]
    generalize hs2 : ({ s1.modifyVcpu v (fun x => x.enter entry stackTop) with
      services := update (s1.modifyVcpu v fun x => x.enter entry stackTop).services v (some pml4) } : State) = s2
    have hframe : s2.vcpus = update s.vcpus v (some (x.enter entry stackTop)) ∧ s2.gangs = s.gangs ∧
        s2.count = s.count ∧ s2.cpus = s.cpus := by
      subst hs2
      exact ⟨hvcpus, hgangs, hcount, hcpus⟩
    obtain ⟨hvcpus, hgangs, hcount, hcpus⟩ := hframe
    have hsame : SameBooks s s2 := by
      refine ⟨fun w y hy => ⟨y, ?_, rfl⟩, hgangs, hcount, fun d => by rw [hcpus]⟩
      have hne : w ≠ v := fun heq => by simp [heq, hv] at hy
      rw [hvcpus, update_of_ne hne, hy]
    have hreg : Registrable s2 v := by
      refine ⟨⟨x.enter entry stackTop, by rw [hvcpus, update_self], by simp [Vcpu.enter], by simp [Vcpu.enter]⟩, ?_⟩
      intro i g hg hmem
      obtain ⟨y, hy, -⟩ := h.member i g (hgangs ▸ hg) v hmem
      simp [hv] at hy
    have hbooks := (h.same hsame).register hreg stack
    generalize registerDriverVcpu s2 v stack = r at hbooks ⊢
    obtain ⟨s3, done⟩ := r
    cases done with
    | false => exact hbooks
    | true => exact hbooks.same ((sameBooks_push ..).trans (sameBooks_addTaskCount ..))

/-! ### Crashes -/

lemma reduceOption_erase (v : ℕ) : ∀ slots : List (Option ℕ),
    (slots.map fun slot => if slot = some v then none else slot).reduceOption = slots.reduceOption.filter (· ≠ v)
  | [] => rfl
  | none :: slots => by simpa using reduceOption_erase v slots
  | some w :: slots => by
    have ih := reduceOption_erase v slots
    by_cases hw : w = v
    · simpa [hw] using ih
    · simpa [hw] using ih

lemma remove_of_notMem (hv : v ∉ g.members) : g.remove v = if g.members = [] then none else some g := by
  have hslot : some v ∉ g.vcpuIds := fun hmem => hv (reduceOption_mem_iff.mpr hmem)
  have hmap : (g.vcpuIds.map fun slot => if slot = some v then none else slot) = g.vcpuIds := by
    conv_rhs => rw [← map_id g.vcpuIds]
    refine map_congr_left fun slot hmem => ?_
    have hne : slot ≠ some v := fun h => hslot (h ▸ hmem)
    rw [if_neg hne]
    rfl
  unfold Gang.remove
  simp only [hmap, all_isNone_iff, count_eq_zero_of_not_mem hslot, List.isEmpty_iff]
  rfl

lemma remove_alone (hv : g.members = [v]) : g.remove v = none := by
  unfold Gang.remove
  dsimp only
  rw [all_isNone_iff, reduceOption_erase, show g.vcpuIds.reduceOption = [v] from hv]
  simp

/-- What a crash leaves: the vCPU is terminated, and gangs of which it was the
only vCPU are gone, as are empty ones. -/
lemma handleCrash_gangs (freed : Bool) (h : Books none s) (halone : Alone s v) (hsvc : (s.services v).isSome = true) :
    (∀ i g, (handleCrash s v freed).gangs i = some g → s.gangs i = some g ∧ v ∉ g.members) ∧
    ∀ i g, s.gangs i = some g → v ∉ g.members → g.members ≠ [] → (handleCrash s v freed).gangs i = some g := by
  obtain ⟨pml4, hpml4⟩ := isSome_iff_exists.mp hsvc
  have hgangs : ∀ i, (handleCrash s v freed).gangs i = if i < maxGangs then (s.gangs i).bind fun g => g.remove v else s.gangs i := by
    intro i
    simp only [handleCrash, hpml4]
    rfl
  have hlt : ∀ i g, s.gangs i = some g → i < maxGangs := fun i g hg => lt_of_lt_of_le (h.range i g hg).2 h.count_le
  refine ⟨fun i g hg => ?_, fun i g hg hv hne => ?_⟩
  · cases hold : s.gangs i with
    | none => simp [hgangs, hold] at hg
    | some g0 =>
      rw [hgangs, if_pos (hlt i g0 hold), hold, bind_some] at hg
      by_cases hv : v ∈ g0.members
      · rw [remove_alone (halone i g0 hold hv)] at hg
        simp at hg
      · rw [remove_of_notMem hv] at hg
        split at hg
        · simp at hg
        · cases hg
          exact ⟨rfl, hv⟩
  · rw [hgangs, if_pos (hlt i g hg), hg, bind_some, remove_of_notMem hv, if_neg hne]

lemma handleCrash_frame (freed : Bool) (hsvc : (s.services v).isSome = true) :
    (handleCrash s v freed).count = s.count ∧ (handleCrash s v freed).cpus = s.cpus ∧
    (∀ w, w ≠ v → (handleCrash s v freed).vcpus w = s.vcpus w) ∧
    ∀ x, s.vcpus v = some x → ∃ x', (handleCrash s v freed).vcpus v = some x' ∧ x'.state = .terminated ∧ x'.vcpuType = x.vcpuType := by
  obtain ⟨pml4, hpml4⟩ := isSome_iff_exists.mp hsvc
  simp only [handleCrash, hpml4]
  refine ⟨rfl, rfl, fun w hw => update_of_ne hw .., fun x hx => ⟨{ x with state := .terminated, pml4 := pml4 }, ?_, rfl, rfl⟩⟩
  change update s.vcpus v ((s.vcpus v).map _) v = _
  rw [update_self, hx, map_some]

/-- Without the CPU that crashed, whose vCPU no other CPU has. -/
lemma Books.handleCrash (h : Books none s) (freed : Bool) (hb : Busy s c)
    (hsvc : (s.services (s.cpus c).currentVcpu).isSome = true) (halone : Alone s (s.cpus c).currentVcpu) :
    Books (some c) (handleCrash s (s.cpus c).currentVcpu freed) := by
  obtain ⟨hsub, hkeep⟩ := handleCrash_gangs freed h halone hsvc
  obtain ⟨hcount, hcpus, hvcpus, hself⟩ := handleCrash_frame freed hsvc
  generalize Sched.handleCrash s (s.cpus c).currentVcpu freed = s1 at *
  have hmem : ∀ i g, s1.gangs i = some g → ∀ w ∈ g.members, s1.vcpus w = s.vcpus w := by
    intro i g hg w hw
    exact hvcpus w fun heq => (hsub i g hg).2 (heq ▸ hw)
  refine ⟨hcount ▸ h.count_le, fun i g hg => hcount ▸ h.range i g (hsub i g hg).1, fun i g hg => h.nodup i g (hsub i g hg).1,
    fun i g hg => h.slots i g (hsub i g hg).1, fun i g hg => ?_, fun i g hg w hw => ?_, fun d hd hbd => ?_, ?_, fun d ho => ?_⟩
  · rw [h.running i g (hsub i g hg).1]
    refine countP_congr fun w hw => ?_
    rw [isRunning, isRunning, hmem i g hg w hw]
  · rw [hmem i g hg w hw]
    exact h.member i g (hsub i g hg).1 w hw
  · rw [Busy, hcpus] at hbd
    have hne := (h.other hb hd).2 hbd
    rw [Manned, hcpus, hvcpus _ hne]
    obtain ⟨x, hx, hcases⟩ := h.manned d (by simp) hbd
    refine ⟨x, hx, hcases.imp_right ?_⟩
    rintro ⟨hr, g, hg, hm⟩
    refine ⟨hr, g, hkeep _ g hg (fun hv => ?_) (ne_nil_of_mem hm), hm⟩
    rw [halone _ g hg hv, mem_singleton] at hm
    exact hne hm
  · unfold Busy
    rw [hcpus]
    exact fun d d' _ _ => h.apart d d' (by simp) (by simp)
  · rw [hcpus] at ho ⊢
    obtain ⟨x, hx, ht⟩ := h.idle d ho
    by_cases hd : (s.cpus d).idleVcpu = (s.cpus c).currentVcpu
    · rw [hd] at hx ⊢
      obtain ⟨x', hx', -, ht'⟩ := hself x hx
      exact ⟨x', hx', ht'.trans ht⟩
    · exact ⟨x, (hvcpus _ hd).trans hx, ht⟩

lemma Books.crash {freed : Bool} (h : Books none s) (hb : Busy s c)
    (halone : (s.services (s.cpus c).currentVcpu).isSome → Alone s (s.cpus c).currentVcpu) :
    Books none ((Sched.handleCrash s (s.cpus c).currentVcpu freed).modifyCpu c fun cpu => { cpu with crashing := true }) := by
  obtain ⟨x, hx, hcases⟩ := h.manned c (by simp) hb
  have hother : ∀ d, d ≠ c → Busy s d → (s.cpus d).currentVcpu ≠ (s.cpus c).currentVcpu :=
    fun d hd => (h.other hb (by simpa using Ne.symm hd)).2
  by_cases hsvc : (s.services (s.cpus c).currentVcpu).isSome = true
  · obtain ⟨-, hcpus, -, hself⟩ := handleCrash_frame freed hsvc
    obtain ⟨x', hx', ht, -⟩ := hself x hx
    have hbooks := h.handleCrash freed hb hsvc (halone hsvc)
    generalize Sched.handleCrash s (s.cpus c).currentVcpu freed = s1 at *
    refine (hbooks.modifyOut rfl rfl).close fun _ => ⟨⟨x', ?_, .inl ⟨ht, ?_⟩⟩, fun d hd hbd => ?_⟩
    · simpa [hcpus] using hx'
    · simp
    · rw [Busy, modifyCpu_cpus, update_of_ne hd, hcpus] at hbd
      rw [modifyCpu_cpus, update_of_ne hd, update_self, hcpus]
      exact hother d hd hbd
  · have hnone : Sched.handleCrash s (s.cpus c).currentVcpu freed = s := by
      rw [not_isSome_iff_eq_none] at hsvc
      rw [Sched.handleCrash, hsvc]
    rw [hnone]
    refine (h.weaken.modifyOut rfl rfl).close fun _ => ⟨⟨x, ?_, hcases.imp ?_ ?_⟩, fun d hd hbd => ?_⟩
    · simpa using hx
    · rintro ⟨ht, -⟩
      exact ⟨ht, by simp⟩
    · rintro ⟨hr, g, hg, hm⟩
      exact ⟨hr, g, hg, by simpa using hm⟩
    · rw [Busy, modifyCpu_cpus, update_of_ne hd] at hbd
      rw [modifyCpu_cpus, update_of_ne hd, update_self]
      exact hother d hd hbd

lemma Books.recover (h : Books none s) (hnone : (takeDriver s c).next = none) : Books none (recover s c) := by
  rcases recover_cases s c with ⟨v, _, hv, -⟩ | ⟨-, heq⟩
  · rw [hnone] at hv
    cases hv
  rw [heq]
  refine h.weaken.toIdle (c := c) ?_ ?_ ?_
  · rfl
  · rfl
  · rfl

/-! ### Runs -/

lemma Books.init (n : ℕ) (kernelPml4 : Word) : Books none (State.init n kernelPml4) where
  count_le := Nat.zero_le _
  range _ _ hg := by simp [State.init] at hg
  nodup _ _ hg := by simp [State.init] at hg
  slots _ _ hg := by simp [State.init] at hg
  running _ _ hg := by simp [State.init] at hg
  member _ _ hg := by simp [State.init] at hg
  manned _ _ hb := absurd rfl hb
  apart _ _ _ _ hb := absurd rfl hb
  idle c ho := by
    have hc : c < min n maxCpus := by simpa [State.init] using ho
    exact ⟨_, if_pos hc, rfl⟩

/-- What one step keeps. -/
lemma Books.step {e : Event} (h : Books none s) (hcounted : Counted s e) (hstep : step s e = some s') : Books none s' := by
  cases stepped hstep with
  | user =>
    exact h.same (sameBooks_modifyCpu rfl)
  | tick c frameAddr _ _ hcr =>
    refine Books.same ((h.same (sameBooks_suspend s c)).schedule ?_ ?_) (sameBooks_resume ..)
    · rw [((sameBooks_suspend s c).cpu c).2.2.1, hcr]
    · exact not_emulates_suspend hcounted
  | block c frameAddr _ _ hcr =>
    unfold blockCurrent
    split
    · exact h
    · rename_i hb
      exact (h.scheduleHalted hb hcr hcounted).same (sameBooks_resume ..)
  | wake v =>
    exact h.same (sameBooks_wake s v)
  | reply v result =>
    exact h.same (sameBooks_reply s v result)
  | createGang =>
    exact h.createGang hcounted
  | register v stack =>
    exact h.register hcounted stack
  | startService =>
    exact h.startService
  | crash c freed ho hdriver =>
    refine h.crash (fun hidle => ?_) hcounted
    -- an idle vCPU is no driver
    obtain ⟨x, hx, ht⟩ := h.idle c ho
    rw [isDriver, hidle, hx] at hdriver
    simp [ht] at hdriver
  | recover =>
    exact h.recover hcounted

/-- A run from a start with `n` CPUs, of steps that meet a condition. -/
def Runs (cond : State → Event → Prop) (n : ℕ) (kernelPml4 : Word) (tr : List Event) (s : State) : Prop :=
  Run (fun s e s' => cond s e ∧ step s e = some s') (State.init n kernelPml4) tr s

lemma Books.of_runs {n : ℕ} {kernelPml4 : Word} {tr : List Event} (h : Runs Counted n kernelPml4 tr s) : Books none s :=
  h.invariant (fun _ _ _ hs hstep => hs.step hstep.1 hstep.2) (Books.init n kernelPml4)

/-- The counters of every live gang are right in every state of a run of such
steps. -/
theorem gang_accounting {n : ℕ} {kernelPml4 : Word} {tr : List Event} (h : Runs Counted n kernelPml4 tr s) : Accounting s :=
  (Books.of_runs h).accounting

/-- A service on the only CPU. -/
def oneService : List Event := [.startService true 0x5000 0x400000 0x800000 (some 0x10000), .tick 0 0x9000]

/-- Two CPUs and a service that has not run yet. -/
def newFirst : State := startService (State.init 2 0x1000) true 0x5000 0x400000 0x800000 (some 0x10000)

/-- It runs on the first CPU, and a second one has not run yet. -/
def newSecond : State := startService (tick newFirst 0 0x9000) true 0x6000 0x500000 0x900000 (some 0x14000)

/-- A service on each of two CPUs. -/
def twoServices : List Event :=
  [.startService true 0x5000 0x400000 0x800000 (some 0x10000), .tick 0 0x9000,
    .startService true 0x6000 0x500000 0x900000 (some 0x14000), .tick 1 0xA000]

lemma Books.not_emulates (h : Books out s) (hall : ∀ i < s.count, (s.gangs i).all (fun g => demand s c i g ≤ countFreeCores s) = true) :
    ¬ Emulates s c := by
  rintro ⟨-, i, g, hg, -, hlt⟩
  have hle := hall i (h.range i g hg).2
  rw [hg] at hle
  exact absurd (of_decide_eq_true hle) (not_le.mpr hlt)

/-- After the second tick, both gangs have one vCPU, which runs. -/
theorem gang_accounting_services : ∃ s, Runs Counted 2 0x1000 twoServices s ∧ Accounting s ∧
    ∀ i ∈ [1, 2], (s.gangs i).map (fun g => (g.vcpuCount, g.runningCount)) = some (1, 1) := by
  have hfirst : Runs Counted 2 0x1000 (twoServices.take 1) newFirst := .cons ⟨trivial, rfl⟩ (.nil _)
  have htick : ¬ Emulates newFirst 0 := (Books.of_runs hfirst).not_emulates (by decide +kernel)
  have hsecond : Runs Counted 2 0x1000 (twoServices.take 3) newSecond :=
    .cons ⟨trivial, rfl⟩ (.cons ⟨htick, rfl⟩ (.cons ⟨trivial, rfl⟩ (.nil _)))
  have htick' : ¬ Emulates newSecond 1 := (Books.of_runs hsecond).not_emulates (by decide +kernel)
  have hrun : Runs Counted 2 0x1000 twoServices (tick newSecond 1 0xA000) :=
    .cons ⟨trivial, rfl⟩ (.cons ⟨htick, rfl⟩ (.cons ⟨trivial, rfl⟩ (.cons ⟨htick', rfl⟩ (.nil _))))
  exact ⟨_, hrun, gang_accounting hrun, by decide +kernel⟩

/-- A gang of nine: eight slots are filled, and nine counted. -/
theorem gang_accounting_nine : ∃ tr s, Runs (fun _ _ => True) 1 0x1000 tr s ∧ ¬ Accounting s := by
  refine ⟨[.createGang 9 0x400000 0 (List.replicate 8 (some 0x10000))], _, .cons ⟨trivial, rfl⟩ (.nil _), fun h => ?_⟩
  have hgang : ((createGang (State.init 1 0x1000) 9 0x400000 0 (List.replicate 8 (some 0x10000))).gangs 1).map
      (fun g => (g.vcpuCount, g.members.length)) = some (9, 8) := by decide +kernel
  obtain ⟨g, hg, heq⟩ := Option.map_eq_some_iff.mp hgang
  obtain ⟨hcount, hlen⟩ := Prod.mk.inj heq
  have hacc := (h 1 g hg).1
  omega

end LodaxOS.Sched
