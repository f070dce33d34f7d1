/-
# What the scheduler's functions change

The parts of `schedule_inner` and of the gang table's functions, each said
once for the proofs about runs: what the clean-up leaves, which vCPU is
chosen, what loading it does, and which vCPUs `create_gang` makes.
-/
import LodaxOS.Sched.Model
import Mathlib.Data.List.ReduceOption

namespace LodaxOS.Sched

open Arch (TrapFrame VcpuType)
open Asm (Word)
open Tlb (maxCpus)
open Select Function Option

variable {s s' : State} {c i v : ℕ} {g : Gang} {x : Vcpu}

/-! ### Clean-up -/

/-- No gang holds a terminated vCPU. -/
def NoTerminated (s : State) : Prop :=
  ∀ i g, s.gangs i = some g → ∀ v ∈ g.members, ∀ x, s.vcpus v = some x → x.state ≠ .terminated

lemma all_isNone_iff : ∀ slots : List (Option ℕ), slots.all Option.isNone = slots.reduceOption.isEmpty
  | [] => rfl
  | none :: slots => by simpa using all_isNone_iff slots
  | some v :: slots => by simp

lemma cleanSlots_eq : ∀ (slots : List (Option ℕ)), (∀ v ∈ slots.reduceOption, ∀ x, s.vcpus v = some x → x.state ≠ .terminated) →
    cleanSlots s slots = (s, slots, 0)
  | [], _ => rfl
  | none :: slots, h => by
    rw [cleanSlots, cleanSlots_eq slots (by simpa using h)]
  | some v :: slots, h => by
    have hv : ((s.vcpus v).any fun x => x.state = .terminated) = false := by
      cases hx : s.vcpus v with
      | none => rfl
      | some x => simpa using h v (by simp) x hx
    rw [cleanSlots, hv, cleanSlots_eq slots fun w hw => h w (by simp [hw])]
    rfl

/-- Without terminated vCPUs only empty gangs go. -/
lemma cleanGang_eq (h : NoTerminated s) (i : ℕ) :
    cleanGang s i = { s with gangs := update s.gangs i ((s.gangs i).filter fun g => !g.members.isEmpty) } := by
  unfold cleanGang
  cases hg : s.gangs i with
  | none =>
    simp only [filter_none]
    rw [← hg, update_eq_self]
  | some g =>
    simp only [cleanSlots_eq g.vcpuIds (h i g hg), all_isNone_iff]
    change (if g.members.isEmpty = true then _ else _) = _
    cases he : g.members.isEmpty with
    | true =>
      rw [if_pos rfl, filter_some, he]
      rfl
    | false =>
      rw [if_neg Bool.false_ne_true, filter_some, he]
      rfl

/-- The gangs that the clean-up leaves. -/
def cleanedGangs (s : State) (l : List ℕ) (i : ℕ) : Option Gang :=
  if i ∈ l then (s.gangs i).filter fun g => !g.members.isEmpty else s.gangs i

lemma NoTerminated.of_gangs (h : NoTerminated s) (hv : s'.vcpus = s.vcpus)
    (hg : ∀ i g, s'.gangs i = some g → s.gangs i = some g) : NoTerminated s' := by
  intro i g hi v hmem x hx
  rw [hv] at hx
  exact h i g (hg i g hi) v hmem x hx

lemma cleanGangs_eq : ∀ (l : List ℕ) {s : State}, NoTerminated s →
    l.foldl cleanGang s = { s with gangs := cleanedGangs s l }
  | [], s, _ => by
    change s = { s with gangs := fun i => if i ∈ [] then _ else s.gangs i }
    simp
  | j :: l, s, h => by
    have hfilter : ∀ i g, (cleanGang s j).gangs i = some g → s.gangs i = some g := by
      intro i g hi
      rw [cleanGang_eq h] at hi
      change update s.gangs j _ i = some g at hi
      by_cases hij : i = j
      · subst hij
        rw [update_self] at hi
        exact (filter_eq_some_iff.mp hi).1
      · rwa [update_of_ne hij] at hi
    have hclean : NoTerminated (cleanGang s j) := h.of_gangs (by rw [cleanGang_eq h]) hfilter
    have ih := cleanGangs_eq l hclean
    rw [List.foldl_cons, ih, cleanGang_eq h]
    congr 1
    funext i
    unfold cleanedGangs
    by_cases hij : i = j
    · subst hij
      simp [filter_filter]
    · simp [hij]

section

variable (h : NoTerminated s)

include h

lemma cleanup_eq : cleanup s = { s with gangs := cleanedGangs s (List.range' 1 (s.count - 1)) } :=
  cleanGangs_eq _ h

lemma cleanup_cpus : (cleanup s).cpus = s.cpus := by rw [cleanup_eq h]

lemma cleanup_vcpus : (cleanup s).vcpus = s.vcpus := by rw [cleanup_eq h]

lemma cleanup_suspended : (cleanup s).suspended = s.suspended := by rw [cleanup_eq h]

lemma cleanup_gangs (hi : (cleanup s).gangs i = some g) : s.gangs i = some g := by
  rw [cleanup_eq h] at hi
  change cleanedGangs s _ i = some g at hi
  unfold cleanedGangs at hi
  split at hi
  · exact (filter_eq_some_iff.mp hi).1
  · exact hi

lemma cleanup_gangs_of_member (hi : s.gangs i = some g) (hv : v ∈ g.members) : (cleanup s).gangs i = some g := by
  rw [cleanup_eq h]
  change cleanedGangs s _ i = some g
  unfold cleanedGangs
  have hne : g.members.isEmpty = false := by
    cases hm : g.members with
    | nil => simp [hm] at hv
    | cons => rfl
  rw [hi, filter_some, hne]
  simp

/-! ### Making vCPUs -/

end

/-- Only the slab of vCPUs differs. -/
def OnlyVcpus (s s' : State) : Prop := s' = { s with vcpus := s'.vcpus, slabCount := s'.slabCount }

lemma OnlyVcpus.trans {s1 s2 s3 : State} (h : OnlyVcpus s1 s2) (h' : OnlyVcpus s2 s3) : OnlyVcpus s1 s3 := by
  unfold OnlyVcpus at *
  rw [h] at h'
  exact h'

lemma OnlyVcpus.frame (h : OnlyVcpus s s') : s'.gangs = s.gangs ∧ s'.count = s.count ∧ s'.cpus = s.cpus := by
  unfold OnlyVcpus at h
  rw [h]
  exact ⟨rfl, rfl, rfl⟩

lemma OnlyVcpus.suspended (h : OnlyVcpus s s') : s'.suspended = s.suspended := by
  unfold OnlyVcpus at h
  rw [h]

lemma modifyVcpu_only (s : State) (v : ℕ) (f : Vcpu → Vcpu) : OnlyVcpus s (s.modifyVcpu v f) := rfl

lemma free_vcpus (s : State) (v : ℕ) : (s.free v).vcpus = update s.vcpus v none := by
  unfold State.free
  split
  · rfl
  · rename_i h
    rw [not_isSome_iff_eq_none] at h
    rw [← h, update_eq_self]

lemma free_only (s : State) (v : ℕ) : OnlyVcpus s (s.free v) := by
  unfold State.free
  split
  · rfl
  · rfl

lemma freeAll_only : ∀ (ids : List ℕ) (s : State), OnlyVcpus s (ids.foldl State.free s)
  | [], _ => rfl
  | v :: ids, s => (free_only s v).trans (freeAll_only ids (s.free v))

lemma freeAll_vcpus (w : ℕ) : ∀ (ids : List ℕ) (s : State),
    (ids.foldl State.free s).vcpus w = if w ∈ ids then none else s.vcpus w
  | [], s => by simp
  | v :: ids, s => by
    rw [List.foldl_cons, freeAll_vcpus w ids, free_vcpus]
    by_cases hw : w = v
    · simp [hw]
    · simp [hw]

lemma alloc_eq_some {gangId : ℕ} {pml4 : Word} {vcpuType : VcpuType} (h : s.alloc gangId pml4 vcpuType = some (v, s')) :
    s.vcpus v = none ∧ OnlyVcpus s s' ∧ ∃ x, s'.vcpus = update s.vcpus v (some x) := by
  unfold State.alloc at h
  split at h
  · simp at h
  · split at h
    · simp at h
    · rename_i i hi
      cases h
      exact ⟨by simpa using List.find?_some hi, rfl, _, rfl⟩

/-- After `ids`, `n` ready vCPUs of the gang were made in slots that were free;
or nothing was, and `ids` are freed. -/
def Made (gangId n : ℕ) (s : State) (ids : List ℕ) (r : State × Option (List ℕ)) : Prop :=
  OnlyVcpus s r.1 ∧
  ((r.2 = none ∧ ∀ w, r.1.vcpus w = if w ∈ ids then none else s.vcpus w) ∨
  ∃ new, r.2 = some (ids ++ new) ∧ new.length = n ∧ new.Nodup ∧
    (∀ w ∈ new, s.vcpus w = none ∧ ∃ x, r.1.vcpus w = some x ∧ x.gangId = gangId ∧ x.state = .ready) ∧
    ∀ w, w ∉ new → r.1.vcpus w = s.vcpus w)

lemma Made.cons {gangId n : ℕ} {ids : List ℕ} {r : State × Option (List ℕ)} (hv : s.vcpus v = none)
    (honly : OnlyVcpus s s') (hx : s'.vcpus = update s.vcpus v (some x)) (hgang : x.gangId = gangId)
    (hstate : x.state = .ready) (h : Made gangId n s' (ids ++ [v]) r) : Made gangId (n + 1) s ids r := by
  obtain ⟨honly', hcases⟩ := h
  refine ⟨honly.trans honly', ?_⟩
  obtain ⟨hnone, hvs⟩ | ⟨new, hsome, hlen, hnd, hnew, hold⟩ := hcases
  · refine .inl ⟨hnone, fun w => ?_⟩
    rw [hvs w, hx]
    by_cases hw : w = v
    · simp [hw, hv]
    · simp [hw]
  · have hnotMem : v ∉ new := by
      intro hmem
      have hfree := (hnew v hmem).1
      rw [hx, update_self] at hfree
      simp at hfree
    refine .inr ⟨v :: new, by rw [hsome, List.append_assoc, List.singleton_append], by rw [List.length_cons, hlen],
      List.nodup_cons.mpr ⟨hnotMem, hnd⟩, fun w hw => ?_, fun w hw => ?_⟩
    · obtain rfl | hw := List.mem_cons.mp hw
      · exact ⟨hv, x, by rw [hold w hnotMem, hx, update_self], hgang, hstate⟩
      · have hne : w ≠ v := fun h => hnotMem (h ▸ hw)
        obtain ⟨hfree, hmade⟩ := hnew w hw
        rw [hx, update_of_ne hne] at hfree
        exact ⟨hfree, hmade⟩
    · rw [List.mem_cons, not_or] at hw
      rw [hold w hw.2, hx, update_of_ne hw.1]

lemma makeVcpus_spec (gangId : ℕ) (entry arg : Word) : ∀ (n : ℕ) (stackPages : List (Option Word)) (s : State)
    (ids : List ℕ), Made gangId n s ids (makeVcpus gangId entry arg n stackPages s ids)
  | 0, stackPages, s, ids => ⟨rfl, .inr ⟨[], by simp [makeVcpus]⟩⟩
  | n + 1, stackPages, s, ids => by
    unfold makeVcpus
    cases ha : s.alloc gangId s.kernelPml4 .normal with
    | none => exact ⟨freeAll_only ids s, .inl ⟨rfl, fun w => freeAll_vcpus w ids s⟩⟩
    | some p =>
      obtain ⟨v, s1⟩ := p
      obtain ⟨hv, honly, x, hs1⟩ := alloc_eq_some ha
      dsimp only
      split
      · rename_i pages _
        refine Made.cons (x := { x with
          state := .ready
          savedFrame := entryFrame entry arg pages
          kernelStackTop := stackTop pages
          pml4 := s1.kernelPml4
          gangId := gangId }) hv (honly.trans (modifyVcpu_only ..)) ?_ rfl rfl (makeVcpus_spec _ _ _ n _ _ _)
        rw [modifyVcpu_vcpus, hs1, update_self, map_some, update_idem]
      · refine ⟨honly.trans ((free_only s1 v).trans (freeAll_only ids _)), .inl ⟨rfl, fun w => ?_⟩⟩
        rw [freeAll_vcpus, free_vcpus, hs1]
        by_cases hw : w = v
        · simp [hw, hv]
        · simp [hw]

/-! ### Saving -/

/-- The CPU's current vCPU is not its idle one. -/
def Busy (s : State) (c : ℕ) : Prop := (s.cpus c).currentVcpu ≠ (s.cpus c).idleVcpu

section

variable {frame : TrapFrame} {frameAddr : Word}

lemma saveCurrent_idle (hb : ¬ Busy s c) : saveCurrent s c frame frameAddr = s := by
  rw [Busy, not_not] at hb
  unfold saveCurrent
  rw [if_pos hb]

lemma saveCurrent_running (hb : Busy s c) (hx : s.vcpus (s.cpus c).currentVcpu = some x) (hr : x.state = .running)
    (hg : s.gangs x.gangId = some g) (hpos : 0 < x.gangId) (hlt : x.gangId < maxGangs) :
    saveCurrent s c frame frameAddr = (s.setGang x.gangId (some g.charge)).setVcpu (s.cpus c).currentVcpu (some { x with
      savedFrame := frameToSave frame frameAddr
      frameMagic := frameMagic
      fpuState := (s.cpus c).fpu
      vruntime := satAdd x.vruntime vruntimeTick
      state := .ready }) := by
  unfold saveCurrent
  simp only [if_neg hb, hx, hr, reduceCtorEq, if_false, hg, isSome_some, hpos, hlt, and_self, if_true]
  rw [State.modifyGang, hg, map_some]

lemma saveCurrent_cpus (s : State) (c : ℕ) : (saveCurrent s c frame frameAddr).cpus = s.cpus := by
  unfold saveCurrent
  dsimp only
  split
  · rfl
  · split
    · rfl
    · split
      · rfl
      · split <;> rfl

lemma saveCurrent_suspended (s : State) (c : ℕ) : (saveCurrent s c frame frameAddr).suspended = s.suspended := by
  unfold saveCurrent
  dsimp only
  split
  · rfl
  · split
    · rfl
    · split
      · rfl
      · split <;> rfl

/-- Only the current vCPU is touched. -/
lemma saveCurrent_vcpus_of_ne {w : ℕ} (hw : ¬ (Busy s c ∧ w = (s.cpus c).currentVcpu)) :
    (saveCurrent s c frame frameAddr).vcpus w = s.vcpus w := by
  unfold saveCurrent
  dsimp only
  split
  · rfl
  · rename_i hb
    have hne : w ≠ (s.cpus c).currentVcpu := fun h => hw ⟨hb, h⟩
    split
    · rfl
    · split
      · exact update_of_ne hne ..
      · split
        · exact update_of_ne hne ..
        · exact update_of_ne hne ..

lemma saveCurrent_halted (hb : Busy s c) (hx : s.vcpus (s.cpus c).currentVcpu = some x) (hh : x.state = .halted) :
    saveCurrent s c frame frameAddr = s.setVcpu (s.cpus c).currentVcpu (some { x with
      savedFrame := frameToSave frame frameAddr
      frameMagic := frameMagic
      fpuState := (s.cpus c).fpu }) := by
  unfold saveCurrent
  simp only [if_neg hb, hx, hh, if_true]

end

lemma halt_eq (hx : s.vcpus v = some x) (hg : s.gangs x.gangId = some g) (hpos : 0 < x.gangId) (hlt : x.gangId < maxGangs) :
    halt s v = (s.setGang x.gangId (some { g with runningCount := g.runningCount - 1 })).setVcpu v
      (some { x with state := .halted }) := by
  unfold halt
  simp only [hx, hpos, hlt, and_self, if_true]
  rw [State.modifyGang, setVcpu_gangs, hg, map_some]
  rfl

/-! ### Suspending -/

section

variable (s : State) (c : ℕ)

@[simp] lemma suspend_vcpus : (suspend s c).vcpus = s.vcpus := by
  unfold suspend
  dsimp only
  split <;> rfl

@[simp] lemma suspend_gangs : (suspend s c).gangs = s.gangs := by
  unfold suspend
  dsimp only
  split <;> rfl

@[simp] lemma suspend_count : (suspend s c).count = s.count := by
  unfold suspend
  dsimp only
  split <;> rfl

@[simp] lemma suspend_cpus : (suspend s c).cpus = update s.cpus c { s.cpus c with fpu := fninit (s.cpus c).fpu } := by
  unfold suspend
  dsimp only
  split <;> rfl

end

lemma suspend_suspended (s : State) (c : ℕ) : (suspend s c).suspended =
    if (s.cpus c).currentVcpu = (s.cpus c).idleVcpu then s.suspended
    else update s.suspended (s.cpus c).currentVcpu (some ((s.cpus c).frame, (s.cpus c).fpu)) := by
  unfold suspend
  dsimp only
  split <;> rfl

/-- Suspending changes nothing of a CPU that the scheduler reads. -/
lemma suspend_cpu (s : State) (c d : ℕ) : ((suspend s c).cpus d).online = (s.cpus d).online ∧
    ((suspend s c).cpus d).currentVcpu = (s.cpus d).currentVcpu ∧ ((suspend s c).cpus d).idleVcpu = (s.cpus d).idleVcpu := by
  rw [suspend_cpus]
  by_cases hd : d = c
  · subst hd
    rw [update_self]
    exact ⟨rfl, rfl, rfl⟩
  · rw [update_of_ne hd]
    exact ⟨rfl, rfl, rfl⟩

/-! ### Choosing -/

lemma vcpuKey_eq_some {k : ℕ} : vcpuKey s v = some k ↔ ∃ x, s.vcpus v = some x ∧ x.state = .ready ∧ x.vruntime = k := by
  unfold vcpuKey
  rw [bind_eq_some_iff]
  constructor
  · intro ⟨x, hx, hk⟩
    split at hk
    · rename_i hr
      exact ⟨x, hx, hr, Option.some.inj hk⟩
    · simp at hk
  · intro ⟨x, hx, hr, hk⟩
    exact ⟨x, hx, by rw [if_pos hr, hk]⟩

lemma gangKey_eq_some {k : ℕ} : gangKey s i = some k ↔
    ∃ g, s.gangs i = some g ∧ g.state = .active ∧ g.runningCount < g.vcpuCount ∧ g.vruntime = k := by
  unfold gangKey
  rw [bind_eq_some_iff]
  constructor
  · intro ⟨g, hg, hk⟩
    split at hk
    · rename_i hr
      exact ⟨g, hg, hr.1, by omega, Option.some.inj hk⟩
    · simp at hk
  · intro ⟨g, hg, ha, hlt, hk⟩
    exact ⟨g, hg, by rw [if_pos ⟨ha, by omega⟩, hk]⟩

lemma pickVcpu_eq_some (h : pickVcpu s g = some v) : v ∈ g.members ∧ ∃ x, s.vcpus v = some x ∧ x.state = .ready ∧
    ∀ w ∈ g.members, ∀ y, s.vcpus w = some y → y.state = .ready → x.vruntime ≤ y.vruntime := by
  obtain ⟨hv, k, hk, -, hmin⟩ := select_eq_some h
  obtain ⟨x, hx, hr, rfl⟩ := vcpuKey_eq_some.mp hk
  exact ⟨hv, x, hx, hr, fun w hw y hy hyr => hmin w hw _ (vcpuKey_eq_some.mpr ⟨y, hy, hyr, rfl⟩)⟩

lemma mem_gangRange : i ∈ List.range' 1 (s.count - 1) ↔ 0 < i ∧ i < s.count := by
  rw [List.mem_range'_1]
  omega

lemma findBestGang_eq_some (h : findBestGang s = some i) : 0 < i ∧ i < s.count ∧ ∃ g, s.gangs i = some g ∧
    g.state = .active ∧ g.runningCount < g.vcpuCount ∧
    ∀ j g', 0 < j → j < s.count → s.gangs j = some g' → g'.state = .active → g'.runningCount < g'.vcpuCount →
      g.vruntime ≤ g'.vruntime := by
  obtain ⟨hi, k, hk, -, hmin⟩ := select_eq_some h
  rw [mem_gangRange] at hi
  obtain ⟨g, hg, ha, hlt, rfl⟩ := gangKey_eq_some.mp hk
  refine ⟨hi.1, hi.2, g, hg, ha, hlt, fun j g' hj0 hj hg' ha' hlt' => ?_⟩
  exact hmin j (mem_gangRange.mpr ⟨hj0, hj⟩) _ (gangKey_eq_some.mpr ⟨g', hg', ha', hlt', rfl⟩)

/-- Nothing is loaded, or a ready vCPU of the chosen gang. -/
lemma chooseNext_cases (s : State) (c : ℕ) (frame : TrapFrame) (fpuOut : FpuState) :
    (chooseNext s c frame fpuOut = ⟨toIdle s c, false, 0, frame, fpuOut, none⟩ ∧
      (findBestGang s = none ∨ ∃ i g, findBestGang s = some i ∧ s.gangs i = some g ∧ pickVcpu s g = none)) ∨
    ∃ i g v, findBestGang s = some i ∧ s.gangs i = some g ∧ pickVcpu s g = some v ∧
      chooseNext s c frame fpuOut = loadNext (pushExtra c i g
        (if perCore (g.vcpuCount - g.runningCount) (countFreeCores s) > 1 then
          min (perCore (g.vcpuCount - g.runningCount) (countFreeCores s) - 1) (g.vcpuCount - (g.runningCount + 1)) else 0)
        (addRunning s i)) c v frame fpuOut := by
  unfold chooseNext
  cases hb : findBestGang s with
  | none => exact .inl ⟨rfl, .inl rfl⟩
  | some i =>
    obtain ⟨-, -, g, hg, -⟩ := findBestGang_eq_some hb
    simp only [hg]
    cases hp : pickVcpu s g with
    | none => exact .inl ⟨rfl, .inr ⟨i, g, rfl, hg, hp⟩⟩
    | some v => exact .inr ⟨i, g, v, rfl, hg, hp, rfl⟩

/-- Loading marks the vCPU as running, whether the CPU then goes to it or is
said to be idle. -/
lemma loadNext_state (s : State) (c : ℕ) (frame : TrapFrame) (fpuOut : FpuState) (hx : s.vcpus v = some x) :
    ∃ w, (w = v ∨ w = (s.cpus c).idleVcpu) ∧ (loadNext s c v frame fpuOut).state =
      (s.setVcpu v (some { x with state := .running, frameMagic := 0 })).setCurrent c w := by
  unfold loadNext
  simp only [hx]
  split
  · exact ⟨_, .inr rfl, rfl⟩
  · split
    · exact ⟨_, .inr rfl, rfl⟩
    · exact ⟨_, .inl rfl, rfl⟩

/-! ### Recovery -/

lemma scanQueue_loadable : ∀ (n : ℕ) (queue temp : List ℕ) (k : ℕ), (scanQueue s n queue temp k).next = some v → loadable s v = true
  | 0, queue, temp, k, h => by simp [scanQueue] at h
  | n + 1, [], temp, k, h => by simp [scanQueue] at h
  | n + 1, w :: queue, temp, k, h => by
    unfold scanQueue at h
    split at h
    · split at h
      · rename_i hl
        obtain rfl := Option.some.inj h
        exact hl
      · exact scanQueue_loadable n _ _ _ h
    · split at h
      · exact scanQueue_loadable n _ _ _ h
      · exact scanQueue_loadable n _ _ _ h

lemma loadable_ready (h : loadable s v = true) : ∃ x, s.vcpus v = some x ∧ x.state = .ready := by
  obtain ⟨x, hx, hl⟩ := (Option.any_eq_true _ _).mp h
  simp only [Bool.and_eq_true, decide_eq_true_eq] at hl
  exact ⟨x, hx, hl.1.1.1.1⟩

/-- Recovery takes the driver that the scan found, which is ready, or goes to
the idle vCPU. -/
lemma recover_cases (s : State) (c : ℕ) :
    (∃ v x, (takeDriver s c).next = some v ∧ s.vcpus v = some x ∧ x.state = .ready ∧
      recover s c = (s.setVcpu v (some { x with state := .running, frameMagic := 0 })).modifyCpu c fun cpu => { cpu with
        readyQueue := (takeDriver s c).queue, frame := x.savedFrame, cr3 := x.pml4, currentVcpu := v, executes := v
        crashing := false }) ∨
    ((takeDriver s c).next = none ∧ recover s c = s.modifyCpu c fun cpu => { cpu with
        readyQueue := (takeDriver s c).queue, frame := ((s.vcpus cpu.idleVcpu).map Vcpu.savedFrame).getD cpu.frame
        currentVcpu := cpu.idleVcpu, crashing := false
        executes := if (s.vcpus cpu.idleVcpu).isSome then cpu.idleVcpu else cpu.executes }) := by
  unfold recover switchFrameToNextDriver
  cases hq : (takeDriver s c).next with
  | some v =>
    obtain ⟨x, hx, hr⟩ := loadable_ready (scanQueue_loadable 64 _ _ _ hq)
    refine .inl ⟨v, x, rfl, hx, hr, ?_⟩
    simp [hq, hx, State.modifyCpu, State.setCurrent, State.setVcpu]
  | none =>
    refine .inr ⟨rfl, ?_⟩
    simp [hq, State.modifyCpu]

/-! ### Steps -/

/-- What a step comes from, and what it leaves. -/
inductive Stepped (s : State) : Event → State → Prop
  | user (c : ℕ) (frame : TrapFrame) (fpu : FpuState) (hc : c < maxCpus) (ho : (s.cpus c).online = true)
      (hcr : (s.cpus c).crashing = false) :
      Stepped s (.user c frame fpu) (s.modifyCpu c fun cpu => { cpu with frame := frame, fpu := fpu })
  | tick (c : ℕ) (frameAddr : Word) (hc : c < maxCpus) (ho : (s.cpus c).online = true) (hcr : (s.cpus c).crashing = false) :
      Stepped s (.tick c frameAddr) (tick s c frameAddr)
  | block (c : ℕ) (frameAddr : Word) (hc : c < maxCpus) (ho : (s.cpus c).online = true)
      (hcr : (s.cpus c).crashing = false) : Stepped s (.block c frameAddr) (blockCurrent s c frameAddr)
  | wake (v : ℕ) : Stepped s (.wake v) (wake s v)
  | reply (v : ℕ) (result : Word) : Stepped s (.reply v result) (reply s v result)
  | createGang (nVcpus : ℕ) (entry arg : Word) (stackPages : List (Option Word)) :
      Stepped s (.createGang nVcpus entry arg stackPages) (createGang s nVcpus entry arg stackPages)
  | register (v : ℕ) (stack : Option Word) : Stepped s (.register v stack) (registerDriverVcpu s v stack).1
  | startService (hardware : Bool) (pml4 entry stackTop : Word) (stack : Option Word) :
      Stepped s (.startService hardware pml4 entry stackTop stack) (startService s hardware pml4 entry stackTop stack)
  | crash (c : ℕ) (freed : Bool) (ho : (s.cpus c).online = true) (hdriver : isDriver s (s.cpus c).currentVcpu = true) :
      Stepped s (.crash c freed)
        ((handleCrash s (s.cpus c).currentVcpu freed).modifyCpu c fun cpu => { cpu with crashing := true })
  | recover (c : ℕ) (ho : (s.cpus c).online = true) : Stepped s (.recover c) (recover s c)

lemma runs_iff : s.runs c = true ↔ c < maxCpus ∧ (s.cpus c).online = true ∧ (s.cpus c).crashing = false := by
  simp [State.runs, and_assoc]

lemma stepped {e : Event} (h : step s e = some s') : Stepped s e s' := by
  cases e with
  | user c frame fpu =>
    obtain ⟨hruns, hs⟩ := ite_none_right_eq_some.mp h
    obtain ⟨hc, ho, hcr⟩ := runs_iff.mp hruns
    exact Option.some.inj hs ▸ .user c frame fpu hc ho hcr
  | tick c frameAddr =>
    obtain ⟨hruns, hs⟩ := ite_none_right_eq_some.mp h
    obtain ⟨hc, ho, hcr⟩ := runs_iff.mp hruns
    exact Option.some.inj hs ▸ .tick c frameAddr hc ho hcr
  | block c frameAddr =>
    obtain ⟨hruns, hs⟩ := ite_none_right_eq_some.mp h
    obtain ⟨hc, ho, hcr⟩ := runs_iff.mp hruns
    exact Option.some.inj hs ▸ .block c frameAddr hc ho hcr
  | wake v => exact Option.some.inj h ▸ .wake v
  | reply v result => exact Option.some.inj h ▸ .reply v result
  | createGang nVcpus entry arg stackPages => exact Option.some.inj h ▸ .createGang nVcpus entry arg stackPages
  | register v stack => exact Option.some.inj h ▸ .register v stack
  | startService hardware pml4 entry stackTop stack =>
    exact Option.some.inj h ▸ .startService hardware pml4 entry stackTop stack
  | crash c freed =>
    obtain ⟨hruns, hs⟩ := ite_none_right_eq_some.mp h
    obtain ⟨hruns, hdriver⟩ := Bool.and_eq_true_iff.mp hruns
    exact Option.some.inj hs ▸ .crash c freed (runs_iff.mp hruns).2.1 hdriver
  | recover c =>
    obtain ⟨hruns, hs⟩ := ite_none_right_eq_some.mp h
    simp only [Bool.and_eq_true] at hruns
    exact Option.some.inj hs ▸ .recover c hruns.1.2

end LodaxOS.Sched
