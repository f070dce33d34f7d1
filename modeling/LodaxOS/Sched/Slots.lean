/-
# Slots of the gang table

A gang takes the slot whose number is `count`, and `count` only grows: a slot
that is cleared is not used again. So `create_gang` and `register_driver_vcpu`
run out of slots after 31 gangs, live or not (`gang_slots_exhausted`: one
driver that crashes 31 times). While no gang loses its last vCPU (`Lasting`)
they do so only if 31 gangs are live (`gang_slots_last`).
-/
import LodaxOS.Sched.Choice

namespace LodaxOS.Sched

open Function List
open Arch (TrapFrame)
open Asm (Word)

variable {s s' : State} {c i v : ℕ} {g : Gang}

/-! ### The check for a slot -/

/-- The check on which both functions fail. -/
def LacksSlot (s : State) : Prop := (reserveZero s).count ≥ maxGangs

/-- With a stack, `register_driver_vcpu` fails only for lack of a slot. -/
lemma registerDriverVcpu_false_iff (v : ℕ) (pages : Word) : (registerDriverVcpu s v (some pages)).2 = false ↔ LacksSlot s := by
  unfold registerDriverVcpu LacksSlot
  dsimp only
  split
  · rename_i h
    exact iff_of_true rfl h
  · rename_i h
    exact iff_of_false (by simp) h

/-! ### Gangs that last -/

def isTerminated (s : State) (v : ℕ) : Bool := (s.vcpus v).any fun x => x.state = .terminated

/-- Every gang has a vCPU that is not terminated. -/
def Staffed (s : State) : Prop := ∀ i g, s.gangs i = some g → ∃ v ∈ g.members, isTerminated s v = false

/-- No gang loses its last vCPU: the scheduler's clean-up finds none of which
all are terminated, and no crash takes the only one. -/
def Lasting (s : State) : Event → Prop
  | .tick _ _ | .block _ _ => Staffed s
  | .crash c _ => ∀ i g, s.gangs i = some g → ∃ v ∈ g.members, v ≠ (s.cpus c).currentVcpu
  | _ => True

/-- All slots below `count` are taken. -/
def Crowded (s : State) : Prop := ∀ i, 0 < i → i < s.count → (s.gangs i).isSome = true

lemma Crowded.of_sameSlots (h : Crowded s) (hs : SameSlots s s') : Crowded s' := by
  intro i hpos hlt
  rw [hs.2 i]
  exact h i hpos (hs.1 ▸ hlt)

/-! ### The clean-up -/

lemma isTerminated_free (s : State) (v w : ℕ) : isTerminated (s.free v) w = if w = v then false else isTerminated s w := by
  unfold isTerminated
  rw [free_vcpus]
  by_cases hw : w = v
  · simp [hw]
  · simp [hw]

/-- Slots with vCPUs that are not terminated stay, and no vCPU becomes terminated. -/
lemma cleanSlots_keeps : ∀ (slots : List (Option ℕ)) (s : State),
    (∀ w, isTerminated s w = false → isTerminated (cleanSlots s slots).1 w = false) ∧
    ∀ w, some w ∈ slots → isTerminated s w = false → some w ∈ (cleanSlots s slots).2.1
  | [], _ => ⟨fun _ h => h, fun _ h => absurd h (by simp)⟩
  | none :: slots, s => by
    obtain ⟨hstate, hslots⟩ := cleanSlots_keeps slots s
    refine ⟨hstate, fun w hw hlive => mem_cons_of_mem _ (hslots w ?_ hlive)⟩
    simpa using hw
  | some v :: slots, s => by
    unfold cleanSlots
    split
    · rename_i hterm
      obtain ⟨hstate, hslots⟩ := cleanSlots_keeps slots (s.free v)
      have hfree : ∀ w, isTerminated s w = false → isTerminated (s.free v) w = false := by
        intro w hw
        rw [isTerminated_free]
        split
        · rfl
        · exact hw
      refine ⟨fun w hw => hstate w (hfree w hw), fun w hw hlive => mem_cons_of_mem _ (hslots w ?_ (hfree w hlive))⟩
      rcases mem_cons.mp hw with heq | hmem
      · cases heq
        exact absurd (hterm.symm.trans hlive) (by simp)
      · exact hmem
    · obtain ⟨hstate, hslots⟩ := cleanSlots_keeps slots s
      refine ⟨hstate, fun w hw hlive => ?_⟩
      rcases mem_cons.mp hw with heq | hmem
      · exact heq ▸ mem_cons_self
      · exact mem_cons_of_mem _ (hslots w hmem hlive)

lemma mem_members {g : Gang} : v ∈ g.members ↔ some v ∈ g.vcpuIds := by
  unfold Gang.members
  rw [reduceOption_mem_iff]

lemma cleanGang_keeps (h : Staffed s) (i : ℕ) : SameSlots s (cleanGang s i) ∧ Staffed (cleanGang s i) := by
  unfold cleanGang
  cases hg : s.gangs i with
  | none => exact ⟨.of_eq rfl rfl, h⟩
  | some g =>
    obtain ⟨hgangs, hcount, -⟩ := (cleanSlots_only g.vcpuIds s).frame
    obtain ⟨hstate, hslots⟩ := cleanSlots_keeps g.vcpuIds s
    obtain ⟨v, hv, hlive⟩ := h i g hg
    have hmem := hslots v (mem_members.mp hv) hlive
    dsimp only
    rw [if_neg]
    · constructor
      · refine ⟨hcount, fun j => ?_⟩
        rw [setGang_gangs, hgangs]
        by_cases hj : j = i
        · simp [hj, hg]
        · rw [update_of_ne hj]
      · intro j g' hj
        rw [setGang_gangs, hgangs] at hj
        by_cases hji : j = i
        · subst hji
          rw [update_self, Option.some.injEq] at hj
          subst hj
          exact ⟨v, mem_members.mpr hmem, hstate v hlive⟩
        · rw [update_of_ne hji] at hj
          obtain ⟨w, hw, hwlive⟩ := h j g' hj
          exact ⟨w, hw, hstate w hwlive⟩
    · intro hall
      have hnone := all_eq_true.mp hall _ hmem
      simp at hnone

lemma cleanup_keeps (h : Staffed s) : SameSlots s (cleanup s) := by
  have hall : ∀ (l : List ℕ) (s : State), Staffed s → SameSlots s (l.foldl cleanGang s) := by
    intro l
    induction l with
    | nil => exact fun s _ => .of_eq rfl rfl
    | cons i l ih =>
      intro s hs
      obtain ⟨hsame, hstaffed⟩ := cleanGang_keeps hs i
      exact hsame.trans (ih _ hstaffed)
  exact hall _ s h

/-! ### Steps -/

lemma Staffed.suspend (h : Staffed s) (c : ℕ) : Staffed (suspend s c) := by
  intro i g hg
  rw [suspend_gangs] at hg
  obtain ⟨v, hv, hlive⟩ := h i g hg
  refine ⟨v, hv, ?_⟩
  rw [isTerminated, suspend_vcpus]
  exact hlive

lemma Staffed.halt (h : Staffed s) (v : ℕ) : Staffed (halt s v) := by
  unfold Sched.halt
  split
  · exact h
  · rename_i x hx
    have hlive : ∀ w, isTerminated s w = false → isTerminated (s.setVcpu v (some { x with state := .halted })) w = false := by
      intro w hw
      unfold isTerminated at hw ⊢
      rw [setVcpu_vcpus]
      by_cases hwv : w = v
      · simp [hwv]
      · rw [update_of_ne hwv]
        exact hw
    have hset : Staffed (s.setVcpu v (some { x with state := .halted })) := by
      intro i g hg
      obtain ⟨w, hw, hwlive⟩ := h i g hg
      exact ⟨w, hw, hlive w hwlive⟩
    dsimp only
    split
    · intro i g hg
      rw [modifyGang_gangs] at hg
      by_cases hi : i = x.gangId
      · subst hi
        rw [update_self, Option.map_eq_some_iff] at hg
        obtain ⟨g', hg', rfl⟩ := hg
        exact hset _ g' hg'
      · rw [update_of_ne hi] at hg
        exact hset i g hg
    · exact hset

/-- The scheduler keeps the gangs that have vCPUs. -/
lemma Staffed.schedule (h : Staffed s) (c : ℕ) (frame : TrapFrame) (frameAddr : Word) (fpuOut : FpuState) :
    SameSlots s (scheduleInner s c frame frameAddr fpuOut).state := by
  refine SameSlots.trans ?_ sameSlots_schedule
  split
  · exact .of_eq rfl rfl
  · exact cleanup_keeps h

/-- A crash keeps the gangs that have another vCPU. -/
lemma sameSlots_handleCrash (h : ∀ i g, s.gangs i = some g → ∃ w ∈ g.members, w ≠ v) (freed : Bool) :
    SameSlots s (handleCrash s v freed) := by
  unfold handleCrash
  split
  · exact .of_eq rfl rfl
  · refine ⟨rfl, fun i => ?_⟩
    dsimp only
    split
    · rw [modifyVcpu_gangs]
      cases hg : s.gangs i with
      | none => rfl
      | some g =>
        obtain ⟨w, hw, hne⟩ := h i g hg
        have hmem : some w ∈ g.vcpuIds.map fun slot => if slot = some v then none else slot :=
          mem_map.mpr ⟨some w, mem_members.mp hw, if_neg (by simpa using hne)⟩
        rw [Option.bind_some, Gang.remove, if_neg]
        · rfl
        · intro hall
          have hnone := all_eq_true.mp hall _ hmem
          simp at hnone
    · rfl

lemma Crowded.reserveZero (h : Crowded s) : Crowded (reserveZero s) := by
  unfold Sched.reserveZero
  split
  · intro i hpos hlt
    exact absurd hlt (Nat.not_lt.mpr hpos)
  · exact h

/-- A new gang takes the slot `count`. -/
lemma Crowded.enrols (h : Crowded s) (hs : Enrols s s') : Crowded s' := by
  rcases hs with hs | hs | hs
  · exact h.of_sameSlots hs
  · exact h.reserveZero.of_sameSlots hs
  · obtain ⟨g, hg⟩ := hs.gangs
    have hcount := hs.count
    intro i hpos hlt
    rw [hg]
    by_cases hi : i = (Sched.reserveZero s).count
    · simp [hi]
    · rw [update_of_ne hi]
      exact h.reserveZero i hpos (by omega)

lemma Crowded.step {e : Event} (h : Crowded s) (hok : Lasting s e) (hstep : step s e = some s') : Crowded s' := by
  cases stepped hstep with
  | user =>
    exact h
  | tick c =>
    have hstaffed : Staffed s := hok
    exact h.of_sameSlots ((sameSlots_suspend.trans ((hstaffed.suspend c).schedule c ..)).trans (.of_eq rfl rfl))
  | block c =>
    have hstaffed : Staffed s := hok
    unfold blockCurrent
    split
    · exact h
    · exact h.of_sameSlots (((sameSlots_halt.trans sameSlots_suspend).trans
        (((hstaffed.halt _).suspend c).schedule c ..)).trans (.of_eq rfl rfl))
  | wake v =>
    exact h.of_sameSlots (.of_eq (sameBooks_wake s v).gangs (sameBooks_wake s v).count)
  | reply =>
    exact h
  | createGang =>
    exact h.enrols (createGang_enrols ..)
  | register =>
    exact h.enrols (register_enrols ..)
  | startService =>
    exact h.enrols (startService_enrols ..)
  | crash c freed =>
    exact h.of_sameSlots ((sameSlots_handleCrash hok freed).trans (.of_eq rfl rfl))
  | recover c =>
    exact h.of_sameSlots (sameSlots_recover s c)

lemma Crowded.live (h : Crowded s) (hfull : LacksSlot s) (hpos : 0 < i) (hlt : i < maxGangs) :
    (s.gangs i).isSome = true := by
  refine h i hpos (lt_of_lt_of_le hlt ?_)
  unfold LacksSlot Sched.reserveZero at hfull
  split at hfull
  · change 1 ≥ 32 at hfull
    omega
  · exact hfull

/-- In every run in which no gang loses its last vCPU: `create_gang` finds no
slot, and `register_driver_vcpu` fails although it got a stack, only if the 31
gangs are live. -/
theorem gang_slots_last {n : ℕ} {kernelPml4 : Word} {tr : List Event} (h : Runs Lasting n kernelPml4 tr s) :
    (LacksSlot s → ∀ i, 0 < i → i < maxGangs → (s.gangs i).isSome = true) ∧
    ∀ v pages, (registerDriverVcpu s v (some pages)).2 = false → ∀ i, 0 < i → i < maxGangs → (s.gangs i).isSome = true := by
  have hinit : Crowded (State.init n kernelPml4) := fun i _ hlt => absurd hlt (Nat.not_lt_zero i)
  have hcrowded := h.invariant (fun _ _ _ hs hstep => hs.step hstep.1 hstep.2) hinit
  refine ⟨fun hfull i hpos hlt => hcrowded.live hfull hpos hlt, fun v pages hfail i hpos hlt => ?_⟩
  exact hcrowded.live ((registerDriverVcpu_false_iff v pages).mp hfail) hpos hlt

/-- A driver's service. -/
def serviceStart : Event := .startService true 0x5000 0x400000 0x800000 (some 0x10000)

/-- Thirty-one services fill the table. -/
theorem gang_slots_last_full : ∃ s, Runs Lasting 1 0x1000 (List.replicate 31 serviceStart) s ∧ LacksSlot s ∧
    ∀ i, 0 < i → i < maxGangs → (s.gangs i).isSome = true := by
  have hexec : ((Traces.exec step (State.init 1 0x1000) (List.replicate 31 serviceStart)).map fun s =>
      (reserveZero s).count) = some 32 := by decide +kernel
  obtain ⟨s, hs, hcount⟩ := Option.map_eq_some_iff.mp hexec
  have hrun : Runs Lasting 1 0x1000 (List.replicate 31 serviceStart) s :=
    (Traces.run_of_exec hs).and fun e he s => by
      obtain rfl := List.eq_of_mem_replicate he
      trivial
  have hfull : LacksSlot s := hcount.ge
  exact ⟨s, hrun, hfull, (gang_slots_last hrun).1 hfull⟩

/-- The driver starts, runs and crashes. -/
def crashRound : List Event := [serviceStart, .tick 0 0x9000, .crash 0 true, .recover 0]

/-- A driver crashes 31 times: there is no gang, and no slot for one. -/
theorem gang_slots_exhausted : ∃ s, Runs (fun _ _ => True) 1 0x1000 (List.replicate 31 crashRound).flatten s ∧
    LacksSlot s ∧ ∀ i, s.gangs i = none := by
  have hexec : ((Traces.exec step (State.init 1 0x1000) (List.replicate 31 crashRound).flatten).map fun s =>
      ((reserveZero s).count, (List.range 32).all fun i => (s.gangs i).isNone)) = some (32, true) := by decide +kernel
  obtain ⟨s, hs, heq⟩ := Option.map_eq_some_iff.mp hexec
  obtain ⟨hcount, hall⟩ := Prod.mk.inj heq
  have hrun : Runs (fun _ _ => True) 1 0x1000 (List.replicate 31 crashRound).flatten s :=
    (Traces.run_of_exec hs).and fun _ _ _ => trivial
  refine ⟨s, hrun, hcount.ge, fun i => ?_⟩
  by_contra hne
  obtain ⟨g, hg⟩ := Option.ne_none_iff_exists'.mp hne
  have hranged := Ranged.of_runs hrun
  have hlt := (hranged.2 i g hg).2
  have hnone := List.all_eq_true.mp hall i (List.mem_range.mpr (lt_of_lt_of_le hlt hranged.1))
  rw [hg] at hnone
  simp at hnone

end LodaxOS.Sched
