/-
# Kernel stacks (`scheduler.rs`, `vcpu.rs`)

A kernel stack is four pages above a guard page. `register_driver_vcpu` takes
five pages for it and `vcpu::free` gives five back, but `create_gang` takes
three, so a gang's stacks reach two pages beyond what was allocated for them,
and more is given back than was taken (`stack_accounted_iff`).

`Ledger` follows the scheduler with the stacks that its vCPUs were created with.
Writes go through the direct map, at `HIGHER_HALF` above the physical address.
-/
import LodaxOS.Sched.Survival

namespace LodaxOS.Sched

open Arch (TrapFrame VcpuType higherHalf)
open Asm (Word)
open Traces (Run)

/-! ### Stacks -/

inductive Maker
  | createGang
  | registerDriver
  deriving DecidableEq

/-- The stack of a vCPU: who made it, and what `alloc_pages` gave. -/
structure Stack where
  maker : Maker
  pages : Word

/-- The stack's own pages. -/
def stackPages : ℕ := (kernelStackSize / pageSize).toNat

/-- The argument of `alloc_pages`. -/
def Maker.pageCount : Maker → ℕ
  | .createGang => 3
  | .registerDriver => stackPages + 1

/-- The bytes from an address on. -/
def bytesFrom (addr : Word) (len : ℕ) : Set Word := { a | (a - addr).toNat < len }

/-- The bytes of the pages from an address on. -/
def pagesFrom (addr : Word) (count : ℕ) : Set Word := bytesFrom addr (count * pageSize.toNat)

/-- The pages that were allocated for the stack. -/
def Stack.granted (st : Stack) : Set Word := pagesFrom st.pages st.maker.pageCount

def Stack.base (st : Stack) : Word := higherHalf + st.pages + pageSize

def Stack.iretqFrame (st : Stack) : Word := st.base + kernelStackSize - iretqFrameSize

/-- What the creation writes, apart from page tables: addresses and lengths. -/
def Stack.writes (st : Stack) : List (Word × ℕ) :=
  match st.maker with
  | .createGang => [(st.base, kernelStackSize.toNat), (st.iretqFrame, 8), (st.iretqFrame + 8, 8), (st.iretqFrame + 16, 8)]
  | .registerDriver => [(st.base, kernelStackSize.toNat)]

/-- What `vcpu::free` passes to `free_pages`. -/
def freedPages (x : Vcpu) : Option (Word × ℕ) :=
  if x.vcpuType ≠ .idle ∧ x.kernelStackTop ≠ 0 then
    some (x.kernelStackTop - kernelStackSize - higherHalf - pageSize, stackPages + 1)
  else none

/-- The stack is in its pages, nothing else was written, and `vcpu::free` gives
back what was taken. -/
structure Accounted (st : Stack) (x : Vcpu) : Prop where
  stack : ∀ a ∈ bytesFrom (x.kernelStackTop - kernelStackSize) kernelStackSize.toNat, a - higherHalf ∈ st.granted
  writes : ∀ w ∈ st.writes, ∀ a ∈ bytesFrom w.1 w.2, a - higherHalf ∈ st.granted
  freed : ∃ p, freedPages x = some p ∧ pagesFrom p.1 p.2 = st.granted

/-- A byte of the stack, from the start of the pages: the guard page comes first. -/
lemma stack_byte {a pages : Word} {n : ℕ} (h : a ∈ bytesFrom (higherHalf + pages + pageSize) n) (hn : n ≤ 2 ^ 32) :
    (a - higherHalf - pages).toNat = (a - (higherHalf + pages + pageSize)).toNat + 4096 := by
  have hsum : a - higherHalf - pages = (a - (higherHalf + pages + pageSize)) + pageSize := by
    generalize higherHalf = half
    bv_omega
  have hlt : (a - (higherHalf + pages + pageSize)).toNat < n := h
  have hsize : pageSize.toNat = 4096 := by decide
  rw [hsum, BitVec.toNat_add, hsize, Nat.mod_eq_of_lt (by omega)]

lemma stackTop_sub (pages : Word) : stackTop pages - kernelStackSize = higherHalf + pages + pageSize := by
  rw [stackTop, BitVec.add_sub_cancel]

/-- A driver's stack is accounted for. -/
lemma accounted_registerDriver {x : Vcpu} {pages : Word} (htop : x.kernelStackTop = stackTop pages)
    (ht : x.vcpuType ≠ .idle) (hz : stackTop pages ≠ 0) : Accounted ⟨.registerDriver, pages⟩ x := by
  have hbyte : ∀ a ∈ bytesFrom (higherHalf + pages + pageSize) kernelStackSize.toNat,
      a - higherHalf ∈ Stack.granted ⟨.registerDriver, pages⟩ := by
    intro a ha
    have hoff := stack_byte ha (by decide)
    have hlt : (a - (higherHalf + pages + pageSize)).toNat < 16384 := ha
    have hsize : Maker.registerDriver.pageCount * pageSize.toNat = 20480 := by decide
    change (a - higherHalf - pages).toNat < Maker.registerDriver.pageCount * pageSize.toNat
    omega
  refine ⟨fun a ha => ?_, fun w hw => ?_, (pages, stackPages + 1), ?_, rfl⟩
  · rw [htop, stackTop_sub] at ha
    exact hbyte a ha
  · obtain rfl := List.mem_singleton.mp hw
    exact hbyte
  · rw [freedPages, if_pos ⟨ht, htop ▸ hz⟩, htop, stackTop_sub]
    have hpages : higherHalf + pages + pageSize - higherHalf - pageSize = pages := by
      generalize higherHalf = half
      generalize pageSize = size
      bv_omega
    rw [hpages]

/-- The last byte of a gang's stack was not allocated. -/
lemma not_accounted_createGang {x : Vcpu} {pages : Word} (htop : x.kernelStackTop = stackTop pages) :
    ¬ Accounted ⟨.createGang, pages⟩ x := by
  intro h
  have hlast : higherHalf + pages + pageSize + 16383 ∈ bytesFrom (higherHalf + pages + pageSize) kernelStackSize.toNat := by
    change (higherHalf + pages + pageSize + 16383 - (higherHalf + pages + pageSize)).toNat < 16384
    rw [BitVec.add_comm, BitVec.add_sub_cancel]
    decide
  have hin := h.stack _ (by rw [htop, stackTop_sub]; exact hlast)
  have hoff := stack_byte hlast (by decide)
  rw [BitVec.add_comm _ 16383, BitVec.add_sub_cancel, BitVec.add_comm 16383] at hoff
  have hlt : (higherHalf + pages + pageSize + 16383 - higherHalf - pages).toNat <
      Maker.createGang.pageCount * pageSize.toNat := hin
  rw [hoff] at hlt
  exact absurd hlt (by decide)

/-! ### The scheduler with its stacks -/

structure Ledger where
  sched : State
  stackOf : ℕ → Option Stack

/-- The stacks that vCPUs are created with. -/
def grant (maker : Maker) (l : List (ℕ × Word)) (old : ℕ → Option Stack) : ℕ → Option Stack := fun v =>
  match l.find? fun q => q.1 = v with
  | some q => some ⟨maker, q.2⟩
  | none => old v

/-- The stacks after an event. -/
def stacksAfter (s : State) (old : ℕ → Option Stack) : Event → ℕ → Option Stack
  | .createGang nVcpus entry arg pages =>
    if (reserveZero s).count ≥ maxGangs then old
    else
      match (makeVcpus (reserveZero s).count entry arg (min nVcpus maxVcpusPerGang) pages (reserveZero s) []).2 with
      | none => old
      | some ids => grant .createGang (ids.zip pages.reduceOption) old
  | .register v (some pages) =>
    if (reserveZero s).count ≥ maxGangs ∨ s.vcpus v = none then old else grant .registerDriver [(v, pages)] old
  | .startService hardware pml4 _ _ (some pages) =>
    match s.alloc 0 pml4 (driverType hardware) with
    | some (v, _) => if (reserveZero s).count ≥ maxGangs then old else grant .registerDriver [(v, pages)] old
    | none => old
  | _ => old

/-- A stack is forgotten with its vCPU. -/
def Ledger.step (l : Ledger) (e : Event) : Option Ledger :=
  (Sched.step l.sched e).map fun s =>
    ⟨s, fun v => if (s.vcpus v).isSome then stacksAfter l.sched l.stackOf e v else none⟩

def Ledger.init (n : ℕ) (kernelPml4 : Word) : Ledger := ⟨State.init n kernelPml4, fun _ => none⟩

/-- The vCPU of a stack has its top. -/
def Tracked (l : Ledger) : Prop :=
  ∀ v st, l.stackOf v = some st → ∃ x, l.sched.vcpus v = some x ∧ x.kernelStackTop = stackTop st.pages

/-! ### What a step does to the stacks -/

variable {s s' : State} {v : ℕ} {x : Vcpu}

/-- The vCPUs that `make` adds have the stacks that they are given. -/
lemma makeVcpus_stacks (gangId : ℕ) (entry arg : Word) : ∀ (n : ℕ) (pages : List (Option Word)) (s : State) (ids : List ℕ)
    {s' : State} {all : List ℕ}, makeVcpus gangId entry arg n pages s ids = (s', some all) →
    ∃ new, all = ids ++ new ∧ (∀ w ∈ new, s.vcpus w = none) ∧ (∀ w ∉ new, s'.vcpus w = s.vcpus w) ∧
      ∀ q ∈ new.zip pages.reduceOption, ∃ x, s'.vcpus q.1 = some x ∧ x.kernelStackTop = stackTop q.2
  | 0, pages, s, ids, s', all, h => by
    obtain ⟨rfl, hall⟩ := Prod.mk.inj h
    exact ⟨[], by simpa using hall.symm, nofun, fun _ _ => rfl, by simp⟩
  | n + 1, pages, s, ids, s', all, h => by
    unfold makeVcpus at h
    cases ha : s.alloc gangId s.kernelPml4 .normal with
    | none => simp [ha] at h
    | some p =>
      obtain ⟨v, s1⟩ := p
      obtain ⟨hv, -, x, hs1⟩ := alloc_eq_some ha
      rw [ha] at h
      dsimp only at h
      split at h
      · rename_i page rest
        obtain ⟨new, rfl, hfree, hold, hstacks⟩ := makeVcpus_stacks gangId entry arg n rest _ _ h
        have hother : ∀ w, w ≠ v → (s1.modifyVcpu v fun x => { x with
            state := .ready
            savedFrame := entryFrame entry arg page
            kernelStackTop := stackTop page
            pml4 := s1.kernelPml4
            gangId := gangId }).vcpus w = s.vcpus w := by
          intro w hw
          simp [hw, hs1]
        have hnew : v ∉ new := fun hmem => by
          have hnone := hfree v hmem
          simp [hs1] at hnone
        refine ⟨v :: new, by simp, fun w hw => ?_, fun w hw => ?_, fun q hq => ?_⟩
        · by_cases hwv : w = v
          · rw [hwv, hv]
          · rcases List.mem_cons.mp hw with rfl | hw
            · exact absurd rfl hwv
            · rw [← hother w hwv]
              exact hfree w hw
        · obtain ⟨hwv, hw⟩ := not_or.mp (mt List.mem_cons.mpr hw)
          rw [hold w hw, hother w hwv]
        · rw [List.reduceOption_cons_of_some, List.zip_cons_cons] at hq
          rcases List.mem_cons.mp hq with rfl | hq
          · refine ⟨{ x with
              state := .ready
              savedFrame := entryFrame entry arg page
              kernelStackTop := stackTop page
              pml4 := s1.kernelPml4
              gangId := gangId }, (hold v hnew).trans ?_, rfl⟩
            simp [hs1]
          · exact hstacks q hq
      · simp at h

lemma grant_eq_some {maker : Maker} {l : List (ℕ × Word)} {old : ℕ → Option Stack} {st : Stack}
    (h : grant maker l old v = some st) :
    ((v, st.pages) ∈ l ∧ st.maker = maker) ∨ ((∀ q ∈ l, q.1 ≠ v) ∧ old v = some st) := by
  unfold grant at h
  split at h
  · rename_i q hq
    cases h
    have hqv : q.1 = v := by simpa using List.find?_some hq
    exact Or.inl ⟨hqv ▸ List.mem_of_find?_eq_some hq, rfl⟩
  · rename_i hnone
    exact Or.inr ⟨fun q hq => by simpa using List.find?_eq_none.mp hnone q hq, h⟩

/-- A successful registration gives the vCPU its stack. -/
lemma registerDriverVcpu_stack (pages : Word) (hroom : ¬ (reserveZero s).count ≥ maxGangs) (hx : s.vcpus v = some x) :
    ∃ x', (registerDriverVcpu s v (some pages)).1.vcpus v = some x' ∧ x'.kernelStackTop = stackTop pages := by
  unfold registerDriverVcpu
  dsimp only
  rw [if_neg hroom]
  refine ⟨{ x with kernelStackTop := stackTop pages, gangId := (reserveZero s).count }, ?_, rfl⟩
  simp [reserveZero_vcpus, hx]

lemma registerDriverVcpu_full {pages : Option Word} (hfull : (reserveZero s).count ≥ maxGangs ∨ pages = none ∨ s.vcpus v = none) :
    (registerDriverVcpu s v pages).1.vcpus v = s.vcpus v := by
  unfold registerDriverVcpu
  cases pages with
  | none => rfl
  | some pages =>
    dsimp only
    split
    · rw [reserveZero_vcpus]
    · rename_i hroom
      rcases hfull with hfull | hnone | hnone
      · exact absurd hfull hroom
      · cases hnone
      · simp [reserveZero_vcpus, hnone]

lemma reserveZero_count (h : s'.count = s.count) : (reserveZero s').count = (reserveZero s).count := by
  unfold reserveZero
  rw [h]
  split
  · rfl
  · exact h

/-- A crash leaves the stack. -/
lemma handleCrash_stack {w : ℕ} {freed : Bool} {x' : Vcpu} (hx : s.vcpus v = some x)
    (hx' : (handleCrash s w freed).vcpus v = some x') : x'.kernelStackTop = x.kernelStackTop := by
  unfold handleCrash at hx'
  split at hx'
  · rw [hx] at hx'
    rw [Option.some.inj hx']
  · by_cases hv : v = w
    · subst hv
      simp only [State.modifyVcpu, setVcpu_vcpus, Function.update_self, hx, Option.map_some, Option.some.injEq] at hx'
      rw [← hx']
    · simp only [State.modifyVcpu, setVcpu_vcpus, Function.update_of_ne hv, hx, Option.some.injEq] at hx'
      rw [hx']

/-- Only `register_driver_vcpu` changes a stack. -/
lemma step_stack {e : Event} {x' : Vcpu} (h : step s e = some s') (hx : s.vcpus v = some x) (hx' : s'.vcpus v = some x')
    (hr : ¬ Registers v e) : x'.kernelStackTop = x.kernelStackTop := by
  by_cases hf : Fells s v e
  · cases stepped h with
    | crash c freed => exact handleCrash_stack hx hx'
    | _ => exact hf.elim
  · have hfollows := step_follows h (by rw [hx]; exact nofun) hf hr
    unfold Follows at hfollows
    rw [hx, hx'] at hfollows
    rcases hfollows with ⟨-, hnone⟩ | ⟨y, hy, hlike⟩
    · cases hnone
    · rw [Option.some.inj hy]
      exact hlike.2.1

/-- The stacks of new gangs. -/
lemma createGang_stack {nVcpus : ℕ} {entry arg : Word} {pages : List (Option Word)} {ids : List ℕ} {q : ℕ × Word}
    (hroom : ¬ (reserveZero s).count ≥ maxGangs)
    (hids : (makeVcpus (reserveZero s).count entry arg (min nVcpus maxVcpusPerGang) pages (reserveZero s) []).2 = some ids)
    (hq : q ∈ ids.zip pages.reduceOption) :
    ∃ x, (createGang s nVcpus entry arg pages).vcpus q.1 = some x ∧ x.kernelStackTop = stackTop q.2 := by
  cases hr : makeVcpus (reserveZero s).count entry arg (min nVcpus maxVcpusPerGang) pages (reserveZero s) [] with
  | mk s1 r =>
    rw [hr] at hids
    obtain rfl : r = some ids := hids
    obtain ⟨new, rfl, -, -, hstacks⟩ := makeVcpus_stacks _ _ _ _ _ _ _ hr
    obtain ⟨x, hx, htop⟩ := hstacks q hq
    refine ⟨x, ?_, htop⟩
    unfold createGang
    dsimp only
    rw [if_neg hroom, hr]
    exact (congrFun (pushAll_vcpus _ _ _) q.1).trans hx

/-- The stack of a new service. -/
lemma startService_stack {hardware : Bool} {pml4 entry top pages : Word} {s1 : State}
    (ha : s.alloc 0 pml4 (driverType hardware) = some (v, s1)) (hroom : ¬ (reserveZero s).count ≥ maxGangs) :
    ∃ x, (startService s hardware pml4 entry top (some pages)).vcpus v = some x ∧ x.kernelStackTop = stackTop pages := by
  obtain ⟨-, honly, x, hs1⟩ := alloc_eq_some ha
  have hcount : s1.count = s.count := honly.frame.2.1
  have hreg : ∀ s2 : State, s2.count = s.count → s2.vcpus v = some (x.enter entry top) →
      ∃ x', (registerDriverVcpu s2 v (some pages)).1.vcpus v = some x' ∧ x'.kernelStackTop = stackTop pages := by
    intro s2 hcount hx
    rw [← reserveZero_count hcount] at hroom
    exact registerDriverVcpu_stack pages hroom hx
  have hreg := hreg { s1.modifyVcpu v (·.enter entry top) with
    services := Function.update (s1.modifyVcpu v (·.enter entry top)).services v (some pml4) } hcount (by simp [hs1])
  unfold startService
  rw [ha]
  dsimp only
  split
  · rename_i heq
    rw [heq] at hreg
    exact hreg
  · rename_i heq
    rw [heq] at hreg
    exact hreg

/-! ### Runs -/

lemma Tracked.init (n : ℕ) (kernelPml4 : Word) : Tracked (Ledger.init n kernelPml4) := nofun

lemma Tracked.step {l l' : Ledger} {e : Event} (h : Tracked l) (hs : l.step e = some l') : Tracked l' := by
  obtain ⟨s', hstep, rfl⟩ := Option.map_eq_some_iff.mp hs
  intro v st hst
  dsimp only at hst ⊢
  obtain ⟨hsome, hst⟩ := Option.ite_none_right_eq_some.mp hst
  obtain ⟨x', hx'⟩ := Option.isSome_iff_exists.mp hsome
  -- a stack from before
  have hold : ¬ Registers v e → l.stackOf v = some st → ∃ x, s'.vcpus v = some x ∧ x.kernelStackTop = stackTop st.pages := by
    intro hr hst
    obtain ⟨x, hx, htop⟩ := h v st hst
    exact ⟨x', hx', (step_stack hstep hx hx' hr).trans htop⟩
  cases e with
  | createGang nVcpus entry arg pages =>
    simp only [stacksAfter] at hst
    split at hst
    · exact hold id hst
    · rename_i hroom
      cases hids : (makeVcpus (reserveZero l.sched).count entry arg (min nVcpus maxVcpusPerGang) pages
          (reserveZero l.sched) []).2 with
      | none =>
        rw [hids] at hst
        exact hold id hst
      | some ids =>
        rw [hids] at hst
        rcases grant_eq_some hst with ⟨hmem, -⟩ | ⟨-, hst⟩
        · rw [← Option.some.inj hstep]
          exact createGang_stack hroom hids hmem
        · exact hold id hst
  | register w pages =>
    rw [← Option.some.inj hstep] at hx' ⊢
    cases pages with
    | none =>
      obtain ⟨x, hx, htop⟩ := h v st hst
      exact ⟨x, hx, htop⟩
    | some pages =>
      simp only [stacksAfter] at hst
      split at hst
      · rename_i hno
        obtain ⟨x, hx, htop⟩ := h v st hst
        by_cases hv : v = w
        · subst hv
          rcases hno with hfull | hnone
          · exact ⟨x, (registerDriverVcpu_full (Or.inl hfull)).trans hx, htop⟩
          · rw [hx] at hnone
            cases hnone
        · exact ⟨x, (registerDriverVcpu_of_ne hv l.sched _).trans hx, htop⟩
      · rename_i hyes
        obtain ⟨hroom, hsomew⟩ := not_or.mp hyes
        rcases grant_eq_some hst with ⟨hmem, -⟩ | ⟨hne, hst⟩
        · obtain ⟨rfl, rfl⟩ := Prod.mk.inj (List.mem_singleton.mp hmem)
          obtain ⟨x, hx⟩ := Option.ne_none_iff_exists'.mp hsomew
          exact registerDriverVcpu_stack _ hroom hx
        · obtain ⟨x, hx, htop⟩ := h v st hst
          exact ⟨x, (registerDriverVcpu_of_ne (Ne.symm (hne _ List.mem_cons_self)) l.sched _).trans hx, htop⟩
  | startService hardware pml4 entry top pages =>
    cases pages with
    | none => exact hold id hst
    | some pages =>
      simp only [stacksAfter] at hst
      cases ha : l.sched.alloc 0 pml4 (driverType hardware) with
      | none =>
        rw [ha] at hst
        exact hold id hst
      | some p =>
        rw [ha] at hst
        dsimp only at hst
        split at hst
        · exact hold id hst
        · rename_i hroom
          rcases grant_eq_some hst with ⟨hmem, -⟩ | ⟨-, hst⟩
          · obtain ⟨rfl, rfl⟩ := Prod.mk.inj (List.mem_singleton.mp hmem)
            rw [← Option.some.inj hstep]
            exact startService_stack ha hroom
          · exact hold id hst
  | user | tick | block | wake | reply | crash | recover => exact hold id hst

/-- In every state of every run, the stack of a vCPU is accounted for exactly if
`register_driver_vcpu` made it, for a vCPU that is no CPU's idle one. -/
theorem stack_accounted_iff {n : ℕ} {kernelPml4 : Word} {tr : List Event} {l : Ledger}
    (h : Run (fun l e l' => l.step e = some l') (Ledger.init n kernelPml4) tr l) (v : ℕ) (st : Stack)
    (hst : l.stackOf v = some st) :
    ∃ x, l.sched.vcpus v = some x ∧
      (Accounted st x ↔ st.maker = .registerDriver ∧ x.vcpuType ≠ .idle ∧ stackTop st.pages ≠ 0) := by
  have htracked : Tracked l := h.invariant (fun _ _ _ hl hs => hl.step hs) (Tracked.init n kernelPml4)
  obtain ⟨x, hx, htop⟩ := htracked v st hst
  refine ⟨x, hx, ?_⟩
  rcases st with ⟨maker, pages⟩
  cases maker with
  | createGang => exact iff_of_false (not_accounted_createGang htop) fun h => nomatch h.1
  | registerDriver =>
    refine ⟨fun hacc => ⟨rfl, ?_⟩, fun ⟨_, ht, hz⟩ => accounted_registerDriver htop ht hz⟩
    obtain ⟨p, hp, -⟩ := hacc.freed
    have hcond := (Option.ite_none_right_eq_some.mp hp).1
    rwa [htop] at hcond

theorem stack_accounted_iff_service : ∃ l, Run (fun l e l' => l.step e = some l') (Ledger.init 1 0x1000)
    [.startService true 0x5000 0x400000 0x800000 (some 0x10000)] l ∧ ∃ x, l.sched.vcpus 1 = some x ∧
      Accounted ⟨.registerDriver, 0x10000⟩ x := by
  have hrun : Run (fun l e l' => l.step e = some l') (Ledger.init 1 0x1000)
      [.startService true 0x5000 0x400000 0x800000 (some 0x10000)] _ := .cons rfl (.nil _)
  obtain ⟨x, hx, hiff⟩ := stack_accounted_iff hrun 1 ⟨.registerDriver, 0x10000⟩ rfl
  have htype : x.vcpuType = .hardwareDriver := Option.some.inj (congrArg (Option.map Vcpu.vcpuType) hx).symm
  exact ⟨_, hrun, x, hx, hiff.mpr ⟨rfl, by rw [htype]; decide, by decide⟩⟩

/-- A gang of one: three pages for a stack that ends after five. -/
theorem stack_accounted_iff_gang : ∃ l, Run (fun l e l' => l.step e = some l') (Ledger.init 1 0x1000)
    [.createGang 1 0x400000 0 [some 0x10000]] l ∧ l.stackOf 1 = some ⟨.createGang, 0x10000⟩ ∧
      ∀ x, l.sched.vcpus 1 = some x → ¬ Accounted ⟨.createGang, 0x10000⟩ x := by
  have hrun : Run (fun l e l' => l.step e = some l') (Ledger.init 1 0x1000)
      [.createGang 1 0x400000 0 [some 0x10000]] _ := .cons rfl (.nil _)
  refine ⟨_, hrun, rfl, fun x hx => not_accounted_createGang ?_⟩
  exact Option.some.inj (congrArg (Option.map Vcpu.kernelStackTop) hx).symm

end LodaxOS.Sched
