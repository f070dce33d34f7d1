/-
# The scan of the ready queue after a crash

`switch_frame_to_next_driver` pops ids from the CPU's queue until it meets a
driver it can load, at most 64 of them. What is no driver is set aside and
pushed back; a driver that cannot be loaded is dropped. The ids pushed back
stand behind those not yet seen, so the scan sees the first 64 entries in
order.
-/
import LodaxOS.Lib.Traces
import LodaxOS.Sched.Steps

namespace LodaxOS.Sched

open List

open Arch (TrapFrame)
open Asm (Word)

/-- A driver that the scan takes. -/
def takes (s : State) (v : ℕ) : Bool := isDriver s v && loadable s v

variable {s : State} {v n : ℕ} {queue temp : List ℕ}

lemma pushBack_eq : ∀ (temp queue : List ℕ), queue.length + temp.length ≤ queueCapacity → pushBack queue temp = queue ++ temp
  | [], queue, _ => (append_nil queue).symm
  | v :: temp, queue, h => by
    rw [length_cons] at h
    have hpush : pushQueue queue v = queue ++ [v] := if_neg (by omega)
    have ih := pushBack_eq temp (queue ++ [v]) (by rw [length_append, length_singleton]; omega)
    unfold pushBack at ih ⊢
    rw [foldl_cons, hpush, ih, append_assoc, singleton_append]

lemma find_setAside (h : ∀ v ∈ temp, isDriver s v = false) :
    ((queue ++ temp).take n).find? (takes s) = (queue.take n).find? (takes s) := by
  rw [take_append, List.find?_append]
  have hnone : (temp.take (n - queue.length)).find? (takes s) = none := by
    rw [List.find?_eq_none]
    intro v hv
    simp [takes, h v (mem_of_mem_take hv)]
  rw [hnone, Option.or_none]

/-- The scan takes the first driver it may, keeps all ids of others, and pops no
more than it may. -/
lemma scanQueue_spec : ∀ (n : ℕ) (queue temp : List ℕ) (k : ℕ), queue.length + temp.length ≤ queueCapacity →
    temp.length + n ≤ 64 → (∀ v ∈ temp, isDriver s v = false) →
    (scanQueue s n queue temp k).next = (queue.take n).find? (takes s) ∧
    ((scanQueue s n queue temp k).queue.filter fun v => !isDriver s v).Perm ((queue ++ temp).filter fun v => !isDriver s v) ∧
    (scanQueue s n queue temp k).popped ≤ k + n
  | 0, queue, temp, k, hcap, _, _ => by
    rw [scanQueue, pushBack_eq temp queue hcap]
    exact ⟨rfl, List.Perm.refl _, le_rfl⟩
  | n + 1, [], temp, k, hcap, _, _ => by
    rw [scanQueue, pushBack_eq temp [] hcap]
    exact ⟨rfl, List.Perm.refl _, Nat.le_add_right k _⟩
  | n + 1, v :: queue, temp, k, hcap, hroom, hset => by
    rw [length_cons] at hcap
    have hback : pushBack queue temp = queue ++ temp := pushBack_eq temp queue (by omega)
    rw [scanQueue, take_succ_cons, List.find?_cons, cons_append, filter_cons]
    by_cases hd : isDriver s v = true
    · rw [if_pos hd, hback]
      by_cases hl : loadable s v = true
      · rw [if_pos hl]
        simp only [takes, hd, hl, Bool.and_self, Bool.not_true, Bool.false_eq_true, if_false]
        exact ⟨trivial, List.Perm.refl _, by omega⟩
      · rw [if_neg hl]
        obtain ⟨h1, h2, h3⟩ := scanQueue_spec n (queue ++ temp) [] (k + 1)
          (by rw [length_append, length_nil]; omega) (by rw [length_nil]; omega) (by simp)
        rw [find_setAside hset] at h1
        rw [append_nil] at h2
        simp only [takes, hd, hl, Bool.and_false, Bool.not_true, Bool.false_eq_true, if_false]
        exact ⟨h1, h2, by omega⟩
    · rw [if_neg hd, if_pos (by omega)]
      rw [Bool.not_eq_true] at hd
      obtain ⟨h1, h2, h3⟩ := scanQueue_spec n queue (temp ++ [v]) (k + 1)
        (by rw [length_append, length_singleton]; omega)
        (by rw [length_append, length_singleton]; omega)
        (by
          intro w hw
          rcases mem_append.mp hw with hw | hw
          · exact hset w hw
          · rw [mem_singleton.mp hw, hd])
      simp only [takes, hd, Bool.false_and, Bool.not_false, if_true]
      refine ⟨h1, h2.trans ?_, by omega⟩
      -- the id that was set aside goes to the end
      have hperm : (queue ++ (temp ++ [v])).Perm (v :: (queue ++ temp)) := by
        rw [← append_assoc]
        exact perm_append_singleton v _
      have hfilter := hperm.filter fun v => !isDriver s v
      rwa [filter_cons, hd, Bool.not_false, if_pos rfl] at hfilter

lemma takes_ready (h : takes s v = true) : ∃ x, s.vcpus v = some x ∧ x.state = .ready :=
  loadable_ready (Bool.and_eq_true_iff.mp h).2

/-- At most 64 ids are popped. If one of the first 64 is a driver that is ready
with a valid frame, the first such driver is loaded, and it alone is marked
running; otherwise nothing but the queue changes. The ids that are no drivers
stay in the queue. -/
theorem recovery_scan (s : State) (c : ℕ) (frame : TrapFrame) (hcap : (s.cpus c).readyQueue.length ≤ queueCapacity) :
    (scanQueue s 64 (s.cpus c).readyQueue [] 0).popped ≤ 64 ∧
    (∀ v, ((s.cpus c).readyQueue.take 64).find? (takes s) = some v → ∃ x, s.vcpus v = some x ∧ x.state = .ready ∧
      (switchFrameToNextDriver s c frame).2 = (x.savedFrame, some (x.pml4, x.kernelStackTop)) ∧
      (switchFrameToNextDriver s c frame).1.vcpus =
        Function.update s.vcpus v (some { x with state := .running, frameMagic := 0 }) ∧
      ((switchFrameToNextDriver s c frame).1.cpus c).currentVcpu = v) ∧
    (((s.cpus c).readyQueue.take 64).find? (takes s) = none →
      (switchFrameToNextDriver s c frame).2 = (frame, none) ∧ (switchFrameToNextDriver s c frame).1.vcpus = s.vcpus ∧
      ((switchFrameToNextDriver s c frame).1.cpus c).currentVcpu = (s.cpus c).currentVcpu) ∧
    (((switchFrameToNextDriver s c frame).1.cpus c).readyQueue.filter fun v => !isDriver s v).Perm
      ((s.cpus c).readyQueue.filter fun v => !isDriver s v) := by
  obtain ⟨hnext, hperm, hpop⟩ := scanQueue_spec 64 (s.cpus c).readyQueue [] 0 hcap (by decide) (by simp)
  rw [List.append_nil] at hperm
  unfold switchFrameToNextDriver takeDriver
  refine ⟨hpop, fun v hv => ?_, fun hnone => ?_, ?_⟩
  · obtain ⟨x, hx, hr⟩ := takes_ready (List.find?_some hv)
    refine ⟨x, hx, hr, ?_⟩
    simp [hnext, hv, hx, State.setCurrent]
  · simp [hnext, hnone]
  · cases hf : ((s.cpus c).readyQueue.take 64).find? (takes s) with
    | none => simpa [hnext, hf] using hperm
    | some =>
      obtain ⟨x, hx, -⟩ := takes_ready (List.find?_some hf)
      simpa [hnext, hf, hx, State.setCurrent] using hperm

/-- A gang of three is spread over the queue, and of two services one crashes
while the other waits. -/
def crashAmongOthers : List Event :=
  let service := .startService true 0x5000 0x400000 0x800000 (some 0x10000)
  [.createGang 3 0x400000 0 (List.replicate 3 (some 0x10000)), .tick 0 0x9000, service, .tick 0 0x9000, service,
    .crash 0 true]

/-- Behind ordinary vCPUs stand the driver 4, which has crashed, and the driver
5: it is loaded, and the others stay. -/
theorem recovery_scan_mixed : ∃ s, Traces.exec step (State.init 1 0x1000) crashAmongOthers = some s ∧
    (s.cpus 0).readyQueue = [1, 2, 3, 1, 1, 4, 5] ∧ (s.vcpus 4).map Vcpu.state = some .terminated ∧
    ((switchFrameToNextDriver s 0 idleFrame).1.cpus 0).currentVcpu = 5 ∧
    (((switchFrameToNextDriver s 0 idleFrame).1.cpus 0).readyQueue.filter fun v => !isDriver s v).Perm [1, 2, 3, 1, 1] := by
  have hexec : ((Traces.exec step (State.init 1 0x1000) crashAmongOthers).map fun s => ((s.cpus 0).readyQueue,
      (s.vcpus 4).map Vcpu.state, ((s.cpus 0).readyQueue.take 64).find? (takes s),
      (s.cpus 0).readyQueue.filter fun v => !isDriver s v)) =
      some ([1, 2, 3, 1, 1, 4, 5], some .terminated, some 5, [1, 2, 3, 1, 1]) := by decide +kernel
  obtain ⟨s, hs, heq⟩ := Option.map_eq_some_iff.mp hexec
  simp only [Prod.mk.injEq] at heq
  obtain ⟨hqueue, hdead, hnext, hrest⟩ := heq
  obtain ⟨-, hsome, -, hkept⟩ := recovery_scan s 0 idleFrame (by rw [hqueue]; decide)
  obtain ⟨x, -, -, -, -, hcur⟩ := hsome 5 hnext
  exact ⟨s, hs, hqueue, hdead, hcur, hrest ▸ hkept⟩

end LodaxOS.Sched
