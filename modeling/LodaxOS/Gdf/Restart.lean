/-
# The restart policy

Crashes are counted for each driver name in a table of sixteen, and restarts are
queued in a table of eight. A name that finds the counters full is restarted
without end, and a restart that finds the queue full is dropped
(`restarts_unbounded`). In runs in which a crash finds room (`Roomy`), the starts
of a name and those in the queue are just the crashes of it that the policy
allows, at most five (`restarts_counted`).
-/
import LodaxOS.Gdf.Services

namespace LodaxOS.Gdf

open Function Happening List Option Slots
open Traces (Run exec)

/-! ### Logs -/

def Happening.crashOf (name : Name) : Happening → Bool
  | .crash _ n _ => n = name
  | _ => false

/-- How often drivers of the name crashed. -/
def crashes (name : Name) (log : List Happening) : ℕ := log.countP (·.crashOf name)

/-- How often `start_service` was called to restart the name. -/
def attempts (name : Name) (log : List Happening) : ℕ := log.count (.attempt name)

/-- How many crashes of the name are to be restarted: the policy permits it, the
package has the metadata, and it is one of the first five. -/
def allowed (name : Name) : List Happening → ℕ
  | [] => 0
  | .crash _ n permitted :: log =>
    allowed name log + if n = name ∧ permitted = true ∧ crashes name log < maxCrashCount then 1 else 0
  | _ :: log => allowed name log

lemma allowed_le (name : Name) : ∀ log, allowed name log ≤ maxCrashCount ∧ allowed name log ≤ crashes name log
  | [] => by simp [allowed]
  | h :: log => by
    have ih := allowed_le name log
    cases h with
    | crash i n permitted =>
      have hcount : crashes name (.crash i n permitted :: log) = crashes name log + if n = name then 1 else 0 := by
        simp [crashes, countP_cons, crashOf]
      rw [hcount, allowed]
      by_cases hn : n = name
      · rw [if_pos hn]
        split
        · omega
        · omega
      · rw [if_neg hn, if_neg fun h => hn h.1]
        omega
    | attempt => simpa [allowed, crashes, countP_cons, crashOf] using ih
    | issue => simpa [allowed, crashes, countP_cons, crashOf] using ih
    | undo => simpa [allowed, crashes, countP_cons, crashOf] using ih
    | hand => simpa [allowed, crashes, countP_cons, crashOf] using ih

/-- Neither a crash nor a start. -/
def Happening.quiet : Happening → Bool
  | .crash .. | .attempt _ => false
  | _ => true

lemma quiet_append (name : Name) : ∀ {l : List Happening} (log : List Happening), (∀ h ∈ l, h.quiet = true) →
    crashes name (l ++ log) = crashes name log ∧ attempts name (l ++ log) = attempts name log ∧
      allowed name (l ++ log) = allowed name log
  | [], _, _ => ⟨rfl, rfl, rfl⟩
  | h :: l, log, hq => by
    have ih := quiet_append name log fun x hx => hq x (mem_cons_of_mem h hx)
    have hh := hq h mem_cons_self
    cases h with
    | crash => cases hh
    | attempt => cases hh
    | issue => simpa [crashes, attempts, allowed, crashOf] using ih
    | undo => simpa [crashes, attempts, allowed, crashOf] using ih
    | hand => simpa [crashes, attempts, allowed, crashOf] using ih

/-! ### Counters -/

/-- The table counts `f`. -/
structure Counts (t : ℕ → Option CrashCounter) (f : Name → ℕ) : Prop where
  range : ∀ j c, t j = some c → j < maxDrivers
  counted : ∀ j c, t j = some c → c.count = f c.name
  once : ∀ j k c d, t j = some c → t k = some d → c.name = d.name → j = k
  fresh : ∀ name, (∀ j c, t j = some c → c.name ≠ name) → f name = 0

variable {name : Name} {log : List Happening}

/-- One counter is written: the name's own, or a new one for it. -/
lemma Counts.write {t : ℕ → Option CrashCounter} {f : Name → ℕ} {i n : ℕ} (h : Counts t f) (hlt : i < maxDrivers)
    (hold : ∀ c, t i = some c → c.name = name) (hother : ∀ j c, t j = some c → c.name = name → j = i) :
    Counts (update t i (some ⟨name, n⟩)) (update f name n) := by
  have hcases : ∀ j c, update t i (some ⟨name, n⟩) j = some c →
      j = i ∧ c = ⟨name, n⟩ ∨ j ≠ i ∧ t j = some c ∧ c.name ≠ name := by
    intro j c hc
    by_cases hj : j = i
    · rw [hj, update_self, Option.some.injEq] at hc
      exact .inl ⟨hj, hc.symm⟩
    · rw [update_of_ne hj] at hc
      exact .inr ⟨hj, hc, fun heq => hj (hother j c hc heq)⟩
  refine ⟨fun j c hc => ?_, fun j c hc => ?_, fun j k c d hc hd heq => ?_, fun name' hno => ?_⟩
  · rcases hcases j c hc with ⟨rfl, -⟩ | ⟨-, hc, -⟩
    · exact hlt
    · exact h.range j c hc
  · rcases hcases j c hc with ⟨-, rfl⟩ | ⟨-, hc, hne⟩
    · rw [update_self]
    · rw [update_of_ne hne]
      exact h.counted j c hc
  · rcases hcases j c hc with ⟨rfl, rfl⟩ | ⟨-, hc, hne⟩
    · rcases hcases k d hd with ⟨rfl, -⟩ | ⟨-, -, hne⟩
      · rfl
      · exact absurd heq.symm hne
    · rcases hcases k d hd with ⟨-, rfl⟩ | ⟨-, hd, -⟩
      · exact absurd heq hne
      · exact h.once j k c d hc hd heq
  · have hne : name' ≠ name := fun heq => hno i ⟨name, n⟩ (update_self ..) heq.symm
    rw [update_of_ne hne]
    refine h.fresh name' fun j c hc heq => ?_
    have hj : j ≠ i := by
      rintro rfl
      exact hne (heq.symm.trans (hold c hc))
    exact hno j c ((update_of_ne hj ..).trans hc) heq

lemma Counts.bump {t t' : ℕ → Option CrashCounter} {f : Name → ℕ} {n : ℕ} (h : Counts t f)
    (hroom : (find maxDrivers (fun c => c.name = name) t).isSome ∨ (free maxDrivers t).isSome)
    (hb : bumpCrashCount t name = some (t', n)) : n = f name + 1 ∧ Counts t' (update f name (f name + 1)) := by
  unfold bumpCrashCount at hb
  cases hi : find maxDrivers (fun c => c.name = name) t with
  | some i =>
    obtain ⟨hlt, ⟨c, hc, hname⟩, -⟩ := find_eq_some.mp hi
    obtain rfl : c.name = name := of_decide_eq_true hname
    rw [hi] at hb
    dsimp only at hb
    rw [hc, bind_some] at hb
    split at hb
    · cases hb
    · cases hb
      rw [h.counted i c hc]
      exact ⟨rfl, h.write hlt (fun d hd => mem_unique hc hd ▸ rfl) fun j d hd heq => h.once j i d c hd hc heq⟩
  | none =>
    have hnone : ∀ j c, t j = some c → c.name ≠ name := fun j c hc =>
      of_decide_eq_false (find_eq_none.mp hi j (h.range j c hc) c hc)
    obtain ⟨i, hfree⟩ := isSome_iff_exists.mp (hroom.resolve_left (by simp [hi]))
    obtain ⟨hlt, hempty, -⟩ := free_eq_some.mp hfree
    rw [hi, hfree] at hb
    cases hb
    rw [h.fresh name hnone]
    refine ⟨rfl, h.write hlt (fun c hc => ?_) fun j c hc heq => absurd heq (hnone j c hc)⟩
    rw [hempty] at hc
    cases hc

/-! ### The condition -/

/-- A crash finds its counter or room for one, and room in the queue if it is to
be restarted. -/
def Roomy (s : History) : LifeEvent → Prop
  | .crash v => ∀ i svc, s.now.services.ofVcpu v = some (i, svc) →
    ((Slots.find maxDrivers (fun c => c.name = svc.name.cut) s.now.counters).isSome ∨ (Slots.free maxDrivers s.now.counters).isSome) ∧
    (s.now.permitted svc = true → crashes svc.name.cut s.log < maxCrashCount → (Slots.free maxDeferredRestarts s.now.deferred).isSome)
  | _ => True

def RoomyStep (s : History) (e : LifeEvent) (s' : History) : Prop := Roomy s e ∧ s.step e = some s'

/-! ### The invariant -/

/-- How many restarts of the name are in the queue. -/
def queued (name : Name) (s : Registry) : ℕ := Slots.count maxDeferredRestarts (fun r => r.name = name) s.deferred

structure Counted (s : History) : Prop where
  counters : Counts s.now.counters fun name => crashes name s.log
  queue : ∀ name, attempts name s.log + queued name s.now = allowed name s.log
  named : ∀ i svc, s.now.services.entries i = some svc → ∃ n : Name, svc.name = n.padded
  kept : ∀ i r, s.now.deferred i = some r → r.name.padded.cut = r.name

namespace Counted

variable {s s' : History}

section

variable (h : Counted s)

include h

/-- Services change, but not their names; the log gets neither crash nor start. -/
lemma quiet {t : Services} {l : List Happening} (hl : ∀ x ∈ l, x.quiet = true)
    (ht : ∀ i svc, t.entries i = some svc → ∃ n : Name, svc.name = n.padded) :
    Counted ⟨{ s.now with services := t }, l ++ s.log⟩ := by
  refine ⟨?_, fun name => ?_, ht, h.kept⟩
  · have heq : (fun name => crashes name (l ++ s.log)) = fun name => crashes name s.log :=
      funext fun name => (quiet_append name s.log hl).1
    exact heq ▸ h.counters
  · obtain ⟨-, hatt, hall⟩ := quiet_append name s.log hl
    rw [hatt, hall]
    exact h.queue name

lemma named_update {t : Services} {i : ℕ} {o : Option Service}
    (ht : t.entries = update s.now.services.entries i o) (ho : ∀ svc, o = some svc → ∃ n : Name, svc.name = n.padded) :
    ∀ j svc, t.entries j = some svc → ∃ n : Name, svc.name = n.padded := by
  intro j svc hj
  rw [ht] at hj
  by_cases hji : j = i
  · rw [hji, update_self] at hj
    exact ho svc hj
  · rw [update_of_ne hji] at hj
    exact h.named j svc hj

lemma named_start (name : Name) (o : Services.Start) :
    ∀ j svc, (s.now.services.startService name o).1.entries j = some svc → ∃ n : Name, svc.name = n.padded := by
  rcases Services.startService_cases s.now.services name o with heq | ⟨i, svc, -, heq, -, hname⟩
  · rw [heq]
    exact h.named
  · exact h.named_update heq fun svc' hsvc => Option.some.inj hsvc ▸ ⟨name, hname⟩

lemma crash {v : ℕ} {r : Registry} (hroom : Roomy s (.crash v))
    (hstep : s.now.handleCrash v = some (r, log)) : Counted ⟨r, log ++ s.log⟩ := by
  rcases Registry.handleCrash_cases hstep with ⟨-, rfl, rfl⟩ |
    ⟨i, svc, counters, n, hv, hbump, hcounters, -, rfl, ⟨o, hentries, ho⟩, hdeferred⟩
  · exact h
  · obtain ⟨hcount, hqueue⟩ := hroom i svc hv
    obtain ⟨hn, hcounts⟩ := h.counters.bump hcount hbump
    have hsvc := (Services.ofVcpu_eq_some.mp hv).2
    obtain ⟨full, hfull⟩ := h.named i svc hsvc
    have hquiet : ∀ x ∈ (Registry.handed svc).map hand, x.quiet = true := by
      intro x hx
      obtain ⟨b, -, rfl⟩ := mem_map.mp hx
      rfl
    have hcrashes : (fun name => crashes name ((Registry.handed svc).map hand ++
        [.crash i svc.name.cut (s.now.permitted svc)] ++ s.log)) =
        update (fun name => crashes name s.log) svc.name.cut (crashes svc.name.cut s.log + 1) := by
      funext name
      rw [append_assoc, (quiet_append name _ hquiet).1]
      by_cases hname : svc.name.cut = name
      · subst hname
        rw [update_self]
        simp [crashes, crashOf]
      · rw [update_of_ne (Ne.symm hname)]
        simp [crashes, crashOf, hname]
    -- The restart gets into the queue, or is not allowed.
    have hpush : (s.now.permitted svc = true ∧ crashes svc.name.cut s.log < maxCrashCount) ∧
        (∃ j q, j < maxDeferredRestarts ∧ s.now.deferred j = none ∧ q.name = svc.name.cut ∧
          r.deferred = update s.now.deferred j (some q)) ∨
        ¬ (s.now.permitted svc = true ∧ crashes svc.name.cut s.log < maxCrashCount) ∧ r.deferred = s.now.deferred := by
      rw [hn] at hdeferred
      split at hdeferred
      · rename_i hok
        obtain ⟨m, hm⟩ := hdeferred
        obtain ⟨j, hj⟩ := isSome_iff_exists.mp (hqueue hok.2 hok.1)
        obtain ⟨hlt, hempty, -⟩ := free_eq_some.mp hj
        refine .inl ⟨⟨hok.2, hok.1⟩, j, ⟨svc.name.cut, m.elf, m.driverClass⟩, hlt, hempty, rfl, ?_⟩
        rw [hm, pushDeferredRestart, hj]
      · rename_i hno
        exact .inr ⟨fun h => hno ⟨h.2, h.1⟩, hdeferred⟩
    refine ⟨?_, fun name => ?_, h.named_update hentries fun svc' hsvc' => ?_, fun j q hq => ?_⟩
    · exact hcounters ▸ hcrashes ▸ hcounts
    · have hall : allowed name ([.crash i svc.name.cut (s.now.permitted svc)] ++ s.log) = allowed name s.log +
          if svc.name.cut = name ∧ s.now.permitted svc = true ∧ crashes name s.log < maxCrashCount then 1 else 0 := rfl
      have hatt : attempts name ([.crash i svc.name.cut (s.now.permitted svc)] ++ s.log) = attempts name s.log := by
        simp [attempts]
      rw [append_assoc, (quiet_append name _ hquiet).2.1, (quiet_append name _ hquiet).2.2, hall, hatt]
      have hold := h.queue name
      rcases hpush with ⟨hok, j, q, hlt, hempty, hq, hdef⟩ | ⟨hno, hdef⟩
      · have hqueued : queued name r = queued name s.now + if svc.name.cut = name then 1 else 0 := by
          rw [queued, hdef, count_fill hlt hempty, queued, hq]
          simp
        rw [hqueued]
        by_cases hname : svc.name.cut = name
        · rw [if_pos hname, if_pos ⟨hname, hok.1, hname ▸ hok.2⟩]
          omega
        · rw [if_neg hname, if_neg fun h => hname h.1]
          omega
      · rw [queued, hdef, if_neg]
        · exact hold
        · rintro ⟨rfl, h⟩
          exact hno h
    · exact ⟨full, (ho svc' hsvc').2.trans hfull⟩
    · change r.deferred j = some q at hq
      rcases hpush with ⟨-, k, q', -, -, hname, hdef⟩ | ⟨-, hdef⟩
      · rw [hdef] at hq
        by_cases hj : j = k
        · rw [hj, update_self, Option.some.injEq] at hq
          rw [← hq, hname, hfull]
          exact cut_padded_cut full
        · rw [update_of_ne hj] at hq
          exact h.kept j q hq
      · rw [hdef] at hq
        exact h.kept j q hq

lemma restart {o : Services.Start} {r : Registry}
    (hstep : s.now.restart o = some (r, log)) : Counted ⟨r, log ++ s.log⟩ := by
  unfold Registry.restart at hstep
  split at hstep
  · cases hstep
  · rename_i i hi
    obtain ⟨hlt, ⟨q, hq, -⟩, -⟩ := find_eq_some.mp hi
    rw [hq, map_some, Option.some.injEq, Prod.mk.injEq] at hstep
    obtain ⟨rfl, rfl⟩ := hstep
    refine ⟨?_, fun name => ?_, h.named_start q.name o, fun j q' hq' => ?_⟩
    · have heq : (fun name => crashes name ([attempt q.name] ++ s.log)) = fun name => crashes name s.log := by
        funext name
        simp [crashes, crashOf]
      exact heq ▸ h.counters
    · have hatt : attempts name ([attempt q.name] ++ s.log) = attempts name s.log + if q.name = name then 1 else 0 := by
        simp [attempts, count_cons]
      have hclear := count_clear (p := fun r : DeferredRestart => decide (r.name = name)) hlt hq
      have hold := h.queue name
      unfold queued at hold ⊢
      rw [hatt]
      change _ = allowed name s.log
      simp only [decide_eq_true_eq] at hclear
      dsimp only
      omega
    · by_cases hj : j = i
      · change update s.now.deferred i none j = some q' at hq'
        rw [hj, update_self] at hq'
        cases hq'
      · exact h.kept j q' ((update_of_ne hj ..).symm.trans hq')

lemma step {e : LifeEvent} (hstep : RoomyStep s e s') : Counted s' := by
  obtain ⟨hroom, hstep⟩ := hstep
  cases e with
  | load i name elf cls o =>
    cases hstep
    exact ⟨h.counters, h.queue, h.named_start name o, h.kept⟩
  | crash =>
    obtain ⟨⟨r, log⟩, hcrash, rfl⟩ := map_eq_some_iff.mp hstep
    exact h.crash hroom hcrash
  | restart =>
    obtain ⟨⟨r, log⟩, hrestart, rfl⟩ := map_eq_some_iff.mp hstep
    exact h.restart hrestart
  | stop i =>
    simp only [History.step, Option.some.injEq] at hstep
    subst hstep
    refine h.quiet (fun x hx => ?_) ?_
    · obtain ⟨b, -, rfl⟩ := mem_map.mp hx
      rfl
    · cases hi : s.now.services.entries i with
      | none =>
        rw [Services.stopService_none hi]
        exact h.named
      | some svc =>
        exact h.named_update (Services.stopService_some hi).1 fun svc' hsvc => Option.some.inj hsvc ▸ h.named i svc hi
  | dmaAlloc v size phys =>
    simp only [History.step, Option.some.injEq] at hstep
    subst hstep
    have hquiet : ∀ r, ∀ x ∈ History.allocLog s.now.services v size r, x.quiet = true := by
      intro r x hx
      rcases mem_append.mp hx with hx | hx
      · obtain ⟨b, -, rfl⟩ := mem_map.mp hx
        rfl
      · obtain ⟨-, hx⟩ : r.rax ≠ u64Max ∧ x = _ := by simpa using hx
        rw [hx]
        rfl
    refine h.quiet (hquiet _) ?_
    cases phys with
    | none => exact h.named
    | some p =>
      rcases sysDmaAlloc_cases s.now.services v size p with ⟨heq, -⟩ | ⟨i, svc, hv, -, heq⟩
      · rw [heq]
        exact h.named
      · rw [heq]
        refine h.named_update rfl fun svc' hsvc => ?_
        exact Option.some.inj hsvc ▸ h.named i svc (Services.ofVcpu_eq_some.mp hv).2
  | dmaFree v phys =>
    simp only [History.step, Option.some.injEq] at hstep
    subst hstep
    rcases sysDmaFree_cases s.now.services v phys with heq | ⟨i, svc, k, pages, hv, -, -, hfreed, heq⟩
    · rw [heq]
      exact h
    · rw [hfreed]
      refine h.quiet (by simp [Happening.quiet]) (h.named_update heq fun svc' hsvc => ?_)
      exact Option.some.inj hsvc ▸ h.named i svc (Services.ofVcpu_eq_some.mp hv).2

end

lemma init : Counted .start where
  counters := ⟨fun _ _ h => (nomatch h), fun _ _ h => (nomatch h), fun _ _ _ _ h => (nomatch h), fun _ _ => rfl⟩
  queue := fun _ => rfl
  named := fun _ _ h => nomatch h
  kept := fun _ _ h => nomatch h

end Counted

/-! ### The policy -/

variable {s s' : History}

lemma step_log {e : LifeEvent} (hstep : s.step e = some s') : s.log <:+ s'.log := by
  cases e with
  | load =>
    cases hstep
    exact suffix_rfl
  | crash =>
    obtain ⟨⟨r, log⟩, -, rfl⟩ := map_eq_some_iff.mp hstep
    exact suffix_append log s.log
  | restart =>
    obtain ⟨⟨r, log⟩, -, rfl⟩ := map_eq_some_iff.mp hstep
    exact suffix_append log s.log
  | stop =>
    cases hstep
    exact suffix_append _ s.log
  | dmaAlloc =>
    cases hstep
    exact suffix_append _ s.log
  | dmaFree =>
    cases hstep
    exact suffix_append _ s.log

lemma run_log {tr : List LifeEvent} (h : Run RoomyStep s tr s') : s.log <:+ s'.log := by
  induction h with
  | nil => exact suffix_rfl
  | cons hstep hr ih => exact (step_log hstep.2).trans ih

/-- After five crashes no more are allowed. -/
lemma allowed_append (h : maxCrashCount ≤ crashes name log) : ∀ l, allowed name (l ++ log) = allowed name log
  | [] => rfl
  | x :: l => by
    have ih := allowed_append h l
    cases x with
    | crash =>
      have hle : maxCrashCount ≤ crashes name (l ++ log) := by
        rw [crashes, countP_append]
        exact h.trans (Nat.le_add_left ..)
      rw [cons_append, allowed, if_neg fun hlt => absurd hlt.2.2 (not_lt.mpr hle)]
      exact ih
    | attempt => exact ih
    | issue => exact ih
    | undo => exact ih
    | hand => exact ih

/-- In every run in which crashes find room: a name is restarted at most five
times; its starts and those in the queue are just the crashes that are to be
restarted; once the queue is empty each had its start; after five crashes only
restarts that are in the queue are started; and what is started for a restart has
its name. -/
theorem restarts_counted {tr : List LifeEvent} (h : Run RoomyStep .start tr s) :
    (∀ name, attempts name s.log ≤ maxCrashCount) ∧
    (∀ name, attempts name s.log + queued name s.now = allowed name s.log) ∧
    ((∀ i, s.now.deferred i = none) → ∀ name, attempts name s.log = allowed name s.log) ∧
    (∀ name, maxCrashCount ≤ crashes name s.log → ∀ tr' s', Run RoomyStep s tr' s' →
      attempts name s'.log ≤ attempts name s.log + queued name s.now) ∧
    ∀ i r, s.now.deferred i = some r → r.name.padded.cut = r.name := by
  have hc : Counted s := h.invariant (fun _ _ _ hs hstep => hs.step hstep) Counted.init
  refine ⟨fun name => ?_, hc.queue, fun hempty name => ?_, fun name hfive tr' s' hrun => ?_, hc.kept⟩
  · calc attempts name s.log ≤ attempts name s.log + queued name s.now := Nat.le_add_right ..
      _ = allowed name s.log := hc.queue name
      _ ≤ maxCrashCount := (allowed_le name s.log).1
  · have hnone : queued name s.now = 0 := by
      rw [queued, show s.now.deferred = fun _ => none from funext hempty]
      rfl
    rw [← hc.queue name, hnone, add_zero]
  · have hc' : Counted s' := hrun.invariant (fun _ _ _ hs hstep => hs.step hstep) hc
    obtain ⟨l, hl⟩ := run_log hrun
    calc attempts name s'.log ≤ attempts name s'.log + queued name s'.now := Nat.le_add_right ..
      _ = allowed name s'.log := hc'.queue name
      _ = allowed name s.log := by rw [← hl, allowed_append hfive]
      _ = attempts name s.log + queued name s.now := (hc.queue name).symm

def driverName (k : UInt8) : Name := k :: List.replicate 31 0

/-- The start of a service on a vCPU. -/
def startOn (v : ℕ) : Services.Start := ⟨true, some v, true⟩

/-- A driver that crashes is restarted. -/
def restartOnce : List LifeEvent :=
  [.load 0 (driverName 0x61) [] .hardware (startOn 1), .crash 1, .restart (startOn 2)]

theorem restarts_counted_once : ∃ s, Run RoomyStep .start restartOnce s ∧ attempts (driverName 0x61) s.log = 1 ∧
    allowed (driverName 0x61) s.log = 1 ∧ attempts (driverName 0x61) s.log ≤ maxCrashCount := by
  have hexec : ((exec History.step .start restartOnce).map fun s => (attempts (driverName 0x61) s.log, allowed (driverName 0x61) s.log)) =
      some (1, 1) := by decide +kernel
  obtain ⟨s, hs, heq⟩ := Option.map_eq_some_iff.mp hexec
  obtain ⟨hatt, hall⟩ := Prod.mk.inj heq
  have hrun : Run RoomyStep .start restartOnce s := by
    obtain ⟨s₁, h₁, hs⟩ := Option.bind_eq_some_iff.mp hs
    obtain ⟨s₂, h₂, hs⟩ := Option.bind_eq_some_iff.mp hs
    obtain ⟨s₃, h₃, hs⟩ := Option.bind_eq_some_iff.mp hs
    cases hs
    refine .cons ⟨trivial, h₁⟩ (.cons ⟨?_, h₂⟩ (.cons ⟨trivial, h₃⟩ (.nil _)))
    cases h₁
    exact fun i svc _ => ⟨.inr (by decide +kernel), fun _ _ => by decide +kernel⟩
  exact ⟨s, hrun, hatt, hall, (restarts_counted hrun).1 _⟩

/-- Sixteen drivers without metadata crash; then a driver crashes six times. -/
def sixTimes : List LifeEvent :=
  (0 :: List.range' 16 16).map (fun i => .load i (driverName (0x61 + i.toUInt8)) [] .hardware (startOn (1 + i))) ++
    (List.range 16).map (fun i => .crash (17 + i)) ++
    ((List.range 6).map fun i => [.crash (if i = 0 then 1 else 40 + i), .restart (startOn (41 + i))]).flatten

/-- Nine drivers crash before the queue is drained. -/
def nineAtOnce : List LifeEvent :=
  (List.range 9).map (fun i => .load i (driverName (0x61 + i.toUInt8)) [] .hardware (startOn (1 + i))) ++
    (List.range 9).map (fun i => .crash (1 + i)) ++ (List.range 8).map fun i => .restart (startOn (20 + i))

/-- A driver is restarted six times; and a crash that is to be restarted is not,
although the queue is drained. -/
theorem restarts_unbounded :
    (∃ s, Run (fun s e s' => History.step s e = some s') .start sixTimes s ∧ attempts (driverName 0x61) s.log = 6) ∧
    ∃ s, Run (fun s e s' => History.step s e = some s') .start nineAtOnce s ∧ (∀ i < maxDeferredRestarts, s.now.deferred i = none) ∧
      allowed (driverName 0x69) s.log = 1 ∧ attempts (driverName 0x69) s.log = 0 := by
  constructor
  · have hexec : ((exec History.step .start sixTimes).map fun s => attempts (driverName 0x61) s.log) = some 6 := by decide +kernel
    obtain ⟨s, hs, hatt⟩ := Option.map_eq_some_iff.mp hexec
    exact ⟨s, Traces.run_of_exec hs, hatt⟩
  · have hexec : ((exec History.step .start nineAtOnce).map fun s => ((List.range 8).all fun i => (s.now.deferred i).isNone,
        allowed (driverName 0x69) s.log, attempts (driverName 0x69) s.log)) = some (true, 1, 0) := by decide +kernel
    obtain ⟨s, hs, heq⟩ := Option.map_eq_some_iff.mp hexec
    obtain ⟨hempty, hrest⟩ := Prod.mk.inj heq
    obtain ⟨hall, hatt⟩ := Prod.mk.inj hrest
    refine ⟨s, Traces.run_of_exec hs, fun i hi => ?_, hall, hatt⟩
    exact Option.isNone_iff_eq_none.mp (List.all_eq_true.mp hempty i (List.mem_range.mpr hi))

end LodaxOS.Gdf
