/-
# The processors that the boot loader records

`enumerate_aps` goes through the firmware's list of processors, whatever their
order, and stops when the kernel has no room for another application
processor. The application processors it records are always the right ones.
The bootstrap processor it only finds on the way: one that is marked disabled
or unhealthy, or that comes after three usable others, leaves `bsp_apic_id` at
the zero the boot loader started it with.
-/
import LodaxOS.Smp.Bringup

namespace LodaxOS.Smp

open ProcessorInfo List

/-- A processor's record as it is copied: an id is kept as a `u32`. -/
def ProcessorInfo.narrow (p : ProcessorInfo) : ProcessorInfo := { p with processorId := p.processorId % 2 ^ 32 }

/-- `enumerate_aps` with a firmware that answers every query. -/
def enumerateProcessors (ps : List ProcessorInfo) (enabled : ℕ) : BootInfo :=
  enumerateAnswers enabled ((ps.map ProcessorInfo.narrow).map some)

/-! ### What is asked of it -/

def ProcessorInfo.usable (p : ProcessorInfo) : Bool := p.enabled && p.healthy && !p.isBsp

/-- The ids of the usable application processors, in order. -/
def apIds (ps : List ProcessorInfo) : List ℕ := (ps.filter ProcessorInfo.usable).map ProcessorInfo.processorId

structure Recorded (ps : List ProcessorInfo) (bsp : ProcessorInfo) (info : BootInfo) : Prop where
  count : info.apCount = min (maxCpus - 1) (apIds ps).length
  aps : info.apApicIds.take info.apCount = (apIds ps).take (maxCpus - 1)
  bsp : info.bspApicId = bsp.processorId

/-- The loop comes to the bootstrap processor and takes it. -/
def Reached (ps : List ProcessorInfo) (bsp : ProcessorInfo) : Prop :=
  bsp.enabled ∧ bsp.healthy ∧ (apIds (ps.takeWhile fun p => !p.isBsp)).length < maxCpus - 1

instance (ps : List ProcessorInfo) (bsp : ProcessorInfo) : Decidable (Reached ps bsp) :=
  inferInstanceAs (Decidable (_ ∧ _ ∧ _))

lemma apIds_append (l l' : List ProcessorInfo) : apIds (l ++ l') = apIds l ++ apIds l' := by
  simp only [apIds, filter_append, map_append]

lemma apIds_cons (p : ProcessorInfo) (l : List ProcessorInfo) :
    apIds (p :: l) = if p.usable then p.processorId :: apIds l else apIds l := by
  rw [apIds, filter_cons]
  split <;> rfl

lemma apIds_narrow (l : List ProcessorInfo) : apIds (l.map narrow) = (apIds l).map (· % 2 ^ 32) := by
  simp only [apIds, filter_map, map_map]
  rfl

lemma apIds_length_le (l : List ProcessorInfo) : (apIds l).length ≤ (l.filter enabled).length := by
  rw [apIds, length_map]
  refine (monotone_filter_right l fun p hp => ?_).length_le
  simp only [usable, Bool.and_eq_true] at hp
  exact hp.1.1

/-! ### The loop -/

lemma enumerateLoop_full {room : ℕ} {infos : List (Option ProcessorInfo)} {bsp : ℕ} {ids : List ℕ}
    (h : room ≤ ids.length) : enumerateLoop room infos bsp ids = (bsp, ids, true) := by
  cases infos with
  | nil => rfl
  | cons info rest => exact if_pos h

/-- Processors other than the bootstrap one are collected until there is no
more room. -/
lemma enumerateLoop_others {room : ℕ} (hroom : room ≤ maxCpus - 1) {bsp : ℕ} {rest : List (Option ProcessorInfo)} :
    ∀ (l : List ProcessorInfo) (ids : List ℕ), (∀ p ∈ l, p.isBsp = false) → ids.length ≤ room →
      enumerateLoop room (l.map some ++ rest) bsp ids =
        if room ≤ (ids ++ apIds l).length then (bsp, (ids ++ apIds l).take room, true)
        else enumerateLoop room rest bsp (ids ++ apIds l)
  | [], ids, _, hids => by
    simp only [map_nil, nil_append, apIds, filter_nil, append_nil]
    split
    · rename_i hfull
      rw [enumerateLoop_full hfull, take_of_length_le hids]
    · rfl
  | p :: l, ids, hl, hids => by
    obtain ⟨hp, hl⟩ := forall_mem_cons.mp hl
    by_cases hfull : room ≤ ids.length
    · have hlen : ids.length = room := Nat.le_antisymm hids hfull
      rw [enumerateLoop_full hfull, if_pos (by rw [length_append]; omega), take_append_of_le_length hfull,
        take_of_length_le hids]
    · rw [map_cons, cons_append, enumerateLoop, if_neg hfull]
      simp only [hp, Bool.false_eq_true, ↓reduceIte]
      by_cases hu : p.usable = true
      · have hen : (!p.enabled || !p.healthy) = false := by
          simp only [usable, Bool.and_eq_true] at hu
          simp only [hu.1.1, hu.1.2, Bool.not_true, Bool.or_self]
        have hlen : (ids ++ [p.processorId]).length ≤ room := by
          rw [length_append, length_singleton]
          omega
        rw [hen, if_neg Bool.false_ne_true, if_neg (by omega), enumerateLoop_others hroom l _ hl hlen, apIds_cons,
          if_pos hu, append_assoc, singleton_append]
      · have hen : (!p.enabled || !p.healthy) = true := by
          simp only [usable, hp, Bool.not_false, Bool.and_true, Bool.and_eq_true, not_and_or, Bool.not_eq_true] at hu
          rcases hu with h | h
          · rw [h, Bool.not_false, Bool.true_or]
          · rw [h, Bool.not_false, Bool.or_true]
        rw [hen, if_pos rfl, enumerateLoop_others hroom l ids hl hids, apIds_cons, if_neg hu]

/-- The whole loop, with the bootstrap processor somewhere in the list. -/
lemma enumerateLoop_eq {room : ℕ} (hroom : room ≤ maxCpus - 1) {before after : List ProcessorInfo} {b : ProcessorInfo}
    (hb : b.isBsp = true) (hbefore : ∀ p ∈ before, p.isBsp = false) (hafter : ∀ p ∈ after, p.isBsp = false) :
    enumerateLoop room ((before ++ b :: after).map some) 0 [] =
      (if (b.enabled ∧ b.healthy) ∧ (apIds before).length < room then b.processorId else 0,
        (apIds (before ++ b :: after)).take room, true) := by
  have hnot : b.usable = false := by rw [usable, hb, Bool.not_true, Bool.and_false]
  have hids : apIds (before ++ b :: after) = apIds before ++ apIds after := by
    rw [apIds_append, apIds_cons, if_neg (by rw [hnot]; exact Bool.false_ne_true)]
  -- what follows the bootstrap processor, with its id found or not
  have htail : ∀ bsp, (apIds before).length < room → enumerateLoop room (after.map some) bsp (apIds before) =
      (bsp, (apIds (before ++ b :: after)).take room, true) := by
    intro bsp hlt
    rw [← append_nil (after.map some), enumerateLoop_others hroom after (apIds before) hafter hlt.le, hids]
    split
    · rfl
    · rename_i hmore
      rw [take_of_length_le (by omega)]
      rfl
  rw [map_append, enumerateLoop_others hroom before [] hbefore (Nat.zero_le _), nil_append]
  split
  · rename_i hfull
    rw [if_neg (by omega), hids, take_append_of_le_length hfull]
  · rename_i hmore
    have hlt : (apIds before).length < room := by omega
    rw [map_cons, enumerateLoop, if_neg hmore]
    by_cases hen : b.enabled = true ∧ b.healthy = true
    · simp only [hen.1, hen.2, hb, Bool.not_true, Bool.or_self, Bool.false_eq_true, ↓reduceIte, htail _ hlt, hlt,
        and_self]
    · have hskip : (!b.enabled || !b.healthy) = true := by
        rw [Bool.or_eq_true, Bool.not_eq_true', Bool.not_eq_true', ← Bool.not_eq_true, ← Bool.not_eq_true]
        exact not_and_or.mp hen
      simp only [hskip, ↓reduceIte, htail _ hlt, hen, false_and]

/-- A list that stays the same with its numbers cut off has no large numbers. -/
lemma map_mod_eq_iff {m : ℕ} (l : List ℕ) (hm : 0 < m) : l.map (· % m) = l ↔ ∀ x ∈ l, x < m := by
  constructor
  · intro h x hx
    rw [← h] at hx
    obtain ⟨y, -, rfl⟩ := mem_map.mp hx
    exact Nat.mod_lt y hm
  · intro h
    exact (map_congr_left fun x hx => Nat.mod_eq_of_lt (h x hx)).trans (map_id l)

/-- What is recorded of a list with one bootstrap processor. -/
lemma enumerateProcessors_eq {ps : List ProcessorInfo} {bsp : ProcessorInfo}
    (hbsp : ps.filter ProcessorInfo.isBsp = [bsp]) : enumerateProcessors ps (ps.filter ProcessorInfo.enabled).length =
      ⟨if Reached ps bsp then bsp.processorId % 2 ^ 32 else 0, ((apIds ps).take (maxCpus - 1)).map (· % 2 ^ 32),
        min (maxCpus - 1) (apIds ps).length⟩ := by
  obtain ⟨before, after, hps, hbefore, hb, hafter⟩ := List.filter_eq_cons_iff.mp hbsp
  have hbefore' : ∀ p ∈ before, p.isBsp = false := fun p hp => Bool.not_eq_true _ ▸ hbefore p hp
  have hafter' : ∀ p ∈ after, p.isBsp = false := fun p hp => Bool.not_eq_true _ ▸ List.filter_eq_nil_iff.mp hafter p hp
  have hwhile : ps.takeWhile (fun p => !p.isBsp) = before := by
    rw [hps, List.takeWhile_append_of_pos (fun p hp => by rw [hbefore' p hp]; rfl), List.takeWhile_cons, hb]
    exact List.append_nil before
  set n := (ps.filter ProcessorInfo.enabled).length with hn
  have hall : (apIds ps).length ≤ n := apIds_length_le ps
  -- the loop stops for want of room only where the array is full, or all are counted
  have htake : ((apIds ps).map (· % 2 ^ 32)).take (min (min n maxCpus) (maxCpus - 1)) =
      ((apIds ps).take (maxCpus - 1)).map (· % 2 ^ 32) := by
    rw [← List.map_take]
    congr 1
    by_cases hlt : n < maxCpus - 1
    · rw [List.take_of_length_le (by omega), List.take_of_length_le (by omega)]
    · congr 1
      omega
  have hreach : ((bsp.enabled ∧ bsp.healthy) ∧ (apIds before).length < min (min n maxCpus) (maxCpus - 1)) ↔
      Reached ps bsp := by
    rw [Reached, hwhile, and_assoc]
    refine and_congr_right fun hen => and_congr_right fun _ => ?_
    have hcount : (apIds before).length < n := by
      rw [hn, hps, List.filter_append, List.filter_cons, if_pos hen, List.length_append, List.length_cons]
      have := apIds_length_le before
      omega
    omega
  have hnarrow : bsp.narrow.isBsp = true := hb
  have hloop := enumerateLoop_eq (min_le_right (min n maxCpus) (maxCpus - 1)) hnarrow
    (List.forall_mem_map.mpr hbefore' : ∀ p ∈ before.map ProcessorInfo.narrow, p.isBsp = false)
    (List.forall_mem_map.mpr hafter' : ∀ p ∈ after.map ProcessorInfo.narrow, p.isBsp = false)
  rw [← List.map_cons, ← List.map_append, ← hps, apIds_narrow, apIds_narrow, htake, List.length_map] at hloop
  rw [enumerateProcessors, enumerateAnswers, hloop]
  simp only [↓reduceIte, List.length_map, List.length_take, BootInfo.mk.injEq, and_true]
  exact if_congr hreach rfl rfl

/-- The recorded application processors are right for any list of processors
whose ids have 32 bits; the bootstrap processor is recorded exactly if the loop
comes to it, or its id is the zero that stands there. -/
theorem enumerate_records_iff {ps : List ProcessorInfo} {bsp : ProcessorInfo}
    (hbsp : ps.filter ProcessorInfo.isBsp = [bsp]) :
    Recorded ps bsp (enumerateProcessors ps (ps.filter ProcessorInfo.enabled).length) ↔
      (∀ id ∈ (apIds ps).take (maxCpus - 1), id < 2 ^ 32) ∧
        if Reached ps bsp then bsp.processorId < 2 ^ 32 else bsp.processorId = 0 := by
  rw [enumerateProcessors_eq hbsp, ← map_mod_eq_iff _ (by decide)]
  have hwhole : (((apIds ps).take (maxCpus - 1)).map (· % 2 ^ 32)).take (min (maxCpus - 1) (apIds ps).length) =
      ((apIds ps).take (maxCpus - 1)).map (· % 2 ^ 32) :=
    List.take_of_length_le (by rw [List.length_map, List.length_take])
  have hbspId : (if Reached ps bsp then bsp.processorId % 2 ^ 32 else 0) = bsp.processorId ↔
      if Reached ps bsp then bsp.processorId < 2 ^ 32 else bsp.processorId = 0 := by
    split
    · exact ⟨fun h => h ▸ Nat.mod_lt _ (by decide), Nat.mod_eq_of_lt⟩
    · exact eq_comm
  constructor
  · rintro ⟨-, haps, hid⟩
    exact ⟨hwhole.symm.trans haps, hbspId.mp hid⟩
  · rintro ⟨haps, hid⟩
    exact ⟨rfl, hwhole.trans haps, hbspId.mpr hid⟩

/-- Two processors, the bootstrap processor first. -/
theorem enumerate_records_two : Recorded [⟨5, true, true, true⟩, ⟨1, true, true, false⟩] ⟨5, true, true, true⟩
    (enumerateProcessors [⟨5, true, true, true⟩, ⟨1, true, true, false⟩] 2) :=
  (enumerate_records_iff (rfl : [⟨5, true, true, true⟩, ⟨1, true, true, false⟩].filter ProcessorInfo.isBsp = _)).mpr (by decide)

/-- The bootstrap processor after three others is not seen: the kernel takes
processor 0 for it. -/
theorem enumerate_misses_bsp : ∃ ps bsp, ps.filter ProcessorInfo.isBsp = [bsp] ∧ bsp.enabled ∧ bsp.healthy ∧
    bsp.processorId = 7 ∧ (enumerateProcessors ps (ps.filter ProcessorInfo.enabled).length).bspApicId = 0 ∧
      ¬ Recorded ps bsp (enumerateProcessors ps (ps.filter ProcessorInfo.enabled).length) :=
  ⟨[⟨1, true, true, false⟩, ⟨2, true, true, false⟩, ⟨3, true, true, false⟩, ⟨7, true, true, true⟩],
    ⟨7, true, true, true⟩, rfl, rfl, rfl, rfl, rfl, fun h => absurd h.bsp (by decide)⟩

end LodaxOS.Smp
