/-
# Per-CPU slots

`percpu.rs` keeps one slot for each processor and three facts about it in
three places: the slot's `online` flag, its `apic_id` field, and the entry of
`APIC_TO_SLOT` for the id. They are written one after another, by the
processor itself or by the bootstrap processor for it, and `find_slot` claims
a slot by its flag alone. Here the code that touches them is a program of
single atomic accesses, and the processors run these programs in any
interleaving.

A slot's field names its owner in every state only on the machine whose one
processor has the id that unused slots already hold; everywhere else the
bootstrap processor itself passes through a state with a claimed slot that
names nobody. Nor has an id one slot for good elsewhere: a lookup that comes
before the name claims a slot, and the next one another.
-/
import LodaxOS.Lib.Sections

namespace LodaxOS.Smp

open Sections Sections.Prog Function List

/-- `MAX_CPUS`. -/
def maxCpus : ℕ := 4

/-- `u32::MAX`, the `apic_id` of a slot that `PerCpu::new` made. -/
def noApicId : ℕ := 2 ^ 32 - 1

/-- The parts of `PERCPU`, `APIC_TO_SLOT` and the trampoline's `SLOT_MAP` that
say which slot is whose. `given` is no state of the kernel: it records each
slot that the code above took for an id. -/
structure Percpu where
  apicId : ℕ → ℕ
  online : ℕ → Bool
  apicToSlot : ℕ → ℕ
  slotMap : ℕ → ℕ
  given : List (ℕ × ℕ)

/-- The statics as the kernel image has them. -/
def Percpu.new : Percpu where
  apicId _ := noApicId
  online _ := false
  apicToSlot _ := 0xFF
  slotMap _ := 0
  given := []

/-- Slot `k` is taken for `id`. -/
def Percpu.give (id k : ℕ) (s : Percpu) : Percpu := { s with given := (id, k) :: s.given }

/-! ### The code -/

/-- Phase 1 of `find_slot`: one load for each slot until one matches. -/
def matchSlot (id : ℕ) : List ℕ → Prog Percpu (Option ℕ)
  | [] => pure none
  | k :: ks => do
    let hit ← atomically fun s => if s.apicId k = id then (true, s.give id k) else (false, s)
    if hit then pure (some k) else matchSlot id ks

/-- Phase 2: one compare-and-exchange for each slot until one succeeds. -/
def claimSlot (id : ℕ) : List ℕ → Prog Percpu (Option ℕ)
  | [] => pure none
  | k :: ks => do
    let won ← atomically fun s =>
      if s.online k then (false, s)
      else (true, { s.give id k with online := update s.online k true })
    if won then pure (some k) else claimSlot id ks

def findSlot (id : ℕ) : Prog Percpu (Option ℕ) := do
  match ← matchSlot id (List.range maxCpus) with
  | some k => pure (some k)
  | none => claimSlot id (List.range maxCpus)

/-- `none` where `slot_for` panics. -/
def slotFor (id : ℕ) : Prog Percpu (Option ℕ) := findSlot id

def apicIdToSlot (id : ℕ) : Prog Percpu (Option ℕ) := do
  if id < 256 then
    let slot ← atomically fun s =>
      if s.apicToSlot id ≠ 0xFF then (s.apicToSlot id, s.give id (s.apicToSlot id)) else (0xFF, s)
    if slot ≠ 0xFF then pure (some slot) else slotFor id
  else slotFor id

/-- Three stores; the index into `PERCPU` is checked before the second. -/
def markOnlineForSlot (id slot : ℕ) : Prog Percpu Unit := do
  if id < 256 then
    modify fun s => { s with apicToSlot := update s.apicToSlot id (slot % 256) }
  if slot < maxCpus then
    modify fun s => { s with apicId := update s.apicId slot id }
    modify fun s => { s with online := update s.online slot true }

def markOnline (id : ℕ) : Prog Percpu Unit := do
  match ← slotFor id with
  | some slot => markOnlineForSlot id slot
  | none => pure ()

/-- Phase 0 of `smp_boot_aps`; `none` where it panics. -/
def allocSlots : List ℕ → Prog Percpu (Option (List ℕ))
  | [] => pure (some [])
  | id :: ids => do
    match ← findSlot id with
    | none => pure none
    | some k => do
      match ← allocSlots ids with
      | none => pure none
      | some ks => pure (some (k :: ks))

/-- The slot map entries `send_ipis` writes. -/
def writeSlotMap : List (ℕ × ℕ) → Prog Percpu Unit
  | [] => pure ()
  | (id, k) :: rest => do
    if id < 256 then
      modify fun s => { s with slotMap := update s.slotMap id (k % 256) }
    writeSlotMap rest

/-- The slots and the slot map; `stacked` says whether the stacks could be
allocated, without which nothing is sent. The result says whether the
processors are woken. -/
def smpBootAps (ids : List ℕ) (stacked : Bool) : Prog Percpu Bool := do
  if ids = [] then pure false
  else
    match ← allocSlots (ids.take (maxCpus - 1)) with
    | none => pure false
    | some slots =>
      if stacked then do
        modify fun s => { s with slotMap := fun _ => 0xFF }
        writeSlotMap ((ids.take (maxCpus - 1)).zip slots)
        pure true
      else pure false

/-- What the bootstrap processor does about slots. -/
def bspBoot (bsp : ℕ) (ids : List ℕ) (stacked : Bool) : Prog Percpu Bool := do
  markOnline bsp
  smpBootAps ids stacked

/-- The slot set-up of `ap_entry`; the id it works with is the one of eight
bits that `cpuid` shows. -/
def apEntry (id : ℕ) : Prog Percpu Unit := do
  let slot ← atomically fun s => (s.slotMap (id % 256), s.give id (s.slotMap (id % 256)))
  markOnlineForSlot (id % 256) slot

/-! ### The processors -/

/-- The processors of a machine the kernel has slots for. -/
structure Processors where
  bsp : ℕ
  aps : List ℕ
  distinct : (bsp :: aps).Nodup
  fit : (bsp :: aps).length ≤ maxCpus
  word : ∀ id ∈ bsp :: aps, id < 2 ^ 32

inductive Call (A : Processors)
  | boot
  | entry (id : ℕ)
  | lookup (id : ℕ) (h : id ∈ A.bsp :: A.aps)

/-- `power` starts the bootstrap processor, `sipi` one of the others. -/
inductive Signal
  | power
  | sipi (id : ℕ)
  deriving DecidableEq

/-- The bootstrap processor boots once, each of the others comes in once it
was woken, and any of them looks its own slot up at any time. -/
def client (A : Processors) (stacked : Bool) : Client Percpu Bool (Multiset (ℕ × ℕ)) where
  Call := Call A
  Tok := Signal
  prog
    | .boot => bspBoot A.bsp A.aps stacked
    | .entry id => do apEntry id; pure false
    | .lookup id _ => do let _ ← apicIdToSlot id; pure false
  takes
    | .boot => {.power}
    | .entry id => {.sipi id}
    | .lookup _ _ => 0
  gives
    | .boot, true => (A.aps.map Signal.sipi : List Signal)
    | _, _ => 0
  cost _ := 0
  Ok
    | .power => True
    | .sipi id => id ∈ A.aps

/-- Switched on, with room for `n + 1` activities at once. -/
def powered (A : Processors) (stacked : Bool) (n : ℕ) : Pool (client A stacked) (Fin (n + 1)) :=
  ⟨Percpu.new, fun _ => none, ({Signal.power} : Multiset Signal)⟩

/-- Slots tell the processors apart: two ids never have one slot, an id
never gets a second slot, and an online slot names the id it was given to. -/
structure Identifies (s : Percpu) : Prop where
  apart : ∀ i j k, (i, k) ∈ s.given → (j, k) ∈ s.given → i = j
  stable : ∀ i k l, (i, k) ∈ s.given → (i, l) ∈ s.given → k = l
  named : ∀ k, s.online k = true → ∃ i, (i, k) ∈ s.given ∧ s.apicId k = i

/-- In every state of every interleaving. -/
def AlwaysIdentifies (A : Processors) (stacked : Bool) : Prop :=
  ∀ n (P : Pool (client A stacked) (Fin (n + 1))), Pool.Reach (powered A stacked n) P → Identifies P.shared

/-! ### A slot that is claimed and not yet named -/

variable {id k : ℕ} {s : Percpu}

lemma run_matchSlot_none {ks : List ℕ} (h : ∀ k ∈ ks, s.apicId k ≠ id) : (matchSlot id ks).run s = (none, s) := by
  induction ks with
  | nil => rfl
  | cons k ks ih =>
    rw [matchSlot, run_bind, run_atomically, if_neg (h k (mem_cons_self ..))]
    exact ih fun j hj => h j (mem_cons_of_mem _ hj)

lemma run_matchSlot_head (ks : List ℕ) (h : s.apicId k = id) :
    (matchSlot id (k :: ks)).run s = (some k, s.give id k) := by
  rw [matchSlot, run_bind, run_atomically, if_pos h]
  rfl

lemma run_claimSlot_of_offline (ks : List ℕ) (h : s.online k = false) : (claimSlot id (k :: ks)).run s =
      (some k, { s.give id k with online := update s.online k true }) := by
  rw [claimSlot, run_bind, run_atomically]
  simp [h]

lemma run_claimSlot_of_online (ks : List ℕ) (h : s.online k = true) :
    (claimSlot id (k :: ks)).run s = (claimSlot id ks).run s := by
  rw [claimSlot, run_bind, run_atomically]
  simp [h]

/-- A processor that no slot names claims the first slot that is offline. -/
lemma run_findSlot_of_unnamed (h : ∀ k < maxCpus, s.apicId k ≠ id) :
    (findSlot id).run s = (claimSlot id (List.range maxCpus)).run s := by
  rw [findSlot, run_bind, run_matchSlot_none fun k hk => h k (mem_range.mp hk)]

lemma run_apicIdToSlot_of_unnamed (h : ∀ k < maxCpus, s.apicId k ≠ id) (hs : s.apicToSlot id = 0xFF) :
    (apicIdToSlot id).run s = (claimSlot id (List.range maxCpus)).run s := by
  rw [apicIdToSlot, slotFor]
  split
  · rw [run_bind, run_atomically, if_neg (not_not.mpr hs)]
    exact run_findSlot_of_unnamed h
  · exact run_findSlot_of_unnamed h

/-- The state right after the claim of slot `k` does not name its owner. -/
lemma not_named_of_claimed (id : ℕ) (hg : ∀ i, (i, k) ∈ s.given → i = id) (hn : s.apicId k ≠ id) :
    ¬∃ i, (i, k) ∈ s.given ∧ s.apicId k = i := by
  rintro ⟨i, hi, ha⟩
  exact hn (ha.trans (hg i hi))

section Runs

variable {A : Processors} (stacked : Bool) (n : ℕ)

/-- The boot program is under way once the machine is on. -/
lemma reach_boot (A : Processors) : Pool.Reach (powered A stacked n)
    ⟨Percpu.new, update (fun _ => none) 0 (some ((Call.boot : Call A), bspBoot A.bsp A.aps stacked)), 0⟩ :=
  .single (Pool.Step.call (powered A stacked n) 0 (Call.boot : Call A) 0 rfl rfl)

/-- An id that slots do not start with: its claim of slot 0 is seen before
its name. -/
lemma exists_unnamed_bsp (hb : A.bsp ≠ noApicId) : ∃ P, Pool.Reach (powered A stacked n) P ∧ P.shared.online 0 = true ∧
      P.shared.given = [(A.bsp, 0)] ∧ P.shared.apicId 0 = noApicId := by
  have hrun : (findSlot A.bsp).run Percpu.new =
      (some 0, { Percpu.new.give A.bsp 0 with online := update Percpu.new.online 0 true }) := by
    rw [run_findSlot_of_unnamed fun k _ => Ne.symm hb]
    exact run_claimSlot_of_offline [1, 2, 3] rfl
  have hr := reach_boot stacked n A
  rw [bspBoot, markOnline, slotFor, bind_bind] at hr
  have hr' := hr.trans (Pool.reach_bind _ (findSlot A.bsp) Percpu.new)
  rw [hrun] at hr'
  exact ⟨_, hr', by simp, rfl, rfl⟩

lemma reach_lookup {P : Pool (client A stacked) (Fin (n + 1))} (hid : id ∈ A.bsp :: A.aps) (hc : P.cpus 0 = none) :
    Pool.Reach P ⟨((apicIdToSlot id).run P.shared).2, P.cpus, P.owned⟩ := by
  have h := Pool.reach_call (Call.lookup id hid : Call A) P.owned hc (zero_add _).symm
  have hrun : (((client A stacked).prog (Call.lookup id hid)).run P.shared).2 = ((apicIdToSlot id).run P.shared).2 :=
    congrArg Prod.snd (run_bind (apicIdToSlot id) (fun _ => pure false) P.shared)
  rwa [hrun, show (client A stacked).gives (Call.lookup id hid) _ = 0 from rfl, zero_add] at h

/-- Two lookups before the name is there claim two slots. -/
lemma exists_two_slots (hid : id ∈ A.bsp :: A.aps) (hne : id ≠ noApicId) :
    ∃ P, Pool.Reach (powered A stacked n) P ∧ P.shared.given = [(id, 1), (id, 0)] := by
  have hfirst := (run_apicIdToSlot_of_unnamed (s := Percpu.new) (fun _ _ => hne.symm) rfl).trans
    (run_claimSlot_of_offline [1, 2, 3] rfl)
  have hr := reach_lookup stacked n (P := powered A stacked n) hid rfl
  rw [show (powered A stacked n).shared = Percpu.new from rfl, hfirst] at hr
  have hr' := hr.trans (reach_lookup stacked n hid rfl)
  refine ⟨_, hr', ?_⟩
  rw [run_apicIdToSlot_of_unnamed (fun _ _ => hne.symm) rfl]
  show ((claimSlot id [0, 1, 2, 3]).run _).2.given = _
  rw [run_claimSlot_of_online _ rfl, run_claimSlot_of_offline _ rfl]
  rfl

/-- Slot 0 after `mark_online` of `id` on the new statics. -/
def bspOnline (id : ℕ) : Percpu where
  apicId := update Percpu.new.apicId 0 id
  online := update Percpu.new.online 0 true
  apicToSlot := if id < 256 then update Percpu.new.apicToSlot id 0 else Percpu.new.apicToSlot
  slotMap := Percpu.new.slotMap
  given := [(id, 0)]

lemma run_markOnline_new (id : ℕ) : ((markOnline id).run Percpu.new).2 = bspOnline id := by
  have hfind : ∃ o, (findSlot id).run Percpu.new = (some 0, { Percpu.new.give id 0 with online := o }) ∧
      update o 0 true = update Percpu.new.online 0 true := by
    by_cases hid : id = noApicId
    · refine ⟨Percpu.new.online, ?_, rfl⟩
      have hm : (matchSlot id (List.range maxCpus)).run Percpu.new = (some 0, Percpu.new.give id 0) :=
        run_matchSlot_head [1, 2, 3] hid.symm
      rw [findSlot, run_bind, hm]
      rfl
    · refine ⟨update Percpu.new.online 0 true, ?_, update_idem ..⟩
      rw [run_findSlot_of_unnamed fun k _ => Ne.symm hid]
      exact run_claimSlot_of_offline [1, 2, 3] rfl
  obtain ⟨o, hf, hon⟩ := hfind
  rw [markOnline, slotFor, run_bind, hf]
  by_cases h256 : id < 256 <;>
    simp [markOnlineForSlot, h256, maxCpus, bspOnline, Percpu.give, hon] <;> rfl

/-- Where another processor is started, the slot claimed for it is seen
before its name. -/
lemma exists_unnamed_ap {ids : List ℕ} (ha : A.aps = id :: ids) (hb : A.bsp ≠ id) (hid : id ≠ noApicId) :
    ∃ P, Pool.Reach (powered A stacked n) P ∧ P.shared.online 1 = true ∧
      P.shared.given = [(id, 1), (A.bsp, 0)] ∧ P.shared.apicId 1 = noApicId := by
  have hrun : (findSlot id).run (bspOnline A.bsp) = (some 1,
      { (bspOnline A.bsp).give id 1 with online := update (bspOnline A.bsp).online 1 true }) := by
    rw [run_findSlot_of_unnamed]
    · exact (run_claimSlot_of_online [1, 2, 3] rfl).trans (run_claimSlot_of_offline [2, 3] rfl)
    · intro k _ hk
      by_cases h0 : k = 0
      · subst h0
        exact hb hk
      · exact hid (by rw [← hk, bspOnline]; exact update_of_ne h0 ..)
  have hr := (reach_boot stacked n A).trans (Pool.reach_bind _ (markOnline A.bsp) Percpu.new)
  have htake : (id :: ids).take (maxCpus - 1) = id :: ids.take 2 := rfl
  rw [run_markOnline_new, ha, smpBootAps, if_neg (cons_ne_nil _ _), htake, allocSlots, bind_bind] at hr
  have hr' := hr.trans (Pool.reach_bind _ (findSlot id) (bspOnline A.bsp))
  rw [hrun] at hr'
  exact ⟨_, hr', by simp, rfl, rfl⟩

end Runs

/-! ### The one machine on which slots always name their owners -/

/-- All that the machine whose one processor has the id `u32::MAX` can come
to, with what its activities know to have been given. -/
structure Lone (s : Percpu) (known : Multiset (ℕ × ℕ)) : Prop where
  apicId : ∀ k, s.apicId k = noApicId
  online : ∀ k, s.online k = true → k = 0 ∧ (noApicId, 0) ∈ s.given
  given : ∀ t ∈ s.given, t = (noApicId, 0)
  known : ∀ t ∈ known, t ∈ s.given

lemma Lone.identifies {known : Multiset (ℕ × ℕ)} (h : Lone s known) : Identifies s where
  apart i j k hi hj := (Prod.ext_iff.mp (h.given _ hi)).1.trans (Prod.ext_iff.mp (h.given _ hj)).1.symm
  stable i k l hk hl := (Prod.ext_iff.mp (h.given _ hk)).2.trans (Prod.ext_iff.mp (h.given _ hl)).2.symm
  named k hk := by
    obtain ⟨rfl, hg⟩ := h.online k hk
    exact ⟨noApicId, hg, h.apicId 0⟩

/-- Whoever took the slot may remember it or not. -/
lemma Lone.give {F h : Multiset (ℕ × ℕ)} (hI : Lone s F) (hh : ∀ t ∈ h, t = (noApicId, 0)) :
    Lone (s.give noApicId 0) (h + F) where
  apicId := hI.apicId
  online k hk := ⟨(hI.online k hk).1, mem_cons_self ..⟩
  given t ht := (mem_cons.mp ht).elim id (hI.given t)
  known t ht := by
    rcases Multiset.mem_add.mp ht with ht | ht
    · rw [hh t ht]
      exact mem_cons_self ..
    · exact mem_cons_of_mem _ (hI.known t ht)

/-- The first load already matches. -/
lemma findSlot_lone {h : Multiset (ℕ × ℕ)} (hh : ∀ t ∈ h, t = (noApicId, 0)) :
    Safe Lone (findSlot noApicId) 0 fun r h' => r = some 0 ∧ h' = h := by
  have hmatch : Safe Lone (matchSlot noApicId (List.range maxCpus)) 0 fun r h' => r = some 0 ∧ h' = h := by
    intro s F hI
    rw [zero_add] at hI
    simp only [hI.apicId 0, ↓reduceIte]
    exact ⟨h, hI.give hh, rfl, rfl⟩
  refine hmatch.bind fun r h' hr => ?_
  rw [hr.1]
  exact ⟨rfl, hr.2⟩

lemma apicIdToSlot_lone : Safe Lone (apicIdToSlot noApicId) 0 fun _ h => h = 0 := by
  rw [apicIdToSlot, if_neg (by decide)]
  exact (findSlot_lone fun t ht => absurd ht (Multiset.notMem_zero t)).mono fun _ _ h => h.2

lemma markOnline_lone : Safe Lone (markOnline noApicId) 0 fun _ h => h = 0 := by
  refine (findSlot_lone (h := {(noApicId, 0)}) fun t => Multiset.mem_singleton.mp).bind fun r h hr => ?_
  obtain ⟨rfl, rfl⟩ := hr
  show Safe Lone (markOnlineForSlot noApicId 0) _ _
  simp only [markOnlineForSlot, show ¬ noApicId < 256 by decide, show 0 < maxCpus by decide, ↓reduceIte]
  refine Safe.bind (Q := fun _ h => h = {(noApicId, 0)}) (Safe.modify fun s F hI => ?_) fun _ h hh => ?_
  · refine ⟨_, ⟨fun k => ?_, hI.online, hI.given, hI.known⟩, rfl⟩
    show update s.apicId 0 noApicId k = noApicId
    by_cases hk : k = 0
    · rw [hk, update_self]
    · rw [update_of_ne hk, hI.apicId k]
  · -- the flag goes up knowing that the slot was given
    subst hh
    refine Safe.modify fun s F hI => ⟨0, ⟨hI.apicId, fun k hk => ?_, hI.given, fun t ht => ?_⟩, rfl⟩
    · have hg : (noApicId, 0) ∈ s.given := hI.known _ (by simp)
      by_cases hk0 : k = 0
      · exact ⟨hk0, hg⟩
      · exact ⟨(hI.online k ((update_of_ne hk0 ..).symm.trans hk)).1, hg⟩
    · rw [zero_add] at ht
      exact hI.known t (Multiset.mem_add.mpr (Or.inr ht))

lemma client_lone {A : Processors} {stacked : Bool} (ha : A.aps = []) (hb : A.bsp = noApicId) :
    (client A stacked).Safe Lone := by
  intro k hok
  cases k with
  | boot =>
    show Safe Lone (bspBoot A.bsp A.aps stacked) _ _
    rw [ha, hb]
    exact markOnline_lone.bind fun _ h hh => ⟨hh, fun t ht => absurd ht (Multiset.notMem_zero t)⟩
  | entry id =>
    have hin : id ∈ A.aps := hok (Signal.sipi id) (Multiset.mem_singleton_self _)
    rw [ha] at hin
    exact absurd hin (not_mem_nil)
  | lookup id hid =>
    rw [ha, hb] at hid
    obtain rfl : id = noApicId := by simpa using hid
    exact apicIdToSlot_lone.bind fun _ h hh => ⟨hh, fun t ht => absurd ht (Multiset.notMem_zero t)⟩

lemma lone_new : Lone Percpu.new 0 where
  apicId _ := rfl
  online _ hk := absurd hk Bool.false_ne_true
  given _ ht := absurd ht not_mem_nil
  known t ht := absurd ht (Multiset.notMem_zero t)

lemma alwaysIdentifies_of_lone {A : Processors} {stacked : Bool} (ha : A.aps = []) (hb : A.bsp = noApicId) :
    AlwaysIdentifies A stacked := by
  intro n P hr
  have hinv := Pool.reach_inv (client_lone ha hb) hr
    ⟨fun _ => 0, fun _ _ => rfl, fun _ _ _ h => by simp [powered] at h, fun t ht => ?_, ?_⟩
  · obtain ⟨F, hI, -⟩ := hinv.shared_inv
    exact hI.identifies
  · rw [Multiset.mem_singleton.mp ht]
    trivial
  · simpa [Client.total, client, powered] using lone_new

section Elsewhere

variable (A : Processors) (stacked : Bool)

/-- On that machine alone do claimed slots name their owners. -/
lemma slots_named_iff : (∀ n P, Pool.Reach (powered A stacked n) P →
    ∀ k, P.shared.online k = true → ∃ i, (i, k) ∈ P.shared.given ∧ P.shared.apicId k = i) ↔
      A.aps = [] ∧ A.bsp = noApicId := by
  refine ⟨fun hall => ?_, fun h n P hr => (alwaysIdentifies_of_lone h.1 h.2 n P hr).named⟩
  have hbsp : A.bsp = noApicId := by
    by_contra hb
    obtain ⟨P, hr, ho, hg, hn⟩ := exists_unnamed_bsp stacked 0 hb
    refine not_named_of_claimed A.bsp (fun i hi => ?_) (by rw [hn]; exact Ne.symm hb) (hall 0 P hr 0 ho)
    simpa [hg] using hi
  refine ⟨?_, hbsp⟩
  by_contra hne
  obtain ⟨id, ids, ha⟩ := exists_cons_of_ne_nil hne
  have hid : A.bsp ≠ id := fun he => (nodup_cons.mp A.distinct).1 (by rw [ha, he]; exact mem_cons_self ..)
  have hmax : id ≠ noApicId := fun h => hid (hbsp.trans h.symm)
  obtain ⟨P, hr, ho, hg, hn⟩ := exists_unnamed_ap stacked 0 ha hid hmax
  refine not_named_of_claimed id (fun i hi => ?_) (by rw [hn]; exact Ne.symm hmax) (hall 0 P hr 1 ho)
  simpa [hg] using hi

/-- On that machine alone does each id keep its slot. -/
lemma slots_stable_iff : (∀ n P, Pool.Reach (powered A stacked n) P →
    ∀ i k l, (i, k) ∈ P.shared.given → (i, l) ∈ P.shared.given → k = l) ↔ A.aps = [] ∧ A.bsp = noApicId := by
  refine ⟨fun hall => ?_, fun h n P hr => (alwaysIdentifies_of_lone h.1 h.2 n P hr).stable⟩
  have hnone : ∀ id ∈ A.bsp :: A.aps, id = noApicId := by
    intro id hid
    by_contra hne
    obtain ⟨P, hr, hg⟩ := exists_two_slots stacked 0 hid hne
    exact absurd (hall 0 P hr id 0 1 (by simp [hg]) (by simp [hg])) (by decide)
  refine ⟨eq_nil_iff_forall_not_mem.mpr fun id hid => (nodup_cons.mp A.distinct).1 ?_, hnone _ (mem_cons_self ..)⟩
  rwa [hnone A.bsp (mem_cons_self ..), ← hnone id (mem_cons_of_mem _ hid)]

end Elsewhere

/-- Slots identify their processors in every interleaving exactly on a
machine with one processor, whose id is the one that unused slots hold. -/
theorem slots_identify_iff (A : Processors) (stacked : Bool) :
    AlwaysIdentifies A stacked ↔ A.aps = [] ∧ A.bsp = noApicId :=
  ⟨fun hall => (slots_named_iff A stacked).mp fun n P hr => (hall n P hr).named,
    fun h => alwaysIdentifies_of_lone h.1 h.2⟩

/-- Two processors, with the ids 0 and 1. -/
def twoProcessors : Processors := ⟨0, [1], by decide, by decide, by decide⟩

/-- The slot of processor 1 is online and names no processor. -/
theorem slots_identify_two : ∃ P : Pool (client twoProcessors true) (Fin 1),
    Pool.Reach (powered twoProcessors true 0) P ∧ P.shared.online 1 = true ∧
      (1, 1) ∈ P.shared.given ∧ P.shared.apicId 1 = 0xFFFFFFFF ∧ ¬ Identifies P.shared := by
  obtain ⟨P, hr, ho, hg, hn⟩ := exists_unnamed_ap (A := twoProcessors) true 0 rfl (by decide) (by decide)
  refine ⟨P, hr, ho, by simp [hg], hn, fun h => not_named_of_claimed 1 (fun i hi => ?_) (by rw [hn]; decide) (h.named 1 ho)⟩
  simpa [hg, twoProcessors] using hi

end LodaxOS.Smp
