/-
# Bringing up the other processors

The boot loader records up to three processors it may start
(`enumerate_aps`). The kernel gives each of them a slot and a stack
(`smp_boot_aps`), writes the slot map and the mailboxes, and broadcasts the
start-up interrupt (`send_ipis`). The broadcast reaches every processor but
the bootstrap one, recorded or not; each runs the trampoline, which takes a
mailbox by the slot map and falls back to two bits of the id where the map
has no entry, and then `ap_entry`, which reads the map again.

So what is proved is as much about the list as about the code: every started
processor has its own resources exactly if all that are started were recorded
and none of them has the id recorded for the bootstrap processor.
-/
import LodaxOS.Phys.Conserve
import LodaxOS.Smp.Percpu

namespace LodaxOS.Smp

open Sections Sections.Prog Function Multiset Safe
open LodaxOS.Phys (rangePages)

/-! ### The machine -/

/-- What MP services says of one processor. -/
structure ProcessorInfo where
  processorId : ℕ
  enabled : Bool
  healthy : Bool
  isBsp : Bool
  deriving DecidableEq

/-- One mailbox slot of the trampoline page. -/
structure Mailbox where
  stack : ℕ
  gdtLimit : ℕ
  gdtBase : ℕ
  idtLimit : ℕ
  idtBase : ℕ
  entry : ℕ
  status : ℕ
  pml4 : ℕ

/-- A machine as the firmware hands it over: its processors in the order of
their numbers, which of the queries about them fail, the physical allocator
and what it lent out, the stack the bootstrap processor runs on, the addresses
of the kernel's tables, and what the trampoline page holds from before. -/
structure Machine where
  processors : List ProcessorInfo
  enabled : ℕ
  queryFails : ℕ → Bool
  zone : Phys.State
  phys : Phys.State
  lent : Multiset ℕ
  bspStack : List ℕ
  gdtTable : ℕ
  idt : ℕ
  pml4 : ℕ
  apEntryFn : ℕ
  page : ℕ → Mailbox
  scratch : ℕ → ℕ × ℕ
  distinct : (processors.map ProcessorInfo.processorId).Nodup
  byte : ∀ p ∈ processors, p.processorId < 256
  oneBsp : (processors.filter ProcessorInfo.isBsp).length = 1
  physInv : Phys.Inv zone phys lent
  bspStackKept : ∀ p ∈ bspStack, p ∉ phys.free

variable (M : Machine)

/-- The processors that the broadcast reaches. -/
def Machine.others : List ℕ :=
  (M.processors.filter fun p => !p.isBsp).map ProcessorInfo.processorId

/-! ### The boot loader's list -/

/-- The fields `enumerate_aps` fills in. -/
structure BootInfo where
  bspApicId : ℕ
  apApicIds : List ℕ
  apCount : ℕ

/-- The loop over the processors; the flag is false where a query failed. -/
def enumerateLoop (room : ℕ) : List (Option ProcessorInfo) → ℕ → List ℕ → ℕ × List ℕ × Bool
  | [], bsp, ids => (bsp, ids, true)
  | info :: rest, bsp, ids =>
    if room ≤ ids.length then (bsp, ids, true)
    else
      match info with
      | none => (bsp, ids, false)
      | some p =>
        if !p.enabled || !p.healthy then enumerateLoop room rest bsp ids
        else if p.isBsp then enumerateLoop room rest p.processorId ids
        else if maxCpus - 1 ≤ ids.length then (bsp, ids, true)
        else enumerateLoop room rest bsp (ids ++ [p.processorId])

/-- What the queries return. -/
def Machine.answers : List (Option ProcessorInfo) :=
  M.processors.zipIdx.map fun p => if M.queryFails p.2 then none else some p.1

/-- `enumerate_aps`, with the number of processors enabled and what the queries
return. `bsp_apic_id` and `ap_count` are zero unless the loop sets them. -/
def enumerateAnswers (enabled : ℕ) (answers : List (Option ProcessorInfo)) : BootInfo :=
  match enumerateLoop (min (min enabled maxCpus) (maxCpus - 1)) answers 0 [] with
  | (bsp, ids, ok) => ⟨bsp, ids, if ok then ids.length else 0⟩

def enumerateAps : BootInfo := enumerateAnswers M.enabled M.answers

/-- The processors recorded for the kernel. -/
def Machine.recorded : List ℕ := (enumerateAps M).apApicIds.take (enumerateAps M).apCount

/-! ### The kernel's part -/

/-- `AP_STACK_PAGES`. -/
def apStackPages : ℕ := 4

/-- `size_of::<Gdt>()`. -/
def gdtSize : ℕ := 56

/-- `gdt_ptr_limit_base`, after `init_tss_descriptor_for_slot`. -/
def gdtPtr (slot : ℕ) : ℕ × ℕ := (gdtSize - 1, M.gdtTable + slot % maxCpus * gdtSize)

/-- A processor's record once it has its kernel stack. -/
structure Loaded where
  id : ℕ
  slot : ℕ
  tempStack : ℕ
  stack : ℕ
  gdt : ℕ × ℕ

/-- The memory the processors share while they start. `scratch` holds the ten
bytes a processor keeps on its temporary stack for `lgdt` and `lidt`, by
address; `loaded` and `entered` record what each processor took. -/
structure Shared where
  percpu : Percpu
  mailbox : ℕ → Mailbox
  scratch : ℕ → ℕ × ℕ
  loaded : List Loaded
  entered : List (ℕ × ℕ)

/-- The stacks of `smp_boot_aps`, or nothing if one cannot be had. -/
def allocStacks : ℕ → Phys.State → Option (List ℕ)
  | 0, _ => some []
  | n + 1, s =>
    match (Phys.allocPages apStackPages).run s with
    | (none, _) => none
    | (some a, s') => (allocStacks n s').map (a :: ·)

def stackTop (a : ℕ) : ℕ := a + apStackPages * 4096

/-- What `send_ipis` writes for a slot with the stack at `base`. -/
def mailboxFor (slot base : ℕ) : Mailbox where
  stack := stackTop base - 8
  gdtLimit := (gdtPtr M slot).1
  gdtBase := (gdtPtr M slot).2
  idtLimit := 4095
  idtBase := M.idt
  entry := M.apEntryFn
  status := 0
  pml4 := M.pml4

def writeMailboxSlot (slot base : ℕ) (mailbox : ℕ → Mailbox) : ℕ → Mailbox :=
  update mailbox slot (mailboxFor M slot base)

def writeMailboxes : List (ℕ × ℕ) → (ℕ → Mailbox) → ℕ → Mailbox
  | [], mailbox => mailbox
  | (slot, base) :: rest, mailbox => writeMailboxes rest (writeMailboxSlot M slot base mailbox)

/-- What the kernel does first: the bootstrap processor is marked online and
finds its own slot. -/
def bspSetup (bsp : ℕ) : Prog Percpu (Option ℕ) := do
  markOnline bsp
  apicIdToSlot bsp

/-- The bootstrap processor's slot. -/
def Machine.bspSlot : Option ℕ := ((bspSetup (enumerateAps M).bspApicId).run Percpu.new).1

/-- What the broadcast finds prepared. -/
structure Handoff where
  slots : List ℕ
  bases : List ℕ
  shared : Shared

/-- `smp_boot_aps` up to the broadcast, or nothing where there is none: no
processor was recorded, or a slot or a stack could not be had. -/
def smpBoot : Option Handoff :=
  let s1 := ((bspSetup (enumerateAps M).bspApicId).run Percpu.new).2
  if (enumerateAps M).apCount = 0 then none
  else
    let ids := M.recorded.take (maxCpus - 1)
    match (allocSlots ids).run s1 with
    | (none, _) => none
    | (some slots, s2) =>
      match allocStacks ids.length M.phys with
      | none => none
      | some bases =>
        some
          { slots := slots
            bases := bases
            shared :=
              { percpu := ((writeSlotMap (ids.zip slots)).run { s2 with slotMap := fun _ => 0xFF }).2
                mailbox := writeMailboxes M (slots.zip bases) M.page
                scratch := M.scratch
                loaded := []
                entered := [] } }

/-! ### What a started processor runs -/

/-- Where the temporary stack of a slot starts: `TRAMP_BASE - 16 - slot * 256`. -/
def tempStack (slot : ℕ) : ℕ := 0x8000 - 16 - slot * 256

def Shared.storeLimit (rsp limit : ℕ) (s : Shared) : Shared :=
  { s with scratch := update s.scratch rsp (limit, (s.scratch rsp).2) }

def Shared.storeBase (rsp base : ℕ) (s : Shared) : Shared :=
  { s with scratch := update s.scratch rsp ((s.scratch rsp).1, base) }

/-- The table the trampoline loads, through ten bytes of its temporary stack. -/
def loadTable (slot : ℕ) (limit base : Mailbox → ℕ) : Prog Shared (ℕ × ℕ) := do
  let l ← read fun s => limit (s.mailbox slot)
  modify (Shared.storeLimit (tempStack slot - 16) l)
  let b ← read fun s => base (s.mailbox slot)
  modify (Shared.storeBase (tempStack slot - 16) b)
  read fun s => s.scratch (tempStack slot - 16)

/-- The trampoline up to the load of the kernel stack. -/
def trampoline (id : ℕ) : Prog Shared ℕ := do
  let cl ← read fun s => s.percpu.slotMap id
  let slot := if cl = 0xFF then id &&& (maxCpus - 1) else cl
  let _cr3 ← read fun s => (s.mailbox slot).pml4
  let gdt ← loadTable slot Mailbox.gdtLimit Mailbox.gdtBase
  let _idt ← loadTable slot Mailbox.idtLimit Mailbox.idtBase
  modify fun s =>
    { s with loaded := ⟨id, slot, tempStack slot, (s.mailbox slot).stack, gdt⟩ :: s.loaded }
  pure slot

/-- Its end: the ready signal and the jump to `ap_entry`. -/
def signalReady (slot : ℕ) : Prog Shared Unit := do
  modify fun s => { s with mailbox := update s.mailbox slot { s.mailbox slot with status := 1 } }
  let _entry ← read fun s => (s.mailbox slot).entry
  pure ()

/-- `ap_entry`'s look at the slot map. -/
def readSlotMap (id : ℕ) : Prog Shared ℕ :=
  atomically fun s =>
    (s.percpu.slotMap id, { s with entered := (id, s.percpu.slotMap id) :: s.entered })

def startProcessor (id : ℕ) : Prog Shared Unit := do
  let slot ← trampoline id
  signalReady slot
  let k ← readSlotMap id
  (markOnlineForSlot id k).within Shared.percpu fun p s => { s with percpu := p }

/-- What a processor in the middle of the trampoline knows of its scratch
bytes. -/
inductive Stage
  | unknown
  | limit
  | table
  deriving DecidableEq

/-- A processor is woken, and then it is up. -/
inductive Wake
  | sipi (id : ℕ)
  | up (id : ℕ)
  deriving DecidableEq

def Wake.id : Wake → ℕ
  | .sipi id | .up id => id

/-- The broadcast wakes each of the other processors once. -/
def starting : Client Shared Unit (Multiset (ℕ × Stage)) where
  Call := ℕ
  Tok := Wake
  prog := startProcessor
  takes id := {.sipi id}
  gives id _ := {.up id}
  cost t := {(t.id, .unknown)}
  Ok t := t.id ∈ M.others

/-- What the broadcast sends. -/
def sipis : Multiset Wake := (M.others.map Wake.sipi : List Wake)

/-- Right after the broadcast, with up to `n + 1` processors under way at once. -/
def woken (s : Shared) (n : ℕ) : Pool (starting M) (Fin (n + 1)) :=
  ⟨s, fun _ => none, sipis M⟩

/-- The pages of the kernel stack a processor was given by its `rsp`. -/
def stackPages (rsp : ℕ) : Multiset ℕ := rangePages (rsp + 8 - apStackPages * 4096) apStackPages

/-- Processors that got past the load of their stack share nothing with each
other or with the bootstrap processor, stay below `MAX_CPUS`, and have what
was prepared for them. -/
structure OwnResources (h : Handoff) (s : Shared) : Prop where
  apart : ∀ L ∈ s.loaded, ∀ L' ∈ s.loaded, L.id ≠ L'.id →
    L.slot ≠ L'.slot ∧ L.tempStack ≠ L'.tempStack ∧ L.gdt ≠ L'.gdt ∧ ∀ p ∈ stackPages L.stack, p ∉ stackPages L'.stack
  notBsp : ∀ L ∈ s.loaded, ∀ b, M.bspSlot = some b → L.slot ≠ b ∧ L.tempStack ≠ tempStack b ∧ L.gdt ≠ gdtPtr M b
  notBspStack : ∀ L ∈ s.loaded, ∀ p ∈ stackPages L.stack, p ∉ M.bspStack
  slot_lt : ∀ L ∈ s.loaded, L.slot < maxCpus
  entered_apart : ∀ i j k, (i, k) ∈ s.entered → (j, k) ∈ s.entered → i = j
  entered_lt : ∀ i k, (i, k) ∈ s.entered → k < maxCpus ∧ M.bspSlot ≠ some k
  prepared : ∀ L ∈ s.loaded, ∀ i : ℕ, M.recorded[i]? = some L.id →
    ∃ k a, h.slots[i]? = some k ∧ h.bases[i]? = some a ∧ L.stack = stackTop a - 8 ∧ L.gdt = gdtPtr M k

/-- In every state of every interleaving. -/
def AlwaysOwn : Prop :=
  ∀ h, smpBoot M = some h → ∀ n (P : Pool (starting M) (Fin (n + 1))),
    Pool.Reach (woken M h.shared n) P → OwnResources M h P.shared

/-! ### The list -/

/-- The processors other than the bootstrap one among the answers. -/
def answeredOthers (infos : List (Option ProcessorInfo)) : List ℕ :=
  infos.filterMap fun o => o.bind fun p => if p.isBsp then none else some p.processorId

lemma enumerateLoop_spec (room : ℕ) : ∀ (infos : List (Option ProcessorInfo)) (bsp : ℕ) (ids : List ℕ),
    ids.length < maxCpus →
    ∃ l, (enumerateLoop room infos bsp ids).2.1 = ids ++ l ∧ l.Sublist (answeredOthers infos) ∧
      (ids ++ l).length < maxCpus
  | [], bsp, ids, hl => ⟨[], by simp [enumerateLoop], List.nil_sublist _, by simpa using hl⟩
  | info :: rest, bsp, ids, hl => by
    have hstop : ∃ l, ids = ids ++ l ∧ l.Sublist (answeredOthers (info :: rest)) ∧ (ids ++ l).length < maxCpus :=
      ⟨[], by simp, List.nil_sublist _, by simpa using hl⟩
    have hskip : (answeredOthers rest).Sublist (answeredOthers (info :: rest)) :=
      (List.sublist_cons_self info rest).filterMap _
    cases info with
    | none =>
      simp only [enumerateLoop]
      split <;> exact hstop
    | some p =>
      simp only [enumerateLoop]
      split
      · exact hstop
      split
      · obtain ⟨l, h1, h2, h3⟩ := enumerateLoop_spec room rest bsp ids hl
        exact ⟨l, h1, h2.trans hskip, h3⟩
      split
      · obtain ⟨l, h1, h2, h3⟩ := enumerateLoop_spec room rest p.processorId ids hl
        exact ⟨l, h1, h2.trans hskip, h3⟩
      split
      · exact hstop
      · rename_i hb hfull
        have hroom : (ids ++ [p.processorId]).length < maxCpus := by
          rw [List.length_append, List.length_singleton]
          omega
        obtain ⟨l, h1, h2, h3⟩ := enumerateLoop_spec room rest bsp (ids ++ [p.processorId]) hroom
        have hcons : answeredOthers (some p :: rest) = p.processorId :: answeredOthers rest := by
          simp [answeredOthers, hb]
        refine ⟨p.processorId :: l, by rw [h1, List.append_assoc]; rfl, ?_, by
          rwa [List.append_assoc] at h3⟩
        rw [hcons]
        exact h2.cons_cons _

lemma answeredOthers_sublist (fails : ℕ → Bool) : ∀ (ps : List ProcessorInfo) (k : ℕ),
    (answeredOthers ((ps.zipIdx k).map fun p => if fails p.2 then none else some p.1)).Sublist
      ((ps.filter fun p => !p.isBsp).map ProcessorInfo.processorId)
  | [], _ => List.nil_sublist _
  | p :: ps, k => by
    have ih := answeredOthers_sublist fails ps (k + 1)
    rw [List.zipIdx_cons, List.map_cons]
    by_cases hf : fails k = true <;> by_cases hb : p.isBsp = true
    · simpa [answeredOthers, hf, hb] using ih
    · simpa [answeredOthers, hf, hb] using ih.cons _
    · simpa [answeredOthers, hf, hb] using ih
    · simpa [answeredOthers, hf, hb] using ih

lemma recorded_sublist : M.recorded.Sublist M.others := by
  obtain ⟨l, h1, h2, -⟩ := enumerateLoop_spec (min (min M.enabled maxCpus) (maxCpus - 1)) M.answers 0 []
    (by decide)
  have hids : (enumerateAps M).apApicIds = l := by simpa [enumerateAps, enumerateAnswers] using h1
  rw [Machine.recorded, hids]
  exact (List.take_sublist _ _).trans (h2.trans (answeredOthers_sublist _ _ _))

lemma recorded_length : M.recorded.length < maxCpus ∧ (enumerateAps M).apCount = M.recorded.length := by
  obtain ⟨l, h1, -, h3⟩ := enumerateLoop_spec (min (min M.enabled maxCpus) (maxCpus - 1)) M.answers 0 []
    (by decide)
  have hids : (enumerateAps M).apApicIds = l := by simpa [enumerateAps, enumerateAnswers] using h1
  have hcount : (enumerateAps M).apCount ≤ l.length := by
    rw [← hids]
    simp only [enumerateAps, enumerateAnswers]
    split <;> simp
  rw [Machine.recorded, hids, List.length_take, Nat.min_eq_left hcount]
  exact ⟨Nat.lt_of_le_of_lt hcount h3, rfl⟩

lemma others_nodup : M.others.Nodup :=
  M.distinct.sublist ((List.filter_sublist).map _)

lemma others_lt : ∀ id ∈ M.others, id < 256 := by
  intro id hid
  obtain ⟨p, hp, rfl⟩ := List.mem_map.mp hid
  exact M.byte p (List.mem_filter.mp hp).1

lemma noApicId_of_recorded : ∀ id ∈ M.recorded, id ≠ noApicId := by
  intro id hid he
  have hlt := others_lt M id ((recorded_sublist M).subset hid)
  rw [he] at hlt
  exact absurd hlt (by decide)

/-! ### The slots -/

/-- The bootstrap processor's slot is named `b`, no other slot is named, and
the first `j` slots are claimed. -/
structure Row (b j : ℕ) (s : Percpu) : Prop where
  named : s.apicId = update (fun _ => noApicId) 0 b
  online : ∀ k, s.online k = decide (k < j)

variable {s : Percpu}

lemma Row.give {b j : ℕ} (h : Row b j s) (id k : ℕ) : Row b j (s.give id k) := ⟨h.named, h.online⟩

lemma Row.apicId_zero {b j : ℕ} (h : Row b j s) : s.apicId 0 = b := by
  rw [h.named, update_self]

lemma row_bspOnline (b : ℕ) : Row b 1 (bspOnline b) where
  named := rfl
  online k := by
    by_cases hk : k = 0
    · simp [bspOnline, hk]
    · simp [bspOnline, Percpu.new, hk]

/-- A processor named by slot 0 is given slot 0. -/
lemma run_findSlot_zero {id : ℕ} (h : s.apicId 0 = id) : (findSlot id).run s = (some 0, s.give id 0) := by
  have hm : (matchSlot id (List.range maxCpus)).run s = (some 0, s.give id 0) := run_matchSlot_head [1, 2, 3] h
  rw [findSlot, run_bind, hm]
  rfl

lemma bspSetup_run (b : ℕ) : ((bspSetup b).run Percpu.new).1 = some 0 ∧ Row b 1 ((bspSetup b).run Percpu.new).2 := by
  have hrun : (apicIdToSlot b).run (bspOnline b) = (some 0, (bspOnline b).give b 0) := by
    by_cases hb : b < 256
    · simp [apicIdToSlot, hb, bspOnline]
    · rw [apicIdToSlot, if_neg hb]
      exact run_findSlot_zero rfl
  rw [bspSetup, run_bind, run_markOnline_new, hrun]
  exact ⟨rfl, (row_bspOnline b).give b 0⟩

lemma bspSlot_eq : M.bspSlot = some 0 := (bspSetup_run _).1

/-- A processor that no slot names is given the next slot. -/
lemma run_findSlot_next {b j id : ℕ} (h : Row b j s) (h0 : 0 < j) (hj : j < maxCpus)
    (hb : id ≠ b) (hid : id ≠ noApicId) : ∃ s', (findSlot id).run s = (some j, s') ∧ Row b (j + 1) s' := by
  refine ⟨{ s.give id j with online := update s.online j true }, ?_, h.named, fun k => ?_⟩
  · rw [run_findSlot_of_unnamed]
    · have hon : ∀ k < j, s.online k = true := fun k hk => by rw [h.online, decide_eq_true hk]
      have hoff : s.online j = false := by rw [h.online, decide_eq_false (Nat.lt_irrefl j)]
      obtain rfl | rfl | rfl : j = 1 ∨ j = 2 ∨ j = 3 := by
        rw [maxCpus] at hj
        omega
      · exact (run_claimSlot_of_online [1, 2, 3] (hon 0 (by decide))).trans (run_claimSlot_of_offline [2, 3] hoff)
      · exact (run_claimSlot_of_online [1, 2, 3] (hon 0 (by decide))).trans
          ((run_claimSlot_of_online [2, 3] (hon 1 (by decide))).trans (run_claimSlot_of_offline [3] hoff))
      · exact (run_claimSlot_of_online [1, 2, 3] (hon 0 (by decide))).trans
          ((run_claimSlot_of_online [2, 3] (hon 1 (by decide))).trans
            ((run_claimSlot_of_online [3] (hon 2 (by decide))).trans (run_claimSlot_of_offline [] hoff)))
    · intro k _ hk
      rw [h.named] at hk
      by_cases h0 : k = 0
      · rw [h0, update_self] at hk
        exact hb hk.symm
      · rw [update_of_ne h0] at hk
        exact hid hk.symm
  · show update s.online j true k = _
    by_cases hk : k = j
    · rw [hk, update_self]
      simp
    · rw [update_of_ne hk, h.online]
      simp only [decide_eq_decide]
      omega

/-- Slots are dealt in order, but for the id that slot 0 is named by. -/
lemma allocSlots_run {b : ℕ} : ∀ (ids : List ℕ) (j : ℕ) (s : Percpu), Row b j s → 0 < j →
    j + ids.length ≤ maxCpus → (∀ id ∈ ids, id ≠ noApicId) →
    ∃ slots s', (allocSlots ids).run s = (some slots, s') ∧ slots.length = ids.length ∧
      (b ∉ ids → slots = List.range' j ids.length) ∧ ∀ i : ℕ, ids[i]? = some b → slots[i]? = some 0
  | [], j, s, _, _, _, _ => ⟨[], s, rfl, rfl, fun _ => rfl, fun i hi => by simp at hi⟩
  | id :: ids, j, s, hr, h0, hj, hid => by
    have hid' : ∀ i ∈ ids, i ≠ noApicId := fun i hi => hid i (List.mem_cons_of_mem _ hi)
    rw [List.length_cons] at hj
    by_cases hb : id = b
    · obtain ⟨slots, s', hrun, hl, -, hz⟩ := allocSlots_run ids j (s.give id 0) (hr.give id 0) h0 (by omega) hid'
      refine ⟨0 :: slots, s', ?_, by rw [List.length_cons, List.length_cons, hl],
        fun hn => absurd (List.mem_cons.mpr (.inl hb.symm)) hn, fun i hi => ?_⟩
      · rw [allocSlots, run_bind, run_findSlot_zero (hr.apicId_zero.trans hb.symm)]
        simp [hrun]
      · cases i with
        | zero => rfl
        | succ i => exact hz i (by simpa using hi)
    · obtain ⟨s1, hfind, hr1⟩ := run_findSlot_next hr h0 (by omega) hb (hid id (List.mem_cons_self ..))
      obtain ⟨slots, s', hrun, hl, hin, hz⟩ := allocSlots_run ids (j + 1) s1 hr1 (by omega) (by omega) hid'
      refine ⟨j :: slots, s', ?_, by rw [List.length_cons, List.length_cons, hl], fun hn => ?_, fun i hi => ?_⟩
      · rw [allocSlots, run_bind, hfind]
        simp [hrun]
      · rw [hin fun h => hn (List.mem_cons_of_mem _ h), List.length_cons, List.range'_succ]
      · cases i with
        | zero => exact absurd (by simpa using hi) hb
        | succ i => exact hz i (by simpa using hi)

/-! ### The slot map, the mailboxes and the stacks -/

lemma slotMap_of_not_mem {id : ℕ} : ∀ (l : List (ℕ × ℕ)) (s : Percpu), id ∉ l.map Prod.fst →
    ((writeSlotMap l).run s).2.slotMap id = s.slotMap id
  | [], _, _ => rfl
  | (i, k) :: rest, s, h => by
    rw [List.map_cons, List.mem_cons, not_or] at h
    by_cases hi : i < 256
    · simp [writeSlotMap, hi, slotMap_of_not_mem rest _ h.2, h.1]
    · simp [writeSlotMap, hi, slotMap_of_not_mem rest _ h.2]

lemma slotMap_of_mem {id k : ℕ} (hid : id < 256) : ∀ (l : List (ℕ × ℕ)) (s : Percpu), (l.map Prod.fst).Nodup →
    (id, k) ∈ l → ((writeSlotMap l).run s).2.slotMap id = k % 256
  | (i, j) :: rest, s, hnd, hm => by
    rw [List.map_cons, List.nodup_cons] at hnd
    rcases List.mem_cons.mp hm with he | hm
    · cases he
      simp [writeSlotMap, hid, slotMap_of_not_mem rest _ hnd.1]
    · by_cases hi : i < 256
      · simp [writeSlotMap, hi, slotMap_of_mem hid rest _ hnd.2 hm]
      · simp [writeSlotMap, hi, slotMap_of_mem hid rest _ hnd.2 hm]

variable {M}

lemma mailbox_of_not_mem {k : ℕ} : ∀ (l : List (ℕ × ℕ)) (mb : ℕ → Mailbox), k ∉ l.map Prod.fst →
    writeMailboxes M l mb k = mb k
  | [], _, _ => rfl
  | (j, a) :: rest, mb, h => by
    rw [List.map_cons, List.mem_cons, not_or] at h
    rw [writeMailboxes, mailbox_of_not_mem rest _ h.2, writeMailboxSlot, update_of_ne h.1]

lemma mailbox_of_mem {k a : ℕ} : ∀ (l : List (ℕ × ℕ)) (mb : ℕ → Mailbox), (l.map Prod.fst).Nodup →
    (k, a) ∈ l → writeMailboxes M l mb k = mailboxFor M k a
  | (j, c) :: rest, mb, hnd, hm => by
    rw [List.map_cons, List.nodup_cons] at hnd
    rcases List.mem_cons.mp hm with he | hm
    · cases he
      rw [writeMailboxes, mailbox_of_not_mem rest _ hnd.1, writeMailboxSlot, update_self]
    · exact mailbox_of_mem rest _ hnd.2 hm

/-- Stacks come out of the free pages, each page at most once. -/
lemma allocStacks_free {z : Phys.State} : ∀ (n : ℕ) (s : Phys.State) (F : Multiset ℕ) (bases : List ℕ),
    Phys.Inv z s F → allocStacks n s = some bases →
    bases.length = n ∧ (bases.map fun a => rangePages a apStackPages).sum ≤ s.free
  | 0, s, F, bases, _, h => by
    obtain rfl : [] = bases := by simpa [allocStacks] using h
    exact ⟨rfl, zero_le _⟩
  | n + 1, s, F, bases, hI, h => by
    have hsafe := Phys.safe_inv (z := z) fun J hJ => Phys.allocPages_safe hJ apStackPages
    obtain ⟨H, hI', -⟩ := hsafe.run (s := s) (F := F) (by rwa [zero_add])
    have hfree := Phys.allocPages_free (n := apStackPages) (by decide) (by decide) hI
    rw [allocStacks] at h
    rcases hrun : (Phys.allocPages apStackPages).run s with ⟨_ | a, s'⟩
    · simp [hrun] at h
    · rw [hrun] at h hI' hfree
      obtain ⟨rest, hrest, rfl⟩ := Option.map_eq_some_iff.mp h
      obtain ⟨hl, hle⟩ := allocStacks_free n s' _ rest hI' hrest
      refine ⟨by rw [List.length_cons, hl], ?_⟩
      rw [List.map_cons, List.sum_cons]
      calc rangePages a apStackPages + (rest.map fun a => rangePages a apStackPages).sum
          ≤ rangePages a apStackPages + s'.free := by gcongr
        _ = s'.free + rangePages a apStackPages := add_comm _ _
        _ ≤ s.free := by
          rw [← hfree]
          exact le_add_right _ _

lemma mem_sum_map {f : ℕ → Multiset ℕ} {b p : ℕ} (hp : p ∈ f b) : ∀ l : List ℕ, b ∈ l → p ∈ (l.map f).sum
  | a :: l, hb => by
    rw [List.map_cons, List.sum_cons, mem_add]
    rcases List.mem_cons.mp hb with rfl | hb
    · exact .inl hp
    · exact .inr (mem_sum_map hp l hb)

lemma pairwise_of_sum_nodup {f : ℕ → Multiset ℕ} : ∀ l : List ℕ, ((l.map f).sum).Nodup →
    l.Pairwise fun a b => ∀ p ∈ f a, p ∉ f b
  | [], _ => .nil
  | a :: l, h => by
    rw [List.map_cons, List.sum_cons, nodup_add] at h
    obtain ⟨-, hl, hd⟩ := h
    refine .cons (fun b hb p hp hq => ?_) (pairwise_of_sum_nodup l hl)
    exact disjoint_left.mp hd hp (mem_sum_map hq l hb)

variable {h : Handoff}

/-- When there is a broadcast, and what it finds. -/
lemma smpBoot_eq_some (hs : smpBoot M = some h) :
    (∃ s2, (allocSlots M.recorded).run ((bspSetup (enumerateAps M).bspApicId).run Percpu.new).2 = (some h.slots, s2) ∧
      h.shared.percpu = ((writeSlotMap (M.recorded.zip h.slots)).run { s2 with slotMap := fun _ => 0xFF }).2) ∧
    allocStacks M.recorded.length M.phys = some h.bases ∧
    h.shared.mailbox = writeMailboxes M (h.slots.zip h.bases) M.page ∧ h.shared.loaded = [] ∧ h.shared.entered = [] := by
  have htake : M.recorded.take (maxCpus - 1) = M.recorded :=
    List.take_of_length_le (Nat.le_sub_one_of_lt (recorded_length M).1)
  simp only [smpBoot, htake] at hs
  split at hs
  · cases hs
  rcases hrun : (allocSlots M.recorded).run ((bspSetup (enumerateAps M).bspApicId).run Percpu.new).2 with ⟨_ | slots, s2⟩
  · simp [hrun] at hs
  rcases hst : allocStacks M.recorded.length M.phys with _ | bases
  · simp [hrun, hst] at hs
  · simp only [hrun, hst, Option.some.injEq] at hs
    subst hs
    exact ⟨⟨s2, rfl, rfl⟩, rfl, rfl, rfl, rfl⟩

/-- Slots never run out, so stacks for all that were recorded are enough. -/
lemma exists_smpBoot {bases : List ℕ} (hne : M.recorded ≠ [])
    (hst : allocStacks M.recorded.length M.phys = some bases) : ∃ h, smpBoot M = some h := by
  have htake : M.recorded.take (maxCpus - 1) = M.recorded :=
    List.take_of_length_le (Nat.le_sub_one_of_lt (recorded_length M).1)
  have hcount : (enumerateAps M).apCount ≠ 0 := by
    rw [(recorded_length M).2]
    exact fun h0 => hne (List.length_eq_zero_iff.mp h0)
  obtain ⟨slots, s', hrun, -⟩ := allocSlots_run M.recorded 1 _ (bspSetup_run (enumerateAps M).bspApicId).2 (by decide)
    (by have := (recorded_length M).1; omega) (noApicId_of_recorded M)
  exact ⟨_, by simp only [smpBoot, htake, if_neg hcount, hrun, hst]; rfl⟩

/-! ### Every processor recorded -/

/-- What is meant for the recorded processor `id`: the slot after its place in
the list, and the stack of its place. -/
def Dealt (M : Machine) (h : Handoff) (id k a : ℕ) : Prop :=
  ∃ i : ℕ, M.recorded[i]? = some id ∧ k = i + 1 ∧ h.bases[i]? = some a

section Good

variable {h : Handoff} {id k a : ℕ}

lemma Dealt.bounds (hd : Dealt M h id k a) : 0 < k ∧ k < maxCpus := by
  obtain ⟨i, hi, rfl, -⟩ := hd
  have hlt := (List.getElem?_eq_some_iff.mp hi).1
  have := (recorded_length M).1
  omega

lemma recorded_nodup (M : Machine) : M.recorded.Nodup := (others_nodup M).sublist (recorded_sublist M)

/-- One processor, one slot. -/
lemma Dealt.unique {j b : ℕ} (hd : Dealt M h id k a) (hd' : Dealt M h id j b) : k = j ∧ a = b := by
  obtain ⟨i, hi, rfl, ha⟩ := hd
  obtain ⟨i', hi', rfl, hb⟩ := hd'
  obtain ⟨hlt, hg⟩ := List.getElem?_eq_some_iff.mp hi
  obtain ⟨hlt', hg'⟩ := List.getElem?_eq_some_iff.mp hi'
  obtain rfl : i = i' := (recorded_nodup M).getElem_inj_iff.mp (hg.trans hg'.symm)
  exact ⟨rfl, Option.mem_unique ha hb⟩

/-- One slot, one processor. -/
lemma Dealt.slot_ne {id' j b : ℕ} (hd : Dealt M h id k a) (hd' : Dealt M h id' j b) (hne : id ≠ id') : k ≠ j := by
  obtain ⟨i, hi, rfl, -⟩ := hd
  obtain ⟨i', hi', rfl, -⟩ := hd'
  intro he
  obtain rfl : i = i' := by omega
  exact hne (Option.mem_unique hi hi')

/-- Temporary stacks of different slots are apart. -/
lemma tempStack_ne {j k : ℕ} (hj : j < maxCpus) (hk : k < maxCpus) (h : j ≠ k) : tempStack j ≠ tempStack k := by
  rw [maxCpus] at hj hk
  rw [tempStack, tempStack]
  omega

lemma tempStack_ge {k : ℕ} (hk : k < maxCpus) : 16 ≤ tempStack k := by
  rw [maxCpus] at hk
  rw [tempStack]
  omega

lemma gdtPtr_ne (M : Machine) {j k : ℕ} (hj : j < maxCpus) (hk : k < maxCpus) (h : j ≠ k) :
    gdtPtr M j ≠ gdtPtr M k := by
  intro he
  have h2 := (Prod.ext_iff.mp he).2
  rw [gdtPtr, gdtPtr, Nat.mod_eq_of_lt hj, Nat.mod_eq_of_lt hk] at h2
  simp only [gdtSize] at h2
  omega

/-- What a stage says of the scratch bytes of slot `k`. -/
def Stage.Agrees (M : Machine) (k : ℕ) (x : ℕ × ℕ) : Stage → Prop
  | .unknown => True
  | .limit => x.1 = (gdtPtr M k).1
  | .table => x = gdtPtr M k

/-- Every processor under way is a recorded one and takes what is meant for
it. -/
structure Well (M : Machine) (h : Handoff) (s : Shared) (H : Multiset (ℕ × Stage)) : Prop where
  slotMap : ∀ id k a, Dealt M h id k a → s.percpu.slotMap id = k
  mailbox : ∀ id k a, Dealt M h id k a → (s.mailbox k).stack = stackTop a - 8 ∧
    (s.mailbox k).gdtLimit = (gdtPtr M k).1 ∧ (s.mailbox k).gdtBase = (gdtPtr M k).2
  loaded : ∀ L ∈ s.loaded, ∃ a, Dealt M h L.id L.slot a ∧ L.tempStack = tempStack L.slot ∧
    L.stack = stackTop a - 8 ∧ L.gdt = gdtPtr M L.slot
  entered : ∀ i j, (i, j) ∈ s.entered → ∃ a, Dealt M h i j a
  once : (H.map Prod.fst).Nodup
  scratch : ∀ i st, (i, st) ∈ H → ∀ k a, Dealt M h i k a → st.Agrees M k (s.scratch (tempStack k - 16))

variable {s : Shared} {H F : Multiset (ℕ × Stage)} {st st' : Stage}

/-- Nobody else works on a processor's scratch bytes. -/
lemma Well.store (hw : Well M h s ({(id, st)} + F)) (hd : Dealt M h id k a) {x : ℕ × ℕ} (hx : st'.Agrees M k x) :
    Well M h { s with scratch := update s.scratch (tempStack k - 16) x } ({(id, st')} + F) where
  slotMap := hw.slotMap
  mailbox := hw.mailbox
  loaded := hw.loaded
  entered := hw.entered
  once := by simpa using hw.once
  scratch i st1 hi j b hj := by
    have hnd := hw.once
    rw [map_add, map_singleton, singleton_add, nodup_cons] at hnd
    rcases mem_add.mp hi with hi | hi
    · obtain ⟨rfl, rfl⟩ := Prod.mk.inj (mem_singleton.mp hi)
      obtain ⟨rfl, rfl⟩ := hd.unique hj
      show st1.Agrees M k (update s.scratch (tempStack k - 16) x (tempStack k - 16))
      rwa [update_self]
    · have hne : i ≠ id := fun he => hnd.1 (mem_map.mpr ⟨(i, st1), hi, he⟩)
      have hkj := tempStack_ne hj.bounds.2 hd.bounds.2 (hj.slot_ne hd hne)
      have h1 := tempStack_ge hj.bounds.2
      have h2 := tempStack_ge hd.bounds.2
      have hat : tempStack j - 16 ≠ tempStack k - 16 := by omega
      show st1.Agrees M j (update s.scratch (tempStack k - 16) x (tempStack j - 16))
      rw [update_of_ne hat]
      exact hw.scratch i st1 (mem_add.mpr (.inr hi)) j b hj

lemma Well.agrees (hw : Well M h s ({(id, st)} + F)) (hd : Dealt M h id k a) :
    st.Agrees M k (s.scratch (tempStack k - 16)) :=
  hw.scratch id st (mem_add.mpr (.inl (mem_singleton_self _))) k a hd

/-- A table is loaded through the scratch bytes in four accesses and a read. -/
lemma loadTable_safe (st1 st2 : Stage) (hd : Dealt M h id k a) {limit base : Mailbox → ℕ}
    (hl : ∀ s H y, Well M h s H → st1.Agrees M k (limit (s.mailbox k), y))
    (hb : ∀ s H x, Well M h s H → st1.Agrees M k x → st2.Agrees M k (x.1, base (s.mailbox k))) :
    Safe (Well M h) (loadTable k limit base) {(id, st)} fun r H => H = {(id, st2)} ∧ st2.Agrees M k r := by
  refine bind (Q := fun l H => H = {(id, st)} ∧ ∀ y, st1.Agrees M k (l, y))
    (read fun s F hw => ⟨rfl, fun y => hl s _ y hw⟩) fun l H hH => ?_
  obtain ⟨rfl, hlim⟩ := hH
  refine bind (Q := fun _ H => H = {(id, st1)})
    (modify fun s F hw => ⟨_, hw.store hd (hlim _), rfl⟩) fun _ H hH => ?_
  subst hH
  refine bind (Q := fun c H => H = {(id, st1)} ∧ ∀ x, st1.Agrees M k x → st2.Agrees M k (x.1, c))
    (read fun s F hw => ⟨rfl, fun x hx => hb s _ x hw hx⟩) fun c H hH => ?_
  obtain ⟨rfl, hbase⟩ := hH
  refine bind (Q := fun _ H => H = {(id, st2)})
    (modify fun s F hw => ⟨_, hw.store hd (hbase _ (hw.agrees hd)), rfl⟩) fun _ H hH => ?_
  subst hH
  exact read fun s F hw => ⟨rfl, hw.agrees hd⟩

lemma loadGdt_safe (hd : Dealt M h id k a) : Safe (Well M h) (loadTable k Mailbox.gdtLimit Mailbox.gdtBase) {(id, st)}
      fun r H => H = {(id, .table)} ∧ r = gdtPtr M k := by
  refine loadTable_safe .limit .table hd (fun s H y hw => (hw.mailbox id k a hd).2.1)
    fun s H x hw hx => ?_
  have hx1 : x.1 = (gdtPtr M k).1 := hx
  show (x.1, (s.mailbox k).gdtBase) = gdtPtr M k
  rw [hx1, (hw.mailbox id k a hd).2.2]

lemma trampoline_safe (hd : Dealt M h id k a) :
    Safe (Well M h) (trampoline id) {(id, st)} fun r H => r = k ∧ H = {(id, .unknown)} := by
  have hk : k ≠ 0xFF := by
    have := hd.bounds.2
    rw [maxCpus] at this
    omega
  refine bind (Q := fun cl H => cl = k ∧ H = {(id, st)})
    (read fun s F hw => ⟨hw.slotMap id k a hd, rfl⟩) fun cl H hH => ?_
  obtain ⟨rfl, rfl⟩ := hH
  rw [if_neg hk]
  refine bind (Q := fun _ H => H = {(id, st)}) (read fun s F hw => rfl) fun _ H hH => ?_
  subst hH
  refine (loadGdt_safe hd).bind fun gdt H hH => ?_
  obtain ⟨rfl, rfl⟩ := hH
  refine bind (loadTable_safe .unknown .unknown hd (fun _ _ _ _ => trivial)
    fun _ _ _ _ _ => trivial) fun _ H hH => ?_
  obtain ⟨rfl, -⟩ := hH
  refine bind (Q := fun _ H => H = {(id, .unknown)}) (modify fun s F hw => ⟨_, ?_, rfl⟩)
    fun _ H hH => ⟨rfl, hH⟩
  exact { hw with
    loaded := by
      intro L hL
      rcases List.mem_cons.mp hL with rfl | hL
      · exact ⟨a, hd, rfl, (hw.mailbox id cl a hd).1, rfl⟩
      · exact hw.loaded L hL }

/-- The status byte is no part of what was prepared. -/
lemma signalReady_safe : Safe (Well M h) (signalReady k) H fun _ H' => H' = H := by
  refine bind (Q := fun _ H' => H' = H) (modify fun s F hw => ⟨H, ?_, rfl⟩) fun _ H' hH => ?_
  · refine { hw with mailbox := fun i j b hd => ?_ }
    by_cases hj : j = k
    · subst hj
      simpa using hw.mailbox i j b hd
    · simpa [hj] using hw.mailbox i j b hd
  · subst hH
    exact bind (Q := fun _ H'' => H'' = H') (read fun s F hw => rfl) fun _ _ hh => hh

lemma markOnlineForSlot_keeps (m : ℕ → ℕ) : Keeps (fun s => s.slotMap = m) (markOnlineForSlot id k) := by
  have hmod : ∀ f : Percpu → Percpu, (∀ s, (f s).slotMap = s.slotMap) → Keeps (fun s => s.slotMap = m) (modify f) :=
    fun f hf => Keeps.atomically fun s hs => (hf s).trans hs
  by_cases h1 : id < 256 <;> by_cases h2 : k < maxCpus <;> simp only [markOnlineForSlot, h1, h2, ↓reduceIte]
  · exact (hmod _ fun _ => rfl).bind fun _ => (hmod _ fun _ => rfl).bind fun _ => hmod _ fun _ => rfl
  · exact (hmod _ fun _ => rfl).bind fun _ => Keeps.pure
  · exact (hmod _ fun _ => rfl).bind fun _ => hmod _ fun _ => rfl
  · exact Keeps.pure

lemma startProcessor_safe (hd : Dealt M h id k a) :
    Safe (Well M h) (startProcessor id) {(id, st)} fun _ H => H = {(id, .unknown)} := by
  refine (trampoline_safe hd).bind fun slot H hH => ?_
  obtain ⟨rfl, rfl⟩ := hH
  refine bind signalReady_safe fun _ H hH => ?_
  subst hH
  refine bind (Q := fun _ H => H = {(id, .unknown)}) ?_ fun j H hH => ?_
  · refine atomically fun s F hw => ⟨_, ?_, rfl⟩
    refine { hw with entered := fun i j hij => ?_ }
    rcases List.mem_cons.mp hij with he | hij
    · cases he
      exact ⟨a, hw.slotMap _ _ _ hd ▸ hd⟩
    · exact hw.entered i j hij
  · subst hH
    refine Keeps.within_safe Percpu.slotMap markOnlineForSlot_keeps fun t p F hp hw => ?_
    exact { hw with slotMap := fun i j b hd => (congrFun hp i).trans (hw.slotMap i j b hd) }

/-- What is prepared where the bootstrap processor's recorded id is nobody
else's. -/
lemma smpBoot_dealt (hs : smpBoot M = some h) (hb : (enumerateAps M).bspApicId ∉ M.recorded) :
    h.slots = List.range' 1 M.recorded.length ∧ h.bases.length = M.recorded.length ∧
      (∀ id k a, Dealt M h id k a → h.shared.percpu.slotMap id = k) ∧
      ∀ id k a, Dealt M h id k a → h.shared.mailbox k = mailboxFor M k a := by
  obtain ⟨⟨s2, hrun, hmap⟩, hst, hmb, -, -⟩ := smpBoot_eq_some hs
  have hlen := (recorded_length M).1
  obtain ⟨slots, s', hrun', -, hin, -⟩ := allocSlots_run M.recorded 1 _ (bspSetup_run (enumerateAps M).bspApicId).2
    (by decide) (by omega) (noApicId_of_recorded M)
  have hslots : h.slots = List.range' 1 M.recorded.length := by
    rw [← hin hb]
    exact Option.some.inj (Prod.mk.inj (hrun.symm.trans hrun')).1
  have hbases := (allocStacks_free _ _ _ _ M.physInv hst).1
  have hslot : ∀ i : ℕ, i < M.recorded.length → h.slots[i]? = some (i + 1) := by
    intro i hi
    rw [hslots, List.getElem?_range' hi]
    congr 1
    omega
  refine ⟨hslots, hbases, ?_, ?_⟩
  · rintro id k a ⟨i, hi, rfl, -⟩
    have hlt := (List.getElem?_eq_some_iff.mp hi).1
    have hmem : (id, i + 1) ∈ M.recorded.zip h.slots :=
      List.mem_of_getElem? (by rw [List.getElem?_zip_eq_some]; exact ⟨hi, hslot i hlt⟩)
    have hid := others_lt M id ((recorded_sublist M).subset (List.mem_of_getElem? hi))
    rw [hmap, slotMap_of_mem hid _ _ ?_ hmem]
    · rw [maxCpus] at hlen
      omega
    · rw [List.map_fst_zip (by rw [hslots, List.length_range'])]
      exact recorded_nodup M
  · rintro id k a ⟨i, hi, rfl, ha⟩
    have hlt := (List.getElem?_eq_some_iff.mp hi).1
    have hmem : (i + 1, a) ∈ h.slots.zip h.bases :=
      List.mem_of_getElem? (by rw [List.getElem?_zip_eq_some]; exact ⟨hslot i hlt, ha⟩)
    rw [hmb, mailbox_of_mem _ _ ?_ hmem]
    rw [List.map_fst_zip (by rw [hslots, List.length_range', hbases]), hslots]
    exact List.nodup_range'

lemma exists_dealt (hl : h.bases.length = M.recorded.length) (hid : id ∈ M.recorded) : ∃ k a, Dealt M h id k a := by
  obtain ⟨i, hi⟩ := List.mem_iff_getElem?.mp hid
  have hlt : i < h.bases.length := by
    rw [hl]
    exact (List.getElem?_eq_some_iff.mp hi).1
  exact ⟨i + 1, h.bases[i], i, hi, rfl, List.getElem?_eq_getElem hlt⟩

lemma total_starting (ts : Multiset Wake) : (starting M).total ts = ts.map fun t => (t.id, Stage.unknown) := by
  have hm : (ts.map fun t => ({(t.id, Stage.unknown)} : Multiset (ℕ × Stage))) =
      (ts.map fun t => (t.id, Stage.unknown)).map fun x => {x} := (map_map ..).symm
  calc (starting M).total ts = (ts.map fun t => ({(t.id, Stage.unknown)} : Multiset (ℕ × Stage))).sum := rfl
    _ = ts.map fun t => (t.id, Stage.unknown) := by rw [hm, sum_map_singleton]

/-- The state the broadcast finds. -/
lemma well_handoff (hs : smpBoot M = some h) (hb : (enumerateAps M).bspApicId ∉ M.recorded) :
    Well M h h.shared ((starting M).total (sipis M)) := by
  obtain ⟨-, -, -, hl, he⟩ := smpBoot_eq_some hs
  obtain ⟨-, -, hmap, hmb⟩ := smpBoot_dealt hs hb
  rw [total_starting]
  refine ⟨hmap, fun id k a hd => ?_, by simp [hl], by simp [he], ?_, fun i st hi k a _ => ?_⟩
  · rw [hmb id k a hd]
    exact ⟨rfl, rfl, rfl⟩
  · rw [map_map, sipis, map_coe, List.map_map, coe_nodup]
    simpa [Function.comp_def, Wake.id] using others_nodup M
  · obtain ⟨_, -, he⟩ := mem_map.mp hi
    obtain ⟨-, rfl⟩ := Prod.mk.inj he
    trivial

lemma starting_safe (hs : smpBoot M = some h) (hb : (enumerateAps M).bspApicId ∉ M.recorded)
    (hall : ∀ id ∈ M.others, id ∈ M.recorded) : (starting M).Safe (Well M h) := by
  intro id hok
  have hid : id ∈ M.others := hok (.sipi id) (mem_singleton_self _)
  obtain ⟨k, a, hd⟩ := exists_dealt (smpBoot_dealt hs hb).2.1 (hall id hid)
  show Safe (Well M h) (startProcessor id) ((starting M).total ({Wake.sipi id} : Multiset Wake)) _
  rw [total_starting, map_singleton]
  refine (startProcessor_safe hd).mono fun r H hH => ⟨?_, fun t ht => ?_⟩
  · show H = (starting M).total ({Wake.up id} : Multiset Wake)
    rw [hH, total_starting, map_singleton]
    rfl
  · rw [mem_singleton.mp ht]
    exact hid

/-- The stack of a record, page by page. -/
lemma stackPages_top (a : ℕ) : stackPages (stackTop a - 8) = rangePages a apStackPages := by
  have h : stackTop a - 8 + 8 - apStackPages * 4096 = a := by
    show a + 16384 - 8 + 8 - 16384 = a
    omega
  rw [stackPages, h]

lemma Well.own (hs : smpBoot M = some h) (hb : (enumerateAps M).bspApicId ∉ M.recorded) (hw : Well M h s H) :
    OwnResources M h s := by
  obtain ⟨-, hst, -, -, -⟩ := smpBoot_eq_some hs
  obtain ⟨hslots, hbases, -, -⟩ := smpBoot_dealt hs hb
  obtain ⟨-, hfree⟩ := allocStacks_free _ _ _ _ M.physInv hst
  have hnd : M.phys.free.Nodup := (nodup_add.mp M.physInv.nodup).1
  have hpw := pairwise_of_sum_nodup _ (nodup_of_le hfree hnd)
  have hstack : ∀ {id k a}, Dealt M h id k a → ∀ p ∈ rangePages a apStackPages, p ∈ M.phys.free := by
    rintro id k a ⟨i, -, -, ha⟩ p hp
    exact mem_of_le hfree (mem_sum_map (f := fun a => rangePages a apStackPages) hp _ (List.mem_of_getElem? ha))
  refine ⟨fun L hL L' hL' hne => ?_, fun L hL b hbs => ?_, fun L hL p hp => ?_, fun L hL => ?_,
    fun i j k hi hj => ?_, fun i k hi => ?_, fun L hL i hi => ?_⟩
  · obtain ⟨a, hd, ht, hs', hg⟩ := hw.loaded L hL
    obtain ⟨a', hd', ht', hs'', hg'⟩ := hw.loaded L' hL'
    have hk := hd.slot_ne hd' hne
    rw [ht, ht', hg, hg', hs', hs'', stackPages_top, stackPages_top]
    refine ⟨hk, tempStack_ne hd.bounds.2 hd'.bounds.2 hk, gdtPtr_ne M hd.bounds.2 hd'.bounds.2 hk, fun p hp hp' => ?_⟩
    obtain ⟨i, -, hi, ha⟩ := hd
    obtain ⟨i', -, hi', ha'⟩ := hd'
    obtain ⟨hlt, hga⟩ := List.getElem?_eq_some_iff.mp ha
    obtain ⟨hlt', hga'⟩ := List.getElem?_eq_some_iff.mp ha'
    rw [List.pairwise_iff_getElem] at hpw
    rcases Nat.lt_or_gt_of_ne (show i ≠ i' by omega) with hii | hii
    · exact hpw i i' hlt hlt' hii p (hga ▸ hp) (hga' ▸ hp')
    · exact hpw i' i hlt' hlt hii p (hga' ▸ hp') (hga ▸ hp)
  · obtain ⟨a, hd, ht, -, hg⟩ := hw.loaded L hL
    obtain rfl : 0 = b := by simpa [bspSlot_eq] using hbs
    have hk : L.slot ≠ 0 := Nat.ne_of_gt hd.bounds.1
    rw [ht, hg]
    exact ⟨hk, tempStack_ne hd.bounds.2 (by decide) hk, gdtPtr_ne M hd.bounds.2 (by decide) hk⟩
  · obtain ⟨a, hd, -, hs', -⟩ := hw.loaded L hL
    rw [hs', stackPages_top] at hp
    exact fun hq => M.bspStackKept p hq (hstack hd p hp)
  · obtain ⟨a, hd, -⟩ := hw.loaded L hL
    exact hd.bounds.2
  · obtain ⟨a, hd⟩ := hw.entered i k hi
    obtain ⟨b, hd'⟩ := hw.entered j k hj
    by_contra hne
    exact hd.slot_ne hd' hne rfl
  · obtain ⟨a, hd⟩ := hw.entered i k hi
    refine ⟨hd.bounds.2, ?_⟩
    rw [bspSlot_eq]
    intro he
    exact absurd (Option.some.inj he) (Nat.ne_of_lt hd.bounds.1)
  · obtain ⟨a, hd, -, hs', hg⟩ := hw.loaded L hL
    obtain ⟨i', hi', hk, ha⟩ := hd
    obtain ⟨hlt, hgi⟩ := List.getElem?_eq_some_iff.mp hi
    obtain ⟨hlt', hgi'⟩ := List.getElem?_eq_some_iff.mp hi'
    obtain rfl : i = i' := (recorded_nodup M).getElem_inj_iff.mp (hgi.trans hgi'.symm)
    refine ⟨L.slot, a, ?_, ha, hs', hg⟩
    rw [hslots, List.getElem?_range' hlt, hk]
    congr 1
    omega

end Good

/-! ### A processor nobody expects -/

lemma trampoline_run (id : ℕ) (s : Shared) :
    ((trampoline id).run s).2.percpu = s.percpu ∧ ∃ L ∈ ((trampoline id).run s).2.loaded, L.id = id ∧
      L.slot = if s.percpu.slotMap id = 0xFF then id &&& (maxCpus - 1) else s.percpu.slotMap id :=
  ⟨rfl, _, List.mem_cons_self .., rfl, rfl⟩

/-- A woken processor runs up to its look at the slot map. -/
lemma reach_entered {s : Shared} {id : ℕ} (hid : id ∈ M.others) :
    ∃ P, Pool.Reach (woken M s 0) P ∧ (id, s.percpu.slotMap id) ∈ P.shared.entered ∧ ∃ L ∈ P.shared.loaded, L.id = id ∧
        L.slot = if s.percpu.slotMap id = 0xFF then id &&& (maxCpus - 1) else s.percpu.slotMap id := by
  obtain ⟨rest, hrest⟩ : ∃ rest, sipis M = {Wake.sipi id} + rest :=
    exists_cons_of_mem (mem_coe.mpr (List.mem_map_of_mem hid))
  have h0 : Pool.Reach (woken M s 0)
      ⟨s, update (fun _ => none) 0 (some (id, startProcessor id)), rest⟩ :=
    .single (Pool.Step.call (woken M s 0) 0 id rest rfl hrest)
  have h1 := h0.trans (Pool.reach_bind _ (trampoline id) s)
  obtain ⟨hp, hl⟩ := trampoline_run id s
  generalize (trampoline id).run s = r at h1 hp hl
  have h2 := h1.trans (Pool.reach_bind _ (signalReady r.1) r.2)
  have h3 := h2.trans (Pool.reach_bind _ (readSlotMap id) _)
  exact ⟨_, h3, by simp [readSlotMap, signalReady, hp], by simpa [readSlotMap, signalReady] using hl⟩

/-- The map has no entry for a processor that was not recorded. -/
lemma slotMap_unrecorded {id : ℕ} (hs : smpBoot M = some h) (hid : id ∉ M.recorded) :
    h.shared.percpu.slotMap id = 0xFF := by
  obtain ⟨⟨s2, -, hmap⟩, -⟩ := smpBoot_eq_some hs
  rw [hmap, slotMap_of_not_mem]
  intro hm
  obtain ⟨⟨i, k⟩, hik, rfl⟩ := List.mem_map.mp hm
  exact hid (List.of_mem_zip hik).1

/-- A processor with the id recorded for the bootstrap processor is sent to
the bootstrap processor's slot. -/
lemma slotMap_bsp (hs : smpBoot M = some h)
    (hb : (enumerateAps M).bspApicId ∈ M.recorded) : h.shared.percpu.slotMap (enumerateAps M).bspApicId = 0 := by
  obtain ⟨⟨s2, hrun, hmap⟩, -⟩ := smpBoot_eq_some hs
  have hlen := (recorded_length M).1
  obtain ⟨slots, s', hrun', hl, -, hz⟩ := allocSlots_run M.recorded 1 _ (bspSetup_run (enumerateAps M).bspApicId).2
    (by decide) (by omega) (noApicId_of_recorded M)
  have hslots : h.slots = slots := Option.some.inj (Prod.mk.inj (hrun.symm.trans hrun')).1
  obtain ⟨i, hi⟩ := List.mem_iff_getElem?.mp hb
  have hmem : ((enumerateAps M).bspApicId, 0) ∈ M.recorded.zip h.slots :=
    List.mem_of_getElem? (by rw [List.getElem?_zip_eq_some]; exact ⟨hi, hslots ▸ hz i hi⟩)
  rw [hmap, slotMap_of_mem (others_lt M _ ((recorded_sublist M).subset hb)) _ _ ?_ hmem]
  rw [List.map_fst_zip (by rw [hslots, hl])]
  exact recorded_nodup M

/-- Every started processor has its own resources, in every interleaving,
exactly if none is started, or all that are were recorded and none has the id
recorded for the bootstrap processor. -/
theorem bring_up_iff (M : Machine) : AlwaysOwn M ↔ M.recorded = [] ∨ allocStacks M.recorded.length M.phys = none ∨
      ((∀ id ∈ M.others, id ∈ M.recorded) ∧ (enumerateAps M).bspApicId ∉ M.recorded) := by
  constructor
  · intro hall
    by_cases hne : M.recorded = []
    · exact .inl hne
    rcases hst : allocStacks M.recorded.length M.phys with _ | bases
    · exact .inr (.inl rfl)
    obtain ⟨h, hs⟩ := exists_smpBoot hne hst
    refine .inr (.inr ⟨fun id hid => ?_, fun hb => ?_⟩)
    · by_contra hrec
      obtain ⟨P, hr, he, -⟩ := reach_entered (s := h.shared) hid
      rw [slotMap_unrecorded hs hrec] at he
      exact absurd ((hall h hs 0 P hr).entered_lt id _ he).1 (by decide)
    · obtain ⟨P, hr, he, -⟩ := reach_entered (s := h.shared) ((recorded_sublist M).subset hb)
      rw [slotMap_bsp hs hb] at he
      exact ((hall h hs 0 P hr).entered_lt _ _ he).2 (bspSlot_eq M)
  · intro hc h hs n P hr
    obtain ⟨-, hst, -⟩ := smpBoot_eq_some hs
    rcases hc with hne | hnone | ⟨hall, hb⟩
    · simp only [smpBoot, (recorded_length M).2, hne, List.length_nil, ↓reduceIte] at hs
      cases hs
    · rw [hnone] at hst
      cases hst
    · have hinv := Pool.reach_inv (starting_safe hs hb hall) hr
        ⟨fun _ => 0, fun _ _ => rfl, fun _ _ _ h => by simp [woken] at h, fun t ht => ?_, ?_⟩
      · obtain ⟨F, hw, -⟩ := hinv.shared_inv
        exact hw.own hs hb
      · obtain ⟨id, hid, rfl⟩ := List.mem_map.mp (Multiset.mem_coe.mp ht)
        exact hid
      · rw [Finset.sum_const_zero, add_zero]
        exact well_handoff hs hb

/-- Sixteen pages at 64 KB. -/
def sixteenPages : Phys.State :=
  ((Phys.initFromRegions [(0x10000, 0x10000)] 0x9000 0 0 []).run Phys.State.boot).2

/-- Five processors, with the ids 0 to 3 and 5. -/
def fiveProcessors : Machine where
  processors := [⟨0, true, true, true⟩, ⟨1, true, true, false⟩, ⟨2, true, true, false⟩, ⟨3, true, true, false⟩,
    ⟨5, true, true, false⟩]
  enabled := 5
  queryFails _ := false
  zone := Phys.resetZone [(0x10000, 0x10000)] 0x9000 0 0 Phys.State.boot
  phys := sixteenPages
  lent := 0
  bspStack := []
  gdtTable := 0x200000
  idt := 0x201000
  pml4 := 0xF000
  apEntryFn := 0x202000
  page _ := ⟨0, 0, 0, 0, 0, 0, 0, 0⟩
  scratch _ := (0, 0)
  distinct := by decide
  byte := by decide
  oneBsp := by decide
  physInv := Phys.init_inv (List.pairwise_singleton _ _) (by simp) 0x9000 0 0 []
  bspStackKept := by simp

/-- The fifth processor takes the mailbox of processor 1, and then looks for
its data in slot 255. -/
theorem bring_up_five : ∃ h P, smpBoot fiveProcessors = some h ∧ Pool.Reach (woken fiveProcessors h.shared 0) P ∧
    (∃ L ∈ P.shared.loaded, L.id = 5 ∧ L.slot = 1) ∧ (5, 0xFF) ∈ P.shared.entered ∧
      ¬ OwnResources fiveProcessors h P.shared := by
  have hrec : fiveProcessors.recorded = [1, 2, 3] := by decide
  have hst : (allocStacks fiveProcessors.recorded.length fiveProcessors.phys).isSome = true := by
    rw [hrec]
    decide +kernel
  obtain ⟨bases, hbases⟩ := Option.isSome_iff_exists.mp hst
  obtain ⟨h, hs⟩ := exists_smpBoot (by rw [hrec]; simp) hbases
  obtain ⟨P, hr, he, L, hL, hid, hslot⟩ := reach_entered (M := fiveProcessors) (s := h.shared)
    (show 5 ∈ fiveProcessors.others by decide)
  rw [slotMap_unrecorded hs (by rw [hrec]; decide)] at he hslot
  refine ⟨h, P, hs, hr, ⟨L, hL, hid, by rw [hslot]; rfl⟩, he, fun hown => ?_⟩
  exact absurd (hown.entered_lt _ _ he).1 (by decide)

end LodaxOS.Smp
