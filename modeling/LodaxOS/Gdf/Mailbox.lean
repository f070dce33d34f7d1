/-
# The driver table (`kernel/src/gdf.rs`)

Sixteen entries, each with the mailbox of one driver. The functions below are
the sections that hold the table's lock: what they do to the table, and which
vCPU is to be woken afterwards.
-/
import LodaxOS.Lib.Slots
import LodaxOS.Virt.Entries

namespace LodaxOS.Gdf

def maxDrivers : ℕ := 16
def u64Max : ℕ := 2 ^ 64 - 1

/-! ### Entries -/

/-- The bytes of a name. -/
abbrev Name := List UInt8

/-- A name as it is stored: at most 31 bytes, and zeros up to 32. -/
def Name.padded (name : Name) : Name := name.take 31 ++ List.replicate (32 - (name.take 31).length) 0

structure Message where
  cmd : ℕ
  arg0 : ℕ
  arg1 : ℕ
  arg2 : ℕ
  deriving DecidableEq

inductive MailboxFlags
  | idle
  | pending
  | response
  deriving DecidableEq

structure Mailbox where
  message : Message
  flags : MailboxFlags
  result : ℕ

def Mailbox.empty : Mailbox := ⟨⟨0, 0, 0, 0⟩, .idle, 0⟩

structure DriverEntry where
  name : Name
  vcpuId : ℕ
  mailbox : Mailbox
  callerVcpu : ℕ
  blockedBufPtr : ℕ
  pml4 : ℕ

structure Table where
  entries : ℕ → Option DriverEntry
  count : ℕ

def Table.empty : Table := ⟨fun _ => none, 0⟩

def Table.set (t : Table) (i : ℕ) (d : DriverEntry) : Table := { t with entries := Function.update t.entries i (some d) }

/-- The comparison of `find_by_name`, `poll_result` and `send_cmd`. -/
def DriverEntry.hasName (name : Name) (d : DriverEntry) : Bool :=
  let len := min name.length 31
  d.name.take len = name.take len && (len = 31 || d.name[len]? = some 0)

variable (t : Table)

/-- `find_by_name`. -/
def findByName (name : Name) : Option ℕ := Slots.find maxDrivers (·.hasName name) t.entries

/-- `find_by_vcpu`. -/
def findByVcpu (vcpuId : ℕ) : Option ℕ := Slots.find maxDrivers (fun d => d.vcpuId = vcpuId) t.entries

/-! ### Registering -/

/-- `pml4` is that of the vCPU, if there is one. -/
def registerDriver (name : Name) (vcpuId : ℕ) (pml4 : Option ℕ) : Table × Bool :=
  if t.count ≥ maxDrivers then (t, false)
  else if (Slots.find maxDrivers (fun d => d.name = name.padded) t.entries).isSome then (t, false)
  else
    match pml4, Slots.free maxDrivers t.entries with
    | some pml4, some i => ({ t.set i ⟨name.padded, vcpuId, .empty, 0, 0, pml4⟩ with count := t.count + 1 }, true)
    | _, _ => (t, false)

/-- `handle_crash` removes the entry. -/
def removeDriver (vcpuId : ℕ) : Table :=
  match findByVcpu t vcpuId with
  | some i => { entries := Function.update t.entries i none, count := t.count - 1 }
  | none => t

/-! ### Commands -/

/-- The pages of a range, from the first one on. -/
def pagesOf (start stop : ℕ) : List ℕ :=
  let first := start - start % 0x1000
  (List.range ((stop - first + 0xFFF) / 0x1000)).map fun i => first + i * 0x1000

/-- The 32 bytes at `ptr` are in pages that are present and writable. `pte` is
what `read_pte` finds. -/
def bufWritable (pte : ℕ → ℕ → Option ℕ) (pml4 ptr : ℕ) : Bool :=
  (pagesOf ptr (ptr + 32)).all fun page =>
    (pte pml4 page).any fun w => w &&& Virt.present ≠ 0 && w &&& Virt.writable ≠ 0

/-- The table after `send_cmd`, the vCPU to wake if the command is accepted,
and what is written to a blocked driver's buffer. -/
structure Sent where
  table : Table
  wake : Option ℕ
  write : Option (ℕ × Message)

def sendCmd (pte : ℕ → ℕ → Option ℕ) (t : Table) (name : Name) (message : Message) : Sent :=
  match findByName t name with
  | none => ⟨t, none, none⟩
  | some i =>
    match t.entries i with
    | none => ⟨t, none, none⟩
    | some d =>
      if d.mailbox.flags ≠ .idle then ⟨t, none, none⟩
      else
        let d := { d with mailbox := ⟨message, .pending, u64Max⟩ }
        if d.blockedBufPtr = 0 then ⟨t.set i d, some d.vcpuId, none⟩
        else
          let t := t.set i { d with blockedBufPtr := 0 }
          -- The message is dropped, but the mailbox stays pending.
          if d.blockedBufPtr ≥ Virt.higherHalf || !bufWritable pte d.pml4 d.blockedBufPtr then ⟨t, none, none⟩
          else ⟨t, some d.vcpuId, some (d.blockedBufPtr, message)⟩

/-- The entry that `driver_call` finds: never one of the caller itself. -/
def calledEntry (target : Name) (caller : ℕ) : Option ℕ :=
  Slots.find maxDrivers (fun d => d.name = target.padded && d.vcpuId ≠ caller) t.entries

/-- The first part of `driver_call`, and the vCPU of the target. -/
def callDriver (target : Name) (caller : ℕ) (message : Message) : Table × Option ℕ :=
  if target.length = 0 then (t, none)
  else
    match calledEntry t target caller with
    | none => (t, none)
    | some i =>
      match t.entries i with
      | none => (t, none)
      | some d =>
        if d.mailbox.flags ≠ .idle then (t, none)
        else (t.set i { d with mailbox := ⟨message, .pending, d.mailbox.result⟩, callerVcpu := caller }, some d.vcpuId)

/-! ### Answers -/

/-- The entry from which `recv` takes a message. -/
def pendingEntry (vcpuId : ℕ) : Option ℕ :=
  Slots.find maxDrivers (fun d => d.vcpuId = vcpuId && d.mailbox.flags = .pending) t.entries

def recv (vcpuId : ℕ) : Table × Option Message :=
  match pendingEntry t vcpuId with
  | none => (t, none)
  | some i =>
    match t.entries i with
    | none => (t, none)
    | some d => (t.set i { d with mailbox := { d.mailbox with flags := .response } }, some d.mailbox.message)

/-- The table after the locked section of `send_response`, and the caller if
the vCPU has an entry (0: none to wake). -/
def sendResponse (vcpuId result : ℕ) : Table × Option ℕ :=
  match findByVcpu t vcpuId with
  | none => (t, none)
  | some i =>
    match t.entries i with
    | none => (t, none)
    | some d =>
      (t.set i { d with mailbox := { d.mailbox with result := result, flags := .idle }, callerVcpu := 0 }, some d.callerVcpu)

def pollResult (name : Name) : Option ℕ :=
  match findByName t name with
  | none => none
  | some i => (t.entries i).bind fun d => if d.mailbox.flags = .idle then some d.mailbox.result else none

/-! ### What the functions do -/

variable {t} {name : Name} {v result : ℕ} {message : Message} {pte : ℕ → ℕ → Option ℕ} {i : ℕ} {d : DriverEntry}

@[simp] lemma set_self (t : Table) (i : ℕ) (d : DriverEntry) : (t.set i d).entries i = some d := Function.update_self ..

lemma set_of_ne {j : ℕ} (hj : j ≠ i) : (t.set i d).entries j = t.entries j := Function.update_of_ne hj ..

lemma findByName_eq_some (h : findByName t name = some i) : i < maxDrivers ∧ ∃ d, t.entries i = some d ∧ d.hasName name = true :=
  let h := Slots.find_eq_some.mp h
  ⟨h.1, h.2.1⟩

lemma findByVcpu_eq_some (h : findByVcpu t v = some i) : i < maxDrivers ∧ ∃ d, t.entries i = some d ∧ d.vcpuId = v := by
  obtain ⟨hlt, ⟨d, hd, hv⟩, -⟩ := Slots.find_eq_some.mp h
  exact ⟨hlt, d, hd, by simpa using hv⟩

lemma pendingEntry_eq_some (h : pendingEntry t v = some i) :
    i < maxDrivers ∧ ∃ d, t.entries i = some d ∧ d.vcpuId = v ∧ d.mailbox.flags = .pending := by
  obtain ⟨hlt, ⟨d, hd, hv⟩, -⟩ := Slots.find_eq_some.mp h
  exact ⟨hlt, d, hd, by simpa using hv⟩

/-- An entry that is idle and not blocked on a buffer gets the command, or one
that is blocked does; or nothing is accepted, and only a message for a buffer
that cannot be written stays. -/
lemma sendCmd_cases (pte : ℕ → ℕ → Option ℕ) (t : Table) (name : Name) (message : Message) :
    sendCmd pte t name message = ⟨t, none, none⟩ ∨
    ∃ i d, findByName t name = some i ∧ t.entries i = some d ∧ d.mailbox.flags = .idle ∧ ((d.blockedBufPtr = 0 ∧
        sendCmd pte t name message = ⟨t.set i { d with mailbox := ⟨message, .pending, u64Max⟩ }, some d.vcpuId, none⟩) ∨
      (d.blockedBufPtr ≠ 0 ∧ ∃ wake write, sendCmd pte t name message =
        ⟨t.set i { d with mailbox := ⟨message, .pending, u64Max⟩, blockedBufPtr := 0 }, wake, write⟩)) := by
  unfold sendCmd
  cases hi : findByName t name with
  | none => exact .inl rfl
  | some i =>
    obtain ⟨-, d, hd, -⟩ := findByName_eq_some hi
    simp only [hd]
    by_cases hf : d.mailbox.flags = .idle
    · rw [if_neg (not_not_intro hf)]
      refine .inr ⟨i, d, rfl, hd, hf, ?_⟩
      by_cases hb : d.blockedBufPtr = 0
      · exact .inl ⟨hb, if_pos hb⟩
      · refine .inr ⟨hb, ?_⟩
        rw [if_neg hb]
        split
        · exact ⟨_, _, rfl⟩
        · exact ⟨_, _, rfl⟩
    · exact .inl (if_pos hf)

lemma callDriver_cases (t : Table) (target : Name) (caller : ℕ) (message : Message) :
    callDriver t target caller message = (t, none) ∨
    ∃ i d, calledEntry t target caller = some i ∧ t.entries i = some d ∧ d.vcpuId ≠ caller ∧ d.mailbox.flags = .idle ∧
      callDriver t target caller message =
        (t.set i { d with mailbox := ⟨message, .pending, d.mailbox.result⟩, callerVcpu := caller }, some d.vcpuId) := by
  unfold callDriver
  split
  · exact .inl rfl
  · cases hi : calledEntry t target caller with
    | none => exact .inl rfl
    | some i =>
      obtain ⟨-, ⟨d, hd, hp⟩, -⟩ := Slots.find_eq_some.mp hi
      have hv : d.vcpuId ≠ caller := by
        rw [Bool.and_eq_true] at hp
        simpa using hp.2
      simp only [hd]
      by_cases hf : d.mailbox.flags = .idle
      · exact .inr ⟨i, d, rfl, hd, hv, hf, if_neg (not_not_intro hf)⟩
      · exact .inl (if_pos hf)

lemma recv_cases (t : Table) (v : ℕ) : (pendingEntry t v = none ∧ recv t v = (t, none)) ∨
    ∃ i d, pendingEntry t v = some i ∧ t.entries i = some d ∧ d.vcpuId = v ∧ d.mailbox.flags = .pending ∧
      recv t v = (t.set i { d with mailbox := { d.mailbox with flags := .response } }, some d.mailbox.message) := by
  unfold recv
  cases hi : pendingEntry t v with
  | none => exact .inl ⟨rfl, rfl⟩
  | some i =>
    obtain ⟨-, d, hd, hv, hf⟩ := pendingEntry_eq_some hi
    refine .inr ⟨i, d, rfl, hd, hv, hf, ?_⟩
    simp only [hd]

lemma sendResponse_cases (t : Table) (v result : ℕ) : (findByVcpu t v = none ∧ sendResponse t v result = (t, none)) ∨
    ∃ i d, findByVcpu t v = some i ∧ t.entries i = some d ∧ d.vcpuId = v ∧ sendResponse t v result =
      (t.set i { d with mailbox := { d.mailbox with result := result, flags := .idle }, callerVcpu := 0 }, some d.callerVcpu) := by
  unfold sendResponse
  cases hi : findByVcpu t v with
  | none => exact .inl ⟨rfl, rfl⟩
  | some i =>
    obtain ⟨-, d, hd, hv⟩ := findByVcpu_eq_some hi
    refine .inr ⟨i, d, rfl, hd, hv, ?_⟩
    simp only [hd]

lemma pollResult_eq_some (h : pollResult t name = some result) :
    ∃ i d, findByName t name = some i ∧ t.entries i = some d ∧ d.mailbox.flags = .idle ∧ d.mailbox.result = result := by
  unfold pollResult at h
  split at h
  · simp at h
  · rename_i i hi
    obtain ⟨d, hd, hr⟩ := Option.bind_eq_some_iff.mp h
    rw [Option.ite_none_right_eq_some, Option.some.injEq] at hr
    exact ⟨i, d, hi, hd, hr⟩

lemma registerDriver_cases (t : Table) (name : Name) (v : ℕ) (pml4 : Option ℕ) :
    registerDriver t name v pml4 = (t, false) ∨
    ∃ i pml4', i < maxDrivers ∧ t.entries i = none ∧ (∀ j < maxDrivers, ∀ d, t.entries j = some d → d.name ≠ name.padded) ∧
      registerDriver t name v pml4 = ({ t.set i ⟨name.padded, v, .empty, 0, 0, pml4'⟩ with count := t.count + 1 }, true) := by
  unfold registerDriver
  split
  · exact .inl rfl
  · split
    · exact .inl rfl
    · rename_i hdup
      rw [Option.not_isSome_iff_eq_none, Slots.find_eq_none] at hdup
      split
      · rename_i pml4' i hfree
        obtain ⟨hlt, hnone, -⟩ := Slots.free_eq_some.mp hfree
        exact .inr ⟨i, pml4', hlt, hnone, fun j hj d hd => by simpa using hdup j hj d hd, rfl⟩
      · exact .inl rfl

end LodaxOS.Gdf
