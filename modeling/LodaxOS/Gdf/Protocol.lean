/-
# The mailbox protocol

What should happen at every entry of the driver table: a command is accepted,
received once, answered, and only then may its result be polled (`Phase.next`).
The table does not enforce this. `send_response` looks neither at the mailbox
nor at which entry of the vCPU a command came from, and `poll_result` shows a
result before there was a command (`mailbox_answered_early`). If drivers answer
only what they have received, and results are polled only of entries that have
been sent a command, every entry follows the protocol in every interleaving
(`mailbox_protocol`).
-/
import LodaxOS.Gdf.Mailbox
import LodaxOS.Lib.Traces

namespace LodaxOS.Gdf

open Function

/-! ### The protocol -/

/-- What happens at one entry. -/
inductive Act
  | accept (message : Message)
  | take (message : Message)
  | publish (result : ℕ)
  | polled (result : ℕ)
  deriving DecidableEq

inductive Phase
  | fresh
  | pending (message : Message)
  | taken (message : Message)
  | answered (result : ℕ)
  deriving DecidableEq

def Phase.next : Phase → Act → Option Phase
  | fresh, .accept message => some (pending message)
  | answered _, .accept message => some (pending message)
  | pending message, .take message' => if message' = message then some (taken message) else none
  | taken _, .publish result => some (answered result)
  | answered result, .polled result' => if result' = result then some (answered result) else none
  | _, _ => none

/-- The phase after some acts, if they follow the protocol. -/
def follows (acts : List Act) : Option Phase := acts.foldlM Phase.next .fresh

lemma follows_append (acts : List Act) (a : Act) : follows (acts ++ [a]) = (follows acts).bind fun ph => ph.next a := by
  unfold follows
  rw [List.foldlM_append]
  refine congrArg _ (funext fun ph => ?_)
  simp

/-! ### Interleavings -/

/-- One section that holds the table's lock. -/
inductive TableEvent
  | register (name : Name) (vcpuId : ℕ) (pml4 : Option ℕ)
  | sendCmd (pte : ℕ → ℕ → Option ℕ) (name : Name) (message : Message)
  | call (target : Name) (caller : ℕ) (message : Message)
  | recv (vcpuId : ℕ)
  | respond (vcpuId result : ℕ)
  | poll (name : Name)

/-- The table, and what has happened at its entries. -/
structure Observed where
  table : Table
  acts : ℕ → List Act

variable {box : Mailbox} {acts : List Act}

namespace Observed

def start : Observed := ⟨Table.empty, fun _ => []⟩

/-- The table after a call, and an act at an entry if the call had a result. -/
def record {α : Type} (s : Observed) (t : Table) (entry : Option ℕ) (r : Option α) (act : α → Act) : Observed where
  table := t
  acts := match entry, r with
    | some i, some x => update s.acts i (s.acts i ++ [act x])
    | _, _ => s.acts

def step (s : Observed) : TableEvent → Observed
  | .register name v pml4 => { s with table := (registerDriver s.table name v pml4).1 }
  | .sendCmd pte name message =>
    let r := Gdf.sendCmd pte s.table name message
    s.record r.table (findByName s.table name) r.wake fun _ => .accept message
  | .call target caller message =>
    let r := callDriver s.table target caller message
    s.record r.1 (calledEntry s.table target caller) r.2 fun _ => .accept message
  | .recv v =>
    let r := Gdf.recv s.table v
    s.record r.1 (pendingEntry s.table v) r.2 .take
  | .respond v result =>
    let r := sendResponse s.table v result
    s.record r.1 (findByVcpu s.table v) r.2 fun _ => .publish result
  | .poll name => s.record s.table (findByName s.table name) (pollResult s.table name) .polled

/-- A driver has received the message of the entry and not answered it. -/
def Holds (s : Observed) (v i : ℕ) : Prop := ∃ d, s.table.entries i = some d ∧ d.vcpuId = v ∧ d.mailbox.flags = .response

/-- A driver answers only if it has received one message, and from the first of
its entries; results are polled of entries that were sent a command. -/
def Disciplined (s : Observed) : TableEvent → Prop
  | .respond v _ => ∀ i, findByVcpu s.table v = some i → ∀ j, s.Holds v j ↔ j = i
  | .poll name => ∀ i, findByName s.table name = some i → ∃ message, .accept message ∈ s.acts i
  | _ => True

/-- An interleaving of such calls. -/
def Interleaving (cond : Observed → TableEvent → Prop) (tr : List TableEvent) (s : Observed) : Prop :=
  Traces.Run (fun s e s' => cond s e ∧ s.step e = s') start tr s

/-! ### The mailbox shows the phase -/

def Shows (box : Mailbox) (acts : List Act) : Prop :=
  match box.flags with
  | .idle => acts = [] ∨ follows acts = some (.answered box.result)
  | .pending => follows acts = some (.pending box.message)
  | .response => follows acts = some (.taken box.message)

/-- Every mailbox shows its phase, and no driver is blocked on a buffer. -/
def Tracks (s : Observed) : Prop :=
  ∀ i, match s.table.entries i with
    | none => s.acts i = []
    | some d => d.blockedBufPtr = 0 ∧ Shows d.mailbox (s.acts i)

variable {s : Observed} {i : ℕ} {d d' : DriverEntry} {a : Act}

lemma Tracks.entry (h : Tracks s) (hd : s.table.entries i = some d) : d.blockedBufPtr = 0 ∧ Shows d.mailbox (s.acts i) := by
  have hi := h i
  rwa [hd] at hi

/-- An act at one entry. -/
lemma Tracks.update (h : Tracks s) (hb : d'.blockedBufPtr = 0) (hs : Shows d'.mailbox (s.acts i ++ [a])) :
    Tracks ⟨s.table.set i d', update s.acts i (s.acts i ++ [a])⟩ := by
  intro j
  by_cases hj : j = i
  · subst hj
    simp only [set_self, update_self]
    exact ⟨hb, hs⟩
  · simp only [set_of_ne hj, update_of_ne hj]
    exact h j

section

variable (h : Shows box acts)

include h

lemma Shows.accept (hf : box.flags = .idle) (message : Message)
    (result : ℕ) : Shows ⟨message, .pending, result⟩ (acts ++ [.accept message]) := by
  unfold Shows at h
  rw [hf] at h
  change follows _ = _
  rw [follows_append]
  rcases h with rfl | hanswered
  · rfl
  · rw [hanswered]
    rfl

lemma Shows.take (hf : box.flags = .pending) : Shows { box with flags := .response } (acts ++ [.take box.message]) := by
  unfold Shows at h
  rw [hf] at h
  change follows _ = _
  rw [follows_append, h]
  exact if_pos rfl

lemma Shows.publish (hf : box.flags = .response) (result : ℕ) :
    Shows { box with result := result, flags := .idle } (acts ++ [.publish result]) := by
  unfold Shows at h
  rw [hf] at h
  refine Or.inr ?_
  rw [follows_append, h]
  rfl

lemma Shows.polled (hf : box.flags = .idle) (hne : acts ≠ []) : Shows box (acts ++ [.polled box.result]) := by
  unfold Shows at h ⊢
  rw [hf] at h ⊢
  refine Or.inr ?_
  rw [follows_append, h.resolve_left hne]
  exact if_pos rfl

omit h in
lemma Tracks.step {e : TableEvent} (h : Tracks s) (hok : Disciplined s e) : Tracks (s.step e) := by
  cases e with
  | register name v pml4 =>
    simp only [Observed.step]
    rcases registerDriver_cases s.table name v pml4 with heq | ⟨i, pml4', -, hnone, -, heq⟩
    · rw [heq]
      exact h
    · rw [heq]
      intro j
      by_cases hj : j = i
      · subst hj
        have hacts := h j
        rw [hnone] at hacts
        simp only [set_self]
        exact ⟨trivial, Or.inl hacts⟩
      · simp only [set_of_ne hj]
        exact h j
  | sendCmd pte name message =>
    simp only [Observed.step]
    rcases sendCmd_cases pte s.table name message with heq | ⟨i, d, hi, hd, hf, ⟨-, heq⟩ | ⟨hb, -⟩⟩
    · rw [heq]
      cases findByName s.table name <;> exact h
    · rw [heq, hi]
      exact h.update (h.entry hd).1 ((h.entry hd).2.accept hf message _)
    · exact absurd (h.entry hd).1 hb
  | call target caller message =>
    simp only [Observed.step]
    rcases callDriver_cases s.table target caller message with heq | ⟨i, d, hi, hd, -, hf, heq⟩
    · rw [heq]
      cases calledEntry s.table target caller <;> exact h
    · rw [heq, hi]
      exact h.update (h.entry hd).1 ((h.entry hd).2.accept hf message _)
  | recv v =>
    simp only [Observed.step]
    rcases recv_cases s.table v with ⟨hi, heq⟩ | ⟨i, d, hi, hd, -, hf, heq⟩
    · rw [heq, hi]
      exact h
    · rw [heq, hi]
      exact h.update (h.entry hd).1 ((h.entry hd).2.take hf)
  | respond v result =>
    simp only [Observed.step]
    rcases sendResponse_cases s.table v result with ⟨hi, heq⟩ | ⟨i, d, hi, hd, -, heq⟩
    · rw [heq, hi]
      exact h
    · rw [heq, hi]
      obtain ⟨d', hd', -, hf⟩ := (hok i hi i).mpr rfl
      obtain rfl := Option.mem_unique hd hd'
      exact h.update (h.entry hd).1 ((h.entry hd).2.publish hf result)
  | poll name =>
    simp only [Observed.step]
    cases hr : pollResult s.table name with
    | none => cases findByName s.table name <;> exact h
    | some =>
      obtain ⟨i, d, hi, hd, hf, rfl⟩ := pollResult_eq_some hr
      obtain ⟨message, hmem⟩ := hok i hi
      have hset : s.table.set i d = s.table := by
        unfold Table.set
        rw [← hd, update_eq_self]
      have hupdate := h.update (h.entry hd).1 ((h.entry hd).2.polled hf (List.ne_nil_of_mem hmem))
      rw [hset] at hupdate
      rw [hi]
      exact hupdate

lemma Shows.follows_isSome : (follows acts).isSome = true := by
  unfold Shows at h
  split at h
  · rcases h with hnil | hanswered
    · rw [hnil]
      rfl
    · rw [hanswered]
      rfl
  · rw [h]
    rfl
  · rw [h]
    rfl

end

/-- The driver holds a message exactly if the entry's last act was to give it out. -/
lemma Tracks.holds_iff (h : Tracks s) (hd : s.table.entries i = some d) :
    s.Holds d.vcpuId i ↔ ∃ message, follows (s.acts i) = some (.taken message) := by
  obtain ⟨-, hshows⟩ := h.entry hd
  constructor
  · intro ⟨d', hd', _, hf⟩
    obtain rfl := Option.mem_unique hd hd'
    unfold Shows at hshows
    rw [hf] at hshows
    exact ⟨_, hshows⟩
  · intro ⟨message, htaken⟩
    refine ⟨d, hd, rfl, ?_⟩
    unfold Shows at hshows
    split at hshows
    · rcases hshows with hnil | hanswered
      · rw [hnil] at htaken
        cases htaken
      · rw [hanswered] at htaken
        cases htaken
    · rw [hshows] at htaken
      cases htaken
    · assumption

/-- In every interleaving of disciplined calls every entry follows the protocol:
a command that it accepts is received once, before it is answered; it is
answered after it is received; and what is polled is the answer to the last
command. A further answer goes to the one entry from which its driver has a
message. -/
theorem mailbox_protocol {tr : List TableEvent} (h : Interleaving Disciplined tr s) :
    (∀ i, (follows (s.acts i)).isSome = true) ∧
    ∀ v result, s.Disciplined (.respond v result) → ∀ i, findByVcpu s.table v = some i → ∀ j d, s.table.entries j = some d →
      d.vcpuId = v → ((∃ message, follows (s.acts j) = some (.taken message)) ↔ j = i) := by
  have hstart : Tracks start := fun _ => rfl
  have hinv : ∀ s e s', Tracks s → Disciplined s e ∧ s.step e = s' → Tracks s' := fun _ _ _ hs hstep => hstep.2 ▸ hs.step hstep.1
  have htracks := h.invariant hinv hstart
  refine ⟨fun i => ?_, fun v result hok i hi j d hd hv => ?_⟩
  · have hi := htracks i
    split at hi
    · rw [hi]
      rfl
    · exact hi.2.follows_isSome
  · rw [← htracks.holds_iff hd, hv]
    exact hok i hi j

/-- A driver is registered and gets a command. -/
def sent : Observed :=
  (start.step (.register [101] 5 (some 0x5000))).step (.sendCmd (fun _ _ => none) [101] ⟨1, 2, 3, 4⟩)

/-- It receives the command and answers 7, which is then polled. -/
theorem mailbox_protocol_round : ∃ s, Interleaving Disciplined
    [.register [101] 5 (some 0x5000), .sendCmd (fun _ _ => none) [101] ⟨1, 2, 3, 4⟩, .recv 5, .respond 5 7, .poll [101]] s ∧
    follows (s.acts 0) = some (.answered 7) ∧ (follows (s.acts 0)).isSome = true := by
  have hanswer : Disciplined (sent.step (.recv 5)) (.respond 5 7) := by
    intro i hi j
    have hfirst : findByVcpu (sent.step (.recv 5)).table 5 = some 0 := by decide +kernel
    obtain rfl := Option.mem_unique hi hfirst
    constructor
    · intro ⟨d, hd, _, _⟩
      by_contra hj
      have hnone : (sent.step (.recv 5)).table.entries j = none :=
        (update_of_ne hj ..).trans ((update_of_ne hj ..).trans (update_of_ne hj ..))
      rw [hnone] at hd
      cases hd
    · rintro rfl
      exact ⟨_, rfl, rfl, rfl⟩
  have hpoll : Disciplined ((sent.step (.recv 5)).step (.respond 5 7)) (.poll [101]) := by
    intro i hi
    have hfirst : findByName ((sent.step (.recv 5)).step (.respond 5 7)).table [101] = some 0 := by decide +kernel
    obtain rfl := Option.mem_unique hi hfirst
    exact ⟨⟨1, 2, 3, 4⟩, by decide +kernel⟩
  have hrun : Interleaving Disciplined
      [.register [101] 5 (some 0x5000), .sendCmd (fun _ _ => none) [101] ⟨1, 2, 3, 4⟩, .recv 5, .respond 5 7, .poll [101]]
      (((sent.step (.recv 5)).step (.respond 5 7)).step (.poll [101])) :=
    .cons ⟨trivial, rfl⟩ (.cons ⟨trivial, rfl⟩ (.cons ⟨trivial, rfl⟩ (.cons ⟨hanswer, rfl⟩ (.cons ⟨hpoll, rfl⟩ (.nil _)))))
  exact ⟨_, hrun, by decide +kernel, (mailbox_protocol hrun).1 0⟩

/-- The driver answers a command that it has not received. -/
theorem mailbox_answered_early : ∃ s, Interleaving (fun _ _ => True)
    [.register [101] 5 (some 0x5000), .sendCmd (fun _ _ => none) [101] ⟨1, 2, 3, 4⟩, .respond 5 7, .poll [101]] s ∧
    s.acts 0 = [.accept ⟨1, 2, 3, 4⟩, .publish 7, .polled 7] ∧ follows (s.acts 0) = none := by
  refine ⟨(sent.step (.respond 5 7)).step (.poll [101]),
    .cons ⟨trivial, rfl⟩ (.cons ⟨trivial, rfl⟩ (.cons ⟨trivial, rfl⟩ (.cons ⟨trivial, rfl⟩ (.nil _)))), ?_, ?_⟩
  · decide +kernel
  · decide +kernel

end Observed
end LodaxOS.Gdf
