/-
# TLB shootdown (`kernel/src/mm/virt.rs`, `kernel/src/arch/idt.rs`)

A CPU that changes a mapping asks the others to flush it: one word for each
CPU (`pending_tlb_flush`) holds nothing, an address, or "flush all", and the
CPU drains its word at every interrupt entry. The calls of all CPUs and the
interrupt entries interleave, one atomic operation at a time.

A word that holds "flush all" is overwritten by the next request, a drain
between the swap and the store of a request finds only the newer address, and
a range puts only its last page into the word. Apart from these, every
requested page is flushed at the next interrupt entry (`shootdown_complete`).
-/
import LodaxOS.Lib.Traces
import LodaxOS.Phys.Model

namespace LodaxOS.Tlb

open Phys (pageSize)
open Traces Function

/-! ### Requests -/

def maxCpus : ℕ := 4

/-- `u64::MAX`: flush all. -/
def flushAll : ℕ := 2 ^ 64 - 1

/-- `tlb_shootdown` or `tlb_shootdown_range`. -/
inductive Request
  | page (addr : ℕ)
  | range (start stop : ℕ)
  deriving DecidableEq

/-- The first address of the range's first page. -/
def pageStart (start : ℕ) : ℕ := start / pageSize * pageSize

/-- The range's end, rounded up; the addition may overflow. -/
def pageEnd (stop : ℕ) : Option ℕ :=
  if stop + pageSize < 2 ^ 64 then some ((stop + pageSize - 1) / pageSize * pageSize) else none

namespace Request

/-- The address that goes into the words of the other CPUs. -/
def flushAddr : Request → Option ℕ
  | page addr => some addr
  | range start stop => do
    let last ← pageEnd stop
    pure (if last > pageStart start then last - pageSize else pageStart start)

/-- The pages that the caller wants flushed. -/
def pages : Request → List ℕ
  | page addr => [addr / pageSize]
  | range start stop =>
    if start < stop then List.range' (start / pageSize) ((stop + pageSize - 1) / pageSize - start / pageSize) else []

end Request

/-! ### The machine -/

/-- A call under way: the CPUs not yet visited, and the one whose word is
still to be overwritten with "flush all". -/
structure Call where
  req : Request
  addr : ℕ
  rest : List ℕ
  storing : Option ℕ
  deriving DecidableEq

structure State where
  /-- `pending_tlb_flush`. -/
  word : ℕ → ℕ
  call : ℕ → Option Call
  /-- What an interrupt entry took from the word and has not flushed yet. -/
  taken : ℕ → Option ℕ
  /-- The pages requested of a CPU since its last interrupt entry (no state of
  the kernel: it records what the word stands for). -/
  asked : ℕ → List ℕ

def State.init : State := ⟨fun _ => 0, fun _ => none, fun _ => none, fun _ => []⟩

/-- One atomic operation, with what it touches. -/
inductive Event
  | call (p : ℕ) (req : Request)
  | swap (p c : ℕ) (req : Request)
  | store (p c : ℕ)
  | ret (p : ℕ)
  | enter (c word : ℕ)
  | flush (c word : ℕ)
  deriving DecidableEq

/-- The CPUs that a call visits. -/
def targets (online : ℕ → Bool) (p : ℕ) : List ℕ :=
  (List.range maxCpus).filter fun i => i ≠ p && online i

/-- `set_pending_flush`, first part. -/
def swapWord (s : State) (p c : ℕ) (call : Call) (rest : List ℕ) : State :=
  let prev := s.word c
  let storing := if prev ≠ 0 ∧ prev ≠ call.addr ∧ prev ≠ flushAll then some c else none
  { s with
    word := update s.word c call.addr
    call := update s.call p (some { call with rest := rest, storing := storing })
    asked := update s.asked c (call.req.pages ++ s.asked c) }

/-- `set_pending_flush`, second part. -/
def storeWord (s : State) (p c : ℕ) (call : Call) : State :=
  { s with
    word := update s.word c flushAll
    call := update s.call p (some { call with storing := none }) }

def step (online : ℕ → Bool) (s : State) : Event → Option State
  | .call p req =>
    match s.call p, req.flushAddr with
    | none, some addr => some { s with call := update s.call p (some ⟨req, addr, targets online p, none⟩) }
    | _, _ => none
  | .swap p c req =>
    match s.call p with
    | some ⟨r, addr, i :: rest, none⟩ =>
      if i = c ∧ r = req then some (swapWord s p c ⟨r, addr, i :: rest, none⟩ rest) else none
    | _ => none
  | .store p c =>
    match s.call p with
    | some ⟨r, addr, rest, some i⟩ => if i = c then some (storeWord s p c ⟨r, addr, rest, some i⟩) else none
    | _ => none
  | .ret p =>
    match s.call p with
    | some ⟨_, _, [], none⟩ => some { s with call := update s.call p none }
    | _ => none
  | .enter c word =>
    match s.taken c with
    | none =>
      if s.word c = word then
        some { s with
          word := update s.word c 0
          taken := update s.taken c (some word)
          asked := update s.asked c [] }
      else none
    | some _ => none
  | .flush c word =>
    if s.taken c = some word then some { s with taken := update s.taken c none } else none

/-- A run from the start. -/
def Runs (online : ℕ → Bool) (tr : List Event) (s : State) : Prop :=
  Run (fun s e s' => step online s e = some s') State.init tr s

/-! ### Completeness -/

/-- What `interrupt_dispatcher` flushes for the word it took. -/
def Flushes (word page : ℕ) : Prop := word = flushAll ∨ word ≠ 0 ∧ word / pageSize = page

instance (word page : ℕ) : Decidable (Flushes word page) := inferInstanceAs (Decidable (_ ∨ _))

/-- A call of `p` requests pages of `c` and returns; `c` enters an interrupt
for the first time after that. When the entry has flushed, `c` has flushed
each of the pages after they were requested. -/
def Complete (tr : List Event) : Prop :=
  ∀ (p c v w : ℕ) (req : Request) (t1 t2 t3 t4 t5 : List Event),
    tr = t1 ++ .swap p c req :: (t2 ++ .ret p :: (t3 ++ .enter c v :: (t4 ++ .flush c w :: t5))) →
    .ret p ∉ t2 → (∀ v, .enter c v ∉ t3) → (∀ w, .flush c w ∉ t4) →
    ∀ page ∈ req.pages, ∃ word, Flushes word page ∧
      .flush c word ∈ t2 ++ .ret p :: (t3 ++ .enter c v :: (t4 ++ [.flush c w]))

/-- A step that loses no request: a call is for one page at most, and not for
address 0; a swap finds no "flush all"; no interrupt entry comes between a
swap and the store that follows it. -/
def Clean (s : State) : Event → Prop
  | .call _ req => ∀ addr ∈ req.flushAddr, addr ≠ 0 ∧ ∀ page ∈ req.pages, addr / pageSize = page
  | .swap _ c _ => s.word c ≠ flushAll
  | .enter c _ => ∀ p, ∀ call ∈ s.call p, call.storing ≠ some c
  | _ => True

/-- A run of clean steps. -/
def CleanRuns (online : ℕ → Bool) (tr : List Event) (s : State) : Prop :=
  Run (fun s e s' => Clean s e ∧ step online s e = some s') State.init tr s

/-! ### What the word stands for -/

/-- A page of a request is flushed for the word as it stands, or its CPU is
about to store "flush all". -/
structure Inv (s : State) : Prop where
  word : ∀ c, s.word c = flushAll ∨ (∃ p call, s.call p = some call ∧ call.storing = some c) ∨
    ∀ page ∈ s.asked c, s.word c ≠ 0 ∧ s.word c / pageSize = page
  call : ∀ p call, s.call p = some call → call.addr ≠ 0 ∧ ∀ page ∈ call.req.pages, call.addr / pageSize = page

lemma Inv.init : Inv State.init := ⟨fun _ => .inr (.inr (by simp [State.init])), by simp [State.init]⟩

variable {p c word page : ℕ} {call : Call} {e : Event}

section

variable {online : ℕ → Bool} {s s' : State}

lemma step_call {req : Request} (h : step online s (.call p req) = some s') :
    ∃ addr, req.flushAddr = some addr ∧ s.call p = none ∧
      s' = { s with call := update s.call p (some ⟨req, addr, targets online p, none⟩) } := by
  simp only [step] at h
  split at h
  · rename_i addr hp ha
    exact ⟨addr, ha, hp, by simpa using h.symm⟩
  · simp at h

lemma step_swap {req : Request} (h : step online s (.swap p c req) = some s') :
    ∃ addr rest, s.call p = some ⟨req, addr, c :: rest, none⟩ ∧ s' = swapWord s p c ⟨req, addr, c :: rest, none⟩ rest := by
  simp only [step] at h
  split at h
  · rename_i r addr i rest hp
    split at h
    · rename_i hc
      obtain ⟨rfl, rfl⟩ := hc
      exact ⟨addr, rest, hp, by simpa using h.symm⟩
    · simp at h
  · simp at h

lemma step_store (h : step online s (.store p c) = some s') :
    ∃ call, s.call p = some call ∧ call.storing = some c ∧ s' = storeWord s p c call := by
  simp only [step] at h
  split at h
  · rename_i r addr rest i hp
    split at h
    · rename_i hc
      subst hc
      exact ⟨_, hp, rfl, by simpa using h.symm⟩
    · simp at h
  · simp at h

lemma step_ret (h : step online s (.ret p) = some s') :
    ∃ call, s.call p = some call ∧ call.storing = none ∧ s' = { s with call := update s.call p none } := by
  simp only [step] at h
  split at h
  · rename_i hp
    exact ⟨_, hp, rfl, by simpa using h.symm⟩
  · simp at h

lemma step_enter (h : step online s (.enter c word) = some s') : s.taken c = none ∧ s.word c = word ∧ s' = { s with
      word := update s.word c 0
      taken := update s.taken c (some word)
      asked := update s.asked c [] } := by
  simp only [step] at h
  split at h
  · rename_i ht
    split at h
    · rename_i hw
      exact ⟨ht, hw, by simpa using h.symm⟩
    · simp at h
  · simp at h

lemma step_flush (h : step online s (.flush c word) = some s') :
    s.taken c = some word ∧ s' = { s with taken := update s.taken c none } := by
  simp only [step] at h
  split at h
  · rename_i ht
    exact ⟨ht, by simpa using h.symm⟩
  · simp at h

/-- The calls of other CPUs go on as they were. -/
lemma storing_update {q : ℕ} {old new : Option Call} (hold : s.call p = old)
    (hq : s.call q = some call) (hc : call.storing = some c) (hkeep : ∀ k, old = some k → k.storing ≠ some c) :
    update s.call p new q = some call := by
  have hne : q ≠ p := by
    intro he
    subst he
    exact hkeep call (hold.symm.trans hq) hc
  rw [update_of_ne hne, hq]

/-- A swap that finds no "flush all" leaves a word that stands for all that
was asked, or a store to come. -/
lemma Inv.swap {rest : List ℕ} (h : Inv s) (hp : s.call p = some call) (hst : call.storing = none)
    (hw : s.word c ≠ flushAll) : Inv (swapWord s p c call rest) := by
  have hkeep : ∀ d k, some call = some k → k.storing ≠ some d := by
    intro d k hk
    cases hk
    simp [hst]
  refine ⟨fun d => ?_, fun q k hk => ?_⟩
  · by_cases hd : d = c
    · subst hd
      by_cases hstore : s.word d ≠ 0 ∧ s.word d ≠ call.addr ∧ s.word d ≠ flushAll
      · refine .inr (.inl ⟨p, { call with rest := rest, storing := some d }, ?_, rfl⟩)
        simp [swapWord, hstore]
      · obtain hbad | ⟨q, k, hq, hk⟩ | hall := h.word d
        · exact absurd hbad hw
        · exact .inr (.inl ⟨q, k, storing_update hp hq hk (hkeep d), hk⟩)
        · refine .inr (.inr fun page hpage => ?_)
          obtain ⟨ha, hpages⟩ := h.call p call hp
          have hmem : page ∈ call.req.pages ++ s.asked d := by simpa [swapWord] using hpage
          obtain hnew | hold := List.mem_append.mp hmem
          · simpa [swapWord] using ⟨ha, hpages page hnew⟩
          · -- the word was the same address before
            obtain ⟨h0, hdiv⟩ := hall page hold
            have heq : s.word d = call.addr := by
              by_contra hne
              exact hstore ⟨h0, hne, hw⟩
            simpa [swapWord, ← heq] using ⟨h0, hdiv⟩
    · have hword : (swapWord s p c call rest).word d = s.word d := update_of_ne hd _ _
      have hasked : (swapWord s p c call rest).asked d = s.asked d := update_of_ne hd _ _
      rw [hword, hasked]
      obtain hall | ⟨q, k, hq, hk⟩ | hpages := h.word d
      · exact .inl hall
      · exact .inr (.inl ⟨q, k, storing_update hp hq hk (hkeep d), hk⟩)
      · exact .inr (.inr hpages)
  · by_cases hq : q = p
    · subst hq
      obtain rfl : { call with rest := rest, storing := _ } = k := by simpa [swapWord] using hk
      exact h.call q call hp
    · exact h.call q k (by simpa [swapWord, hq] using hk)

lemma Inv.store (h : Inv s) (hp : s.call p = some call) (hst : call.storing = some c) : Inv (storeWord s p c call) := by
  refine ⟨fun d => ?_, fun q k hk => ?_⟩
  · by_cases hd : d = c
    · subst hd
      exact .inl (update_self ..)
    · have hword : (storeWord s p c call).word d = s.word d := update_of_ne hd _ _
      rw [hword]
      obtain hall | ⟨q, k, hq, hk⟩ | hpages := h.word d
      · exact .inl hall
      · refine .inr (.inl ⟨q, k, storing_update hp hq hk fun k' hk' => ?_, hk⟩)
        cases hk'
        rw [hst]
        intro hc
        exact hd (Option.some.inj hc).symm
      · exact .inr (.inr hpages)
  · by_cases hq : q = p
    · subst hq
      obtain rfl : { call with storing := none } = k := by simpa [storeWord] using hk
      exact h.call q call hp
    · exact h.call q k (by simpa [storeWord, hq] using hk)

lemma Inv.step (h : Inv s) (hc : Clean s e) (hs : step online s e = some s') : Inv s' := by
  cases e with
  | call p req =>
    obtain ⟨addr, ha, hp, rfl⟩ := step_call hs
    refine ⟨fun c => ?_, fun q k hk => ?_⟩
    · obtain hall | ⟨q, k, hq, hk⟩ | hpages := h.word c
      · exact .inl hall
      · exact .inr (.inl ⟨q, k, storing_update hp hq hk (by simp), hk⟩)
      · exact .inr (.inr hpages)
    · by_cases hq : q = p
      · subst hq
        obtain rfl : (⟨req, addr, targets online q, none⟩ : Call) = k := by simpa using hk
        exact hc addr ha
      · exact h.call q k (by simpa [hq] using hk)
  | swap =>
    obtain ⟨addr, rest, hp, rfl⟩ := step_swap hs
    exact h.swap hp rfl hc
  | store =>
    obtain ⟨call, hp, hst, rfl⟩ := step_store hs
    exact h.store hp hst
  | ret p =>
    obtain ⟨call, hp, hst, rfl⟩ := step_ret hs
    refine ⟨fun c => ?_, fun q k hk => ?_⟩
    · obtain hall | ⟨q, k, hq, hk⟩ | hpages := h.word c
      · exact .inl hall
      · refine .inr (.inl ⟨q, k, storing_update hp hq hk fun k' hk' => ?_, hk⟩)
        cases hk'
        simp [hst]
      · exact .inr (.inr hpages)
    · by_cases hq : q = p
      · subst hq
        simp at hk
      · exact h.call q k (by simpa [hq] using hk)
  | enter c =>
    obtain ⟨ht, hw, rfl⟩ := step_enter hs
    refine ⟨fun d => ?_, h.call⟩
    by_cases hd : d = c
    · subst hd
      exact .inr (.inr (by simp))
    · simpa [hd] using h.word d
  | flush =>
    obtain ⟨ht, rfl⟩ := step_flush hs
    exact ⟨h.word, h.call⟩

/-! ### From the word to the flush -/

/-- What an interrupt entry takes covers all that was asked. -/
lemma Inv.enter (h : Inv s) (hc : Clean s (.enter c word)) (hw : s.word c = word)
    (hp : page ∈ s.asked c) : Flushes word page := by
  obtain hall | ⟨p, call, hcall, hst⟩ | hpages := h.word c
  · exact .inl (hw ▸ hall)
  · exact absurd hst (hc p call hcall)
  · exact .inr (hw ▸ hpages page hp)

/-- Only an interrupt entry ends a request. -/
lemma asked_step (hs : step online s e = some s') (he : ∀ v, e ≠ .enter c v)
    (hp : page ∈ s.asked c) : page ∈ s'.asked c := by
  cases e with
  | call =>
    obtain ⟨_, _, _, rfl⟩ := step_call hs
    exact hp
  | swap p d =>
    obtain ⟨addr, rest, _, rfl⟩ := step_swap hs
    by_cases hd : c = d
    · subst hd
      simp [swapWord, hp]
    · simpa [swapWord, hd] using hp
  | store =>
    obtain ⟨call, _, _, rfl⟩ := step_store hs
    exact hp
  | ret =>
    obtain ⟨_, _, _, rfl⟩ := step_ret hs
    exact hp
  | enter d word =>
    obtain ⟨_, _, rfl⟩ := step_enter hs
    have hd : c ≠ d := by
      intro hd
      subst hd
      exact he word rfl
    simpa [hd] using hp
  | flush =>
    obtain ⟨_, rfl⟩ := step_flush hs
    exact hp

/-- What was taken is kept until it is flushed. -/
lemma taken_step (hs : step online s e = some s') (ht : s.taken c = some word) :
    e = .flush c word ∨ s'.taken c = some word := by
  cases e with
  | call =>
    obtain ⟨_, _, _, rfl⟩ := step_call hs
    exact .inr ht
  | swap =>
    obtain ⟨addr, rest, _, rfl⟩ := step_swap hs
    exact .inr ht
  | store =>
    obtain ⟨call, _, _, rfl⟩ := step_store hs
    exact .inr ht
  | ret =>
    obtain ⟨_, _, _, rfl⟩ := step_ret hs
    exact .inr ht
  | enter d =>
    obtain ⟨hnone, _, rfl⟩ := step_enter hs
    have hd : c ≠ d := by
      intro hd
      subst hd
      simp [ht] at hnone
    exact .inr (by simpa [hd] using ht)
  | flush d =>
    obtain ⟨hv, rfl⟩ := step_flush hs
    by_cases hd : c = d
    · subst hd
      obtain rfl := Option.mem_unique ht hv
      exact .inl rfl
    · exact .inr (by simpa [hd] using ht)

lemma taken_flushed {tr : List Event} (hr : Run (fun s e s' => Clean s e ∧ step online s e = some s') s tr s')
    (ht : s.taken c = some word) : .flush c word ∈ tr ∨ s'.taken c = some word := by
  induction hr with
  | nil => exact .inr ht
  | cons h hr ih =>
    obtain rfl | hkeep := taken_step h.2 ht
    · exact .inl List.mem_cons_self
    · exact (ih hkeep).imp (List.mem_cons_of_mem _) id

/-- A page that was asked for is flushed once the CPU has entered an
interrupt. -/
lemma asked_flushed {v : ℕ} {tr : List Event}
    (hr : Run (fun s e s' => Clean s e ∧ step online s e = some s') s tr s') (h : Inv s) (hp : page ∈ s.asked c)
    (hv : .enter c v ∈ tr) : ∃ word, Flushes word page ∧ (.flush c word ∈ tr ∨ s'.taken c = some word) := by
  induction hr with
  | nil => simp at hv
  | @cons s s1 s' e tr hstep hr ih =>
    by_cases he : ∃ word, e = .enter c word
    · obtain ⟨word, rfl⟩ := he
      obtain ⟨-, hw, rfl⟩ := step_enter hstep.2
      refine ⟨word, h.enter hstep.1 hw hp, ?_⟩
      exact (taken_flushed hr (by simp)).imp (List.mem_cons_of_mem _) id
    · have hne : ∀ w, e ≠ .enter c w := fun w hw => he ⟨w, hw⟩
      obtain ⟨word, hf, hmem⟩ := ih (h.step hstep.1 hstep.2) (asked_step hstep.2 hne hp)
        ((List.mem_cons.mp hv).resolve_left (hne v).symm)
      exact ⟨word, hf, hmem.imp (List.mem_cons_of_mem _) id⟩

end

/-- In a run of clean steps, every requested page is flushed at the first
interrupt entry after the call's return. -/
theorem shootdown_complete {online : ℕ → Bool} {tr : List Event} {s : State} (h : CleanRuns online tr s) : Complete tr := by
  intro p c v w req t₁ t₂ t₃ t₄ t₅ htr _ _ _ page hpage
  have hsplit : tr = t₁ ++ (.swap p c req :: ((t₂ ++ .ret p :: (t₃ ++ .enter c v :: (t₄ ++ [.flush c w]))) ++ t₅)) := by
    rw [htr]
    simp
  subst hsplit
  obtain ⟨s₁, h₁, h₂⟩ := Run.append_iff.mp h
  obtain ⟨s₂, hswap, h₃⟩ := Run.cons_iff.mp h₂
  obtain ⟨s₃, h₄, -⟩ := Run.append_iff.mp h₃
  have hinv : Inv s₁ := h₁.invariant (fun _ _ _ hi hs => hi.step hs.1 hs.2) Inv.init
  have hasked : page ∈ s₂.asked c := by
    obtain ⟨addr, rest, -, rfl⟩ := step_swap hswap.2
    simp [swapWord, hpage]
  obtain ⟨word, hf, hmem⟩ := asked_flushed h₄ (hinv.step hswap.1 hswap.2) hasked (v := v) (by simp)
  refine ⟨word, hf, hmem.resolve_right ?_⟩
  -- the run ends with a flush, so nothing is left to flush
  have hend : t₂ ++ .ret p :: (t₃ ++ .enter c v :: (t₄ ++ [.flush c w])) =
      (t₂ ++ .ret p :: (t₃ ++ .enter c v :: t₄)) ++ [.flush c w] := by simp
  rw [hend] at h₄
  obtain ⟨s₄, -, h₅⟩ := Run.append_iff.mp h₄
  obtain ⟨s₅, hflush, hnil⟩ := Run.cons_iff.mp h₅
  cases hnil
  obtain ⟨-, rfl⟩ := step_flush hflush.2
  simp

/-- Two CPUs. -/
def twoOnline : ℕ → Bool := fun i => i < 2

/-- CPU 0 asks for the page at 0x5000, and CPU 1 flushes it. -/
theorem shootdown_complete_one : ∃ s,
    CleanRuns twoOnline [.call 0 (.page 0x5000), .swap 0 1 (.page 0x5000), .ret 0, .enter 1 0x5000, .flush 1 0x5000] s ∧
    Complete [.call 0 (.page 0x5000), .swap 0 1 (.page 0x5000), .ret 0, .enter 1 0x5000, .flush 1 0x5000] := by
  have hrun : ∃ s, CleanRuns twoOnline
      [.call 0 (.page 0x5000), .swap 0 1 (.page 0x5000), .ret 0, .enter 1 0x5000, .flush 1 0x5000] s := by
    refine ⟨_, .cons ⟨?_, rfl⟩ (.cons ⟨?_, rfl⟩ (.cons ⟨trivial, rfl⟩ (.cons ⟨?_, rfl⟩ (.cons ⟨trivial, rfl⟩ (.nil _)))))⟩
    · simp [Clean, Request.flushAddr, Request.pages]
    · change (0 : ℕ) ≠ flushAll
      decide
    · intro p call hcall
      by_cases hp : p = 0
      · subst hp
        simp [update_self] at hcall
      · simp [swapWord, State.init, hp] at hcall
  obtain ⟨s, hs⟩ := hrun
  exact ⟨s, hs, shootdown_complete hs⟩

/-- The pages at 0x1000, 0x2000 and 0x3000 in a row. The second request turns
the word into "flush all", the third overwrites that with its address: CPU 1
flushes only 0x3000. -/
theorem shootdown_drops : ∃ tr s, Runs twoOnline tr s ∧ ¬ Complete tr := by
  refine ⟨[.call 0 (.page 0x1000), .swap 0 1 (.page 0x1000), .ret 0,
    .call 0 (.page 0x2000), .swap 0 1 (.page 0x2000), .store 0 1, .ret 0,
    .call 0 (.page 0x3000), .swap 0 1 (.page 0x3000), .ret 0, .enter 1 0x3000, .flush 1 0x3000], _, run_of_exec rfl, ?_⟩
  intro hcomplete
  obtain ⟨word, hword, hmem⟩ := hcomplete 0 1 0x3000 0x3000 (.page 0x1000) [.call 0 (.page 0x1000)] []
    [.call 0 (.page 0x2000), .swap 0 1 (.page 0x2000), .store 0 1, .ret 0,
      .call 0 (.page 0x3000), .swap 0 1 (.page 0x3000), .ret 0] [] [] rfl (by simp) (by simp) (by simp) 1
    (by simp [Request.pages, pageSize])
  obtain rfl : word = 0x3000 := by simpa using hmem
  exact absurd hword (by decide)

end LodaxOS.Tlb
