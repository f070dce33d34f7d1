/-
# Copies to and from user memory

`copy_from_user` and `copy_to_user` are all that stands between a pointer a
system call is given and the kernel's own access to it. Both check the range
against the higher half; `copy_to_user` also asks `read_pte` about the pages.
Neither looks at the user bit, which the kernel's own accesses are not subject
to, so a copy respects the caller's rights where its pages happen to be the
caller's (`Rightful`) and nowhere else.

The probes of `copy_to_user` step from page to page with a mask that cuts the
address to 52 bits. A range beyond that is probed from its low bits on and
without end, unless a probe fails.
-/
import LodaxOS.Virt.Entries

namespace LodaxOS.Virt

open Phys (pageSize)
open Radix Words

/-! ### The code -/

inductive CopyResult
  | ok
  | err
  | panicked
  deriving DecidableEq

/-- How a copy ends, and the bytes of user memory it touched. -/
structure CopyOutcome where
  result : CopyResult
  touched : List ℕ

/-- `core::ptr::copy_nonoverlapping` on `len` bytes of user memory, with the
check of its pointers that a build with debug assertions makes. The kernel's
side is in the higher half, so the ranges never overlap. -/
def copyNonoverlapping (addr len align : ℕ) : CopyOutcome :=
  if addr = 0 ∨ addr % align ≠ 0 then ⟨.panicked, []⟩ else ⟨.ok, List.range' addr len⟩

def copyFromUser (src len : ℕ) : CopyOutcome :=
  if len = 0 then ⟨.ok, []⟩
  else if 2 ^ 64 ≤ src + len then ⟨.err, []⟩
  else if src ≥ higherHalf ∨ src + len > higherHalf then ⟨.err, []⟩
  else copyNonoverlapping src len 1

/-- One probe of `copy_to_user`: whether the page may be written; `none` where
`read_pte` panics. -/
def probe (m : Machine) (addr : ℕ) : Option Bool :=
  (readPte m (m.cr3 &&& physAddrMask) addr).map fun r =>
    match r with
    | none => false
    | some pte => !(pte &&& present = 0 || (pte &&& writable = 0 && pte &&& cow = 0))

/-- The address of the next probe. -/
def nextProbe (addr : ℕ) : ℕ := (addr &&& physAddrMask) + pageSize

/-- The probes from `addr` on; `none` while there are more to make. -/
def probePages (m : Machine) (stop : ℕ) : ℕ → ℕ → Option CopyResult
  | 0, _ => none
  | n + 1, addr =>
    if addr < stop then
      match probe m addr with
      | none => some .panicked
      | some false => some .err
      | some true => probePages m stop n (nextProbe addr)
    else some .ok

/-- The copy of `words` words, given `fuel` probes. -/
def copyToUser (m : Machine) (dst words fuel : ℕ) : Option CopyOutcome :=
  if words * 8 = 0 then some ⟨.ok, []⟩
  else if 2 ^ 64 ≤ dst + words * 8 then some ⟨.err, []⟩
  else if dst ≥ higherHalf ∨ dst + words * 8 > higherHalf then some ⟨.err, []⟩
  else
    (probePages m (dst + words * 8) fuel dst).map fun r =>
      if r = .ok then copyNonoverlapping dst (words * 8) 8 else ⟨r, []⟩

/-- A copy a system call makes, with the pointer it was given. -/
inductive UserCopy
  | fromUser (src len : ℕ)
  | toUser (dst words : ℕ)

def UserCopy.writes : UserCopy → Bool
  | .fromUser _ _ => false
  | .toUser _ _ => true

def UserCopy.run (m : Machine) (fuel : ℕ) : UserCopy → Option CopyOutcome
  | .fromUser src len => some (copyFromUser src len)
  | .toUser dst words => copyToUser m dst words fuel

/-! ### What is asked of a copy -/

/-- The byte lies on a page that the loaded tables map for the user at every
level; one that is to be written is writable or marked for copy on write. -/
def UserByte (m : Machine) (write : Bool) (a : ℕ) : Prop :=
  a < 2 ^ 47 ∧ ∃ r, hwWalk m.mem (m.cr3 &&& physAddrMask) a = some r ∧ allBits 2 r = true ∧
    (write = true → allBits 1 r = true ∨ r.2.1.testBit 11 = true)

/-- The copy comes to an end; it returns `Ok` only after touching bytes that
are the user's, and otherwise returns `Err` and touched nothing. -/
structure Respects (m : Machine) (c : UserCopy) : Prop where
  ends : ∃ fuel o, c.run m fuel = some o
  ok : ∀ fuel o, c.run m fuel = some o → o.result = .ok → ∀ a ∈ o.touched, UserByte m c.writes a
  err : ∀ fuel o, c.run m fuel = some o → o.result ≠ .ok → o.result = .err ∧ o.touched = []

/-- The probes come to a page that may not be written. -/
inductive Rejected (m : Machine) (stop : ℕ) : ℕ → Prop
  | here {addr : ℕ} (h : addr < stop) (hp : probe m addr = some false) : Rejected m stop addr
  | next {addr : ℕ} (h : addr < stop) (hp : probe m addr = some true) (hn : Rejected m stop (nextProbe addr)) :
      Rejected m stop addr

/-- A copy of nothing or out of the lower half, a write that a probe stops,
or a copy to or from an address that may be one, whose bytes are all the
user's and for a write pass the probes. -/
def Rightful (m : Machine) : UserCopy → Prop
  | .fromUser src len =>
    len = 0 ∨ higherHalf < src + len ∨ (src ≠ 0 ∧ ∀ a, src ≤ a → a < src + len → UserByte m false a)
  | .toUser dst words =>
    words = 0 ∨ higherHalf < dst + words * 8 ∨ Rejected m (dst + words * 8) dst ∨ (dst ≠ 0 ∧ dst % 8 = 0 ∧
        ∀ a, dst ≤ a → a < dst + words * 8 → UserByte m true a ∧ probe m a = some true)

/-! ### The probes -/

section Probes

variable {m : Machine} {stop addr : ℕ}

lemma probePages_mono {r : CopyResult} : ∀ {n : ℕ} {addr : ℕ} (k : ℕ), probePages m stop n addr = some r →
    probePages m stop (n + k) addr = some r
  | 0, _, _, h => absurd h (by simp [probePages])
  | n + 1, addr, k, h => by
    rw [Nat.add_right_comm]
    simp only [probePages] at h ⊢
    split
    · rename_i hlt
      rw [if_pos hlt] at h
      cases hp : probe m addr with
      | none => simpa [hp] using h
      | some b =>
        cases b with
        | false => simpa [hp] using h
        | true =>
          simp only [hp] at h ⊢
          exact probePages_mono k h
    · rename_i hge
      rwa [if_neg hge] at h

/-- However many probes are granted, the loop ends in one way only. -/
lemma probePages_unique {n n' : ℕ} {r r' : CopyResult} (h : probePages m stop n addr = some r)
    (h' : probePages m stop n' addr = some r') : r = r' := by
  have h1 := probePages_mono n' h
  have h2 := probePages_mono n h'
  rw [Nat.add_comm, h1] at h2
  exact Option.some.inj h2

lemma Rejected.probePages (h : Rejected m stop addr) : ∃ n, probePages m stop n addr = some .err := by
  induction h with
  | here hlt hp => exact ⟨1, by simp [Virt.probePages, hlt, hp]⟩
  | next hlt hp _ ih =>
    obtain ⟨n, hn⟩ := ih
    exact ⟨n + 1, by simp only [Virt.probePages, if_pos hlt, hp, hn]⟩

lemma rejected_of_probePages : ∀ {n addr : ℕ}, probePages m stop n addr = some .err → Rejected m stop addr
  | 0, _, h => absurd h (by simp [probePages])
  | n + 1, addr, h => by
    simp only [probePages] at h
    split at h
    · rename_i hlt
      cases hp : probe m addr with
      | none => simp [hp] at h
      | some b =>
        cases b with
        | false => exact .here hlt hp
        | true =>
          simp only [hp] at h
          exact .next hlt hp (rejected_of_probePages h)
    · simp at h

/-- The probe of a byte is the probe of its page. -/
lemma probe_congr {a b : ℕ} (h : a / pageSize = b / pageSize) : probe m a = probe m b := by
  have hv : vpn a = vpn b := by
    rw [vpn, vpn, show (2 : ℕ) ^ 12 = pageSize from rfl, h]
  simp only [probe, readPte, indexForAddr_vpn _ (show 3 ≤ 3 by norm_num), indexForAddr_vpn _ (show 2 ≤ 3 by norm_num),
    indexForAddr_vpn _ (show 1 ≤ 3 by norm_num), indexForAddr_vpn _ (show 0 ≤ 3 by norm_num), hv]

/-- Below the mask's end the probes go from page to page. -/
lemma nextProbe_eq (h : addr < 2 ^ 52) : nextProbe addr = (addr / pageSize + 1) * pageSize := by
  rw [nextProbe, and_physAddrMask, show (2 : ℕ) ^ 12 = pageSize from rfl, Nat.mod_eq_of_lt, Nat.add_mul, Nat.one_mul]
  rw [Nat.div_lt_iff_lt_mul (by decide)]
  exact h

lemma lt_nextProbe (h : addr < 2 ^ 52) : addr < nextProbe addr := by
  rw [nextProbe_eq h]
  simp only [pageSize]
  omega

/-- A byte before the next probe is on the page just probed. -/
lemma page_of_lt_nextProbe {a : ℕ} (h : addr < 2 ^ 52) (ha : addr ≤ a) (hlt : a < nextProbe addr) :
    a / pageSize = addr / pageSize := by
  rw [nextProbe_eq h] at hlt
  simp only [pageSize] at hlt ⊢
  omega

lemma exists_probePages_ok (hs : stop ≤ 2 ^ 52) (h : ∀ a, addr ≤ a → a < stop → probe m a = some true) :
    ∃ n, probePages m stop n addr = some .ok := by
  -- each probe leaves less of the range
  induction hn : stop - addr using Nat.strong_induction_on generalizing addr with
  | _ k ih =>
    by_cases hlt : addr < stop
    · have hnext := lt_nextProbe (Nat.lt_of_lt_of_le hlt hs)
      obtain ⟨n, hp⟩ := ih (stop - nextProbe addr) (by omega)
        (fun a ha hlt' => h a (Nat.le_trans (Nat.le_of_lt hnext) ha) hlt') rfl
      exact ⟨n + 1, by simp only [probePages, if_pos hlt, h addr (Nat.le_refl _) hlt, hp]⟩
    · exact ⟨1, by simp [probePages, hlt]⟩

lemma probe_of_probePages_ok (hs : stop ≤ 2 ^ 52) : ∀ {n addr : ℕ}, probePages m stop n addr = some .ok →
    ∀ a, addr ≤ a → a < stop → probe m a = some true
  | 0, _, h, _, _, _ => absurd h (by simp [probePages])
  | n + 1, addr, h, a, ha, hlt => by
    have haddr : addr < stop := Nat.lt_of_le_of_lt ha hlt
    have hbit : addr < 2 ^ 52 := Nat.lt_of_lt_of_le haddr hs
    simp only [probePages, if_pos haddr] at h
    rcases hp : probe m addr with _ | _ | _
    · simp [hp] at h
    · simp [hp] at h
    · simp only [hp] at h
      by_cases hpage : a < nextProbe addr
      · rw [probe_congr (page_of_lt_nextProbe hbit ha hpage), hp]
      · exact probe_of_probePages_ok hs h a (Nat.le_of_not_lt hpage) hlt

end Probes

/-! ### The copies -/

section Copies

variable {m : Machine} {src dst len words : ℕ}

/-- A read in the lower half touches what it is pointed at, whatever that is. -/
lemma copyFromUser_eq (h0 : len ≠ 0) (hr : src + len ≤ higherHalf) :
    copyFromUser src len = copyNonoverlapping src len 1 := by
  have h64 : ¬ 2 ^ 64 ≤ src + len := by
    simp only [higherHalf] at hr
    omega
  have hin : ¬ (src ≥ higherHalf ∨ src + len > higherHalf) := by omega
  rw [copyFromUser, if_neg h0, if_neg h64, if_neg hin]

lemma copyFromUser_out (h0 : len ≠ 0) (hr : higherHalf < src + len) : copyFromUser src len = ⟨.err, []⟩ := by
  rw [copyFromUser, if_neg h0]
  split
  · rfl
  · rw [if_pos (.inr hr)]

lemma copyToUser_eq (fuel : ℕ) (h0 : words ≠ 0) (hr : dst + words * 8 ≤ higherHalf) :
    copyToUser m dst words fuel = (probePages m (dst + words * 8) fuel dst).map fun r =>
      if r = .ok then copyNonoverlapping dst (words * 8) 8 else ⟨r, []⟩ := by
  have h8 : ¬ words * 8 = 0 := by omega
  have h64 : ¬ 2 ^ 64 ≤ dst + words * 8 := by
    simp only [higherHalf] at hr
    omega
  have hin : ¬ (dst ≥ higherHalf ∨ dst + words * 8 > higherHalf) := by omega
  rw [copyToUser, if_neg h8, if_neg h64, if_neg hin]

lemma copyToUser_out (fuel : ℕ) (h0 : words ≠ 0) (hr : higherHalf < dst + words * 8) :
    copyToUser m dst words fuel = some ⟨.err, []⟩ := by
  rw [copyToUser, if_neg (by omega : ¬ words * 8 = 0)]
  split
  · rfl
  · rw [if_pos (.inr hr)]

variable {c : UserCopy}

/-- A copy that always ends in one way respects the user's rights if that way
does. -/
lemma respects_of_run {o : CopyOutcome} (h : ∃ fuel, c.run m fuel = some o)
    (hu : ∀ fuel o', c.run m fuel = some o' → o' = o)
    (hok : o.result = .ok → ∀ a ∈ o.touched, UserByte m c.writes a)
    (herr : o.result ≠ .ok → o.result = .err ∧ o.touched = []) : Respects m c where
  ends := h.imp fun _ hf => ⟨o, hf⟩
  ok fuel o' hf := by
    rw [hu fuel o' hf]
    exact hok
  err fuel o' hf := by
    rw [hu fuel o' hf]
    exact herr

lemma respects_err (h : ∀ fuel, c.run m fuel = some ⟨.err, []⟩) : Respects m c :=
  respects_of_run ⟨0, h 0⟩ (fun fuel _ hf => Option.mem_unique hf (h fuel)) (by simp) (by simp)

lemma respects_nothing (h : ∀ fuel, c.run m fuel = some ⟨.ok, []⟩) : Respects m c :=
  respects_of_run ⟨0, h 0⟩ (fun fuel _ hf => Option.mem_unique hf (h fuel)) (by simp) (by simp)

/-- The bytes of a copy that is let through. -/
lemma copyNonoverlapping_eq {addr align : ℕ} (h0 : addr ≠ 0) (ha : addr % align = 0) :
    copyNonoverlapping addr len align = ⟨.ok, List.range' addr len⟩ := by
  rw [copyNonoverlapping, if_neg]
  rintro (h | h)
  · exact h0 h
  · exact h ha

/-- A copy whose end is that of `copy_nonoverlapping` respects the user's
rights exactly if its pointer may be one and its bytes are the user's. -/
lemma copyNonoverlapping_respects {addr align fuel : ℕ} (hc : Respects m c)
    (h : c.run m fuel = some (copyNonoverlapping addr len align)) :
    addr ≠ 0 ∧ addr % align = 0 ∧ ∀ a, addr ≤ a → a < addr + len → UserByte m c.writes a := by
  have hgood : addr ≠ 0 ∧ addr % align = 0 := by
    by_contra hbad
    have hpan : copyNonoverlapping addr len align = ⟨.panicked, []⟩ := by
      rw [copyNonoverlapping, if_pos]
      by_cases h0 : addr = 0
      · exact .inl h0
      · exact .inr fun h => hbad ⟨h0, h⟩
    rw [hpan] at h
    have := (hc.err fuel _ h (by simp)).1
    simp at this
  rw [copyNonoverlapping_eq hgood.1 hgood.2] at h
  refine ⟨hgood.1, hgood.2, fun a ha hlt => hc.ok fuel _ h rfl a ?_⟩
  rw [List.mem_range'_1]
  exact ⟨ha, hlt⟩

lemma fromUser_iff : Respects m (.fromUser src len) ↔ Rightful m (.fromUser src len) := by
  have hrun : ∀ fuel, UserCopy.run m fuel (.fromUser src len) = some (copyFromUser src len) := fun _ => rfl
  by_cases h0 : len = 0
  · refine ⟨fun _ => .inl h0, fun _ => respects_nothing fun fuel => ?_⟩
    rw [hrun, copyFromUser, if_pos h0]
  by_cases hr : higherHalf < src + len
  · refine ⟨fun _ => .inr (.inl hr), fun _ => respects_err fun fuel => ?_⟩
    rw [hrun, copyFromUser_out h0 hr]
  have heq := copyFromUser_eq h0 (Nat.le_of_not_lt hr)
  constructor
  · intro hc
    obtain ⟨h1, -, h3⟩ := copyNonoverlapping_respects hc ((hrun 0).trans (congrArg some heq))
    exact .inr (.inr ⟨h1, h3⟩)
  · rintro (h | h | ⟨h1, h3⟩)
    · exact absurd h h0
    · exact absurd h hr
    · rw [copyNonoverlapping_eq h1 (Nat.mod_one src)] at heq
      refine respects_of_run (o := ⟨.ok, List.range' src len⟩) ⟨0, (hrun 0).trans (congrArg some heq)⟩
        (fun fuel o hf => ?_) (fun _ a ha => ?_) (by simp)
      · rw [hrun, heq] at hf
        exact (Option.some.inj hf).symm
      · rw [List.mem_range'_1] at ha
        exact h3 a ha.1 ha.2

lemma toUser_iff : Respects m (.toUser dst words) ↔ Rightful m (.toUser dst words) := by
  have hrun : ∀ fuel, UserCopy.run m fuel (.toUser dst words) = copyToUser m dst words fuel := fun _ => rfl
  by_cases h0 : words = 0
  · refine ⟨fun _ => .inl h0, fun _ => respects_nothing fun fuel => ?_⟩
    rw [hrun, copyToUser, if_pos (by omega)]
  by_cases hr : higherHalf < dst + words * 8
  · refine ⟨fun _ => .inr (.inl hr), fun _ => respects_err fun fuel => ?_⟩
    rw [hrun, copyToUser_out fuel h0 hr]
  have heq := fun fuel => (hrun fuel).trans (copyToUser_eq fuel h0 (Nat.le_of_not_lt hr))
  constructor
  · intro hc
    obtain ⟨fuel, o, ho⟩ := hc.ends
    rw [heq] at ho
    obtain ⟨r, hp, ho⟩ := Option.map_eq_some_iff.mp ho
    have ho' : UserCopy.run m fuel (.toUser dst words) =
        some (if r = .ok then copyNonoverlapping dst (words * 8) 8 else ⟨r, []⟩) := by
      rw [heq, hp]
      rfl
    cases r with
    | err => exact .inr (.inr (.inl (rejected_of_probePages hp)))
    | panicked =>
      have := (hc.err fuel _ ho' (by simp)).1
      simp at this
    | ok =>
      obtain ⟨h1, h2, h3⟩ := copyNonoverlapping_respects hc ho'
      refine .inr (.inr (.inr ⟨h1, h2, fun a ha hlt => ⟨h3 a ha hlt, ?_⟩⟩))
      -- the last byte is the user's, so the range ends below the mask's end
      have hlast := (h3 (dst + words * 8 - 1) (by omega) (by omega)).1
      exact probe_of_probePages_ok (by omega) hp a ha hlt
  · rintro (h | h | hrej | ⟨h1, h2, h3⟩)
    · exact absurd h h0
    · exact absurd h hr
    · obtain ⟨n, hn⟩ := hrej.probePages
      refine respects_of_run (o := ⟨.err, []⟩) ⟨n, by rw [heq, hn]; rfl⟩ (fun fuel o hf => ?_) (by simp) (by simp)
      rw [heq] at hf
      obtain ⟨r, hp, rfl⟩ := Option.map_eq_some_iff.mp hf
      rw [probePages_unique hp hn]
      rfl
    · have hlast := (h3 (dst + words * 8 - 1) (by omega) (by omega)).1.1
      obtain ⟨n, hn⟩ : ∃ n, probePages m (dst + words * 8) n dst = some .ok :=
        exists_probePages_ok (by omega) fun a ha hlt => (h3 a ha hlt).2
      have hcopy : copyNonoverlapping dst (words * 8) 8 = ⟨.ok, List.range' dst (words * 8)⟩ :=
        copyNonoverlapping_eq h1 h2
      refine respects_of_run (o := ⟨.ok, List.range' dst (words * 8)⟩) ⟨n, by rw [heq, hn, ← hcopy]; rfl⟩
        (fun fuel o hf => ?_) (fun _ a ha => ?_) (by simp)
      · rw [heq] at hf
        obtain ⟨r, hp, rfl⟩ := Option.map_eq_some_iff.mp hf
        rw [probePages_unique hp hn, ← hcopy]
        rfl
      · rw [List.mem_range'_1] at ha
        exact (h3 a ha.1 ha.2).1

/-- A copy ends and keeps to the user's rights exactly where it is rightful. -/
theorem copy_respects_iff (m : Machine) (c : UserCopy) : Respects m c ↔ Rightful m c := by
  cases c with
  | fromUser src len => exact fromUser_iff
  | toUser dst words => exact toUser_iff

/-- A page of the kernel's at 4 KB, mapped without the user bit. -/
def supervisorPage : Machine where
  phys := Phys.State.boot
  mem t i :=
    if t = 0x1000 ∧ i = 0 then 0x2003
    else if t = 0x2000 ∧ i = 0 then 0x3003
    else if t = 0x3000 ∧ i = 0 then 0x4003
    else if t = 0x4000 ∧ i = 1 then 0x5003
    else 0
  ptInitialized := true
  kernelPml4 := 0x1000
  cr3 := 0x1000

/-- Four words are written to it for the asking. -/
theorem copy_respects_supervisor : ∃ o, copyToUser supervisorPage 0x1000 4 2 = some o ∧ o.result = .ok ∧
    0x1000 ∈ o.touched ∧ hwLeaf supervisorPage.mem 0x1000 0x1000 = some ⟨0x5000, true, false, false⟩ ∧
      ¬ Respects supervisorPage (.toUser 0x1000 4) := by
  have hrun : copyToUser supervisorPage 0x1000 4 2 = some ⟨.ok, List.range' 0x1000 32⟩ := by rfl
  have hwalk : hwWalk supervisorPage.mem (supervisorPage.cr3 &&& physAddrMask) 0x1000 =
      some (0, 0x5003, [0x2003, 0x3003, 0x4003]) := by rfl
  refine ⟨_, hrun, rfl, by decide, by rfl, fun hc => ?_⟩
  obtain ⟨-, r, hr, hu, -⟩ := hc.ok 2 _ hrun rfl 0x1000 (by decide)
  rw [hwalk] at hr
  rw [← Option.some.inj hr] at hu
  cases hu

end Copies

end LodaxOS.Virt
