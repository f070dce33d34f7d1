/-
# System calls (`kernel/src/arch/idt.rs`)

`syscall_entry` as its instructions, from the user's SYSCALL to the `iretq`
that resumes the user, around a call of `syscall_handler` on the frame that
the pushes build.

The entry code uses `r10` and `rax` to look at the stack pointer before it
saves them, so the handler sees the user's stack pointer as fourth argument,
and its upper bits as the number of the call; and the handler clears most of
the user's flags. What the ABI promises holds only for a user who expects just
that (`syscall_fidelity_iff`).
-/
import LodaxOS.Lib.Asm
import LodaxOS.Virt.Model

namespace LodaxOS.Arch

open Asm Function

/-! ### The frame -/

/-- `TrapFrame`, fields in the order of memory. -/
structure TrapFrame where
  r15 : Word
  r14 : Word
  r13 : Word
  r12 : Word
  r11 : Word
  r10 : Word
  r9 : Word
  r8 : Word
  rax : Word
  rbx : Word
  rcx : Word
  rdx : Word
  rbp : Word
  rsi : Word
  rdi : Word
  vector : Word
  errorCode : Word
  rip : Word
  cs : Word
  rflags : Word
  rsp : Word
  ss : Word
  deriving DecidableEq

namespace TrapFrame

def ofFields (f : ℕ → Word) : TrapFrame :=
  ⟨f 0, f 1, f 2, f 3, f 4, f 5, f 6, f 7, f 8, f 9, f 10, f 11, f 12, f 13, f 14, f 15, f 16, f 17, f 18, f 19, f 20, f 21⟩

/-- The frame at an address. -/
def read (mem : Word → Word) (base : Word) : TrapFrame := ofFields fun i => mem (above base i)

end TrapFrame

/-! ### The entry code -/

/-- Which stack? A user's stack pointer is below 2^47. -/
def pickStack : List Op :=
  [.exec (.mov .r10 .rsp), .exec (.mov .rax .r10), .exec (.shr .rax 47), .exec (.test .rax .rax), .jnz 1,
    .exec .swapgs, .exec (.loadGs .rsp 8), .exec (.test .rsp .rsp), .jnz 1, .label 3, .hlt, .jmp 3]

/-- The pushes, from `ss` down to `r15`. -/
def savedRegs : List Src :=
  [.imm 0x23, .reg .r10, .reg .r11, .imm 0x1B, .reg .rcx, .imm 0x80, .imm 0, .reg .rdi, .reg .rsi, .reg .rbp, .reg .rdx,
    .reg .rcx, .reg .rbx, .reg .rax, .reg .r8, .reg .r9, .reg .r10, .reg .r11, .reg .r12, .reg .r13, .reg .r14, .reg .r15]

def poppedRegs : List Reg :=
  [.r15, .r14, .r13, .r12, .r11, .r10, .r9, .r8, .rax, .rbx, .rcx, .rdx, .rbp, .rsi, .rdi]

def saveFrame : List Instr :=
  .and .rsp (-16) :: (savedRegs.map .push ++ [.mov .rdi .rsp, .mov .r15 .rsp, .sub .rsp 32])

def restoreFrame : List Instr :=
  .add .rsp 32 :: .mov .rsp .r15 :: (poppedRegs.map .pop ++ [.add .rsp 16, .cmpMem .rsp 8 0x1B])

/-- Back to user mode only with the user's GS base. -/
def leave : List Op := restoreFrame.map .exec ++ [.jnz 2, .exec .swapgs, .label 2, .iretq]

def syscallEntry : List Op := pickStack ++ .label 1 :: (saveFrame.map .exec ++ .call :: leave)

/-! ### The handler -/

inductive VcpuType
  | normal
  | hardwareDriver
  | abstractionDriver
  | idle
  deriving DecidableEq

/-- Access control by type and number. -/
def allowed : VcpuType → Word → Bool
  | .idle, _ => false
  | .normal, nr => nr ≤ 7
  | .hardwareDriver, nr => nr ≤ 7 || (10 ≤ nr && nr ≤ 15) || (20 ≤ nr && nr ≤ 22) || (30 ≤ nr && nr ≤ 31)
  | .abstractionDriver, nr => nr ≤ 7 || (20 ≤ nr && nr ≤ 22) || (30 ≤ nr && nr ≤ 31)

def higherHalf : Word := BitVec.ofNat 64 Virt.higherHalf

/-- The six arguments of a call. -/
structure Args where
  arg0 : Word
  arg1 : Word
  arg2 : Word
  arg3 : Word
  arg4 : Word
  arg5 : Word
  deriving DecidableEq

def TrapFrame.args (f : TrapFrame) : Args := ⟨f.rdi, f.rsi, f.rdx, f.r10, f.r8, f.r9⟩

/-- The flags without NT, RF and reserved bits; `cs` and `ss` of the caller. -/
def sanitize (f : TrapFrame) : TrapFrame :=
  let f := { f with rflags := f.rflags &&& 0x300000D7 }
  if f.rsp ≥ higherHalf then { f with cs := 0x08, ss := 0x10 } else { f with cs := 0x1B, ss := 0x23 }

/-- `syscall_handler` where no task is switched. `body` is the call that the
number selects: all that the calls write to the frame is `rax`, if anything. -/
def syscallHandler (vcpuType : VcpuType) (body : Word → Args → Option Word) (frame : TrapFrame) : TrapFrame :=
  let frame := sanitize frame
  let nr := frame.rax
  if allowed vcpuType nr then { frame with rax := (body nr frame.args).getD frame.rax }
  else { frame with rax := -1 }

/-! ### The way in and back -/

/-- What a user program can see of the CPU. -/
structure User where
  reg : Reg → Word
  rip : Word
  rflags : Word
  cs : Word

/-- Memory, and where the per-CPU data is. -/
structure Kernel where
  mem : Word → Word
  percpu : Word
  userGs : Word

/-- The top of the CPU's kernel stack. -/
def Kernel.stackTop (k : Kernel) : Word := k.mem (k.percpu + 8)

/-- SYSCALL: `rcx` and `r11` take the return address and the flags. -/
def User.syscall (u : User) (k : Kernel) : State Unit where
  reg := update (update u.reg .rcx u.rip) .r11 u.rflags
  mem := k.mem
  image := fun _ => ()
  fpu := ()
  cr3 := 0
  zf := false
  gs := k.userGs
  kernelGs := k.percpu

/-- `iretq`. -/
def iretq {F : Type} (s : State F) : User where
  reg := update s.reg .rsp (s.mem (above (s.reg .rsp) 3))
  rip := s.mem (s.reg .rsp)
  cs := s.mem (above (s.reg .rsp) 1)
  rflags := s.mem (above (s.reg .rsp) 2)

/-- Addresses that a push does not fault on for their form. -/
def Canonical (a : Word) : Prop := a.toNat < 2 ^ 47 ∨ 2 ^ 64 - 2 ^ 47 ≤ a.toNat

instance (a : Word) : Decidable (Canonical a) := inferInstanceAs (Decidable (_ ∨ _))

/-- A frame that can be pushed. -/
def FrameCanonical (base : Word) : Prop := ∀ i < 22, Canonical (above base i)

instance (base : Word) : Decidable (FrameCanonical base) :=
  inferInstanceAs (Decidable (∀ i, i < 22 → Canonical (above base i)))

/-- In through the entry code, with the frame that the handler sees, through
the call, and back to the user. -/
def syscallRound (called : State Unit → State Unit) (s : State Unit) : Option (TrapFrame × User) := do
  let (code, s) ← run syscallEntry 100 syscallEntry s
  match code with
  | .call :: rest =>
    if FrameCanonical (s.reg .rdi) then do
      let (code, s') ← run syscallEntry 100 rest (called s)
      match code with
      | .iretq :: _ => some (TrapFrame.read s.mem (s.reg .rdi), iretq s')
      | _ => none
    else none
  | _ => none

/-- A call of a function on the frame at `rdi`, by the calling convention:
the registers that a callee saves are as before. -/
structure CallsOn (f : TrapFrame → TrapFrame) (called : State Unit → State Unit) : Prop where
  frame : ∀ s, TrapFrame.read (called s).mem (s.reg .rdi) = f (TrapFrame.read s.mem (s.reg .rdi))
  saved : ∀ s, ∀ r ∈ [Reg.rbx, .rbp, .rsp, .r12, .r13, .r14, .r15], (called s).reg r = s.reg r

/-! ### What the ABI promises -/

/-- The handler sees the user's number and arguments. -/
def Sees (u : User) (f : TrapFrame) : Prop :=
  f.rax = u.reg .rax ∧ f.args = ⟨u.reg .rdi, u.reg .rsi, u.reg .rdx, u.reg .r10, u.reg .r8, u.reg .r9⟩

/-- The flags other than NT (14) and RF (16) that are not reserved. -/
def userFlags : List ℕ := [0, 2, 4, 6, 7, 8, 9, 10, 11, 12, 13, 17, 18, 19, 20, 21]

/-- The user goes on as if nothing had happened, with the result in `rax`. -/
structure Resumes (u : User) (result : Word) (r : User) : Prop where
  cs : r.cs = 0x1B
  rip : r.rip = u.rip
  reg : ∀ g ∈ [Reg.rsp, .rbx, .rbp, .r8, .r9, .r10, .r12, .r13, .r14, .r15, .rdi, .rsi, .rdx], r.reg g = u.reg g
  rax : r.reg .rax = result
  rflags : ∀ i ∈ userFlags, r.rflags.getLsbD i = u.rflags.getLsbD i

def Fidelity (handler : TrapFrame → TrapFrame) (called : State Unit → State Unit) (u : User) (k : Kernel) : Prop :=
  ∃ frame r, syscallRound called (u.syscall k) = some (frame, r) ∧ Sees u frame ∧ Resumes u (handler frame).rax r

/-! ### The entry code, run -/

section

variable {u : User} {k : Kernel}

/-- The stack that the entry code takes: the kernel's for a stack pointer
below 2^47. -/
def entryStack (u : User) (k : Kernel) : Word := if u.reg .rsp >>> 47 = 0 then k.stackTop else u.reg .rsp

/-- The registers after `pickStack`. -/
def pickedReg (u : User) (sp : Word) : Reg → Word :=
  update (update (update (update (update u.reg .rcx u.rip) .r11 u.rflags)
    .r10 (u.reg .rsp)) .rax (u.reg .rsp >>> 47)) .rsp sp

lemma run_pickStack (hk : k.stackTop ≠ 0) : ∃ n s, 30 ≤ n ∧
    run syscallEntry 100 syscallEntry (u.syscall k) = run syscallEntry n (saveFrame.map .exec ++ .call :: leave) s ∧
    s.reg = pickedReg u (entryStack u k) ∧ s.mem = k.mem := by
  set s1 : State Unit := execs (u.syscall k) [.mov .r10 .rsp, .mov .rax .r10, .shr .rax 47, .test .rax .rax] with hs1
  set s2 : State Unit := execs s1 [.swapgs, .loadGs .rsp 8, .test .rsp .rsp] with hs2
  have hlook : run syscallEntry 100 syscallEntry (u.syscall k) =
      if s1.zf then if s2.zf then run syscallEntry 91 (.label 3 :: .hlt :: .jmp 3 :: .label 1 ::
          (saveFrame.map .exec ++ .call :: leave)) s2
        else run syscallEntry 91 (saveFrame.map .exec ++ .call :: leave) s2
      else run syscallEntry 95 (saveFrame.map .exec ++ .call :: leave) s1 := rfl
  have hz1 : s1.zf = (u.reg .rsp >>> 47 == 0) := congrArg (· == 0) (BitVec.and_self)
  have hz2 : s2.zf = (k.stackTop == 0) := congrArg (· == 0) (BitVec.and_self)
  by_cases h0 : u.reg .rsp >>> 47 = 0
  · refine ⟨91, s2, by norm_num, ?_, ?_, rfl⟩
    · rw [hlook, hz1, hz2, if_pos (by simpa using h0), if_neg (by simpa using hk)]
    · rw [entryStack, if_pos h0]
      funext r
      cases r <;> rfl
  · refine ⟨95, s1, by norm_num, ?_, ?_, rfl⟩
    · rw [hlook, hz1, if_neg (by simpa using h0)]
    · rw [entryStack, if_neg h0]
      funext r
      cases r <;> rfl

/-- The frame that the handler finds. -/
def entryFrame (u : User) : TrapFrame where
  r15 := u.reg .r15
  r14 := u.reg .r14
  r13 := u.reg .r13
  r12 := u.reg .r12
  r11 := u.rflags
  r10 := u.reg .rsp
  r9 := u.reg .r9
  r8 := u.reg .r8
  rax := u.reg .rsp >>> 47
  rbx := u.reg .rbx
  rcx := u.rip
  rdx := u.reg .rdx
  rbp := u.reg .rbp
  rsi := u.reg .rsi
  rdi := u.reg .rdi
  vector := 0
  errorCode := 0x80
  rip := u.rip
  cs := 0x1B
  rflags := u.rflags
  rsp := u.reg .rsp
  ss := 0x23

/-- Words pushed from a stack pointer on, read as a frame from where the last
push ended. -/
lemma TrapFrame.read_pushed (mem : Word → Word) (sp : Word) {vs : List Word} (hlen : vs.length = 22) :
    read (pushed mem sp vs) (below sp 22) = ofFields fun i => vs.getD (21 - i) 0 := by
  have hget : ∀ i < 22, pushed mem sp vs (above (below sp 22) i) = vs.getD (21 - i) 0 := by
    intro i hi
    have haddr : above (below sp 22) i = below sp (21 - i + 1) := by
      unfold above below
      bv_omega
    rw [haddr, pushed_get vs (21 - i) (by omega) (by rw [hlen]; norm_num), List.getD_eq_getElem _ _ (by omega)]
  unfold read ofFields
  simp only [hget, Nat.reduceLT]

/-- Where the frame is built. -/
def frameBase (sp : Word) : Word := below (sp &&& -16) 22

lemma run_entry (hk : k.stackTop ≠ 0) : ∃ s, run syscallEntry 100 syscallEntry (u.syscall k) = some (.call :: leave, s) ∧
    s.reg .rdi = frameBase (entryStack u k) ∧ s.reg .r15 = frameBase (entryStack u k) ∧
    TrapFrame.read s.mem (s.reg .rdi) = entryFrame u := by
  obtain ⟨n, s, hn, hrun, hreg, hmem⟩ := run_pickStack (u := u) hk
  obtain ⟨n, rfl⟩ : ∃ m, n = saveFrame.length + (m + 1) := ⟨n - 27, by simp [saveFrame, savedRegs]; omega⟩
  rw [run_block] at hrun
  refine ⟨_, hrun, ?_⟩
  set s1 := (Instr.and .rsp (-16)).exec s with hs1
  have hpush : execs s saveFrame = execs (execs s1 (savedRegs.map .push)) [.mov .rdi .rsp, .mov .r15 .rsp, .sub .rsp 32] := by
    rw [saveFrame, execs, List.foldl_cons, List.foldl_append]
    rfl
  rw [execs_push savedRegs s1 (by simp [savedRegs, Src.Fixed])] at hpush
  have hsp : s1.reg .rsp = entryStack u k &&& -16 := by
    change s.reg .rsp &&& -16 = _
    rw [hreg]
    rfl
  have hother : ∀ r, r ≠ .rsp → s1.reg r = pickedReg u (entryStack u k) r := by
    intro r hr
    change update s.reg .rsp _ r = _
    rw [update_of_ne hr, hreg]
  have hval : savedRegs.map s1.val = [0x23, u.reg .rsp, u.rflags, 0x1B, u.rip, 0x80, 0, u.reg .rdi, u.reg .rsi, u.reg .rbp,
      u.reg .rdx, u.rip, u.reg .rbx, u.reg .rsp >>> 47, u.reg .r8, u.reg .r9, u.reg .rsp, u.rflags, u.reg .r12, u.reg .r13,
      u.reg .r14, u.reg .r15] := by
    simp [savedRegs, State.val, hother, pickedReg]
  rw [hval, hsp] at hpush
  rw [hpush]
  exact ⟨rfl, rfl, TrapFrame.read_pushed _ _ rfl⟩

/-! ### The way back, run -/

/-- The user that a frame resumes. -/
def TrapFrame.resumed (f : TrapFrame) : User where
  reg
    | .rax => f.rax
    | .rbx => f.rbx
    | .rcx => f.rcx
    | .rdx => f.rdx
    | .rsi => f.rsi
    | .rdi => f.rdi
    | .rbp => f.rbp
    | .rsp => f.rsp
    | .r8 => f.r8
    | .r9 => f.r9
    | .r10 => f.r10
    | .r11 => f.r11
    | .r12 => f.r12
    | .r13 => f.r13
    | .r14 => f.r14
    | .r15 => f.r15
  rip := f.rip
  rflags := f.rflags
  cs := f.cs

lemma above_above (a : Word) (m n : ℕ) : above (above a m) n = above a (m + n) := by
  unfold above
  bv_omega

/-- After the pops `rsp` is at the interrupt frame, and the registers hold the
words below it. -/
lemma execs_restoreFrame (s : State Unit) : (execs s restoreFrame).mem = s.mem ∧
    (execs s restoreFrame).reg .rsp = above (s.reg .r15) 17 ∧
    ∀ i (hi : i < poppedRegs.length), (execs s restoreFrame).reg poppedRegs[i] = s.mem (above (s.reg .r15) i) := by
  set s1 := execs s [.add .rsp 32, .mov .rsp .r15] with hs1
  have hsp : s1.reg .rsp = s.reg .r15 := rfl
  have hsplit : execs s restoreFrame = execs (execs s1 (poppedRegs.map .pop)) [.add .rsp 16, .cmpMem .rsp 8 0x1B] := by
    rw [restoreFrame, execs, List.foldl_cons, List.foldl_cons, List.foldl_append]
    rfl
  have hnot : Reg.rsp ∉ poppedRegs := by decide
  rw [hsplit]
  refine ⟨?_, ?_, fun i hi => ?_⟩
  · rw [execs_pop]
    rfl
  · have hpop := execs_pop_rsp poppedRegs s1 hnot
    change (execs s1 (poppedRegs.map .pop)).reg .rsp + 16 = _
    rw [hpop, hsp, show (16 : Word) = BitVec.ofNat 64 (8 * 2) from rfl]
    exact above_above _ _ 2
  · have hne : poppedRegs[i] ≠ .rsp := fun hc => hnot (hc ▸ List.getElem_mem hi)
    have hpop := execs_pop_reg poppedRegs s1 i hi (by decide) hnot
    rw [hsp] at hpop
    change update _ .rsp _ poppedRegs[i] = _
    rw [update_of_ne hne]
    exact hpop

/-- With the user's GS base or without, the state is the same otherwise. -/
lemma run_leave_tail (s : State Unit) : run syscallEntry 81 [.jnz 2, .exec .swapgs, .label 2, .iretq] s =
    some ([.iretq], if s.zf then (Instr.swapgs).exec s else s) := by
  have hfind : find 2 syscallEntry = [.iretq] := rfl
  rw [run, run, run, run, hfind, run]
  split <;> rfl

lemma run_leave (s : State Unit) : ∃ s', run syscallEntry 100 leave s = some ([.iretq], s') ∧
    iretq s' = (TrapFrame.read s.mem (s.reg .r15)).resumed := by
  obtain ⟨hmem, hsp, hpop⟩ := execs_restoreFrame s
  have hrun : run syscallEntry (restoreFrame.length + 81) leave s =
      run syscallEntry 81 [.jnz 2, .exec .swapgs, .label 2, .iretq] (execs s restoreFrame) := run_block restoreFrame 81 s
  rw [run_leave_tail] at hrun
  refine ⟨_, hrun, ?_⟩
  generalize execs s restoreFrame = t at hmem hsp hpop
  have hreg : (if t.zf then (Instr.swapgs).exec t else t).reg = t.reg := by split <;> rfl
  have hmem' : (if t.zf then (Instr.swapgs).exec t else t).mem = s.mem := by
    rw [← hmem]
    split <;> rfl
  unfold iretq
  rw [hreg, hmem', hsp]
  simp only [above_above]
  congr 1
  funext r
  cases r with
  | rsp => rfl
  | r15 => exact hpop 0 (by decide)
  | r14 => exact hpop 1 (by decide)
  | r13 => exact hpop 2 (by decide)
  | r12 => exact hpop 3 (by decide)
  | r11 => exact hpop 4 (by decide)
  | r10 => exact hpop 5 (by decide)
  | r9 => exact hpop 6 (by decide)
  | r8 => exact hpop 7 (by decide)
  | rax => exact hpop 8 (by decide)
  | rbx => exact hpop 9 (by decide)
  | rcx => exact hpop 10 (by decide)
  | rdx => exact hpop 11 (by decide)
  | rbp => exact hpop 12 (by decide)
  | rsi => exact hpop 13 (by decide)
  | rdi => exact hpop 14 (by decide)

/-- The whole way: the handler sees `entryFrame`, and what it makes of it is
what the user resumes with. -/
lemma syscallRound_eq {handler : TrapFrame → TrapFrame} {called : State Unit → State Unit} (hc : CallsOn handler called)
    (hk : k.stackTop ≠ 0) : syscallRound called (u.syscall k) =
      if FrameCanonical (frameBase (entryStack u k)) then
        some (entryFrame u, (handler (entryFrame u)).resumed)
      else none := by
  obtain ⟨s, hrun, hrdi, hr15, hframe⟩ := run_entry (u := u) hk
  obtain ⟨s', hleave, hback⟩ := run_leave (called s)
  have hbase : (called s).reg .r15 = s.reg .rdi := by
    rw [hc.saved s .r15 (by simp), hr15, hrdi]
  rw [hbase, hc.frame, hframe] at hback
  unfold syscallRound
  rw [hrun]
  change (if FrameCanonical (s.reg .rdi) then _ else _) = _
  rw [hrdi]
  split
  · rw [hleave]
    change some (TrapFrame.read s.mem (frameBase (entryStack u k)), iretq s') = _
    rw [← hrdi, hframe, hback]
  · rfl

/-! ### Fidelity -/

/-- The CPU's kernel stack is set up. -/
structure Kernel.Ready (k : Kernel) : Prop where
  top : k.stackTop ≠ 0
  canonical : FrameCanonical (frameBase k.stackTop)

/-- The flags that the mask in `syscall_handler` clears, but for NT, RF and
reserved ones. -/
def lostFlags : List ℕ := [8, 9, 10, 11, 12, 13, 17, 18, 19, 20, 21]

/-- A user who expects what the entry code does: the number is what is left
of the stack pointer, the fourth argument is the stack pointer, and none of
the flags is set that get lost. -/
structure Expects (u : User) : Prop where
  stack : (u.reg .rsp).toNat < 2 ^ 47 + 16
  number : u.reg .rax = u.reg .rsp >>> 47
  arg3 : u.reg .r10 = u.reg .rsp
  flags : ∀ i ∈ lostFlags, u.rflags.getLsbD i = false

lemma toNat_and_neg16 (a : Word) : (a &&& -16).toNat = a.toNat / 16 * 16 := by
  rw [BitVec.toNat_and]
  exact Words.and_high (w := 64) (a := 4) a.isLt (by norm_num)

/-- A frame on the caller's own stack, below the upper half: the stack ends
where the lower half does. -/
lemma canonical_frame {a : Word} (h47 : 2 ^ 47 ≤ a.toNat) (hhalf : a.toNat < Virt.higherHalf) :
    FrameCanonical (frameBase a) ↔ a.toNat < 2 ^ 47 + 16 := by
  have hround := toNat_and_neg16 a
  have haddr : ∀ i < 22, (above (frameBase a) i).toNat = a.toNat / 16 * 16 - 8 * (22 - i) := by
    intro i hi
    unfold frameBase above below
    bv_omega
  unfold Virt.higherHalf at hhalf
  constructor
  · intro h
    have h21 := h 21 (by norm_num)
    unfold Canonical at h21
    rw [haddr 21 (by norm_num)] at h21
    omega
  · intro h i hi
    refine Or.inl ?_
    rw [haddr i hi]
    omega

lemma sanitize_rflags (f : TrapFrame) : (sanitize f).rflags = f.rflags &&& 0x300000D7 := by
  unfold sanitize
  dsimp only
  split <;> rfl

lemma sanitize_cs (f : TrapFrame) : (sanitize f).cs = if f.rsp ≥ higherHalf then 0x08 else 0x1B := by
  unfold sanitize
  dsimp only
  split <;> rfl

lemma sanitize_eq (f : TrapFrame) :
    sanitize f = { f with rflags := (sanitize f).rflags, cs := (sanitize f).cs, ss := (sanitize f).ss } := by
  unfold sanitize
  dsimp only
  split <;> rfl

/-- What the handler makes of a frame, but for `rax`. -/
lemma syscallHandler_eq (vcpuType : VcpuType) (body : Word → Args → Option Word) (f : TrapFrame) :
    syscallHandler vcpuType body f = { sanitize f with rax := (syscallHandler vcpuType body f).rax } := by
  simp only [syscallHandler]
  split <;> rfl

lemma flags_kept {w : Word} :
    (∀ i ∈ userFlags, (w &&& 0x300000D7).getLsbD i = w.getLsbD i) ↔ ∀ i ∈ lostFlags, w.getLsbD i = false := by
  simp only [userFlags, lostFlags, List.forall_mem_cons, BitVec.getLsbD_and]
  simp [BitVec.getLsbD_ofNat]

lemma ushiftRight_47 (a : Word) : a >>> 47 = 0 ↔ a.toNat < 2 ^ 47 := by
  rw [← BitVec.toNat_inj, BitVec.toNat_ushiftRight, Nat.shiftRight_eq_div_pow]
  simp [Nat.div_eq_zero_iff]

/-- Below the upper half the frame can be pushed exactly if the user's stack
pointer does not pass the end of the lower half. -/
lemma canonical_entry (hk : k.Ready) (hhalf : (u.reg .rsp).toNat < Virt.higherHalf) :
    FrameCanonical (frameBase (entryStack u k)) ↔ (u.reg .rsp).toNat < 2 ^ 47 + 16 := by
  unfold entryStack
  split
  · rename_i h0
    rw [ushiftRight_47] at h0
    exact ⟨fun _ => by omega, fun _ => hk.canonical⟩
  · rename_i h0
    rw [ushiftRight_47, not_lt] at h0
    exact canonical_frame h0 hhalf

/-- The ABI's promise is kept exactly for a user who expects what the entry
code and the handler do, whatever the call is and returns. -/
theorem syscall_fidelity_iff {vcpuType : VcpuType} {body : Word → Args → Option Word} {called : State Unit → State Unit}
    (hc : CallsOn (syscallHandler vcpuType body) called) (hk : k.Ready) :
    Fidelity (syscallHandler vcpuType body) called u k ↔ Expects u := by
  have hround := syscallRound_eq (u := u) hc hk.top
  have hhandler := syscallHandler_eq vcpuType body (entryFrame u)
  constructor
  · intro ⟨frame, r, hr, hsees, hres⟩
    rw [hround] at hr
    split at hr
    · rename_i hcanon
      obtain ⟨rfl, rfl⟩ : entryFrame u = frame ∧ (syscallHandler vcpuType body (entryFrame u)).resumed = r := by simpa using hr
      have hcs := hres.cs
      have hflags := hres.rflags
      rw [hhandler] at hcs hflags
      have hhalf : (u.reg .rsp).toNat < Virt.higherHalf := by
        by_contra hge
        have hup : (entryFrame u).rsp ≥ higherHalf := BitVec.le_def.mpr (not_lt.mp hge)
        change (sanitize (entryFrame u)).cs = 0x1B at hcs
        rw [sanitize_cs, if_pos hup] at hcs
        cases hcs
      refine ⟨(canonical_entry hk hhalf).mp hcanon, hsees.1.symm, ?_, ?_⟩
      · have hargs := congrArg Args.arg3 hsees.2
        exact hargs.symm
      · refine flags_kept.mp fun i hi => ?_
        have hi' := hflags i hi
        change (sanitize (entryFrame u)).rflags.getLsbD i = _ at hi'
        rwa [sanitize_rflags] at hi'
    · simp at hr
  · intro h
    have hhalf : (u.reg .rsp).toNat < Virt.higherHalf := h.stack.trans (by decide)
    rw [if_pos ((canonical_entry hk hhalf).mpr h.stack)] at hround
    refine ⟨_, _, hround, ⟨h.number.symm, ?_⟩, ?_⟩
    · rw [h.arg3]
      rfl
    have hcs : (sanitize (entryFrame u)).cs = 0x1B := by
      rw [sanitize_cs, if_neg]
      intro hup
      exact absurd (BitVec.le_def.mp hup) (not_le.mpr hhalf)
    rw [hhandler, sanitize_eq]
    refine ⟨hcs, rfl, ?_, rfl, ?_⟩
    · simp [TrapFrame.resumed, entryFrame, h.arg3]
    · change ∀ i ∈ userFlags, (sanitize (entryFrame u)).rflags.getLsbD i = _
      rw [sanitize_rflags]
      exact flags_kept.mpr h.flags

end

/-! ### Two users -/

/-- A frame put at an address. -/
def TrapFrame.write (mem : Word → Word) (base : Word) (f : TrapFrame) (a : Word) : Word :=
  if (a - base).toNat % 8 = 0 ∧ (a - base).toNat / 8 < 22 then
    [f.r15, f.r14, f.r13, f.r12, f.r11, f.r10, f.r9, f.r8, f.rax, f.rbx, f.rcx, f.rdx, f.rbp, f.rsi, f.rdi, f.vector,
      f.errorCode, f.rip, f.cs, f.rflags, f.rsp, f.ss].getD ((a - base).toNat / 8) 0
  else mem a

lemma TrapFrame.read_write (mem : Word → Word) (base : Word) (f : TrapFrame) : read (write mem base f) base = f := by
  have hoff : ∀ i < 22, (above base i - base).toNat = 8 * i := by
    intro i hi
    unfold above
    bv_omega
  unfold read ofFields write
  simp only [hoff, Nat.reduceLT, Nat.reduceMul, Nat.reduceDiv, Nat.reduceMod, and_self, if_true]
  rfl

/-- A call that changes nothing but the frame. -/
def callOnly (handler : TrapFrame → TrapFrame) (s : State Unit) : State Unit :=
  { s with mem := TrapFrame.write s.mem (s.reg .rdi) (handler (TrapFrame.read s.mem (s.reg .rdi))) }

lemma callOnly_callsOn (handler : TrapFrame → TrapFrame) : CallsOn handler (callOnly handler) :=
  ⟨fun _ => TrapFrame.read_write _ _ _, fun _ _ _ => rfl⟩

/-- A kernel stack that ends at 64 KB in the upper half. -/
def someKernel : Kernel := ⟨fun _ => 0xFFFF800000010000, 0, 0⟩

lemma someKernel_ready : someKernel.Ready := ⟨by decide, by decide⟩

/-- A user at 0x401000 with a stack at 0x7FFFF000. -/
def userWith (rax r10 rflags : Word) : User where
  reg
    | .rax => rax
    | .r10 => r10
    | .rsp => 0x7FFFF000
    | _ => 0
  rip := 0x401000
  rflags := rflags
  cs := 0x1B

/-- Call 0 with the stack pointer as fourth argument and no flag set. -/
theorem syscall_fidelity_zero :
    Fidelity (syscallHandler .normal fun _ _ => none) (callOnly (syscallHandler .normal fun _ _ => none))
      (userWith 0 0x7FFFF000 2) someKernel :=
  (syscall_fidelity_iff (callOnly_callsOn _) someKernel_ready).mpr ⟨by decide, by decide, rfl, by decide⟩

/-- Call 2 (`get_vcpu_id`) with interrupts on: the handler sees call 0 and the
stack pointer as fourth argument, and the user resumes with interrupts off. -/
theorem syscall_loses_number : ∃ frame r,
    syscallRound (callOnly (syscallHandler .normal fun _ _ => none)) ((userWith 2 5 0x202).syscall someKernel) =
      some (frame, r) ∧
    frame.rax = 0 ∧ frame.args.arg3 = 0x7FFFF000 ∧ r.reg .r10 = 0x7FFFF000 ∧ r.rflags = 2 ∧
    ¬ Fidelity (syscallHandler .normal fun _ _ => none) (callOnly (syscallHandler .normal fun _ _ => none))
      (userWith 2 5 0x202) someKernel := by
  have hround := syscallRound_eq (u := userWith 2 5 0x202) (k := someKernel)
    (callOnly_callsOn (syscallHandler .normal fun _ _ => none)) (by decide)
  rw [if_pos (by decide)] at hround
  refine ⟨_, _, hround, by decide, by decide, by decide, by decide, ?_⟩
  intro ⟨frame, r, hr, hsees, _⟩
  obtain ⟨rfl, -⟩ : entryFrame (userWith 2 5 0x202) = frame ∧ _ = r := by simpa using hround.symm.trans hr
  exact absurd hsees.1 (by decide)

end LodaxOS.Arch
