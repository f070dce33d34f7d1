/-
# The context switch (`kernel/src/arch/mod.rs`)

`context_switch` as its instructions. To a frame of ring 3 it returns with all
registers as the frame has them, the floating-point state of the image, and
the page tables it was given.
-/
import LodaxOS.Arch.Syscall

namespace LodaxOS.Arch

open Asm Function

/-- The registers that are loaded while `r8` points to the frame. -/
def loadedRegs : List (Reg × Word) :=
  [(.r15, 0x00), (.r14, 0x08), (.r13, 0x10), (.r12, 0x18), (.r11, 0x20), (.r10, 0x28), (.r9, 0x30), (.rax, 0x40),
    (.rbx, 0x48), (.rcx, 0x50), (.rdx, 0x58), (.rbp, 0x60), (.rsi, 0x68), (.rdi, 0x70)]

/-- From the page tables to the registers. -/
def switchLoads : List Instr :=
  .fxrstor .r10 :: .push (.reg .r8) :: (loadedRegs.map fun l => .load l.1 .r8 l.2) ++ [.pop .r8, .testMem .r8 0x90 3]

/-- The return to ring 0. -/
def switchRing0 : List Op :=
  [.exec (.cmpMem .r8 0xa0 0), .jz 5, .exec (.load .rsp .r8 0xa0), .label 5, .exec (.push (.mem .r8 0x98)),
    .exec (.push (.mem .r8 0x90)), .exec (.push (.mem .r8 0x88)), .jmp 4]

/-- What `iretq` takes, from `ss` down to `rip`. -/
def iretqOffs : List Word := [0xa8, 0xa0, 0x98, 0x90, 0x88]

def switchRing3 : List Instr := (iretqOffs.map fun off => .push (.mem .r8 off))

/-- The code from the floating-point state on. -/
def switchTail : List Op :=
  switchLoads.map .exec ++ .jnz 3 :: (switchRing0 ++ .label 3 :: (switchRing3.map .exec ++
    [.label 4, .exec (.load .r8 .r8 0x38), .iretq]))

/-- `context_switch`, with the frame in `r8`, the page tables in `r9` and the
floating-point image in `r10`. -/
def contextSwitch : List Op :=
  [.exec (.cmp .r9 0), .jz 2, .exec .mfence, .exec (.setCr3 .r9), .label 2] ++ switchTail

variable {F : Type}

/-- The page tables are switched, unless they are 0. -/
lemma run_switchCr3 (n : ℕ) (s : State F) : ∃ m s', n ≤ m ∧
    run contextSwitch (n + 5) contextSwitch s = run contextSwitch m switchTail s' ∧
    s'.reg = s.reg ∧ s'.mem = s.mem ∧ s'.image = s.image ∧ s'.cr3 = if s.reg .r9 = 0 then s.cr3 else s.reg .r9 := by
  have hcode : run contextSwitch (n + 5) contextSwitch s = run contextSwitch (n + 5)
      (.exec (.cmp .r9 0) :: .jz 2 :: .exec .mfence :: .exec (.setCr3 .r9) :: .label 2 :: switchTail) s := rfl
  have hfind : find 2 contextSwitch = switchTail := rfl
  have hzf : ((Instr.cmp .r9 0).exec s).zf = decide (s.reg .r9 = 0) := rfl
  by_cases h9 : s.reg .r9 = 0
  · refine ⟨n + 3, (Instr.cmp .r9 0).exec s, by omega, ?_, rfl, rfl, rfl, by rw [if_pos h9]; rfl⟩
    rw [hcode, run, run, hzf, hfind, if_pos (by simpa using h9)]
  · refine ⟨n, (Instr.setCr3 .r9).exec ((Instr.cmp .r9 0).exec s), le_rfl, ?_, rfl, rfl, rfl, by rw [if_neg h9]; rfl⟩
    rw [hcode, run, run, hzf, if_neg (by simpa using h9), run, run, run]
    rfl

/-- No push reaches the frame. -/
def FrameApart (s : State F) : Prop := ∀ i < 22, ∀ j < 5, above (s.reg .r8) i ≠ below (s.reg .rsp) (j + 1)

variable {s : State F}

lemma FrameApart.ne (h : FrameApart s) {off : Word} (hoff : ∃ i < 22, off = BitVec.ofNat 64 (8 * i)) {j : ℕ}
    (hj : j < 5) : s.reg .r8 + off ≠ below (s.reg .rsp) (j + 1) := by
  obtain ⟨i, hi, rfl⟩ := hoff
  exact h i hi j hj

lemma below_one (sp : Word) : below sp 1 = sp - 8 := by
  unfold below
  bv_omega

/-- The push of `r8` leaves the words of the frame as they are. -/
lemma FrameApart.update (h : FrameApart s) (w off : Word) (hoff : ∃ i < 22, off = BitVec.ofNat 64 (8 * i)) :
    update s.mem (s.reg .rsp - 8) w (s.reg .r8 + off) = s.mem (s.reg .r8 + off) := by
  have hne := h.ne hoff (show 0 < 5 by omega)
  rw [below_one] at hne
  exact update_of_ne hne ..

/-- After the loads every register but `rsp` and `r8` has its word, and the
rest is as before. -/
lemma execs_switchLoads (h : FrameApart s) :
    (execs s switchLoads).reg .rsp = s.reg .rsp ∧ (execs s switchLoads).reg .r8 = s.reg .r8 ∧
    (∀ l ∈ loadedRegs, (execs s switchLoads).reg l.1 = s.mem (s.reg .r8 + l.2)) ∧
    (execs s switchLoads).mem = update s.mem (s.reg .rsp - 8) (s.reg .r8) ∧
    (execs s switchLoads).fpu = s.image (s.reg .r10) ∧ (execs s switchLoads).cr3 = s.cr3 ∧
    (execs s switchLoads).zf = decide (s.mem (s.reg .r8 + 0x90) &&& 3 = 0) := by
  set s1 := execs s [.fxrstor .r10, .push (.reg .r8)]
  have hmem1 : s1.mem = update s.mem (s.reg .rsp - 8) (s.reg .r8) := rfl
  have hreg1 : s1.reg = update s.reg .rsp (s.reg .rsp - 8) := rfl
  set loaded := (execs s1 (loadedRegs.map fun l => .load l.1 .r8 l.2)).reg with hloaded
  have hsp : loaded .rsp = s.reg .rsp - 8 :=
    (execs_load_of_notMem loadedRegs s1 (by decide)).trans (by rw [hreg1, update_self])
  have hsplit : execs s switchLoads = execs { s1 with reg := loaded } [.pop .r8, .testMem .r8 0x90 3] := by
    rw [hloaded, ← execs_load, switchLoads, execs, List.foldl_append]
    rfl
  have hreg : (execs s switchLoads).reg = update (update loaded .rsp (s.reg .rsp - 8 + 8)) .r8 (s.reg .r8) := by
    rw [hsplit]
    change update (update loaded .rsp (loaded .rsp + 8)) .r8 (s1.mem (loaded .rsp)) = _
    rw [hsp, hmem1, update_self]
  refine ⟨?_, ?_, fun l hl => ?_, by rw [hsplit]; rfl, by rw [hsplit]; rfl, by rw [hsplit]; rfl, ?_⟩
  · rw [hreg, update_of_ne (by decide), update_self, BitVec.sub_add_cancel]
  · rw [hreg, update_self]
  · have hne : l.1 ≠ .r8 ∧ l.1 ≠ .rsp ∧ ∃ i < 22, l.2 = BitVec.ofNat 64 (8 * i) := by
      revert l
      decide
    have hr8 : s1.reg .r8 = s.reg .r8 := by rw [hreg1, update_of_ne (by decide)]
    rw [hreg, update_of_ne hne.1, update_of_ne hne.2.1, hloaded,
      execs_load_reg loadedRegs s1 (by decide) (by decide) l hl, hr8, hmem1, h.update _ _ hne.2.2]
  · have hzf : (execs s switchLoads).zf = (s1.mem ((execs s switchLoads).reg .r8 + 0x90) &&& 3 == 0) := by
      rw [hsplit]
      rfl
    rw [hzf, hreg, update_self, hmem1, h.update _ 0x90 ⟨18, by omega, rfl⟩]
    rfl

lemma above_below (sp : Word) {m n : ℕ} (h : m ≤ n) : above (below sp n) m = below sp (n - m) := by
  obtain ⟨k, rfl⟩ := Nat.exists_eq_add_of_le h
  rw [Nat.add_sub_cancel_left]
  unfold above below
  rw [mul_add, BitVec.ofNat_add]
  bv_omega

lemma iretqOffs_mem : ∀ off ∈ iretqOffs, ∃ i < 22, off = BitVec.ofNat 64 (8 * i) := by
  have hmap : iretqOffs = [21, 20, 19, 18, 17].map fun i => BitVec.ofNat 64 (8 * i) := rfl
  intro off hoff
  rw [hmap, List.mem_map] at hoff
  obtain ⟨i, hi, rfl⟩ := hoff
  refine ⟨i, ?_, rfl⟩
  revert i
  decide

/-- The code after the loads, for a frame of ring 3. -/
lemma run_switchRing3 (n : ℕ) (hzf : s.zf = false) :
    run contextSwitch (n + 9) (.jnz 3 :: (switchRing0 ++ .label 3 :: (switchRing3.map .exec ++
      [.label 4, .exec (.load .r8 .r8 0x38), .iretq]))) s =
    some ([.iretq], (Instr.load .r8 .r8 0x38).exec (execs s switchRing3)) := by
  have hfind : find 3 contextSwitch = switchRing3.map .exec ++ [.label 4, .exec (.load .r8 .r8 0x38), .iretq] := rfl
  have hlen : n + 8 = switchRing3.length + (n + 3) := by
    change n + 8 = 5 + (n + 3)
    omega
  rw [run, hzf, if_neg Bool.false_ne_true, hfind, hlen, run_block, run, run, run]

/-- `context_switch` to a frame of ring 3. -/
lemma contextSwitch_resumes {f : TrapFrame} (hf : TrapFrame.read s.mem (s.reg .r8) = f) (hring : f.cs &&& 3 ≠ 0)
    (h : FrameApart s) : ∃ s', run contextSwitch 60 contextSwitch s = some ([.iretq], s') ∧ iretq s' = f.resumed ∧
      s'.fpu = s.image (s.reg .r10) ∧ s'.cr3 = if s.reg .r9 = 0 then s.cr3 else s.reg .r9 := by
  obtain ⟨m, s0, hm, hrun0, hreg0, hmem0, himage0, hcr30⟩ := run_switchCr3 55 s
  have hapart : FrameApart s0 := by
    unfold FrameApart
    rw [hreg0]
    exact h
  obtain ⟨hsp, hr8, hloads, hmem, hfpu, hcr3, hzf⟩ := execs_switchLoads hapart
  rw [hreg0] at hsp hr8 hfpu hzf hmem
  simp only [hreg0, hmem0] at hloads hmem hzf
  obtain ⟨k, rfl⟩ : ∃ k, m = switchLoads.length + (k + 9) := ⟨m - 27, by
    change m = 18 + (m - 27 + 9)
    omega⟩
  have hzf' : (execs s0 switchLoads).zf = false := by
    rw [hzf, decide_eq_false_iff_not]
    subst hf
    exact hring
  have hrun1 : run contextSwitch (switchLoads.length + (k + 9)) switchTail s0 = _ :=
    (run_block switchLoads (k + 9) s0).trans (run_switchRing3 k hzf')
  generalize execs s0 switchLoads = t at *
  have hvals : (iretqOffs.map fun off => t.mem (t.reg .r8 + off)) = iretqOffs.map fun off => s.mem (s.reg .r8 + off) := by
    refine List.map_congr_left fun off hoff => ?_
    rw [hr8, hmem, h.update _ _ (iretqOffs_mem off hoff)]
  have hpush : execs t switchRing3 = _ := execs_push_mem (by decide) iretqOffs t fun off hoff i hi => by
    rw [hr8, hsp]
    exact h.ne (iretqOffs_mem off hoff) hi
  rw [hpush, hvals, hsp] at hrun1
  refine ⟨_, hrun0.trans hrun1, ?_, hfpu.trans (by rw [himage0]), hcr3.trans hcr30⟩
  -- what `iretq` finds on the stack, and the word of `r8`, which the pushes do not reach
  set stack := pushed t.mem (s.reg .rsp) (iretqOffs.map fun off => s.mem (s.reg .r8 + off)) with hstack
  have hpopped : ∀ i (hi : i < iretqOffs.length), stack (below (s.reg .rsp) (i + 1)) = s.mem (s.reg .r8 + iretqOffs[i]) :=
    fun i hi => (pushed_get _ i (by simpa using hi) (by simp [iretqOffs])).trans (List.getElem_map _)
  have hr8' : stack (s.reg .r8 + 0x38) = s.mem (above (s.reg .r8) 7) := by
    rw [hstack, pushed_of_ne, hmem, h.update _ 0x38 ⟨7, by omega, rfl⟩]
    · rfl
    · exact fun i hi => h.ne ⟨7, by omega, rfl⟩ (by simpa [iretqOffs] using hi)
  subst hf
  unfold iretq
  change User.mk (update (update (update t.reg .rsp (below (s.reg .rsp) 5)) .r8 (stack (t.reg .r8 + 0x38))) .rsp
    (stack (above (below (s.reg .rsp) 5) 3))) (stack (below (s.reg .rsp) 5)) (stack (above (below (s.reg .rsp) 5) 2))
    (stack (above (below (s.reg .rsp) 5) 1)) = _
  rw [above_below _ (by omega), above_below _ (by omega), above_below _ (by omega), hpopped 4 (by decide),
    hpopped 3 (by decide), hpopped 2 (by decide), hpopped 1 (by decide), hr8, hr8']
  rw [TrapFrame.resumed, TrapFrame.read, TrapFrame.ofFields]
  congr 1
  funext r
  cases r with
  | rsp => rfl
  | r8 => rfl
  | _ => exact hloads (_, _) (by decide)

end LodaxOS.Arch
