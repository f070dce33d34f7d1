/-
# A few instructions of x86-64

Registers, words of memory on a stack that grows downwards, and code with
labels. Entry and exit code is mostly long rows of pushes and pops: what such
a row does to memory and registers is said here once.

Memory is read and written in whole words, at addresses that are multiples of
8 apart.
-/
import Mathlib.Data.List.Nodup
import Mathlib.Tactic.Ring

namespace Asm

open Function List

abbrev Word := BitVec 64

inductive Reg
  | rax | rbx | rcx | rdx | rsi | rdi | rbp | rsp
  | r8 | r9 | r10 | r11 | r12 | r13 | r14 | r15
  deriving DecidableEq

/-- A CPU and its memory. `F` is the state of the floating-point unit, and
`image` the saved one at an address. -/
structure State (F : Type) where
  reg : Reg → Word
  mem : Word → Word
  image : Word → F
  fpu : F
  cr3 : Word
  zf : Bool
  gs : Word
  kernelGs : Word

/-- An operand of `push`. -/
inductive Src
  | reg (r : Reg)
  | imm (v : Word)
  | mem (base : Reg) (off : Word)

inductive Instr
  | mov (dst src : Reg)
  | load (dst base : Reg) (off : Word)
  | loadGs (dst : Reg) (off : Word)
  | push (src : Src)
  | pop (dst : Reg)
  | shr (dst : Reg) (n : ℕ)
  | and (dst : Reg) (v : Word)
  | add (dst : Reg) (v : Word)
  | sub (dst : Reg) (v : Word)
  | test (a b : Reg)
  | cmp (a : Reg) (v : Word)
  | cmpMem (base : Reg) (off v : Word)
  | testMem (base : Reg) (off v : Word)
  | swapgs
  | setCr3 (src : Reg)
  | fxrstor (base : Reg)
  | mfence

variable {F : Type}

namespace State

def set (s : State F) (r : Reg) (v : Word) : State F := { s with reg := update s.reg r v }

/-- The result of an arithmetic instruction. -/
def alu (s : State F) (r : Reg) (v : Word) : State F :=
  { s with reg := update s.reg r v, zf := v == 0 }

def val (s : State F) : Src → Word
  | .reg r => s.reg r
  | .imm v => v
  | .mem base off => s.mem (s.reg base + off)

end State

def Instr.exec (s : State F) : Instr → State F
  | mov dst src => s.set dst (s.reg src)
  | load dst base off => s.set dst (s.mem (s.reg base + off))
  | loadGs dst off => s.set dst (s.mem (s.gs + off))
  | push src =>
    { s with
      reg := update s.reg .rsp (s.reg .rsp - 8)
      mem := update s.mem (s.reg .rsp - 8) (s.val src) }
  | pop dst =>
    { s with reg := update (update s.reg .rsp (s.reg .rsp + 8)) dst (s.mem (s.reg .rsp)) }
  | shr dst n => s.alu dst (s.reg dst >>> n)
  | and dst v => s.alu dst (s.reg dst &&& v)
  | add dst v => s.alu dst (s.reg dst + v)
  | sub dst v => s.alu dst (s.reg dst - v)
  | test a b => { s with zf := (s.reg a &&& s.reg b) == 0 }
  | cmp a v => { s with zf := s.reg a == v }
  | cmpMem base off v => { s with zf := s.mem (s.reg base + off) == v }
  | testMem base off v => { s with zf := (s.mem (s.reg base + off) &&& v) == 0 }
  | swapgs => { s with gs := s.kernelGs, kernelGs := s.gs }
  | setCr3 src => { s with cr3 := s.reg src }
  | fxrstor base => { s with fpu := s.image (s.reg base) }
  | mfence => s

/-- Instructions one after the other. -/
def execs (s : State F) (is : List Instr) : State F := is.foldl (fun s i => i.exec s) s

/-! ### Code with labels -/

inductive Op
  | exec (i : Instr)
  | label (l : ℕ)
  | jz (l : ℕ)
  | jnz (l : ℕ)
  | jmp (l : ℕ)
  | hlt
  | call
  | iretq

/-- The code from a label on. -/
def find (l : ℕ) : List Op → List Op
  | [] => []
  | .label k :: code => if k = l then code else find l code
  | _ :: code => find l code

/-- The code runs until it halts, calls or returns; what is left of it is
returned too. -/
def run (prog : List Op) : ℕ → List Op → State F → Option (List Op × State F)
  | 0, _, _ => none
  | _ + 1, [], _ => none
  | n + 1, .exec i :: code, s => run prog n code (i.exec s)
  | n + 1, .label _ :: code, s => run prog n code s
  | n + 1, .jz l :: code, s => if s.zf then run prog n (find l prog) s else run prog n code s
  | n + 1, .jnz l :: code, s => if s.zf then run prog n code s else run prog n (find l prog) s
  | n + 1, .jmp l :: _, s => run prog n (find l prog) s
  | _ + 1, .hlt :: code, s => some (.hlt :: code, s)
  | _ + 1, .call :: code, s => some (.call :: code, s)
  | _ + 1, .iretq :: code, s => some (.iretq :: code, s)

lemma run_block {prog code : List Op} : ∀ (is : List Instr) (n : ℕ) (s : State F),
    run prog (is.length + n) (is.map .exec ++ code) s = run prog n code (execs s is)
  | [], n, s => by rw [length_nil, Nat.zero_add]; rfl
  | i :: is, n, s => by
    rw [length_cons, Nat.add_right_comm]
    exact run_block is n (i.exec s)

/-! ### Pushes -/

/-- Memory after some pushes from a stack pointer on. -/
def pushed (mem : Word → Word) (sp : Word) : List Word → Word → Word
  | [] => mem
  | v :: vs => pushed (update mem (sp - 8) v) (sp - 8) vs

/-- Where the stack pointer is after some pushes. -/
def below (sp : Word) (n : ℕ) : Word := sp - BitVec.ofNat 64 (8 * n)

lemma below_succ (sp : Word) (n : ℕ) : below (sp - 8) n = below sp (n + 1) := by
  unfold below
  bv_omega

lemma below_ne {sp : Word} {i j : ℕ} (hij : i < j) (hj : j < 2 ^ 32) : below sp i ≠ below sp j := by
  unfold below
  bv_omega

/-- Pushes do not touch what lies above. -/
lemma pushed_of_ne : ∀ (vs : List Word) {mem : Word → Word} {sp a : Word},
    (∀ i < vs.length, a ≠ below sp (i + 1)) → pushed mem sp vs a = mem a
  | [], _, _, _, _ => rfl
  | v :: vs, mem, sp, a, h => by
    rw [pushed, pushed_of_ne vs fun i hi => ?_, update_of_ne]
    · have h0 := h 0 (by simp)
      rwa [← below_succ, below, Nat.mul_zero, BitVec.ofNat_eq_ofNat, BitVec.sub_zero] at h0
    · rw [below_succ]
      exact h (i + 1) (by simpa using hi)

lemma pushed_get : ∀ (vs : List Word) {mem : Word → Word} {sp : Word} (i : ℕ) (hi : i < vs.length),
    vs.length < 2 ^ 32 → pushed mem sp vs (below sp (i + 1)) = vs[i]
  | v :: vs, mem, sp, 0, _, hlen => by
    rw [pushed, pushed_of_ne, ← below_succ, below, Nat.mul_zero, BitVec.ofNat_eq_ofNat, BitVec.sub_zero,
      update_self, getElem_cons_zero]
    intro i hi
    rw [below_succ]
    rw [length_cons] at hlen
    exact below_ne (by omega) (by omega)
  | v :: vs, mem, sp, i + 1, hi, hlen => by
    rw [pushed, ← below_succ, getElem_cons_succ]
    rw [length_cons] at hi hlen
    exact pushed_get vs i (by omega) (by omega)

/-- Operands that do not change while others are pushed. -/
def Src.Fixed : Src → Prop
  | reg r => r ≠ .rsp
  | imm _ => True
  | mem _ _ => False

lemma execs_push : ∀ (srcs : List Src) (s : State F), (∀ x ∈ srcs, x.Fixed) → execs s (srcs.map .push) = { s with
      reg := update s.reg .rsp (below (s.reg .rsp) srcs.length)
      mem := pushed s.mem (s.reg .rsp) (srcs.map s.val) }
  | [], s, _ => by
    have h0 : below (s.reg .rsp) 0 = s.reg .rsp := by
      unfold below
      bv_omega
    simp only [map_nil, length_nil, h0, update_eq_self]
    rfl
  | x :: srcs, s, h => by
    have hval : ∀ y ∈ srcs, ((Instr.push x).exec s).val y = s.val y := by
      intro y hy
      have hf := h y (mem_cons_of_mem _ hy)
      cases y with
      | reg => exact update_of_ne hf _ _
      | imm => rfl
      | mem => exact absurd hf id
    have ih := execs_push srcs ((Instr.push x).exec s) fun y hy => h y (mem_cons_of_mem _ hy)
    have hmap : srcs.map ((Instr.push x).exec s).val = srcs.map s.val := map_congr_left hval
    have hreg : ((Instr.push x).exec s).reg = update s.reg .rsp (s.reg .rsp - 8) := rfl
    have hsp : ((Instr.push x).exec s).reg .rsp = s.reg .rsp - 8 := by rw [hreg, update_self]
    rw [hmap, hsp, hreg, update_idem, below_succ] at ih
    exact ih

/-- Memory operands that the pushes do not reach. -/
lemma execs_push_mem {b : Reg} (hb : b ≠ .rsp) : ∀ (offs : List Word) (s : State F),
    (∀ off ∈ offs, ∀ i < offs.length, s.reg b + off ≠ below (s.reg .rsp) (i + 1)) →
    execs s (offs.map fun off => .push (.mem b off)) = { s with
      reg := update s.reg .rsp (below (s.reg .rsp) offs.length)
      mem := pushed s.mem (s.reg .rsp) (offs.map fun off => s.mem (s.reg b + off)) }
  | [], s, _ => execs_push [] s (by simp)
  | off :: offs, s, h => by
    have hreg : ((Instr.push (.mem b off)).exec s).reg = update s.reg .rsp (s.reg .rsp - 8) := rfl
    have hsp : ((Instr.push (.mem b off)).exec s).reg .rsp = s.reg .rsp - 8 := by rw [hreg, update_self]
    have hbase : ((Instr.push (.mem b off)).exec s).reg b = s.reg b := by rw [hreg, update_of_ne hb]
    have ih := execs_push_mem hb offs ((Instr.push (.mem b off)).exec s) fun o ho i hi => by
      rw [hbase, hsp, below_succ]
      exact h o (mem_cons_of_mem _ ho) (i + 1) (by simpa using hi)
    have hmap : (offs.map fun o => ((Instr.push (.mem b off)).exec s).mem (((Instr.push (.mem b off)).exec s).reg b + o)) =
        offs.map fun o => s.mem (s.reg b + o) := by
      refine map_congr_left fun o ho => ?_
      have hne := h o (mem_cons_of_mem _ ho) 0 (by simp)
      rw [← below_succ, below, Nat.mul_zero, BitVec.ofNat_eq_ofNat, BitVec.sub_zero] at hne
      rw [hbase]
      exact update_of_ne hne ..
    rw [hmap, hsp, hreg, update_idem, below_succ] at ih
    exact ih

/-! ### Loads -/

section

variable {b : Reg}

/-- Loads change registers only. -/
lemma execs_load : ∀ (ls : List (Reg × Word)) (s : State F),
    execs s (ls.map fun l => .load l.1 b l.2) = { s with reg := (execs s (ls.map fun l => .load l.1 b l.2)).reg }
  | [], _ => rfl
  | l :: ls, s => execs_load ls ((Instr.load l.1 b l.2).exec s)

lemma execs_load_of_notMem {r : Reg} : ∀ (ls : List (Reg × Word)) (s : State F), r ∉ ls.map Prod.fst →
    (execs s (ls.map fun l => .load l.1 b l.2)).reg r = s.reg r
  | [], _, _ => rfl
  | l :: ls, s, h => by
    rw [map_cons, mem_cons, not_or] at h
    have hr : ((Instr.load l.1 b l.2).exec s).reg r = s.reg r := update_of_ne h.1 ..
    exact (execs_load_of_notMem ls _ h.2).trans hr

/-- Each register gets its word, if the base stays. -/
lemma execs_load_reg : ∀ (ls : List (Reg × Word)) (s : State F), (ls.map Prod.fst).Nodup → b ∉ ls.map Prod.fst →
    ∀ l ∈ ls, (execs s (ls.map fun l => .load l.1 b l.2)).reg l.1 = s.mem (s.reg b + l.2)
  | l :: ls, s, hn, hb, k, hk => by
    rw [map_cons, nodup_cons] at hn
    rw [map_cons, mem_cons, not_or] at hb
    have hself : ((Instr.load l.1 b l.2).exec s).reg l.1 = s.mem (s.reg b + l.2) := update_self ..
    have hbase : ((Instr.load l.1 b l.2).exec s).reg b = s.reg b := update_of_ne hb.1 ..
    obtain rfl | hk := mem_cons.mp hk
    · exact (execs_load_of_notMem ls _ hn.1).trans hself
    · have ih := execs_load_reg ls ((Instr.load l.1 b l.2).exec s) hn.2 hb.2 k hk
      rw [hbase] at ih
      exact ih

end

/-! ### Pops -/

/-- Where the stack pointer is after some pops. -/
def above (sp : Word) (n : ℕ) : Word := sp + BitVec.ofNat 64 (8 * n)

lemma above_zero (sp : Word) : above sp 0 = sp := by
  unfold above
  bv_omega

lemma above_succ (sp : Word) (n : ℕ) : above (sp + 8) n = above sp (n + 1) := by
  unfold above
  bv_omega

/-- Pops change registers only. -/
lemma execs_pop : ∀ (rs : List Reg) (s : State F), execs s (rs.map .pop) = { s with reg := (execs s (rs.map .pop)).reg }
  | [], _ => rfl
  | r :: rs, s => execs_pop rs ((Instr.pop r).exec s)

lemma execs_pop_rsp : ∀ (rs : List Reg) (s : State F), .rsp ∉ rs →
    (execs s (rs.map .pop)).reg .rsp = above (s.reg .rsp) rs.length
  | [], s, _ => (above_zero _).symm
  | r :: rs, s, h => by
    rw [mem_cons, not_or] at h
    have hsp : ((Instr.pop r).exec s).reg .rsp = s.reg .rsp + 8 := by
      change update (update s.reg .rsp _) r _ .rsp = _
      rw [update_of_ne h.1, update_self]
    have ih := execs_pop_rsp rs ((Instr.pop r).exec s) h.2
    rw [hsp, above_succ] at ih
    exact ih

/-- A register that is not popped keeps its value. -/
lemma execs_pop_of_notMem {r : Reg} (hr : r ≠ .rsp) : ∀ (rs : List Reg) (s : State F), r ∉ rs →
    (execs s (rs.map .pop)).reg r = s.reg r
  | [], _, _ => rfl
  | x :: rs, s, h => by
    rw [mem_cons, not_or] at h
    have hx : ((Instr.pop x).exec s).reg r = s.reg r := by
      change update (update s.reg .rsp _) x _ r = _
      rw [update_of_ne h.1, update_of_ne hr]
    exact (execs_pop_of_notMem hr rs _ h.2).trans hx

/-- The register in the `i`-th place gets the `i`-th word. -/
lemma execs_pop_reg : ∀ (rs : List Reg) (s : State F) (i : ℕ) (hi : i < rs.length), rs.Nodup → .rsp ∉ rs →
    (execs s (rs.map .pop)).reg rs[i] = s.mem (above (s.reg .rsp) i)
  | r :: rs, s, 0, _, hn, hsp => by
    rw [nodup_cons] at hn
    rw [mem_cons, not_or] at hsp
    rw [getElem_cons_zero, above_zero]
    have hr : ((Instr.pop r).exec s).reg r = s.mem (s.reg .rsp) := update_self ..
    exact (execs_pop_of_notMem (Ne.symm hsp.1) rs _ hn.1).trans hr
  | r :: rs, s, i + 1, hi, hn, hsp => by
    rw [nodup_cons] at hn
    rw [mem_cons, not_or] at hsp
    have hrsp : ((Instr.pop r).exec s).reg .rsp = s.reg .rsp + 8 := by
      change update (update s.reg .rsp _) r _ .rsp = _
      rw [update_of_ne hsp.1, update_self]
    have ih := execs_pop_reg rs ((Instr.pop r).exec s) i (by simpa using hi) hn.2 hsp.2
    rw [hrsp, above_succ] at ih
    exact ih

end Asm
