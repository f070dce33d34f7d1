/-
# The boot loader's `load_elf` (`boot/src/load_kernel.rs`)

The loader copies the segments of the kernel's file to their physical
addresses. It checks a segment against the memory map with its size in memory,
but copies its size in the file, and it trusts the file with its sums and with
the distance of the program headers; so some files make it write outside of
the segment or panic, and `load_elf_confined` says which.

The file is a borrowed slice: its bytes are read from the list, also after a
segment has been written. That is right where no region of the memory map
meets its buffer, which then keeps its bytes. A debug build checks the pointers
of `copy_nonoverlapping` and `write_bytes`, and so does the model.
-/
import LodaxOS.Lib.Bytes

namespace LodaxOS.Boot

open List

open Bytes (le16 le32 le64 ofList blit bytes32)

/-! ### The file -/

/-- The bytes of the file and the address of its buffer. -/
structure Slice where
  bytes : List UInt8
  addr : ℕ

namespace Slice

variable (d : Slice) (o : ℕ)

def len : ℕ := d.bytes.length

def byte : UInt8 := ofList d.bytes o

/-- `read_u16_le`; `none` is a panic. -/
def readU16 : Option ℕ := if o + 1 ≥ d.len then none else some (le16 d.byte o)

def readU32 : Option ℕ := if o + 3 ≥ d.len then none else some (le32 d.byte o)

def readU64 : Option ℕ := if o + 7 ≥ d.len then none else some (le64 d.byte o)

end Slice

structure Ehdr where
  eType : ℕ
  entry : ℕ
  phoff : ℕ
  phentsize : ℕ
  phnum : ℕ

structure Phdr where
  pType : ℕ
  offset : ℕ
  paddr : ℕ
  filesz : ℕ
  memsz : ℕ
  deriving DecidableEq

def elfMagic : List UInt8 := [0x7F, 0x45, 0x4C, 0x46]

def etExec : ℕ := 2

def ptLoad : ℕ := 1

def readEhdr (d : Slice) : Option Ehdr := do
  let eType ← d.readU16 16
  let entry ← d.readU64 24
  let phoff ← d.readU64 32
  let phentsize ← d.readU16 54
  let phnum ← d.readU16 56
  return ⟨eType, entry, phoff, phentsize, phnum⟩

/-- The other fields of a header that is `PT_LOAD`; the virtual address and the
flags are read for a message only. -/
def readPhdr (d : Slice) (off : ℕ) : Option Phdr := do
  let offset ← d.readU64 (off + 8)
  let _vaddr ← d.readU64 (off + 16)
  let paddr ← d.readU64 (off + 24)
  let filesz ← d.readU64 (off + 32)
  let memsz ← d.readU64 (off + 40)
  let _flags ← d.readU32 (off + 4)
  return ⟨ptLoad, offset, paddr, filesz, memsz⟩

/-! ### Regions -/

def u64Max : ℕ := 2 ^ 64 - 1

def saturatingAdd (a b : ℕ) : ℕ := min (a + b) u64Max

structure MemoryRegion where
  physStart : ℕ
  size : ℕ

def addrInAnyRegion (paddr size : ℕ) (regions : List MemoryRegion) : Bool :=
  regions.any fun r => paddr ≥ r.physStart && saturatingAdd paddr size ≤ saturatingAdd r.physStart r.size

/-- `KERNEL_LOAD_PHYS_LIMIT`: 1 GiB. -/
def kernelLoadPhysLimit : ℕ := 0x40000000

/-- `checked_add`, or `u64::MAX`. -/
def Phdr.segEnd (ph : Phdr) : ℕ := if ph.paddr + ph.memsz < 2 ^ 64 then ph.paddr + ph.memsz else u64Max

/-! ### Loading -/

abbrev Mem := ℕ → UInt8

/-- Bytes that are written for a segment. -/
structure Write where
  segment : Phdr
  addr : ℕ
  len : ℕ
  deriving DecidableEq

inductive Outcome
  | panic
  | refused
  | entry (addr : ℕ)
  deriving DecidableEq

/-- The memory at the end, what was written on the way, and the result. -/
structure Effect where
  mem : Mem
  writes : List Write
  outcome : Outcome

inductive Turn
  | panic
  | refused
  | next (mem : Mem) (writes : List Write)

/-- What a debug build asks of the copy and of the zeroing: the destination is not
null, unless there is nothing to do, and it does not overlap the source. -/
def Phdr.pointersOk (d : Slice) (ph : Phdr) : Bool :=
  let distance := max (d.addr + ph.offset) ph.paddr - min (d.addr + ph.offset) ph.paddr
  (ph.paddr ≠ 0 || ph.filesz = 0) && ph.filesz ≤ distance && (ph.memsz ≤ ph.filesz || ph.paddr + ph.filesz ≠ 0)

/-- The copy of the segment's bytes, then the zeros. -/
def Phdr.copy (d : Slice) (ph : Phdr) (m : Mem) : Mem :=
  let m := blit m ph.paddr ph.filesz fun k => d.byte (ph.offset + k)
  if ph.memsz > ph.filesz then blit m (ph.paddr + ph.filesz) (ph.memsz - ph.filesz) fun _ => 0 else m

def Phdr.writes (ph : Phdr) : List Write :=
  ⟨ph, ph.paddr, ph.filesz⟩ :: if ph.memsz > ph.filesz then [⟨ph, ph.paddr + ph.filesz, ph.memsz - ph.filesz⟩] else []

variable (d : Slice) (regions : List MemoryRegion)

/-- The checks of a segment, and its copy. -/
def Phdr.load (m : Mem) (ph : Phdr) : Turn :=
  if ph.segEnd > kernelLoadPhysLimit then .refused
  else if !addrInAnyRegion ph.paddr ph.memsz regions then .refused
  else if ph.offset + ph.filesz > u64Max then .panic
  else if ph.offset + ph.filesz > d.len then .refused
  else if !ph.pointersOk d then .panic
  else .next (ph.copy d m) ph.writes

/-- A turn of the loop, for the header at `off`. -/
def loadSegment (m : Mem) (off : ℕ) : Turn :=
  match d.readU32 off with
  | none => .panic
  | some pType =>
    if pType ≠ ptLoad then .next m []
    else
      match readPhdr d off with
      | none => .panic
      | some ph => ph.load d regions m

def loadSegments (h : Ehdr) : ℕ → ℕ → Mem → List Write → Effect
  | 0, _, m, ws => ⟨m, ws, .entry h.entry⟩
  | n + 1, i, m, ws =>
    match loadSegment d regions m (h.phoff + i * h.phentsize) with
    | .panic => ⟨m, ws, .panic⟩
    | .refused => ⟨m, ws, .refused⟩
    | .next m w => loadSegments h n (i + 1) m (ws ++ w)

def loadElf (memoryRegions : List MemoryRegion) (regionCount : ℕ) (m : Mem) : Effect :=
  if d.len < 64 then ⟨m, [], .refused⟩
  else if d.bytes.take 4 ≠ elfMagic then ⟨m, [], .refused⟩
  else if d.byte 4 ≠ 2 then ⟨m, [], .refused⟩
  else if d.byte 5 ≠ 1 then ⟨m, [], .refused⟩
  else
    match readEhdr d with
    | none => ⟨m, [], .panic⟩
    | some h =>
      if h.eType ≠ etExec then ⟨m, [], .refused⟩
      else if h.phoff + h.phnum * h.phentsize > u64Max then ⟨m, [], .panic⟩
      else if h.phoff + h.phnum * h.phentsize > d.len then ⟨m, [], .refused⟩
      else loadSegments d (memoryRegions.take regionCount) h h.phnum 0 m []

/-! ### What it is to be confined and faithful -/

/-- The fields of the file's header. -/
def Slice.ehdr : Ehdr := ⟨le16 d.byte 16, le64 d.byte 24, le64 d.byte 32, le16 d.byte 54, le16 d.byte 56⟩

/-- The fields of a program header. -/
def Slice.phdr (i : ℕ) : Phdr :=
  let off := d.ehdr.phoff + i * d.ehdr.phentsize
  ⟨le32 d.byte off, le64 d.byte (off + 8), le64 d.byte (off + 24), le64 d.byte (off + 32), le64 d.byte (off + 40)⟩

/-- The segment lies in one region and ends at 1 GiB or below. -/
def Phdr.Placed (ph : Phdr) (regions : List MemoryRegion) : Prop :=
  (∃ r ∈ regions, r.physStart ≤ ph.paddr ∧ ph.paddr + ph.memsz ≤ r.physStart + r.size) ∧
    ph.paddr + ph.memsz ≤ kernelLoadPhysLimit

/-- The bytes of the segment. -/
def Phdr.Spans (ph : Phdr) (a : ℕ) : Prop := ph.paddr ≤ a ∧ a < ph.paddr + ph.memsz

def Write.Covers (w : Write) (a : ℕ) : Prop := w.addr ≤ a ∧ a < w.addr + w.len

/-- All bytes are in the segment that they are written for, and the segment is
where one may be. -/
def Write.Confined (w : Write) : Prop :=
  w.segment.pType = ptLoad ∧ ∀ a, w.Covers a → w.segment.Placed regions ∧ w.segment.Spans a

/-- The `PT_LOAD` segments share no byte with each other or with the buffer. -/
def Slice.Apart : Prop :=
  (∀ i j, i < j → j < d.ehdr.phnum → (d.phdr i).pType = ptLoad → (d.phdr j).pType = ptLoad →
    ∀ a, ¬ ((d.phdr i).Spans a ∧ (d.phdr j).Spans a)) ∧
  ∀ i < d.ehdr.phnum, (d.phdr i).pType = ptLoad → ∀ a, (d.phdr i).Spans a → ¬ (d.addr ≤ a ∧ a < d.addr + d.len)

/-- No region shares a byte with the file's buffer. -/
def Slice.Clear : Prop :=
  ∀ r ∈ regions, r.physStart + r.size ≤ d.addr ∨ d.addr + d.len ≤ r.physStart

/-- The file's bytes, then zeros. -/
def Phdr.Holds (m : Mem) (ph : Phdr) : Prop :=
  (∀ k < ph.filesz, m (ph.paddr + k) = d.byte (ph.offset + k)) ∧
    ∀ k, ph.filesz ≤ k → k < ph.memsz → m (ph.paddr + k) = 0

structure Confined (m : Mem) (e : Effect) : Prop where
  returns : e.outcome ≠ .panic
  segments : ∀ w ∈ e.writes, ∃ i < d.ehdr.phnum, w.segment = d.phdr i
  writes : ∀ w ∈ e.writes, w.Confined regions
  frame : ∀ a, (∀ w ∈ e.writes, ¬ w.Covers a) → e.mem a = m a
  file : ∀ a, d.addr ≤ a → a < d.addr + d.len → e.mem a = m a
  faithful : ∀ addr, e.outcome = .entry addr → d.Apart →
    addr = d.ehdr.entry ∧ ∀ i < d.ehdr.phnum, (d.phdr i).pType = ptLoad → (d.phdr i).Holds d e.mem

/-! ### Which files load -/

/-- The file passes the first checks. -/
def Slice.IsElf : Prop :=
  64 ≤ d.len ∧ d.bytes.take 4 = elfMagic ∧ d.byte 4 = 2 ∧ d.byte 5 = 1 ∧ d.ehdr.eType = etExec

/-- The checks against the limit and the memory map. -/
def Phdr.Admitted (ph : Phdr) (regions : List MemoryRegion) : Prop :=
  ph.segEnd ≤ kernelLoadPhysLimit ∧ addrInAnyRegion ph.paddr ph.memsz regions = true

/-- All checks of a segment. -/
def Phdr.Loads (ph : Phdr) : Prop :=
  ph.Admitted regions ∧ ph.offset + ph.filesz ≤ d.len

/-- Where a segment passes the checks, its sum does not overflow, its bytes fit
and its pointers are good. -/
def Phdr.Fine (ph : Phdr) : Prop :=
  ph.Admitted regions → ph.offset + ph.filesz ≤ u64Max ∧
    (ph.offset + ph.filesz ≤ d.len → ph.filesz ≤ ph.memsz ∧ ph.pointersOk d = true)

/-- The loop gets past a header: it is no segment, or one that passes all checks. -/
def Loads (i : ℕ) : Prop :=
  (d.phdr i).pType = ptLoad → (d.phdr i).Loads d regions

/-- A header is in the file, and its segment is fine. -/
def Fine (i : ℕ) : Prop :=
  let off := d.ehdr.phoff + i * d.ehdr.phentsize
  off + 4 ≤ d.len ∧ ((d.phdr i).pType = ptLoad → off + 48 ≤ d.len ∧ (d.phdr i).Fine d regions)

/-- A file that does not pass the first checks, or one without an overflow in the
size of its table, whose headers are fine as far as the loop comes. -/
def Sound : Prop :=
  let tableEnd := d.ehdr.phoff + d.ehdr.phnum * d.ehdr.phentsize
  d.IsElf → tableEnd ≤ u64Max ∧ (tableEnd ≤ d.len → ∀ i < d.ehdr.phnum, (∀ j < i, Loads d regions j) → Fine d regions i)

/-! ### One header -/

variable {d regions} {m : Mem} {ph : Phdr} {i : ℕ}

lemma Phdr.Admitted.end_le (h : ph.Admitted regions) : ph.paddr + ph.memsz ≤ kernelLoadPhysLimit := by
  have hend := h.1
  unfold Phdr.segEnd at hend
  split at hend
  · exact hend
  · simp only [u64Max, kernelLoadPhysLimit] at hend
    omega

lemma Phdr.Admitted.placed (h : ph.Admitted regions) : ph.Placed regions := by
  have hend := h.end_le
  obtain ⟨r, hr, hin⟩ := any_eq_true.mp h.2
  obtain ⟨hstart, hsize⟩ := Bool.and_eq_true_iff.mp hin
  refine ⟨⟨r, hr, of_decide_eq_true hstart, ?_⟩, hend⟩
  have hsat := of_decide_eq_true hsize
  simp only [saturatingAdd, u64Max, kernelLoadPhysLimit] at hsat hend
  omega

/-- If the bytes fit the segment, they are written inside of it. -/
lemma Phdr.Admitted.writes_confined (h : ph.Admitted regions) (ht : ph.pType = ptLoad) (hfit : ph.filesz ≤ ph.memsz) :
    ∀ w ∈ ph.writes, w.Confined regions := by
  intro w hw
  have hcases : w = ⟨ph, ph.paddr, ph.filesz⟩ ∨ w = ⟨ph, ph.paddr + ph.filesz, ph.memsz - ph.filesz⟩ := by
    rcases mem_cons.mp hw with rfl | hw
    · exact .inl rfl
    · split at hw
      · exact .inr (mem_singleton.mp hw)
      · cases hw
  rcases hcases with rfl | rfl
  · exact ⟨ht, fun a ha => ⟨h.placed, ha.1, Nat.lt_of_lt_of_le ha.2 (Nat.add_le_add_left hfit _)⟩⟩
  · refine ⟨ht, fun a ha => ⟨h.placed, Nat.le_trans (Nat.le_add_right _ _) ha.1, ?_⟩⟩
    have hlt := ha.2
    dsimp only at hlt ⊢
    omega

/-- Otherwise the first byte behind the segment is written. -/
lemma Phdr.not_writes_confined (hfit : ¬ ph.filesz ≤ ph.memsz) : ∃ w ∈ ph.writes, ¬ w.Confined regions := by
  refine ⟨⟨ph, ph.paddr, ph.filesz⟩, mem_cons_self, fun h => ?_⟩
  obtain ⟨-, -, hlt⟩ := h.2 (ph.paddr + ph.memsz) ⟨Nat.le_add_right _ _, Nat.add_lt_add_left (Nat.lt_of_not_le hfit) _⟩
  exact Nat.lt_irrefl _ hlt

lemma Phdr.copy_frame {a : ℕ} (h : ∀ w ∈ ph.writes, ¬ w.Covers a) : ph.copy d m a = m a := by
  have hfirst : blit m ph.paddr ph.filesz (fun k => d.byte (ph.offset + k)) a = m a :=
    Bytes.blit_of_not_mem (h ⟨ph, ph.paddr, ph.filesz⟩ mem_cons_self)
  unfold Phdr.copy
  split
  · rename_i hgt
    rw [Bytes.blit_of_not_mem, hfirst]
    exact h ⟨ph, ph.paddr + ph.filesz, ph.memsz - ph.filesz⟩
      (mem_cons_of_mem _ (by rw [if_pos hgt]; exact mem_singleton_self _))
  · exact hfirst

lemma Phdr.copy_holds (hfit : ph.filesz ≤ ph.memsz) : ph.Holds d (ph.copy d m) := by
  have hbytes : ∀ k < ph.filesz, blit m ph.paddr ph.filesz (fun k => d.byte (ph.offset + k)) (ph.paddr + k) =
      d.byte (ph.offset + k) := by
    intro k hk
    rw [Bytes.blit_of_mem (Nat.le_add_right _ _) (Nat.add_lt_add_left hk _), Nat.add_sub_cancel_left]
  unfold Phdr.copy
  dsimp only
  split
  · refine ⟨fun k hk => ?_, fun k hl hr => ?_⟩
    · rw [Bytes.blit_of_not_mem (by omega), hbytes k hk]
    · rw [Bytes.blit_of_mem (by omega) (by omega)]
  · exact ⟨hbytes, fun k hl hr => by omega⟩

lemma readPhdr_eq (h : (d.phdr i).pType = ptLoad) : readPhdr d (d.ehdr.phoff + i * d.ehdr.phentsize) =
    if d.ehdr.phoff + i * d.ehdr.phentsize + 48 ≤ d.len then some (d.phdr i) else none := by
  generalize hoff : d.ehdr.phoff + i * d.ehdr.phentsize = off
  have hphdr : d.phdr i = ⟨ptLoad, le64 d.byte (off + 8), le64 d.byte (off + 24), le64 d.byte (off + 32), le64 d.byte (off + 40)⟩ := by
    rw [← h, ← hoff]
    rfl
  rw [hphdr]
  split
  · rename_i hin
    have hread : ∀ k ≤ 40, d.readU64 (off + k) = some (le64 d.byte (off + k)) := fun k hk => if_neg (by omega)
    have hflags : d.readU32 (off + 4) = some (le32 d.byte (off + 4)) := if_neg (by omega)
    simp only [readPhdr, hread 8 (by omega), hread 16 (by omega), hread 24 (by omega), hread 32 (by omega), hread 40 (by omega),
      hflags, Option.bind_eq_bind, Option.bind_some]
    rfl
  · rename_i hout
    have hnone : d.readU64 (off + 40) = none := if_pos (by omega)
    simp [readPhdr, hnone]

/-- What the checks let through: a fine segment is refused or loaded, otherwise
there is a panic or a write where none should be. -/
lemma Phdr.load_cases (d : Slice) (regions : List MemoryRegion) (m : Mem) (ph : Phdr) :
    (ph.Fine d regions ∧ ¬ ph.Loads d regions ∧ ph.load d regions m = .refused) ∨
    (ph.Fine d regions ∧ ph.Loads d regions ∧ ph.filesz ≤ ph.memsz ∧ ph.load d regions m = .next (ph.copy d m) ph.writes) ∨
    (¬ ph.Fine d regions ∧ (ph.load d regions m = .panic ∨
      ∃ m' ws, ph.load d regions m = .next m' ws ∧ ∃ w ∈ ws, ¬ w.Confined regions)) := by
  unfold Phdr.load
  by_cases hadm : ph.Admitted regions
  swap
  · refine .inl ⟨fun h => absurd h hadm, fun h => hadm h.1, ?_⟩
    split
    · rfl
    · rename_i hend
      rw [if_pos]
      rw [Bool.not_eq_true']
      exact Bool.eq_false_iff.mpr fun hreg => hadm ⟨Nat.le_of_not_gt hend, hreg⟩
  have hreg : ¬ (!addrInAnyRegion ph.paddr ph.memsz regions) = true := by rw [hadm.2]; decide
  rw [if_neg (Nat.not_lt.mpr hadm.1), if_neg hreg]
  by_cases hsum : ph.offset + ph.filesz > u64Max
  · rw [if_pos hsum]
    exact .inr (.inr ⟨fun h => Nat.not_le.mpr hsum (h hadm).1, .inl rfl⟩)
  rw [if_neg hsum]
  have hsum : ph.offset + ph.filesz ≤ u64Max := Nat.le_of_not_gt hsum
  by_cases hout : ph.offset + ph.filesz > d.len
  · rw [if_pos hout]
    exact .inl ⟨fun _ => ⟨hsum, fun hin => absurd hin (Nat.not_le.mpr hout)⟩, fun h => Nat.not_le.mpr hout h.2, rfl⟩
  rw [if_neg hout]
  have hin : ph.offset + ph.filesz ≤ d.len := Nat.le_of_not_gt hout
  by_cases hok : ph.pointersOk d = true
  swap
  · rw [if_pos (by rw [Bool.eq_false_iff.mpr hok]; rfl)]
    exact .inr (.inr ⟨fun h => hok ((h hadm).2 hin).2, .inl rfl⟩)
  rw [if_neg (by rw [hok]; decide)]
  by_cases hfit : ph.filesz ≤ ph.memsz
  · exact .inr (.inl ⟨fun _ => ⟨hsum, fun _ => ⟨hfit, hok⟩⟩, ⟨hadm, hin⟩, hfit, rfl⟩)
  · exact .inr (.inr ⟨fun h => hfit ((h hadm).2 hin).1, .inr ⟨_, _, rfl, Phdr.not_writes_confined hfit⟩⟩)

/-- The same for a turn of the loop. -/
lemma loadSegment_cases (d : Slice) (regions : List MemoryRegion) (m : Mem) (i : ℕ) :
    (Fine d regions i ∧ ¬ Loads d regions i ∧
      loadSegment d regions m (d.ehdr.phoff + i * d.ehdr.phentsize) = .refused) ∨
    (Fine d regions i ∧ Loads d regions i ∧ (d.phdr i).pType ≠ ptLoad ∧
      loadSegment d regions m (d.ehdr.phoff + i * d.ehdr.phentsize) = .next m []) ∨
    (Fine d regions i ∧ Loads d regions i ∧ (d.phdr i).pType = ptLoad ∧ (d.phdr i).filesz ≤ (d.phdr i).memsz ∧
      loadSegment d regions m (d.ehdr.phoff + i * d.ehdr.phentsize) = .next ((d.phdr i).copy d m) (d.phdr i).writes) ∨
    (¬ Fine d regions i ∧ (loadSegment d regions m (d.ehdr.phoff + i * d.ehdr.phentsize) = .panic ∨
      ∃ m' ws, loadSegment d regions m (d.ehdr.phoff + i * d.ehdr.phentsize) = .next m' ws ∧
        ∃ w ∈ ws, ¬ w.Confined regions)) := by
  by_cases htype : d.ehdr.phoff + i * d.ehdr.phentsize + 4 ≤ d.len
  swap
  · have hnone : d.readU32 (d.ehdr.phoff + i * d.ehdr.phentsize) = none := if_pos (by omega)
    refine .inr (.inr (.inr ⟨fun h => htype h.1, .inl ?_⟩))
    rw [loadSegment, hnone]
  have hread : d.readU32 (d.ehdr.phoff + i * d.ehdr.phentsize) = some (d.phdr i).pType := if_neg (by omega)
  by_cases hload : (d.phdr i).pType = ptLoad
  swap
  · refine .inr (.inl ⟨⟨htype, fun h => absurd h hload⟩, fun h => absurd h hload, hload, ?_⟩)
    rw [loadSegment, hread]
    exact if_pos hload
  have hturn : loadSegment d regions m (d.ehdr.phoff + i * d.ehdr.phentsize) =
      match (if d.ehdr.phoff + i * d.ehdr.phentsize + 48 ≤ d.len then some (d.phdr i) else none : Option Phdr) with
      | none => .panic
      | some ph => ph.load d regions m := by
    rw [loadSegment, hread, ← readPhdr_eq hload]
    exact if_neg (not_not.mpr hload)
  by_cases hin : d.ehdr.phoff + i * d.ehdr.phentsize + 48 ≤ d.len
  swap
  · refine .inr (.inr (.inr ⟨fun h => hin (h.2 hload).1, .inl ?_⟩))
    rw [hturn, if_neg hin]
  rw [if_pos hin] at hturn
  rw [hturn]
  rcases (d.phdr i).load_cases d regions m with ⟨hf, hl, heq⟩ | ⟨hf, hl, hfit, heq⟩ | ⟨hf, hbad⟩
  · exact .inl ⟨⟨htype, fun _ => ⟨hin, hf⟩⟩, fun h => hl (h hload), heq⟩
  · exact .inr (.inr (.inl ⟨⟨htype, fun _ => ⟨hin, hf⟩⟩, fun _ => hl, hload, hfit, heq⟩))
  · exact .inr (.inr (.inr ⟨fun h => hf (h.2 hload).2, hbad⟩))

/-! ### The loop -/

/-- A turn that goes on has done nothing, or copied the segment. -/
lemma loadSegment_next {m' : Mem} {ws : List Write}
    (h : loadSegment d regions m (d.ehdr.phoff + i * d.ehdr.phentsize) = .next m' ws) :
    (m' = m ∧ ws = []) ∨ (m' = (d.phdr i).copy d m ∧ ws = (d.phdr i).writes) := by
  have hload : (d.phdr i).load d regions m = .next m' ws → m' = (d.phdr i).copy d m ∧ ws = (d.phdr i).writes := by
    intro h
    unfold Phdr.load at h
    split at h
    · cases h
    split at h
    · cases h
    split at h
    · cases h
    split at h
    · cases h
    split at h
    · cases h
    cases h
    exact ⟨rfl, rfl⟩
  unfold loadSegment at h
  split at h
  · cases h
  rename_i pType htype
  have hp : pType = (d.phdr i).pType := by
    unfold Slice.readU32 at htype
    split at htype
    · cases htype
    · exact (Option.some.inj htype).symm
  split at h
  · cases h
    exact .inl ⟨rfl, rfl⟩
  rename_i hpt
  rw [readPhdr_eq (hp ▸ not_not.mp hpt)] at h
  split at h
  · cases h
  · rename_i ph hph
    obtain ⟨-, hph⟩ := Option.ite_none_right_eq_some.mp hph
    rw [← Option.some.inj hph] at h
    exact .inr (hload h)

lemma Phdr.segment_writes {w : Write} (hw : w ∈ ph.writes) : w.segment = ph := by
  rcases mem_cons.mp hw with rfl | hw
  · rfl
  · split at hw
    · rw [mem_singleton.mp hw]
    · cases hw

/-- What is logged stays in the log. -/
lemma mem_writes {w : Write} : ∀ {n i : ℕ} {m : Mem} {ws : List Write}, w ∈ ws →
    w ∈ (loadSegments d regions d.ehdr n i m ws).writes
  | 0, _, _, _, hw => hw
  | n + 1, i, m, ws, hw => by
    rw [loadSegments]
    split
    · exact hw
    · exact hw
    · exact mem_writes (mem_append_left _ hw)

/-- What is logged is for a segment of the file. -/
lemma segment_of_mem_writes {w : Write} : ∀ {n i : ℕ} {m : Mem} {ws : List Write},
    w ∈ (loadSegments d regions d.ehdr n i m ws).writes → w ∈ ws ∨ ∃ j, i ≤ j ∧ j < i + n ∧ w.segment = d.phdr j
  | 0, _, _, _, hw => .inl hw
  | n + 1, i, m, ws, hw => by
    rw [loadSegments] at hw
    split at hw
    · exact .inl hw
    · exact .inl hw
    · rename_i m' ws' heq
      rcases segment_of_mem_writes hw with hw | ⟨j, hj, hjn, hseg⟩
      · rcases mem_append.mp hw with hw | hw
        · exact .inl hw
        · rcases loadSegment_next heq with ⟨-, rfl⟩ | ⟨-, rfl⟩
          · cases hw
          · exact .inr ⟨i, Nat.le_refl i, by omega, Phdr.segment_writes hw⟩
      · exact .inr ⟨j, by omega, by omega, hseg⟩

/-- What is not logged is not written. -/
lemma loadSegments_frame {a : ℕ} : ∀ {n i : ℕ} {m : Mem} {ws : List Write},
    (∀ w ∈ (loadSegments d regions d.ehdr n i m ws).writes, ¬ w.Covers a) →
    (loadSegments d regions d.ehdr n i m ws).mem a = m a
  | 0, _, _, _, _ => rfl
  | n + 1, i, m, ws, ha => by
    rw [loadSegments] at ha ⊢
    split at ha
    · rfl
    · rfl
    · rename_i m' ws' heq
      refine (loadSegments_frame ha).trans ?_
      rcases loadSegment_next heq with ⟨rfl, -⟩ | ⟨rfl, rfl⟩
      · rfl
      · exact Phdr.copy_frame fun w hw => ha w (mem_writes (mem_append_right _ hw))

/-- The headers from `i` on are fine, as far as the loop comes. -/
def FineFrom (d : Slice) (regions : List MemoryRegion) (n i : ℕ) : Prop :=
  ∀ j, i ≤ j → j < i + n → (∀ k, i ≤ k → k < j → Loads d regions k) → Fine d regions j

lemma fineFrom_succ {n : ℕ} :
    FineFrom d regions (n + 1) i ↔ Fine d regions i ∧ (Loads d regions i → FineFrom d regions n (i + 1)) := by
  constructor
  · intro h
    refine ⟨h i (Nat.le_refl i) (by omega) fun k hl hr => by omega, fun hi j hl hr hbefore => h j (by omega) (by omega) fun k hk hkj => ?_⟩
    rcases Nat.eq_or_lt_of_le hk with rfl | hlt
    · exact hi
    · exact hbefore k hlt hkj
  · rintro ⟨hi, hrest⟩ j hl hr hbefore
    rcases Nat.eq_or_lt_of_le hl with rfl | hlt
    · exact hi
    · exact hrest (hbefore i (Nat.le_refl i) hlt) j hlt (by omega) fun k hk hkj => hbefore k (by omega) hkj

/-- The loop neither panics nor writes outside of a segment exactly if the
headers are fine. -/
lemma loadSegments_confined_iff : ∀ {n i : ℕ} {m : Mem} {ws : List Write}, (∀ w ∈ ws, w.Confined regions) →
    (((loadSegments d regions d.ehdr n i m ws).outcome ≠ .panic ∧
      ∀ w ∈ (loadSegments d regions d.ehdr n i m ws).writes, w.Confined regions) ↔ FineFrom d regions n i)
  | 0, i, m, ws, hws => by
    refine iff_of_true ⟨nofun, hws⟩ fun j hl hr => ?_
    omega
  | n + 1, i, m, ws, hws => by
    rw [loadSegments, fineFrom_succ]
    rcases loadSegment_cases d regions m i with
      ⟨hf, hl, heq⟩ | ⟨hf, hl, -, heq⟩ | ⟨hf, hl, ht, hfit, heq⟩ | ⟨hf, heq | ⟨m', w, heq, x, hx, hbad⟩⟩
    · rw [heq]
      exact iff_of_true ⟨nofun, hws⟩ ⟨hf, fun h => absurd h hl⟩
    · rw [heq, and_iff_right hf, forall_prop_of_true hl]
      refine loadSegments_confined_iff fun w hw => hws w ?_
      rwa [append_nil] at hw
    · rw [heq, and_iff_right hf, forall_prop_of_true hl]
      refine loadSegments_confined_iff fun w hw => ?_
      rcases mem_append.mp hw with hw | hw
      · exact hws w hw
      · exact (hl ht).1.writes_confined ht hfit w hw
    · rw [heq]
      exact iff_of_false (fun h => h.1 rfl) fun h => hf h.1
    · rw [heq]
      exact iff_of_false (fun h => hbad (h.2 x (mem_writes (mem_append_right _ hx)))) fun h => hf h.1

/-- Bytes in none of the segments stay as they are. -/
lemma loadSegments_keeps {a : ℕ} : ∀ {n i : ℕ} {m : Mem} {ws : List Write}, FineFrom d regions n i →
    (∀ j, i ≤ j → j < i + n → (d.phdr j).pType = ptLoad → ¬ (d.phdr j).Spans a) →
    (loadSegments d regions d.ehdr n i m ws).mem a = m a
  | 0, _, _, _, _, _ => rfl
  | n + 1, i, m, ws, hfine, ha => by
    obtain ⟨hi, hrest⟩ := fineFrom_succ.mp hfine
    have hrec : ∀ {m' : Mem} {ws' : List Write}, Loads d regions i →
        (loadSegments d regions d.ehdr n (i + 1) m' ws').mem a = m' a := fun hl =>
      loadSegments_keeps (hrest hl) fun j hj hjn => ha j (by omega) (by omega)
    rw [loadSegments]
    rcases loadSegment_cases d regions m i with ⟨-, -, heq⟩ | ⟨-, hl, -, heq⟩ | ⟨-, hl, ht, hfit, heq⟩ | ⟨hf, -⟩
    · rw [heq]
    · rw [heq]
      exact hrec hl
    · rw [heq]
      refine (hrec hl).trans (Phdr.copy_frame fun w hw hc => ?_)
      have hspan := (((hl ht).1.writes_confined ht hfit w hw).2 a hc).2
      rw [Phdr.segment_writes hw] at hspan
      exact ha i (Nat.le_refl i) (by omega) ht hspan
    · exact absurd hi hf

/-- After the loop, every segment holds its bytes. -/
lemma loadSegments_holds {addr : ℕ} (hapart : d.Apart) : ∀ {n i : ℕ} {m : Mem} {ws : List Write}, FineFrom d regions n i →
    i + n = d.ehdr.phnum → (loadSegments d regions d.ehdr n i m ws).outcome = .entry addr →
    addr = d.ehdr.entry ∧ ∀ j, i ≤ j → j < i + n → (d.phdr j).pType = ptLoad →
      (d.phdr j).Holds d (loadSegments d regions d.ehdr n i m ws).mem
  | 0, i, m, ws, _, _, he => by
    refine ⟨(Outcome.entry.inj he).symm, fun j hl hr => ?_⟩
    omega
  | n + 1, i, m, ws, hfine, hn, he => by
    obtain ⟨hi, hrest⟩ := fineFrom_succ.mp hfine
    rw [loadSegments] at he ⊢
    rcases loadSegment_cases d regions m i with ⟨-, -, heq⟩ | ⟨-, hl, ht, heq⟩ | ⟨-, hl, ht, hfit, heq⟩ | ⟨hf, -⟩
    · rw [heq] at he
      cases he
    · rw [heq] at he ⊢
      obtain ⟨haddr, hseg⟩ := loadSegments_holds hapart (hrest hl) (by omega) he
      refine ⟨haddr, fun j hj hjn hload => ?_⟩
      rcases Nat.eq_or_lt_of_le hj with rfl | hlt
      · exact absurd hload ht
      · exact hseg j hlt (by omega) hload
    · rw [heq] at he ⊢
      obtain ⟨haddr, hseg⟩ := loadSegments_holds hapart (hrest hl) (by omega) he
      refine ⟨haddr, fun j hj hjn hload => ?_⟩
      rcases Nat.eq_or_lt_of_le hj with rfl | hlt
      · -- no later segment touches the bytes of this one
        have hkeep : ∀ k, k < (d.phdr i).memsz →
            (loadSegments d regions d.ehdr n (i + 1) ((d.phdr i).copy d m) (ws ++ (d.phdr i).writes)).mem ((d.phdr i).paddr + k) =
              (d.phdr i).copy d m ((d.phdr i).paddr + k) := by
          intro k hk
          refine loadSegments_keeps (hrest hl) fun j hj hjn hj' hspan => ?_
          exact hapart.1 i j hj (by omega) ht hj' _ ⟨⟨Nat.le_add_right _ _, Nat.add_lt_add_left hk _⟩, hspan⟩
        obtain ⟨hbytes, hzero⟩ : (d.phdr i).Holds d ((d.phdr i).copy d m) := Phdr.copy_holds hfit
        exact ⟨fun k hk => (hkeep k (Nat.lt_of_lt_of_le hk hfit)).trans (hbytes k hk),
          fun k hk hkm => (hkeep k hkm).trans (hzero k hk hkm)⟩
      · exact hseg j hlt (by omega) hload
    · exact absurd hi hf

/-! ### The whole file -/

lemma readEhdr_eq (h : 64 ≤ d.len) : readEhdr d = some d.ehdr := by
  have h16 : ∀ o ≤ 56, d.readU16 o = some (le16 d.byte o) := fun o ho => if_neg (by omega)
  have h64 : ∀ o ≤ 56, d.readU64 o = some (le64 d.byte o) := fun o ho => if_neg (by omega)
  simp only [readEhdr, h16 16 (by omega), h64 24 (by omega), h64 32 (by omega), h16 54 (by omega), h16 56 (by omega),
    Option.bind_eq_bind, Option.bind_some]
  rfl

/-- A file that is refused at once. -/
lemma confined_refused : Confined d regions m ⟨m, [], .refused⟩ :=
  ⟨nofun, nofun, nofun, fun _ _ => rfl, fun _ _ _ => rfl, nofun⟩

lemma loadElf_of_not_isElf (h : ¬ d.IsElf) (memoryRegions : List MemoryRegion) (regionCount : ℕ) :
    loadElf d memoryRegions regionCount m = ⟨m, [], .refused⟩ := by
  unfold loadElf
  split
  · rfl
  rename_i hlen
  split
  · rfl
  rename_i hmagic
  split
  · rfl
  rename_i hclass
  split
  · rfl
  rename_i hdata
  rw [readEhdr_eq (Nat.le_of_not_gt hlen)]
  dsimp only
  rw [if_pos]
  intro htype
  exact h ⟨Nat.le_of_not_gt hlen, not_not.mp hmagic, not_not.mp hclass, not_not.mp hdata, htype⟩

lemma loadElf_of_isElf (h : d.IsElf) (memoryRegions : List MemoryRegion) (regionCount : ℕ) :
    loadElf d memoryRegions regionCount m =
      if d.ehdr.phoff + d.ehdr.phnum * d.ehdr.phentsize > u64Max then ⟨m, [], .panic⟩
      else if d.ehdr.phoff + d.ehdr.phnum * d.ehdr.phentsize > d.len then ⟨m, [], .refused⟩
      else loadSegments d (memoryRegions.take regionCount) d.ehdr d.ehdr.phnum 0 m [] := by
  obtain ⟨hlen, hmagic, hclass, hdata, htype⟩ := h
  unfold loadElf
  rw [if_neg (Nat.not_lt.mpr hlen), if_neg (not_not.mpr hmagic), if_neg (not_not.mpr hclass), if_neg (not_not.mpr hdata),
    readEhdr_eq hlen]
  exact if_neg (not_not.mpr htype)

/-- `load_elf` returns, writes only inside of segments in one region below 1 GiB
and loads every segment as the file has it, exactly for the sound files. -/
theorem load_elf_confined (d : Slice) (memoryRegions : List MemoryRegion) (regionCount : ℕ) (m : Mem)
    (hclear : d.Clear (memoryRegions.take regionCount)) :
    Confined d (memoryRegions.take regionCount) m (loadElf d memoryRegions regionCount m) ↔
      Sound d (memoryRegions.take regionCount) := by
  by_cases helf : d.IsElf
  swap
  · rw [loadElf_of_not_isElf helf]
    exact iff_of_true confined_refused fun h => absurd h helf
  rw [loadElf_of_isElf helf]
  split
  · rename_i hover
    exact iff_of_false (fun h => h.returns rfl) fun h => Nat.not_le.mpr hover (h helf).1
  rename_i hover
  split
  · rename_i hout
    exact iff_of_true confined_refused fun _ => ⟨Nat.le_of_not_gt hover, fun hin => absurd hin (Nat.not_le.mpr hout)⟩
  rename_i hout
  have hconf : ((loadSegments d (memoryRegions.take regionCount) d.ehdr d.ehdr.phnum 0 m []).outcome ≠ .panic ∧
      ∀ w ∈ (loadSegments d (memoryRegions.take regionCount) d.ehdr d.ehdr.phnum 0 m []).writes,
        w.Confined (memoryRegions.take regionCount)) ↔ FineFrom d (memoryRegions.take regionCount) d.ehdr.phnum 0 :=
    loadSegments_confined_iff nofun
  constructor
  · intro h _
    refine ⟨Nat.le_of_not_gt hover, fun _ i hi hbefore => ?_⟩
    exact hconf.mp ⟨h.returns, h.writes⟩ i (Nat.zero_le i) (by omega) fun k _ hk => hbefore k hk
  · intro h
    have hfine : FineFrom d (memoryRegions.take regionCount) d.ehdr.phnum 0 := fun j _ hj hbefore =>
      (h helf).2 (Nat.le_of_not_gt hout) j (by omega) fun k hk => hbefore k (Nat.zero_le k) hk
    obtain ⟨hreturns, hwrites⟩ := hconf.mpr hfine
    refine ⟨hreturns, fun w hw => ?_, hwrites, fun a ha => loadSegments_frame ha, fun a hlo hhi => ?_, fun addr he hapart => ?_⟩
    · rcases segment_of_mem_writes hw with hw | ⟨j, -, hj, hseg⟩
      · cases hw
      · exact ⟨j, by omega, hseg⟩
    · refine loadSegments_frame fun w hw hc => ?_
      obtain ⟨⟨⟨r, hr, hstart, hend⟩, -⟩, hfrom, hto⟩ := (hwrites w hw).2 a hc
      have := hclear r hr
      omega
    obtain ⟨haddr, hseg⟩ := loadSegments_holds hapart hfine (Nat.zero_add _) he
    exact ⟨haddr, fun i hi => hseg i (Nat.zero_le i) (by omega)⟩

/-- A file of one segment, for 1 MiB, with all of the file as its bytes. -/
def oneSegment (memsz : ℕ) : Slice where
  bytes :=
    elfMagic ++ [2, 1, 1] ++ List.replicate 9 0 ++ [2, 0, 0x3E, 0] ++ bytes32 1 ++ bytes32 0x100000 ++ bytes32 0 ++
    bytes32 64 ++ bytes32 0 ++ bytes32 0 ++ bytes32 0 ++ bytes32 0 ++ [64, 0, 56, 0, 1, 0] ++ List.replicate 6 0 ++
    bytes32 1 ++ bytes32 5 ++ bytes32 0 ++ bytes32 0 ++ bytes32 0x100000 ++ bytes32 0 ++ bytes32 0x100000 ++ bytes32 0 ++
    bytes32 120 ++ bytes32 0 ++ bytes32 memsz ++ bytes32 0 ++ bytes32 0x1000 ++ bytes32 0
  addr := 0x8000000

/-- 120 bytes and 8 zeros, to a region that has room for them. -/
theorem load_elf_confined_fits : (loadElf (oneSegment 128) [⟨0x100000, 128⟩] 1 fun _ => 0).outcome = .entry 0x100000 ∧
    Confined (oneSegment 128) [⟨0x100000, 128⟩] (fun _ => 0) (loadElf (oneSegment 128) [⟨0x100000, 128⟩] 1 fun _ => 0) := by
  refine ⟨by decide +kernel, (load_elf_confined _ [⟨0x100000, 128⟩] 1 _ ?_).mpr fun _ => ⟨by decide +kernel, ?_⟩⟩
  · intro r hr
    rw [List.mem_singleton.mp hr]
    exact .inl (by decide)
  · intro _ i hi _
    obtain rfl : i = 0 := Nat.lt_one_iff.mp (hi.trans_eq (by decide +kernel))
    exact ⟨by decide +kernel, fun _ => ⟨by decide +kernel, fun _ => by decide +kernel⟩⟩

/-- Of 120 bytes in the file and 16 in memory, all 120 are written, to a region
of 16. -/
theorem load_elf_confined_overrun : ∃ d m, ¬ Confined d [⟨0x100000, 16⟩] m (loadElf d [⟨0x100000, 16⟩] 1 m) := by
  refine ⟨oneSegment 16, fun _ => 0, fun h => ?_⟩
  have hwrites : (loadElf (oneSegment 16) [⟨0x100000, 16⟩] 1 fun _ => 0).writes =
      [⟨⟨1, 0, 0x100000, 120, 16⟩, 0x100000, 120⟩] := by decide +kernel
  have hw := h.writes
  rw [hwrites] at hw
  obtain ⟨-, -, hlt⟩ := (hw _ List.mem_cons_self).2 0x100010 ⟨by decide, by decide⟩
  exact Nat.lt_irrefl _ hlt

end LodaxOS.Boot
