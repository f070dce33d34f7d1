/-
# Well-formed tables

The invariant of the page tables and of the allocator they take their pages
from (`Tables`): every table has one place, its words name tables of the place
below, its page is held, and the words are those the kernel writes (`Sane`): a
huge-page bit only in a PD entry, and names of tables writable and
executable. A table is then reached where it lies, and a page that the
allocator hands out is no table yet, so it may be hung in (`Tables.hang`).
-/
import LodaxOS.Lib.Partial
import LodaxOS.Phys.Buddy
import LodaxOS.Virt.Entries

namespace LodaxOS.Virt

open Phys (pageSize Inv)
open Radix Partial Function Multiset

/-- The present words that the kernel writes into tables: the huge-page bit
stands in PD entries only, and an entry that names a table is writable and
executable. -/
def Sane (level w : ℕ) : Prop :=
  w.testBit 0 = true → (2 ≤ level → w.testBit 7 = false) ∧
    (1 ≤ level → w.testBit 7 = false → w.testBit 1 = true ∧ w.testBit 63 = false)

lemma sane_zero (level : ℕ) : Sane level 0 := by simp [Sane]

lemma sane_pt (w : ℕ) : Sane 0 w := fun _ => ⟨by omega, by omega⟩

/-- The level and the place of each page that is a table. -/
abbrev Owners := ℕ → Option (ℕ × ℕ)

/-- The tables of all address spaces: `own` gives each its place, `M` is the
pages that are held, tables or not. -/
structure Tables (z : Phys.State) (own : ℕ → Option (ℕ × ℕ)) (M : Multiset ℕ) (m : Machine) : Prop where
  alloc : Inv z m.phys M
  tree : Tree 512 decode own m.mem
  sane : ∀ f l q i, own f = some (l, q) → i < 512 → Sane l (m.mem f i)
  page : ∀ f p, own f = some p → pageSize ∣ f ∧ f / pageSize ∈ M

/-- More tables and pages, and the registers as they were. -/
structure Grown (own : ℕ → Option (ℕ × ℕ)) (M : Multiset ℕ) (m : Machine) (own' : ℕ → Option (ℕ × ℕ))
    (M' : Multiset ℕ) (m' : Machine) : Prop where
  ext : Extends own own'
  held : M ≤ M'
  regs : m'.ptInitialized = m.ptInitialized ∧ m'.kernelPml4 = m.kernelPml4 ∧ m'.cr3 = m.cr3

lemma Grown.refl (own : Owners) (M : Multiset ℕ) (m : Machine) : Grown own M m own M m :=
  ⟨Extends.refl own, le_rfl, rfl, rfl, rfl⟩

variable {own own' own'' : Owners} {M M' M'' : Multiset ℕ} {m m' m'' : Machine}

lemma Grown.trans (h : Grown own M m own' M' m') (h' : Grown own' M' m' own'' M'' m'') : Grown own M m own'' M'' m'' :=
  ⟨h.ext.trans h'.ext, h.held.trans h'.held, h'.regs.1.trans h.regs.1, h'.regs.2.1.trans h.regs.2.1,
    h'.regs.2.2.trans h.regs.2.2⟩

/-! ### Flags of entries that name tables -/

/-- `WRITABLE`, with or without `USER`. -/
def TableFlags (f : ℕ) : Prop := f = writable ∨ f = writable ||| user

lemma tableFlags_user (flags : ℕ) : TableFlags (writable ||| (flags &&& user)) := by
  rw [show user = 2 ^ 2 from rfl, Nat.and_two_pow]
  cases flags.testBit 2
  · exact .inl rfl
  · exact .inr rfl

variable {f : ℕ}

lemma TableFlags.and_mask (h : TableFlags f) : (f ||| present) &&& physAddrMask = 0 := by
  rcases h with rfl | rfl <;> decide

lemma TableFlags.testBit_seven (h : TableFlags f) : (f ||| present).testBit 7 = false := by
  rcases h with rfl | rfl <;> decide

lemma TableFlags.testBit_one (h : TableFlags f) : (f ||| present).testBit 1 = true := by
  rcases h with rfl | rfl <;> decide

lemma TableFlags.testBit_nx (h : TableFlags f) : (f ||| present).testBit 63 = false := by
  rcases h with rfl | rfl <;> decide

lemma testBit_present (f : ℕ) : (f ||| present).testBit 0 = true := by
  rw [Nat.testBit_or, show present = 2 ^ 0 from rfl, Nat.testBit_two_pow_self, Bool.or_true]

lemma lt_address {g : ℕ} (hlt : g < directMapSize) : g < 2 ^ 52 := lt_trans hlt (by decide)

section Pointer

variable {g f l : ℕ} (hg : pageSize ∣ g) (hlt : g < directMapSize) (hf : TableFlags f)

include hg hlt hf

/-- An entry that names a new table. -/
lemma decode_pointer (hl : l ≠ 0) : decode l (g ||| f ||| present) = .table g := by
  rw [Nat.or_assoc, decode_eq_table]
  refine ⟨?_, hl, ?_, entry_addr hg (lt_address hlt) hf.and_mask⟩
  · rw [entry_testBit hg (by norm_num)]; exact testBit_present f
  · rw [entry_testBit hg (by norm_num)]; exact hf.testBit_seven

lemma sane_pointer : Sane l (g ||| f ||| present) := by
  rw [Nat.or_assoc]
  refine fun _ => ⟨fun _ => ?_, fun _ _ => ⟨?_, ?_⟩⟩
  · rw [entry_testBit hg (by norm_num)]; exact hf.testBit_seven
  · rw [entry_testBit hg (by norm_num)]; exact hf.testBit_one
  · rw [entry_testBit_high (lt_address hlt) (by norm_num)]; exact hf.testBit_nx

end Pointer

/-! ### Reaching tables and taking pages -/

variable {z : Phys.State} {s phys : Phys.State} {a page : ℕ} {p : ℕ × ℕ} {u : Unit} {ws : ℕ → ℕ}

section

variable (hz : z.zone.top ≤ directMapSize)

include hz

lemma held_lt (hI : Inv z s M) (ha : pageSize ∣ a) (h : a / pageSize ∈ M) : a < directMapSize := by
  have hu := (hI.usable _ (mem_add.mpr (.inr h))).2.1
  obtain ⟨k, rfl⟩ := ha
  rw [Nat.mul_div_cancel_left _ Phys.pageSize_pos] at hu
  simp only [pageSize] at *
  omega

lemma Tables.lt (hT : Tables z own M m) {f : ℕ} (hf : own f = some p) : f < directMapSize :=
  held_lt hz hT.alloc (hT.page f p hf).1 (hT.page f p hf).2

omit hz in
lemma physToVirtual_page (ha : pageSize ∣ a) (hlt : a < directMapSize) : physToVirtual a = some a := by
  have h1 : ¬ a ≥ higherHalf := by
    simp only [directMapSize, higherHalf] at *
    omega
  rw [physToVirtual, if_neg h1, and_physAddrMask_page ha (lt_trans hlt (by decide))]
  exact if_neg (by omega)

lemma Tables.physToVirtual_eq (hT : Tables z own M m) {f : ℕ} (hf : own f = some p) : physToVirtual f = some f :=
  physToVirtual_page (hT.page f p hf).1 (hT.lt hz hf)

end

/-- A way to address new pages of the direct map. -/
def Reaching (reach : ℕ → Op ℕ) : Prop := ∀ (a x : ℕ) (m m' : Machine), pageSize ∣ a → a < directMapSize →
  reach a m = some (x, m') → x = a ∧ m' = m

lemma reaching_pure : Reaching pure := by
  intro a x m m' _ _ h
  rw [pure_eq_some] at h
  exact ⟨h.1.symm, h.2.symm⟩

lemma toVirtual_eq_some {x : ℕ} : toVirtual a m = some (x, m') ↔ physToVirtual a = some x ∧ m' = m := by
  unfold toVirtual
  cases physToVirtual a with
  | none => simp
  | some t => simp [eq_comm]

lemma reaching_toVirtual : Reaching toVirtual := by
  intro a x m m' ha hlt h
  rw [toVirtual_eq_some, physToVirtual_page ha hlt] at h
  exact ⟨(Option.some.inj h.1).symm, h.2⟩

lemma Tables.toVirtual (hz : z.zone.top ≤ directMapSize) (hT : Tables z own M m) {f x : ℕ}
    (hf : own f = some p) (h : toVirtual f m = some (x, m')) : x = f ∧ m' = m :=
  reaching_toVirtual f x m m' (hT.page f p hf).1 (hT.lt hz hf) h

/-- A page from the allocator was held by no one. -/
lemma alloc_inv (hI : Inv z s M) (h : (Phys.allocPage.run s).1 = some page) :
    pageSize ∣ page ∧ Inv z (Phys.allocPage.run s).2 (page / pageSize ::ₘ M) := by
  have hsafe := Phys.safe_inv (z := z) fun J hJ => Phys.allocOrder_safe hJ 0
  rw [← zero_add M] at hI
  obtain ⟨held, hI', hQ⟩ := hsafe.run hI
  unfold Phys.allocPage at h ⊢
  rw [h] at hQ
  obtain ⟨rfl, -, -, hd⟩ := hQ
  refine ⟨Phys.pageSize_dvd_of_block hd, ?_⟩
  have he : Phys.rangePages page (2 ^ 0) + M = page / pageSize ::ₘ M := by simp [Phys.rangePages]
  rwa [he] at hI'

/-- Without a page, the allocator holds what it held. -/
lemma alloc_none_inv (hI : Inv z s M) (h : (Phys.allocPage.run s).1 = none) : Inv z (Phys.allocPage.run s).2 M := by
  have hsafe := Phys.safe_inv (z := z) fun J hJ => Phys.allocOrder_safe hJ 0
  rw [← zero_add M] at hI
  obtain ⟨held, hI', hQ⟩ := hsafe.run hI
  unfold Phys.allocPage at h ⊢
  rw [h] at hQ
  obtain rfl : held = 0 := hQ
  rwa [zero_add] at hI'

lemma tryAllocPage_eq_some {r : Option ℕ} : tryAllocPage m = some (r, m') ↔
    (Phys.allocPage.run m.phys).1 = r ∧ { m with phys := (Phys.allocPage.run m.phys).2 } = m' := by
  simp [tryAllocPage]

lemma allocPage_eq_some : allocPage m = some (page, m') ↔ tryAllocPage m = some (some page, m') := by
  unfold allocPage
  rw [bind_eq_some]
  constructor
  · rintro ⟨r, m1, h, h'⟩
    cases r with
    | none => exact absurd h' failure_ne_some
    | some page' =>
      obtain ⟨rfl, rfl⟩ := pure_eq_some.mp h'
      exact h
  · exact fun h => ⟨some page, m', h, pure_eq_some.mpr ⟨rfl, rfl⟩⟩

/-- A page taken from the allocator in state `s`, new to the tables. -/
structure Fresh (z : Phys.State) (own : ℕ → Option (ℕ × ℕ)) (M : Multiset ℕ) (s : Phys.State) (page : ℕ)
    (phys : Phys.State) : Prop where
  taken : Phys.allocPage.run s = (some page, phys)
  aligned : pageSize ∣ page
  lt : page < directMapSize
  unowned : own page = none
  alloc : Inv z phys (page / pageSize ::ₘ M)

lemma Fresh.ne (h : Fresh z own M s page phys) (hf : own f = some p) : f ≠ page := by
  rintro rfl
  rw [h.unowned] at hf
  simp at hf

lemma Tables.fresh (hz : z.zone.top ≤ directMapSize) (hT : Tables z own M m)
    (h : tryAllocPage m = some (some page, m')) :
    ∃ phys, Fresh z own M m.phys page phys ∧ m' = { m with phys } := by
  obtain ⟨hr, rfl⟩ := tryAllocPage_eq_some.mp h
  obtain ⟨hd, hI⟩ := alloc_inv hT.alloc hr
  refine ⟨_, ⟨Prod.ext hr rfl, hd, held_lt hz hI hd (mem_cons_self _ _), ?_, hI⟩, rfl⟩
  -- the page of a table is held, and no page is held twice
  rw [Option.eq_none_iff_forall_ne_some]
  intro p hp
  have hnd := (nodup_add.mp hI.nodup).2.1
  exact (nodup_cons.mp hnd).1 (hT.page page p hp).2

lemma Tables.alloc_none (hT : Tables z own M m) (h : tryAllocPage m = some (none, m')) :
    Tables z own M m' ∧ Grown own M m own M m' := by
  obtain ⟨hr, rfl⟩ := tryAllocPage_eq_some.mp h
  exact ⟨⟨alloc_none_inv hT.alloc hr, hT.tree, hT.sane, hT.page⟩, Extends.refl own, le_rfl, rfl, rfl, rfl⟩

/-! ### Changes of words -/

lemma readEntry_eq_some {t i e : ℕ} : readEntry t i m = some (e, m') ↔ m.mem t i = e ∧ m = m' := by
  simp [readEntry]

lemma writeEntry_eq_some {t i e : ℕ} :
    writeEntry t i e m = some (u, m') ↔ { m with mem := m.mem.write t i e } = m' := by simp [writeEntry]

lemma writeTable_eq_some {t : ℕ} :
    writeTable t ws m = some (u, m') ↔ { m with mem := m.mem.fill t ws } = m' := by simp [writeTable]

/-- A word is written that names no table, or one of the place below. -/
lemma Tables.write (hT : Tables z own M m) {t l q i w : ℕ} (ht : own t = some (l, q)) (hs : Sane l w)
    (hw : ∀ g, decode l w = .table g → ∃ l', l = l' + 1 ∧ own g = some (l', q * 512 + i)) :
    Tables z own M { m with mem := m.mem.write t i w } where
  alloc := hT.alloc
  tree := hT.tree.write ht hw
  sane f k p j hf hj := by
    by_cases h : f = t ∧ j = i
    · obtain ⟨rfl, rfl⟩ := h
      obtain ⟨rfl, rfl⟩ : l = k ∧ q = p := by rw [ht] at hf; simpa using hf
      change Sane l (m.mem.write f j w f j)
      rwa [Mem.write_self]
    · change Sane k (m.mem.write t i w f j)
      rw [Mem.write_of_ne m.mem w h]
      exact hT.sane f k p j hf hj
  page := hT.page

/-- A PT entry may be any word. -/
lemma Tables.write_pt (hT : Tables z own M m) {t q : ℕ} (i w : ℕ) (ht : own t = some (0, q)) :
    Tables z own M { m with mem := m.mem.write t i w } :=
  hT.write ht (sane_pt w) fun _ hg => absurd rfl (decode_eq_table.mp hg).2.1

/-- The allocator alone moves on. -/
lemma Tables.setPhys (hT : Tables z own M m) (hle : M ≤ M') (hI : Inv z phys M') : Tables z own M' { m with phys } :=
  ⟨hI, hT.tree, hT.sane, fun f p hf => ⟨(hT.page f p hf).1, mem_of_le hle (hT.page f p hf).2⟩⟩

lemma Grown.setPhys (own : Owners) (m : Machine) (phys : Phys.State) (hle : M ≤ M') :
    Grown own M m own M' { m with phys } :=
  ⟨Extends.refl own, hle, rfl, rfl, rfl⟩

/-- A page that is held is filled with words that name no table, and gets a
place. -/
lemma Tables.fill (hT : Tables z own M m) (hd : pageSize ∣ page) (hM : page / pageSize ∈ M)
    (hown : own page = none) {l q : ℕ} (hs : ∀ i < 512, Sane l (ws i))
    (hws : ∀ i < 512, ∀ f, decode l (ws i) ≠ .table f) :
    Tables z (update own page (some (l, q))) M { m with mem := m.mem.fill page ws } where
  alloc := hT.alloc
  tree := by
    refine (hT.tree.fill hown).place (l, q) hown fun i hi f => ?_
    rw [Mem.fill_self]
    exact hws i hi f
  sane f k p j hf hj := by
    change Sane k (m.mem.fill page ws f j)
    by_cases h : f = page
    · subst h
      rw [update_self] at hf
      obtain ⟨rfl, rfl⟩ : l = k ∧ q = p := by simpa using hf
      rw [Mem.fill_self]
      exact hs j hj
    · rw [update_of_ne h] at hf
      rw [Mem.fill_of_ne m.mem ws h]
      exact hT.sane f k p j hf hj
  page f p hf := by
    by_cases h : f = page
    · subst h
      exact ⟨hd, hM⟩
    · rw [update_of_ne h] at hf
      exact hT.page f p hf

/-- A new page is filled and placed. -/
lemma Tables.place (hT : Tables z own M m) (hp : Fresh z own M s page phys)
    {l q : ℕ} (hs : ∀ i < 512, Sane l (ws i)) (hws : ∀ i < 512, ∀ f, decode l (ws i) ≠ .table f) :
    Tables z (update own page (some (l, q))) (page / pageSize ::ₘ M)
      { m with mem := m.mem.fill page ws, phys } :=
  (hT.setPhys (le_cons_self _ _) hp.alloc).fill hp.aligned (mem_cons_self _ _) hp.unowned hs hws

lemma Fresh.grown (hp : Fresh z own M s page phys) (p : ℕ × ℕ) (mem : Mem ℕ ℕ) :
    Grown own M m (update own page (some p)) (page / pageSize ::ₘ M) { m with mem, phys } :=
  ⟨extends_update p hp.unowned, le_cons_self _ _, rfl, rfl, rfl⟩

/-- The new page is hung into a place. -/
lemma Tables.hang (hT : Tables z own M m) (hp : Fresh z own M s page phys)
    {t l q i flags : ℕ} (ht : own t = some (l + 1, q)) (hf : TableFlags flags)
    (hs : ∀ i < 512, Sane l (ws i)) (hws : ∀ i < 512, ∀ f, decode l (ws i) ≠ .table f) :
    Tables z (update own page (some (l, q * 512 + i))) (page / pageSize ::ₘ M)
      { m with mem := m.mem.hang t i (page ||| flags ||| present) page ws, phys } := by
  have hpt : t ≠ page := hp.ne ht
  have hT' := hT.place hp (q := q * 512 + i) hs hws
  refine hT'.write (t := t) (l := l + 1) (q := q) (by rw [update_of_ne hpt]; exact ht)
    (sane_pointer hp.aligned hp.lt hf) fun g hg => ?_
  rw [decode_pointer hp.aligned hp.lt hf (by omega)] at hg
  obtain rfl : page = g := by simpa using hg
  exact ⟨l, rfl, update_self _ _ _⟩

lemma decode_hang (hp : Fresh z own M s page phys) {mem : Mem ℕ ℕ} {t l i flags : ℕ} (hf : TableFlags flags) :
    decode (l + 1) (mem.hang t i (page ||| flags ||| present) page ws t i) = .table page := by
  rw [Mem.hang_self]
  exact decode_pointer hp.aligned hp.lt hf (by omega)

lemma decode_newZeroed (l i f : ℕ) : decode l (newZeroed i) ≠ .table f := by simp [newZeroed, decode]

lemma Tables.hang_zeroed (hT : Tables z own M m) (hp : Fresh z own M s page phys)
    {t l q i flags : ℕ} (ht : own t = some (l + 1, q)) (hf : TableFlags flags) :
    Tables z (update own page (some (l, q * 512 + i))) (page / pageSize ::ₘ M)
      { m with mem := m.mem.hang t i (page ||| flags ||| present) page newZeroed, phys } :=
  hT.hang hp ht hf (fun _ _ => sane_zero l) fun i _ f => decode_newZeroed l i f

/-! ### Opening an entry -/

/-- What opening the entry `i` of the table `t` leaves: the table it named; or
an empty table in an entry that was not present; or, in a huge entry, a table
of its parts. -/
inductive Ensured (z : Phys.State) (own : ℕ → Option (ℕ × ℕ)) (M : Multiset ℕ) (child : ℕ → ℕ)
    (t i flags l g : ℕ) (m m' : Machine) : Prop
  | there (hD : decode (l + 1) (m.mem t i) = .table g) (hm : m' = m)
  | linked {phys : Phys.State} (hD : decode (l + 1) (m.mem t i) = .empty) (hp : Fresh z own M m.phys g phys)
      (hm : m' = { m with mem := m.mem.hang t i (g ||| flags ||| present) g newZeroed, phys })
  | split {phys : Phys.State} (hl : l = 0) (hD : decode 1 (m.mem t i) = .leaf) (hp : Fresh z own M m.phys g phys)
      (hm : m' = { m with
        mem := m.mem.hang t i (g ||| flags ||| present) g (splitPt (m.mem t i) (child (m.mem t i))), phys })

section Ensure

variable (hz : z.zone.top ≤ directMapSize) {reach : ℕ → Op ℕ} (hr : Reaching reach)

include hz hr

variable (hT : Tables z own M m)

include hT

/-- A page for a table is taken, filled and named by an entry. -/
lemma Tables.hang_run {t i flags : ℕ} (h : (do
      let page ← allocPage
      let pt ← reach page
      writeTable pt ws
      writeEntry t i (page ||| flags ||| present) : Op Unit) m = some (u, m')) :
    ∃ page phys, Fresh z own M m.phys page phys ∧
      m' = { m with mem := m.mem.hang t i (page ||| flags ||| present) page ws, phys } := by
  obtain ⟨page, m1, h1, h⟩ := bind_eq_some.mp h
  obtain ⟨pt, m2, h2, h⟩ := bind_eq_some.mp h
  obtain ⟨_, m3, h3, h⟩ := bind_eq_some.mp h
  obtain ⟨phys, hp, rfl⟩ := hT.fresh hz (allocPage_eq_some.mp h1)
  obtain ⟨rfl, rfl⟩ := hr _ _ _ _ hp.aligned hp.lt h2
  obtain rfl := writeTable_eq_some.mp h3
  obtain rfl := writeEntry_eq_some.mp h
  exact ⟨pt, phys, hp, rfl⟩

lemma Tables.link_run {t i flags : ℕ} (h : linkTable reach t i flags m = some (u, m')) :
    ((m.mem t i).testBit 0 = true ∧ m' = m) ∨ ((m.mem t i).testBit 0 = false ∧ ∃ page phys, Fresh z own M m.phys page phys ∧
      m' = { m with mem := m.mem.hang t i (page ||| flags ||| present) page newZeroed, phys }) := by
  unfold linkTable at h
  obtain ⟨e, m1, h1, h⟩ := bind_eq_some.mp h
  obtain ⟨rfl, rfl⟩ := readEntry_eq_some.mp h1
  by_cases h0 : (m.mem t i).testBit 0 = false
  · rw [if_pos ((and_present _).mpr h0)] at h
    exact .inr ⟨h0, hT.hang_run hz hr h⟩
  · rw [if_neg (mt (and_present _).mp h0), pure_eq_some] at h
    exact .inl ⟨by simpa using h0, h.2.symm⟩

lemma Tables.split_run {child : ℕ → ℕ} {t i flags level : ℕ}
    (h : splitTable reach child t i flags level m = some (u, m')) :
    ((m.mem t i).testBit 7 = false ∧ m' = m) ∨ ((m.mem t i).testBit 7 = true ∧ ∃ page ws phys,
      splitWords (m.mem t i) level (child (m.mem t i)) = some ws ∧ Fresh z own M m.phys page phys ∧
      m' = { m with mem := m.mem.hang t i (page ||| flags ||| present) page ws, phys }) := by
  unfold splitTable at h
  obtain ⟨e, m1, h1, h⟩ := bind_eq_some.mp h
  obtain ⟨rfl, rfl⟩ := readEntry_eq_some.mp h1
  by_cases h7 : (m.mem t i).testBit 7 = false
  · rw [if_neg (not_not.mpr ((and_pageSizeBit _).mpr h7)), pure_eq_some] at h
    exact .inl ⟨h7, h.2.symm⟩
  · rw [if_pos (mt (and_pageSizeBit _).mp h7)] at h
    refine .inr ⟨by simpa using h7, ?_⟩
    cases hws : splitWords (m.mem t i) level (child (m.mem t i)) with
    | none =>
      rw [hws] at h
      obtain ⟨_, _, -, h⟩ := bind_eq_some.mp h
      obtain ⟨_, _, -, h⟩ := bind_eq_some.mp h
      exact absurd h failure_ne_some
    | some ws =>
      rw [hws] at h
      obtain ⟨page, phys, hp, hm⟩ := hT.hang_run hz hr h
      exact ⟨page, ws, phys, rfl, hp, hm⟩

lemma Tables.ensure {child : ℕ → ℕ} {t i q flags l g : ℕ}
    (ht : own t = some (l + 1, q)) (hi : i < 512) (hf : TableFlags flags)
    (h : (do
      linkTable reach t i flags
      splitTable reach child t i flags l
      tableOf t i : Op ℕ) m = some (g, m')) : Ensured z own M child t i flags l g m m' := by
  obtain ⟨_, m1, h1, h⟩ := bind_eq_some.mp h
  obtain ⟨_, m2, h2, h⟩ := bind_eq_some.mp h
  obtain ⟨rfl, rfl⟩ : m2.mem t i &&& physAddrMask = g ∧ m2 = m' := by
    unfold tableOf at h
    obtain ⟨e, m3, h3, h⟩ := bind_eq_some.mp h
    obtain ⟨rfl, rfl⟩ := readEntry_eq_some.mp h3
    exact pure_eq_some.mp h
  have hsane := hT.sane t (l + 1) q i ht hi
  rcases hT.link_run hz hr h1 with ⟨h0, rfl⟩ | ⟨h0, page, phys, hp, rfl⟩
  · -- the entry is present
    rcases hT.split_run hz hr h2 with ⟨h7, rfl⟩ | ⟨h7, page, ws, phys, hws, hp, rfl⟩
    · exact .there (decode_eq_table.mpr ⟨h0, by omega, h7, rfl⟩) rfl
    · -- with the huge-page bit it is a PD entry
      obtain rfl : l = 0 := by
        by_contra hl
        rw [(hsane h0).1 (by omega)] at h7
        cases h7
      have hD : decode 1 (m1.mem t i) = .leaf := by simp [decode, h0, h7]
      obtain rfl : splitPt (m1.mem t i) (child (m1.mem t i)) = ws := Option.some.inj hws
      have hg : m1.mem.hang t i (page ||| flags ||| present) page
          (splitPt (m1.mem t i) (child (m1.mem t i))) t i &&& physAddrMask = page := by
        rw [Mem.hang_self, Nat.or_assoc]
        exact entry_addr hp.aligned (lt_address hp.lt) hf.and_mask
      exact hg.symm ▸ .split rfl hD hp rfl
  · -- the new entry names its table and is not huge
    have hD : decode (l + 1) (m.mem t i) = .empty := by simp [decode, h0]
    have hD' := decode_eq_table.mp (decode_pointer (l := l + 1) hp.aligned hp.lt hf (by omega))
    rw [← Mem.hang_self m.mem t i (page ||| flags ||| present) page newZeroed] at hD'
    rcases (hT.hang_zeroed hp (i := i) ht hf).split_run hz hr h2 with ⟨-, rfl⟩ | ⟨h7, -⟩
    · exact hD'.2.2.2.symm ▸ .linked hD hp rfl
    · exact absurd (hD'.2.2.1.symm.trans h7) (by simp)

end Ensure

namespace Ensured

variable {child : ℕ → ℕ} {t i q flags l g : ℕ}

/-- The words of the tables that were there stay, but for the entry. -/
lemma frame (h : Ensured z own M child t i flags l g m m') {f j : ℕ} (hown : own f = some p)
    (hne : ¬ (f = t ∧ j = i)) : m'.mem f j = m.mem f j := by
  cases h with
  | there hD hm => rw [hm]
  | linked hD hp hm => rw [hm]; exact Mem.hang_of_ne _ _ _ (hp.ne hown) hne
  | split hl hD hp hm => rw [hm]; exact Mem.hang_of_ne _ _ _ (hp.ne hown) hne

variable (hT : Tables z own M m) (ht : own t = some (l + 1, q)) (hf : TableFlags flags)

include hT ht hf

/-- The tables after it, with the opened table in its place. -/
lemma tables (h : Ensured z own M child t i flags l g m m') : ∃ own' M', Tables z own' M' m' ∧
    Grown own M m own' M' m' ∧ decode (l + 1) (m'.mem t i) = .table g := by
  cases h with
  | there hD hm =>
    subst hm
    exact ⟨own, M, hT, Grown.refl own M m', hD⟩
  | linked hD hp hm =>
    subst hm
    exact ⟨_, _, hT.hang_zeroed hp ht hf, hp.grown _ _, decode_hang hp hf⟩
  | split hl hD hp hm =>
    subst hl hm
    exact ⟨_, _, hT.hang hp ht hf (fun _ _ => sane_pt _) (fun _ _ _ hc => (decode_eq_table.mp hc).2.1 rfl),
      hp.grown _ _, decode_hang hp hf⟩

/-- Nothing else is mapped in another way: only the keys below a split entry
change. -/
lemma walk_eq (hi : i < 512) (h : Ensured z own M child t i flags l g m m') {u : ℕ}
    (hu : decode (l + 1) (m.mem t i) ≠ .leaf ∨ u / 512 ^ (l + 1) ≠ q * 512 + i) {k f : ℕ}
    (hown : own f = some (k, u / 512 ^ (k + 1))) :
    walk 512 decode m'.mem k f u = walk 512 decode m.mem k f u := by
  cases h with
  | there hD hm => rw [hm]
  | @linked phys hD hp hm =>
    subst hm
    refine hT.tree.walk_hang (by norm_num) ht hp.unowned (fun hv => ?_) hown hi
    have hdig : u / 512 ^ (l + 1) % 512 = i := by rw [hv]; omega
    -- before, the walk ended at the entry; now it ends in the empty table
    have hnone : walk 512 decode (m.mem.hang t i (g ||| flags ||| present) g newZeroed) l g u = none := by
      refine walk_eq_none (by norm_num) (fun j _ => ?_) u
      rw [Mem.hang_new _ _ _ _ (hp.ne ht).symm]
      simp [newZeroed, decode]
    rw [walk, walk, hdig, hD, decode_hang hp hf]
    simp only [hnone, Option.map_none]
  | split hl hD hp hm =>
    subst hl hm
    refine hT.tree.walk_hang_of_ne (by norm_num) ht hp.unowned ?_ hown
    exact hu.resolve_left (not_not.mpr hD)

/-- The way to the entry goes on to the opened table. -/
lemma down (h : Ensured z own M child t i flags l g m m') {u r k : ℕ} (hi : u / 512 ^ (l + 1) % 512 = i)
    (hr : own r = some (k, u / 512 ^ (k + 1))) (hd : Down 512 decode m.mem u k r (l + 1) t) :
    Down 512 decode m'.mem u k r l g := by
  obtain ⟨_, _, -, -, hD⟩ := h.tables hT ht hf
  refine Down.snoc ?_ (by rw [hi]; exact hD)
  refine hd.congr (by norm_num) hT.tree hr fun f j h' hown hj hw => ?_
  rw [h.frame hown]
  · exact hw
  · rintro ⟨rfl, -⟩
    rw [ht] at hown
    simp at hown
    omega

end Ensured

end LodaxOS.Virt
