/-
# Names of drivers

`register_driver` stores a name of up to 31 bytes and zeros after it, and
refuses a second entry with the same 32 bytes. `driver_call` compares all 32
bytes; `find_by_name`, `send_cmd` and `poll_result` compare the bytes of the
query and the one after them. The two comparisons agree on names without zero
bytes. A name with one is also found under what stands before it, by the
second comparison only.
-/
import LodaxOS.Gdf.Mailbox

namespace LodaxOS.Gdf

open Function

/-- A table that calls of `register_driver` filled, with the name each entry
was given. Other calls may change anything but the names. -/
inductive Registered : Table → (ℕ → Option Name) → Prop
  | empty : Registered .empty fun _ => none
  | register {t : Table} {names : ℕ → Option Name} {name : Name} {v i : ℕ} {pml4 : Option ℕ} (h : Registered t names)
      (hpos : 0 < name.length) (hlen : name.length ≤ 31) (hreg : (registerDriver t name v pml4).2 = true)
      (hi : Slots.free maxDrivers t.entries = some i) :
      Registered (registerDriver t name v pml4).1 (update names i (some name))
  | other {t t' : Table} {names : ℕ → Option Name} (h : Registered t names)
      (hsame : ∀ i, (t'.entries i).map DriverEntry.name = (t.entries i).map DriverEntry.name) : Registered t' names

/-- The lookups by name all take the same entry or none, the entry is the only
one they would take, and it was registered under this very name. -/
structure Consistent (t : Table) (names : ℕ → Option Name) (query : Name) (caller : ℕ) : Prop where
  calls : calledEntry t query caller = findByName t query
  sends : ∀ pte message j, (sendCmd pte t query message).table.entries j ≠ t.entries j → findByName t query = some j
  polls : ∀ result, pollResult t query = some result →
    ∃ i d, findByName t query = some i ∧ t.entries i = some d ∧ d.mailbox.result = result
  given : ∀ i, findByName t query = some i → names i = some query
  only : ∀ i j d, findByName t query = some i → t.entries j = some d → d.hasName query = true → j = i

variable {t : Table} {names : ℕ → Option Name} {g query : Name} {d : DriverEntry} {i j caller : ℕ}

/-! ### The comparisons -/

lemma padded_eq (h : g.length ≤ 31) : g.padded = g ++ List.replicate (32 - g.length) 0 := by
  rw [Name.padded, List.take_of_length_le h]

lemma hasName_iff (h : query.length ≤ 31) : d.hasName query = true ↔
    d.name.take query.length = query ∧ (query.length = 31 ∨ d.name[query.length]? = some 0) := by
  simp [DriverEntry.hasName, Nat.min_eq_left h]

/-- The longer comparison implies the shorter one. -/
lemma hasName_of_padded (h : query.length ≤ 31) (hd : d.name = query.padded) : d.hasName query = true := by
  rw [hasName_iff h, hd, padded_eq h]
  refine ⟨List.take_left, Or.inr ?_⟩
  rw [List.getElem?_append_right le_rfl, Nat.sub_self, List.getElem?_replicate, if_pos (by omega)]

/-- A name that the shorter comparison takes for another has a zero byte, or
the other has. -/
lemma eq_of_hasName (hg : g.length ≤ 31) (hq : query.length ≤ 31) (hg0 : 0 ∉ g) (hq0 : 0 ∉ query)
    (hd : d.name = g.padded) (h : d.hasName query = true) : g = query := by
  rw [hasName_iff hq, hd, padded_eq hg] at h
  obtain ⟨htake, hend⟩ := h
  rcases lt_trichotomy query.length g.length with hlt | heq | hlt
  · have hzero := hend.resolve_left (by omega)
    rw [List.getElem?_append_left hlt] at hzero
    exact absurd (List.mem_of_getElem? hzero) hg0
  · rwa [heq, List.take_left] at htake
  · have hzero : query[g.length]? = some 0 := by
      rw [← htake, List.getElem?_take_of_lt hlt, List.getElem?_append_right le_rfl, Nat.sub_self,
        List.getElem?_replicate, if_pos (by omega)]
    exact absurd (List.mem_of_getElem? hzero) hq0

/-! ### The table -/

/-- What is stored are the names that were given, padded, each once. -/
structure Named (t : Table) (names : ℕ → Option Name) : Prop where
  stored : ∀ i, (t.entries i).map DriverEntry.name = (names i).map Name.padded
  bounds : ∀ i g, names i = some g → i < maxDrivers ∧ g.length ≤ 31
  apart : ∀ i j g g', names i = some g → names j = some g' → g.padded = g'.padded → i = j

lemma Named.entry (h : Named t names) (hd : t.entries i = some d) : ∃ g, names i = some g ∧ d.name = g.padded := by
  have hs := h.stored i
  rw [hd, Option.map_some] at hs
  obtain ⟨g, hg, hp⟩ := Option.map_eq_some_iff.mp hs.symm
  exact ⟨g, hg, hp.symm⟩

lemma Named.name (h : Named t names) (hg : names i = some g) : ∃ d, t.entries i = some d ∧ d.name = g.padded := by
  have hs := h.stored i
  rw [hg, Option.map_some] at hs
  exact Option.map_eq_some_iff.mp hs

lemma Named.register {v : ℕ} {pml4 : Option ℕ} (h : Named t names) (hlen : g.length ≤ 31)
    (hreg : (registerDriver t g v pml4).2 = true) (hi : Slots.free maxDrivers t.entries = some i) :
    Named (registerDriver t g v pml4).1 (update names i (some g)) := by
  obtain ⟨hlt, -, -⟩ := Slots.free_eq_some.mp hi
  rcases registerDriver_cases t g v pml4 with he | ⟨k, pml4', -, -, hnew, -⟩
  · rw [he] at hreg
    simp at hreg
  have hentries : (registerDriver t g v pml4).1.entries = update t.entries i (some ⟨g.padded, v, .empty, 0, 0, pml4.getD 0⟩) := by
    unfold registerDriver at hreg ⊢
    split_ifs at hreg ⊢ with hfull hdup
    cases pml4 with
    | none => simp at hreg
    | some =>
      rw [hi]
      rfl
  have hother : ∀ k g', names k = some g' → g'.padded ≠ g.padded := by
    intro k g' hk heq
    obtain ⟨d, hd, hname⟩ := h.name hk
    exact hnew k (h.bounds k g' hk).1 d hd (hname.trans heq)
  refine ⟨fun k => ?_, fun k g' hk => ?_, fun k k' g1 g2 hk hk' heq => ?_⟩
  · rw [hentries]
    by_cases hk : k = i
    · rw [hk, update_self, update_self]
      rfl
    · rw [update_of_ne hk, update_of_ne hk]
      exact h.stored k
  · obtain ⟨rfl, he⟩ | ⟨-, hk⟩ := Slots.update_eq_cases hk
    · exact ⟨hlt, Option.some.inj he ▸ hlen⟩
    · exact h.bounds k g' hk
  · obtain ⟨rfl, he⟩ | ⟨-, hk⟩ := Slots.update_eq_cases hk
    · obtain ⟨hk', -⟩ | ⟨-, hk'⟩ := Slots.update_eq_cases hk'
      · exact hk'.symm
      · exact absurd ((Option.some.inj he ▸ heq).symm) (hother k' g2 hk')
    · obtain ⟨-, he⟩ | ⟨-, hk'⟩ := Slots.update_eq_cases hk'
      · exact absurd (Option.some.inj he ▸ heq) (hother k g1 hk)
      · exact h.apart k k' g1 g2 hk hk' heq

lemma Registered.named (h : Registered t names) : Named t names := by
  induction h with
  | empty => exact ⟨fun _ => rfl, fun _ _ hg => by simp at hg, fun _ _ _ _ hg => by simp at hg⟩
  | register _ _ hlen hreg hi ih => exact ih.register hlen hreg hi
  | other _ hsame ih => exact ⟨fun i => (hsame i).trans (ih.stored i), ih.bounds, ih.apart⟩

lemma sendCmd_touches {pte : ℕ → ℕ → Option ℕ} {message : Message}
    (h : (sendCmd pte t query message).table.entries j ≠ t.entries j) : findByName t query = some j := by
  rcases sendCmd_cases pte t query message with he | ⟨i, d, hi, -, -, ⟨-, he⟩ | ⟨-, _, _, he⟩⟩
  · rw [he] at h
    exact absurd rfl h
  all_goals
    rw [he] at h
    by_cases hj : j = i
    · rw [hj, hi]
    · exact absurd (set_of_ne hj) h

/-- The lookups of a name are consistent exactly if every entry that has it by
the shorter comparison was registered under it; so they are where neither the
name nor those that were registered have a zero byte. -/
theorem names_consistent_iff (h : Registered t names) (hlen : query.length ≤ 31)
    (hcaller : ∀ i d, t.entries i = some d → d.vcpuId ≠ caller) :
    (Consistent t names query caller ↔ ∀ i d, t.entries i = some d → d.hasName query = true → names i = some query) ∧
    (0 ∉ query → (∀ i g, names i = some g → 0 ∉ g) → Consistent t names query caller) := by
  have hN := h.named
  have hiff : Consistent t names query caller ↔
      ∀ i d, t.entries i = some d → d.hasName query = true → names i = some query := by
    constructor
    · intro hc j d hd hname
      obtain ⟨g, hg, -⟩ := hN.entry hd
      cases hf : findByName t query with
      | none =>
        have hnot := Slots.find_eq_none.mp hf j (hN.bounds j g hg).1 d hd
        exact absurd hname (by simp [hnot])
      | some i => exact hc.only i j d hf hd hname ▸ hc.given i hf
    · intro hall
      have hcalls : calledEntry t query caller = findByName t query := by
        refine Slots.find_congr fun i d hd => ?_
        rw [Bool.eq_iff_iff, Bool.and_eq_true, decide_eq_true_iff, decide_eq_true_iff]
        refine ⟨fun hp => hasName_of_padded hlen hp.1, fun hp => ⟨?_, hcaller i d hd⟩⟩
        obtain ⟨g, hg, hname⟩ := hN.entry hd
        rwa [Option.mem_unique hg (hall i d hd hp)] at hname
      refine ⟨hcalls, fun _ _ _ => sendCmd_touches, fun result hr => ?_, fun i hi => ?_, fun i j d hi hd hname => ?_⟩
      · obtain ⟨i, d, hi, hd, -, hres⟩ := pollResult_eq_some hr
        exact ⟨i, d, hi, hd, hres⟩
      · obtain ⟨-, d, hd, hname⟩ := findByName_eq_some hi
        exact hall i d hd hname
      · obtain ⟨-, d', hd', hname'⟩ := findByName_eq_some hi
        exact hN.apart j i query query (hall j d hd hname) (hall i d' hd' hname') rfl
  refine ⟨hiff, fun hq0 hg0 => hiff.mpr fun i d hd hname => ?_⟩
  obtain ⟨g, hg, hstored⟩ := hN.entry hd
  rw [hg, eq_of_hasName (hN.bounds i g hg).2 hlen (hg0 i g hg) hq0 hstored hname]

/-- Two drivers, registered as "a" and as "ab". -/
theorem names_consistent_two : ∃ t names, Registered t names ∧ findByName t [0x61, 0x62] = some 1 ∧
    Consistent t names [0x61, 0x62] 9 ∧ Consistent t names [0x61] 9 := by
  have h : Registered (registerDriver (registerDriver .empty [0x61] 2 (some 0)).1 [0x61, 0x62] 3 (some 0)).1
      (update (update (fun _ => none) 0 (some [0x61])) 1 (some [0x61, 0x62])) :=
    .register (.register .empty (by decide) (by decide) (by decide) (by decide)) (by decide) (by decide) (by decide) (by decide)
  have hcases : ∀ {α : Type} {a b x : α} {i : ℕ},
      update (update (fun _ => none) 0 (some a)) 1 (some b) i = some x → x = b ∨ x = a := by
    intro α a b x i h
    obtain ⟨-, he⟩ | ⟨-, h⟩ := Slots.update_eq_cases h
    · exact .inl (Option.some.inj he).symm
    · obtain ⟨-, he⟩ | ⟨-, h⟩ := Slots.update_eq_cases h
      · exact .inr (Option.some.inj he).symm
      · cases h
  have hcaller : ∀ i d, (registerDriver (registerDriver .empty [0x61] 2 (some 0)).1 [0x61, 0x62] 3 (some 0)).1.entries i =
      some d → d.vcpuId ≠ 9 := by
    intro i d hd
    rcases hcases (a := DriverEntry.mk (Name.padded [0x61]) 2 .empty 0 0 0)
      (b := DriverEntry.mk (Name.padded [0x61, 0x62]) 3 .empty 0 0 0) hd with rfl | rfl
    · decide
    · decide
  have hnames : ∀ i g, update (update (fun _ : ℕ => (none : Option Name)) 0 (some [0x61])) 1 (some [0x61, 0x62]) i = some g →
      0 ∉ g := by
    intro i g hg
    rcases hcases hg with rfl | rfl
    · decide
    · decide
  exact ⟨_, _, h, by decide, (names_consistent_iff h (by decide) hcaller).2 (by decide) hnames,
    (names_consistent_iff h (by decide) hcaller).2 (by decide) hnames⟩

/-- One driver, registered with a zero byte in its name: `find_by_name` finds
it under the byte before, `driver_call` does not. -/
theorem names_inconsistent : ∃ t names, Registered t names ∧ findByName t [0x61] = some 0 ∧
    calledEntry t [0x61] 9 = none ∧ ¬ Consistent t names [0x61] 9 := by
  have h : Registered (registerDriver .empty [0x61, 0, 0x62] 2 (some 0)).1 (update (fun _ => none) 0 (some [0x61, 0, 0x62])) :=
    .register .empty (by decide) (by decide) (by decide) (by decide)
  exact ⟨_, _, h, by decide, by decide, fun hc => absurd hc.calls (by decide)⟩

end LodaxOS.Gdf
