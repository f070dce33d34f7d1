/-
# A fork that fails

`fork_pml4` takes a page for the new PML4 and goes on to copy tables. When an
allocation fails later, it returns `None` and gives back no table of the copy:
the page of the PML4 at least is lost. Only a fork that fails at its first
allocation leaves the memory as it was.
-/
import LodaxOS.Virt.Copies

namespace LodaxOS.Virt

open Radix Partial

variable {z : Phys.State} {own : Owners} {M : Multiset ℕ} {m m' : Machine} {src : ℕ}

/-- The free pages, the counts and what the hardware finds under `src` are as
before. -/
structure Untouched (src : ℕ) (m m' : Machine) : Prop where
  free : ∀ p, p ∈ m'.phys.free ↔ p ∈ m.phys.free
  counts : ∀ p, m'.phys.refcounts p = m.phys.refcounts p
  leaves : ∀ a, hwLeaf m'.mem src a = hwLeaf m.mem src a

lemma forkPml4_failed (hz : z.zone.top ≤ directMapSize) (hT : Tables z own M m) (hsrc : Root own src)
    (h : forkPml4 src m = some (none, m')) : Untouched src m m' ↔ (Phys.allocPage.run m.phys).1 = none := by
  unfold forkPml4 at h
  obtain ⟨src', m1, h1, h⟩ := bind_eq_some.mp h
  obtain ⟨r, m2, h2, h⟩ := bind_eq_some.mp h
  obtain ⟨rfl, rfl⟩ := hT.toVirtual hz hsrc h1
  rcases newTable_cases hT hz h2 with ⟨rfl, rfl, hnone⟩ | ⟨page, phys, rfl, hp, rfl⟩
  · obtain ⟨-, rfl⟩ := pure_eq_some.mp h
    refine iff_of_true ?_ hnone
    rw [Phys.allocPage_none hnone]
    exact ⟨fun _ => Iff.rfl, fun _ => rfl, fun _ => rfl⟩
  · obtain ⟨k, m3, h3, h⟩ := bind_eq_some.mp h
    obtain ⟨rfl, rfl⟩ := get_eq_some.mp h3
    refine iff_of_false (fun hu => ?_) (by simp [hp.taken])
    -- the PML4 is a table at the end, so its page is not free
    obtain ⟨own1, M1, hT1, hG1, hroot⟩ := Leads.placeZeroed hT 3 0 hp
    obtain ⟨own2, M2, hT2, hG2, -⟩ := forkInto_does hz (hsrc.mono hG1.ext) hroot own1 M1 _ none m' (Extends.refl _) hT1 h
    have hheld := (hT2.page page _ (hG2.ext _ _ hroot)).2
    have hfree : page / Phys.pageSize ∈ m1.phys.free := by
      rw [← hp.took.free]
      exact Multiset.mem_add.mpr (Or.inr (Multiset.mem_singleton_self _))
    exact Multiset.disjoint_left.mp (Multiset.nodup_add.mp hT2.alloc.nodup).2.2 ((hu.free _).mpr hfree) hheld

/-- After any calls since boot, a fork of any PML4 that fails has no effect
exactly if there was no page for the new PML4. -/
theorem failed_fork_iff {regions : List (ℕ × ℕ)} (hd : regions.Pairwise Phys.RangesDisjoint)
    (he : ∀ r ∈ regions, r.1 + r.2 ≤ directMapSize) (bi ks kn : ℕ) (excl : List (ℕ × ℕ)) (mem : Mem ℕ ℕ) (cr3 : ℕ)
    {m m' : Machine} {roots : List ℕ} {src : ℕ} (h : Reach (bootMachine regions bi ks kn excl mem cr3) m roots)
    (hsrc : src ∈ roots) (hf : forkPml4 src m = some (none, m')) :
    Untouched src m m' ↔ (Phys.allocPage.run m.phys).1 = none := by
  obtain ⟨own, M, hT, hroots⟩ := boot_spaces hd he h
  exact forkPml4_failed (resetZone_top he bi ks kn) hT (hroots src hsrc) hf

/-- A few pages at 1 MB. `init` takes nine of them. -/
def tightBoot (size : ℕ) : Machine := bootMachine [(0x100000, size)] 0x9000 0 0 [] (fun _ _ => 0) 0

/-- With nine pages, the fork finds none. -/
theorem failed_fork_none : ∃ m m' r, Reach (tightBoot 0x9000) m [r] ∧ forkPml4 r m = some (none, m') ∧ Untouched r m m' := by
  have hrun : ((SpaceCall.init [(0x100000, 0x9000)] none none).prog (tightBoot 0x9000) >>= fun x =>
      forkPml4 0x108000 x.2 >>= fun y => some (x.1, y.1, (Phys.allocPage.run x.2.phys).1)) =
      (some (some 0x108000, none, none) : Option (Option ℕ × Option ℕ × Option ℕ)) := by
    decide +kernel
  obtain ⟨⟨r, m⟩, hx, hrun⟩ := Option.bind_eq_some_iff.mp hrun
  obtain ⟨⟨c, m'⟩, hfork, hv⟩ := Option.bind_eq_some_iff.mp hrun
  simp only [Option.some.injEq, Prod.mk.injEq] at hv
  obtain ⟨rfl, rfl, hnone⟩ := hv
  have hreach : Reach (tightBoot 0x9000) m [0x108000] := Reach.call _ .start (by simp [SpaceCall.uses]) hx
  exact ⟨m, m', 0x108000, hreach, hfork, (failed_fork_iff (List.pairwise_singleton _ _) (by simp [directMapSize]) _ _ _ _ _ _
    hreach List.mem_cons_self hfork).mpr hnone⟩

/-- With eleven pages there is one for the PML4 and one for the PDP, which is
given back when there is none for the PD. The PML4 is not. -/
theorem failed_fork_leaks : ∃ m m' r, Reach (tightBoot 0xB000) m [r] ∧ forkPml4 r m = some (none, m') ∧
    m.phys.zone.freePages = 2 ∧ m'.phys.zone.freePages = 1 ∧ ¬ Untouched r m m' := by
  have hrun : ((SpaceCall.init [(0x100000, 0xB000)] none none).prog (tightBoot 0xB000) >>= fun x =>
      forkPml4 0x10A000 x.2 >>= fun y =>
      some (x.1, y.1, x.2.phys.zone.freePages, y.2.phys.zone.freePages, (Phys.allocPage.run x.2.phys).1.isSome)) =
      (some (some 0x10A000, none, 2, 1, true) : Option (Option ℕ × Option ℕ × ℕ × ℕ × Bool)) := by
    decide +kernel
  obtain ⟨⟨r, m⟩, hx, hrun⟩ := Option.bind_eq_some_iff.mp hrun
  obtain ⟨⟨c, m'⟩, hfork, hv⟩ := Option.bind_eq_some_iff.mp hrun
  simp only [Option.some.injEq, Prod.mk.injEq] at hv
  obtain ⟨rfl, rfl, hbefore, hafter, hsome⟩ := hv
  have hreach : Reach (tightBoot 0xB000) m [0x10A000] := Reach.call _ .start (by simp [SpaceCall.uses]) hx
  obtain ⟨own, M, hT, hroots⟩ := boot_spaces (List.pairwise_singleton _ _) (by simp [directMapSize]) hreach
  have hiff := forkPml4_failed (resetZone_top (by simp [directMapSize]) _ _ _) hT (hroots _ List.mem_cons_self) hfork
  refine ⟨m, m', 0x10A000, hreach, hfork, hbefore, hafter, fun hu => ?_⟩
  rw [hiff.mp hu] at hsome
  cases hsome

end LodaxOS.Virt
