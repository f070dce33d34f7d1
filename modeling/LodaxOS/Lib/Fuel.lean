/-
# Recursions without a bound of their own

A function that calls itself on what it reads has no bound that its text
shows. Here it is given one: `f n` is its run with `n` nested calls, `none`
while that is not enough. What it does with enough is `Gives f r`, and `Ends f`
says that some number of calls is enough. A run that ended ends the same way
with more calls (`Mono`), so these compose like the function itself. `Avoids`
is the common form of what is asked of a run: that it ends, or that it does not
end with some error.

`gather` walks a tree depth first, node after node, and stops at the first
node that fails; `chase` follows a chain. The nodes are found by what the
nodes above say, so they need not form a tree at all. Where the nodes are
finitely many, a walk ends exactly if no node that it enters comes back to
itself (`ends_gather`, `ends_chase`).
-/
import Mathlib.Data.Set.Finite.Basic
import Mathlib.Order.WellFounded

namespace Fuel

variable {ε α β γ : Type}

/-- A run that may not be over yet. -/
abbrev Run (ε α : Type) := ExceptT ε Option α

/-- A run as its outcome, `none` while it goes on. -/
def Run.out (x : Run ε α) : Option (Except ε α) := x

/-- More calls change no run that is over. -/
def Mono (f : ℕ → Run ε α) : Prop := ∀ n r, (f n).out = some r → (f (n + 1)).out = some r

/-- With enough calls the outcome is `r`. -/
def Gives (f : ℕ → Run ε α) (r : Except ε α) : Prop := ∃ n, (f n).out = some r

def Ends (f : ℕ → Run ε α) : Prop := ∃ r, Gives f r

variable {r : Except ε α} {f : ℕ → Run ε α}

lemma Mono.le (hf : Mono f) {n m : ℕ} (h : n ≤ m) (hn : (f n).out = some r) : (f m).out = some r := by
  induction h with
  | refl => exact hn
  | step _ ih => exact hf _ r ih

lemma Gives.unique (hf : Mono f) {r r' : Except ε α} (h : Gives f r) (h' : Gives f r') : r = r' := by
  obtain ⟨n, hn⟩ := h
  obtain ⟨m, hm⟩ := h'
  have h1 := hf.le (le_max_left n m) hn
  have h2 := hf.le (le_max_right n m) hm
  exact Option.mem_unique h1 h2

/-- What the run is in the end. -/
noncomputable def limit (f : ℕ → Run ε α) : Run ε α := open Classical in
  (if h : Ends f then some h.choose else none : Option (Except ε α))

lemma out_limit (hf : Mono f) : (limit f).out = some r ↔ Gives f r := by
  unfold limit Run.out
  split
  case isTrue h =>
    rw [Option.some.injEq]
    exact ⟨fun heq => heq ▸ h.choose_spec, fun hr => h.choose_spec.unique hf hr⟩
  case isFalse h =>
    refine ⟨fun h' => ?_, fun hr => absurd ⟨r, hr⟩ h⟩
    cases h'

/-- A function that makes one call and goes on as `g`. -/
lemma gives_of_succ {f g : ℕ → Run ε α} (h0 : (f 0).out = none) (hs : ∀ n, f (n + 1) = g n) :
    Gives f r ↔ Gives g r := by
  constructor
  · rintro ⟨n, h⟩
    cases n with
    | zero => cases h0.symm.trans h
    | succ n => exact ⟨n, hs n ▸ h⟩
  · rintro ⟨n, h⟩
    exact ⟨n + 1, (hs n).symm ▸ h⟩

/-- The run does not come out so: it ends, or it does not end with the error. -/
def Avoids : Option ε → (ℕ → Run ε α) → Prop
  | none, f => Ends f
  | some e, f => ¬ Gives f (.error e)

lemma mono_const (x : Run ε α) : Mono fun _ => x := fun _ _ h => h

variable {x : Run ε α}

@[simp] lemma gives_const : Gives (fun _ => x) r ↔ x.out = some r :=
  ⟨fun ⟨_, h⟩ => h, fun h => ⟨0, h⟩⟩

@[simp] lemma out_pure (a : α) : (pure a : Run ε α).out = some (.ok a) := rfl

@[simp] lemma out_throw (e : ε) : (throw e : Run ε α).out = some (.error e) := rfl

/-- A computation that always comes to an end. -/
def lift (x : Except ε α) : Run ε α := (some x : Option (Except ε α))

@[simp] lemma out_lift (x : Except ε α) : (lift x : Run ε α).out = some x := rfl

lemma ends_const (x : Except ε α) : Ends fun _ => lift x := ⟨x, 0, rfl⟩

variable {o : Option ε}

lemma avoids_lift {x : Except ε α} : Avoids o (fun _ => lift x) ↔ ∀ e, o = some e → x ≠ .error e := by
  cases o with
  | none => exact iff_of_true (ends_const x) fun _ h => nomatch h
  | some => simp [Avoids]

lemma avoids_pure {a : α} : Avoids o fun _ => (pure a : Run ε α) :=
  avoids_lift.mpr fun _ _ h => nomatch h

lemma avoids_throw {e : ε} : Avoids o (fun _ => (throw e : Run ε α)) ↔ o ≠ some e := by
  refine (avoids_lift (x := (.error e : Except ε α))).trans ?_
  simp only [ne_eq, Except.error.injEq]
  exact ⟨fun h he => h e he rfl, fun h e' he heq => h (heq ▸ he)⟩

/-- The outcome of a run as a value, for a caller that goes on after an error. -/
def attempt (x : Run ε α) : Run ε (Except ε α) := x.out.map Except.ok

lemma out_attempt {r : Except ε (Except ε α)} : (attempt x).out = some r ↔ ∃ a, x.out = some a ∧ r = .ok a := by
  change x.out.map Except.ok = some r ↔ _
  rw [Option.map_eq_some_iff]
  exact exists_congr fun a => and_congr_right fun _ => eq_comm

lemma Mono.attempt {x : ℕ → Run ε α} (hx : Mono x) : Mono fun n => attempt (x n) := by
  intro n r h
  obtain ⟨a, ha, hr⟩ := out_attempt.mp h
  exact out_attempt.mpr ⟨a, hx n a ha, hr⟩

@[simp] lemma gives_attempt {x : ℕ → Run ε α} {a : Except ε α} :
    Gives (fun n => attempt (x n)) (.ok a) ↔ Gives x a := by
  constructor
  · rintro ⟨n, h⟩
    obtain ⟨b, hb, he⟩ := out_attempt.mp h
    exact ⟨n, Except.ok.inj he ▸ hb⟩
  · rintro ⟨n, h⟩
    exact ⟨n, out_attempt.mpr ⟨a, h, rfl⟩⟩

lemma avoids_attempt {x : ℕ → Run ε α} : Avoids o (fun n => attempt (x n)) ↔ (o = none → Ends x) := by
  have hno : ∀ e, ¬ Gives (fun n => attempt (x n)) (.error e) := by
    rintro e ⟨n, h⟩
    obtain ⟨b, -, he⟩ := out_attempt.mp h
    cases he
  cases o with
  | some e => exact iff_of_true (hno e) nofun
  | none =>
    rw [imp_iff_right rfl]
    constructor
    · rintro ⟨e | a, h⟩
      · exact absurd h (hno e)
      · exact ⟨a, gives_attempt.mp h⟩
    · rintro ⟨a, h⟩
      exact ⟨.ok a, gives_attempt.mpr h⟩

/-! ### One after the other -/

variable {f : α → Run ε β}

lemma out_bind {r : Except ε β} : (x >>= f).out = some r ↔
    (∃ e, x.out = some (.error e) ∧ r = .error e) ∨ ∃ a, x.out = some (.ok a) ∧ (f a).out = some r := by
  change (Option.bind (x : Option (Except ε α)) fun
    | .ok a => (f a : Option (Except ε β))
    | .error e => some (.error e)) = some r ↔ _
  rw [Option.bind_eq_some_iff]
  constructor
  · rintro ⟨e | a, hx, hr⟩
    · exact .inl ⟨e, hx, (Option.some.inj hr).symm⟩
    · exact .inr ⟨a, hx, hr⟩
  · rintro (⟨e, hx, rfl⟩ | ⟨a, hx, hr⟩)
    · exact ⟨.error e, hx, rfl⟩
    · exact ⟨.ok a, hx, hr⟩

/-- A sequence fails, or does not end, as its first part does or what follows. -/
lemma out_bind_bad : (x >>= f).out = o.map .error ↔
    x.out = o.map .error ∨ ∃ a, x.out = some (.ok a) ∧ (f a).out = o.map .error := by
  change (Option.bind (x : Option (Except ε α)) fun
    | .ok a => (f a : Option (Except ε β))
    | .error e => some (.error e)) = o.map .error ↔ _
  unfold Run.out
  rcases x with _ | e | a
  · cases o <;> simp
  · cases o <;> simp
  · cases o <;> simp

section Bind

variable {x : ℕ → Run ε α} {f : ℕ → α → Run ε β}

lemma Mono.bind (hx : Mono x) (hf : ∀ a, Mono fun n => f n a) : Mono fun n => x n >>= f n := by
  intro n r h
  rcases out_bind.mp h with ⟨e, h1, h2⟩ | ⟨a, h1, h2⟩
  · exact out_bind.mpr (.inl ⟨e, hx n _ h1, h2⟩)
  · exact out_bind.mpr (.inr ⟨a, hx n _ h1, hf a n r h2⟩)

lemma gives_bind (hx : Mono x) (hf : ∀ a, Mono fun n => f n a) {r : Except ε β} : Gives (fun n => x n >>= f n) r ↔
      (∃ e, Gives x (.error e) ∧ r = .error e) ∨ ∃ a, Gives x (.ok a) ∧ Gives (fun n => f n a) r := by
  constructor
  · rintro ⟨n, h⟩
    rcases out_bind.mp h with ⟨e, h1, h2⟩ | ⟨a, h1, h2⟩
    · exact .inl ⟨e, ⟨n, h1⟩, h2⟩
    · exact .inr ⟨a, ⟨n, h1⟩, n, h2⟩
  · rintro (⟨e, ⟨n, h1⟩, h2⟩ | ⟨a, ⟨n, h1⟩, m, h2⟩)
    · exact ⟨n, out_bind.mpr (.inl ⟨e, h1, h2⟩)⟩
    · exact ⟨max n m, out_bind.mpr (.inr ⟨a, hx.le (le_max_left n m) h1, (hf a).le (le_max_right n m) h2⟩)⟩

/-- A sequence whose first part succeeds. -/
lemma Gives.bind (hx : Mono x) (hf : ∀ a, Mono fun n => f n a) {a : α} {r : Except ε β} (h : Gives x (.ok a))
    (h' : Gives (fun n => f n a) r) : Gives (fun n => x n >>= f n) r :=
  (gives_bind hx hf).mpr (.inr ⟨a, h, h'⟩)

lemma Gives.andThen (hx : Mono x) {a : α} {r : Except ε β} (h : Gives x (.ok a)) {g : α → Run ε β}
    (h' : (g a).out = some r) : Gives (fun n => x n >>= g) r :=
  Gives.bind (f := fun _ => g) hx (fun _ => mono_const _) h ⟨0, h'⟩

lemma gives_lift_bind {x : Except ε α} {a : α} {r : Except ε β} (h : x = .ok a) :
    Gives (fun n => lift x >>= f n) r ↔ Gives (fun n => f n a) r := by
  subst h
  rfl

variable {o : Option ε}

/-- A sequence avoids what its first part does and what follows on its result. -/
lemma avoids_bind (hx : Mono x) (hf : ∀ a, Mono fun n => f n a) :
    Avoids o (fun n => x n >>= f n) ↔ Avoids o x ∧ ∀ a, Gives x (.ok a) → Avoids o fun n => f n a := by
  cases o with
  | none =>
    constructor
    · rintro ⟨r, h⟩
      rcases (gives_bind hx hf).mp h with ⟨e, h1, -⟩ | ⟨a, h1, h2⟩
      · exact ⟨⟨_, h1⟩, fun a ha => nomatch h1.unique hx ha⟩
      · exact ⟨⟨_, h1⟩, fun b hb => Except.ok.inj (h1.unique hx hb) ▸ ⟨r, h2⟩⟩
    · rintro ⟨⟨e | a, h1⟩, h2⟩
      · exact ⟨_, (gives_bind hx hf).mpr (.inl ⟨e, h1, rfl⟩)⟩
      · obtain ⟨r, h3⟩ := h2 a h1
        exact ⟨r, (gives_bind hx hf).mpr (.inr ⟨a, h1, h3⟩)⟩
  | some e =>
    simp only [Avoids, gives_bind hx hf]
    constructor
    · intro h
      exact ⟨fun h1 => h (.inl ⟨e, h1, rfl⟩), fun a h1 h2 => h (.inr ⟨a, h1, h2⟩)⟩
    · rintro ⟨h1, h2⟩ (⟨e', h3, h4⟩ | ⟨a, h3, h4⟩)
      · exact h1 (Except.error.inj h4 ▸ h3)
      · exact h2 a h3 h4

/-- After a part that always ends only its value counts. -/
lemma avoids_lift_bind {x : Except ε α} (hf : ∀ a, Mono fun n => f n a) : Avoids o (fun n => lift x >>= f n) ↔
      (∀ e, o = some e → x ≠ .error e) ∧ ∀ a, x = .ok a → Avoids o fun n => f n a := by
  rw [avoids_bind (mono_const _) hf, avoids_lift]
  simp only [gives_const, out_lift, Option.some.injEq]

lemma ends_lift_bind {x : Except ε α} (hf : ∀ a, Mono fun n => f n a) :
    Ends (fun n => lift x >>= f n) ↔ ∀ a, x = .ok a → Ends fun n => f n a :=
  (avoids_lift_bind (o := none) hf).trans (and_iff_right fun _ h => nomatch h)

/-- What follows needs no calls. -/
lemma Mono.andThen (hx : Mono x) (g : α → Run ε β) : Mono fun n => x n >>= g := hx.bind fun a => mono_const (g a)

lemma avoids_andThen (hx : Mono x) (g : α → Run ε β) :
    Avoids o (fun n => x n >>= g) ↔ Avoids o x ∧ ∀ a, Gives x (.ok a) → Avoids o fun _ => g a :=
  avoids_bind hx fun a => mono_const (g a)

lemma avoids_map (hx : Mono x) (g : α → β) :
    Avoids o (fun n => x n >>= fun a => (pure (g a) : Run ε β)) ↔ Avoids o x := by
  rw [avoids_andThen hx]
  exact and_iff_left fun a _ => avoids_pure

end Bind

/-! ### Relations that come back -/

/-- No node that `b` leads to comes back to itself. -/
def NoReturn (R : β → β → Prop) (b : β) : Prop := ∀ c, Relation.ReflTransGen R b c → ¬ Relation.TransGen R c c

variable {R : β → β → Prop}

lemma acc_of_reach {b c : β} (h : Acc (fun c b => R b c) b) (hr : Relation.ReflTransGen R b c) :
    Acc (fun c b => R b c) c := by
  induction hr with
  | refl => exact h
  | tail _ hs ih => exact ih.inv hs

lemma not_transGen_self_of_acc {b : β} (h : Acc (fun c b => R b c) b) : ¬ Relation.TransGen R b b := by
  induction h with
  | intro b _ ih =>
    intro hb
    -- the cycle starts again one node further on
    obtain ⟨c, hbc, hcb⟩ := Relation.TransGen.head'_iff.mp hb
    exact ih c hbc (Relation.TransGen.tail' hcb hbc)

/-- Over finitely many nodes there is an endless chain only where one comes
back. -/
lemma acc_iff_noReturn {b : β} (hfin : {c | Relation.ReflTransGen R b c}.Finite) :
    Acc (fun c b => R b c) b ↔ NoReturn R b := by
  constructor
  · exact fun h c hc => not_transGen_self_of_acc (acc_of_reach h hc)
  · intro h
    have : Finite {c | Relation.ReflTransGen R b c} := hfin
    let S := {c | Relation.ReflTransGen R b c}
    let after : S → S → Prop := fun c d => Relation.TransGen R d.1 c.1
    have : IsTrans S after := ⟨fun _ _ _ h1 h2 => h2.trans h1⟩
    have : Std.Irrefl after := ⟨fun c hc => h c.1 c.2 hc⟩
    have hwf : WellFounded after := Finite.wellFounded_of_trans_of_irrefl after
    have key : ∀ c : S, Acc (fun c b => R b c) c.1 := by
      intro c
      induction c using hwf.induction with
      | _ c ih => exact ⟨_, fun d hd => ih ⟨d, c.2.tail hd⟩ (.single hd)⟩
    exact key ⟨b, .refl⟩

/-- A set that the relation does not leave holds all that is reached. -/
lemma finite_reach {b : β} {S : Set β} (hS : S.Finite) (hb : b ∈ S)
    (hstep : ∀ c ∈ S, ∀ d, R c d → d ∈ S) : {c | Relation.ReflTransGen R b c}.Finite := by
  refine hS.subset fun c hc => ?_
  induction hc with
  | refl => exact hb
  | tail _ h ih => exact hstep _ ih _ h

/-! ### A walk over a tree -/

section Gather

/-- The walks of several nodes, one after the other. -/
def gatherAll (child : β → Run ε (List γ)) : List β → Run ε (List γ)
  | [] => pure []
  | b :: bs => do
    let xs ← child b
    let ys ← gatherAll child bs
    pure (xs ++ ys)

variable (node : β → Except ε (List γ ⊕ List β))

/-- The walk below a node, which is a leaf or names the nodes under it. -/
def gather : ℕ → β → Run ε (List γ)
  | 0, _ => (none : Option (Except ε (List γ)))
  | n + 1, b =>
    match node b with
    | .error e => throw e
    | .ok (.inl xs) => pure xs
    | .ok (.inr bs) => gatherAll (gather n) bs

/-- All nodes under `b` can be had, and they end in leaves. -/
inductive Whole : β → Prop
  | leaf {b : β} {xs : List γ} (h : node b = .ok (.inl xs)) : Whole b
  | index {b : β} {bs : List β} (h : node b = .ok (.inr bs)) (hc : ∀ c ∈ bs, Whole c) : Whole b

/-- The walk of `b` comes to that of `c`: all that is named before it is whole. -/
def Calls (b c : β) : Prop := ∃ before after, node b = .ok (.inr (before ++ c :: after)) ∧ ∀ d ∈ before, Whole node d

variable {node} {b : β} {bs : List β} {child : β → Run ε (List γ)}

lemma gatherAll_cons : gatherAll child (b :: bs) =
    child b >>= fun xs => gatherAll child bs >>= fun ys => pure (xs ++ ys) := rfl

lemma gather_succ (n : ℕ) (b : β) : gather node (n + 1) b =
    match node b with
    | .error e => throw e
    | .ok (.inl xs) => pure xs
    | .ok (.inr bs) => gatherAll (gather node n) bs := rfl

variable {e : ε}

lemma gather_error (hb : node b = .error e) (n : ℕ) : gather node (n + 1) b = throw e := by
  rw [gather_succ, hb]

lemma gather_leaf {xs : List γ} (hb : node b = .ok (.inl xs)) (n : ℕ) : gather node (n + 1) b = pure xs := by
  rw [gather_succ, hb]

lemma gather_index (hb : node b = .ok (.inr bs)) (n : ℕ) : gather node (n + 1) b = gatherAll (gather node n) bs := by
  rw [gather_succ, hb]

/-- Several walks succeed exactly if each does. -/
lemma gatherAll_ok :
    (∃ ys, (gatherAll child bs).out = some (.ok ys)) ↔ ∀ c ∈ bs, ∃ xs, (child c).out = some (.ok xs) := by
  induction bs with
  | nil =>
    refine ⟨fun _ c hc => ?_, fun _ => ⟨[], rfl⟩⟩
    cases hc
  | cons b bs ih =>
    rw [List.forall_mem_cons, ← ih]
    simp only [gatherAll_cons, out_bind, out_pure, Option.some.injEq, reduceCtorEq, and_false, exists_false, false_or,
      Except.ok.injEq]
    constructor
    · rintro ⟨_, xs, hx, ys, hy, -⟩
      exact ⟨⟨xs, hx⟩, ys, hy⟩
    · rintro ⟨⟨xs, hx⟩, ys, hy⟩
      exact ⟨_, xs, hx, ys, hy, rfl⟩

/-- Several walks fail, or do not end, as the first does that does not succeed. -/
lemma gatherAll_bad {o : Option ε} :
    (gatherAll child bs).out = o.map .error ↔ ∃ before c after, bs = before ++ c :: after ∧
      (∀ d ∈ before, ∃ xs, (child d).out = some (.ok xs)) ∧ (child c).out = o.map .error := by
  have hpure : ∀ xs : List γ, (pure xs : Run ε (List γ)).out ≠ o.map .error := by cases o <;> simp
  induction bs with
  | nil =>
    refine iff_of_false (hpure []) ?_
    rintro ⟨before, c, after, h, -⟩
    simp at h
  | cons b bs ih =>
    simp only [gatherAll_cons, out_bind_bad, hpure, and_false, exists_false, or_false, ih]
    constructor
    · rintro (hb | ⟨xs, hb, before, c, after, rfl, hw, hc⟩)
      · exact ⟨[], b, bs, rfl, (fun _ hd => nomatch hd), hb⟩
      · exact ⟨b :: before, c, after, rfl, List.forall_mem_cons.mpr ⟨⟨xs, hb⟩, hw⟩, hc⟩
    · rintro ⟨before, c, after, h, hw, hc⟩
      cases before with
      | nil =>
        obtain ⟨rfl, -⟩ := List.cons.inj h
        exact .inl hc
      | cons d ds =>
        obtain ⟨rfl, h'⟩ := List.cons.inj h
        obtain ⟨⟨xs, hb⟩, hds⟩ := List.forall_mem_cons.mp hw
        exact .inr ⟨xs, hb, ds, c, after, h', hds, hc⟩

lemma gatherAll_mono {child child' : β → Run ε (List γ)}
    (h : ∀ b r, (child b).out = some r → (child' b).out = some r) :
    ∀ (bs : List β) (r : Except ε (List γ)), (gatherAll child bs).out = some r → (gatherAll child' bs).out = some r
  | [], _, hr => hr
  | b :: bs, r, hr => by
    have ih := gatherAll_mono h bs
    simp only [gatherAll_cons, out_bind] at hr ⊢
    rcases hr with ⟨e, h1, h2⟩ | ⟨xs, h1, ⟨e, h2, h3⟩ | ⟨ys, h2, h3⟩⟩
    · exact .inl ⟨e, h b _ h1, h2⟩
    · exact .inr ⟨xs, h b _ h1, .inl ⟨e, ih _ h2, h3⟩⟩
    · exact .inr ⟨xs, h b _ h1, .inr ⟨ys, ih _ h2, h3⟩⟩

lemma mono_gather (b : β) : Mono fun n => gather node n b := by
  intro n
  induction n generalizing b with
  | zero => exact fun r h => nomatch h
  | succ n ih =>
    intro r h
    rcases hb : node b with e | xs | bs
    · simp only [gather_error hb] at h ⊢
      exact h
    · simp only [gather_leaf hb] at h ⊢
      exact h
    · simp only [gather_index hb] at h ⊢
      exact gatherAll_mono (fun c r' hr => ih c r' hr) bs r h

lemma mono_gatherAll (bs : List β) : Mono fun n => gatherAll (gather node n) bs := fun n r h =>
  gatherAll_mono (fun c r' hr => mono_gather c n r' hr) bs r h

variable {r : Except ε (List γ)}

/-- The walk below an index node. -/
lemma gives_gather_index (hb : node b = .ok (.inr bs)) :
    Gives (fun n => gather node n b) r ↔ Gives (fun n => gatherAll (gather node n) bs) r :=
  gives_of_succ rfl (gather_index hb)

lemma gives_gather_leaf {xs : List γ} (hb : node b = .ok (.inl xs)) :
    Gives (fun n => gather node n b) r ↔ r = .ok xs := by
  rw [gives_of_succ rfl (gather_leaf hb), gives_const, out_pure, Option.some.injEq, eq_comm]

lemma gives_gather_error (hb : node b = .error e) : Gives (fun n => gather node n b) r ↔ r = .error e := by
  rw [gives_of_succ rfl (gather_error hb), gives_const, out_throw, Option.some.injEq, eq_comm]

/-- The walks of several nodes, from what the walk of each is in the end. -/
lemma gives_gatherAll : Gives (fun n => gatherAll (gather node n) bs) r ↔
    (gatherAll (fun b => limit fun n => gather node n b) bs).out = some r := by
  induction bs generalizing r with
  | nil => exact gives_const
  | cons b bs ih =>
    have hrest : ∀ xs, Mono fun n => gatherAll (gather node n) bs >>= fun ys => (pure (xs ++ ys) : Run ε (List γ)) :=
      fun xs => (mono_gatherAll bs).andThen _
    simp only [gatherAll_cons, out_bind, out_limit (mono_gather b), ← ih]
    rw [gives_bind (mono_gather b) hrest]
    refine or_congr Iff.rfl (exists_congr fun xs => and_congr_right fun _ => ?_)
    refine (gives_bind (f := fun _ ys => pure (xs ++ ys)) (mono_gatherAll bs) fun _ => mono_const _).trans ?_
    simp only [gives_const, out_pure]

/-- Walks that succeed, one after the other. -/
lemma gives_gatherAll_map {f : α → β} {g : α → List γ} : ∀ {as : List α},
    (∀ a ∈ as, Gives (fun n => gather node n (f a)) (.ok (g a))) →
    Gives (fun n => gatherAll (gather node n) (as.map f)) (.ok (as.flatMap g))
  | [], _ => ⟨0, rfl⟩
  | a :: as, h => by
    obtain ⟨hfirst, hrest⟩ := List.forall_mem_cons.mp h
    have hall := (gives_gatherAll_map hrest).andThen (mono_gatherAll _) (g := fun ys => pure (g a ++ ys)) rfl
    exact Gives.bind (mono_gather _) (fun _ => (mono_gatherAll _).andThen _) hfirst hall

/-- A walk succeeds exactly on a whole tree. -/
lemma exists_gives_gather : (∃ xs, Gives (fun n => gather node n b) (.ok xs)) ↔ Whole node b := by
  constructor
  · rintro ⟨xs, n, h⟩
    induction n generalizing b xs with
    | zero => cases h
    | succ n ih =>
      rcases hb : node b with e | xs' | bs
      · have he := (gives_gather_error hb).mp ⟨_, h⟩
        cases he
      · exact .leaf hb
      · refine .index hb fun c hc => ?_
        obtain ⟨ys, hy⟩ := gatherAll_ok.mp ⟨xs, by simpa only [gather_index hb] using h⟩ c hc
        exact ih ys hy
  · intro h
    induction h with
    | leaf h => exact ⟨_, (gives_gather_leaf h).mpr rfl⟩
    | index h _ ih =>
      obtain ⟨ys, hy⟩ := gatherAll_ok.mpr fun c hc => (ih c hc).imp fun xs => (out_limit (mono_gather c)).mpr
      exact ⟨ys, (gives_gather_index h).mpr (gives_gatherAll.mpr hy)⟩

lemma whole_iff_limit : (∃ xs, (limit fun n => gather node n b).out = some (.ok xs)) ↔ Whole node b := by
  simp only [out_limit (mono_gather b), exists_gives_gather]

lemma ends_gather_iff_acc : Ends (fun n => gather node n b) ↔ Acc (fun c b => Calls node b c) b := by
  constructor
  · rintro ⟨r, n, h⟩
    induction n generalizing b r with
    | zero => cases h
    | succ n ih =>
      refine ⟨b, fun c hc => ?_⟩
      obtain ⟨before, after, hb, hw⟩ := hc
      -- with the same calls left, what comes before `c` was gathered and `c` ended
      have hcome : ∀ (before : List β) (r : Except ε (List γ)), (∀ d ∈ before, Whole node d) →
          (gatherAll (gather node n) (before ++ c :: after)).out = some r → ∃ r', (gather node n c).out = some r' := by
        intro before
        induction before with
        | nil =>
          intro r _ hr
          rcases out_bind.mp hr with ⟨e, h1, -⟩ | ⟨xs, h1, -⟩
          · exact ⟨_, h1⟩
          · exact ⟨_, h1⟩
        | cons d ds ihd =>
          intro r hw hr
          obtain ⟨hd, hds⟩ := List.forall_mem_cons.mp hw
          obtain ⟨xs, hx⟩ := exists_gives_gather.mpr hd
          rcases out_bind.mp hr with ⟨e, h1, -⟩ | ⟨zs, -, h2⟩
          · cases Gives.unique (mono_gather d) ⟨n, h1⟩ hx
          · rcases out_bind.mp h2 with ⟨e, h3, -⟩ | ⟨ys, h3, -⟩
            · exact ihd _ hds h3
            · exact ihd _ hds h3
      obtain ⟨r', hr'⟩ := hcome before r hw (gather_index hb n ▸ h)
      exact ih r' hr'
  · intro h
    induction h with
    | intro b _ ih =>
      rcases hb : node b with e | xs | bs
      · exact ⟨_, (gives_gather_error hb).mpr rfl⟩
      · exact ⟨_, (gives_gather_leaf hb).mpr rfl⟩
      · rcases hall : (gatherAll (fun b => limit fun n => gather node n b) bs).out with _ | r
        · -- the first that does not succeed does not end, but it is called
          obtain ⟨before, c, after, rfl, hw, hc⟩ := (gatherAll_bad (o := none)).mp hall
          obtain ⟨r, hr⟩ := ih c ⟨before, after, hb, fun d hd => whole_iff_limit.mp (hw d hd)⟩
          cases hc.symm.trans ((out_limit (mono_gather c)).mpr hr)
        · exact ⟨r, (gives_gather_index hb).mpr (gives_gatherAll.mpr hall)⟩

/-- A walk over finitely many nodes ends exactly if none that it comes to
comes back. -/
lemma ends_gather (hfin : {c | Relation.ReflTransGen (Calls node) b c}.Finite) :
    Ends (fun n => gather node n b) ↔ NoReturn (Calls node) b :=
  ends_gather_iff_acc.trans (acc_iff_noReturn hfin)

/-- Several walks fail as the first does that does not succeed. -/
lemma gives_gatherAll_error : Gives (fun n => gatherAll (gather node n) bs) (.error e) ↔
    ∃ before c after, bs = before ++ c :: after ∧ (∀ d ∈ before, Whole node d) ∧
      Gives (fun n => gather node n c) (.error e) := by
  refine (gives_gatherAll.trans (gatherAll_bad (o := some e))).trans ?_
  simp only [Option.map_some, out_limit (mono_gather _), exists_gives_gather]

/-- A walk fails with what a node that it comes to fails with. -/
lemma gives_gather_error_iff : Gives (fun n => gather node n b) (.error e) ↔
    ∃ c, Relation.ReflTransGen (Calls node) b c ∧ node c = .error e := by
  constructor
  · intro h
    have hacc := ends_gather_iff_acc.mp ⟨_, h⟩
    induction hacc with
    | intro b _ ih =>
      rcases hb : node b with e' | xs | bs
      · cases (gives_gather_error hb).mp h
        exact ⟨b, .refl, hb⟩
      · have he := (gives_gather_leaf hb).mp h
        cases he
      · obtain ⟨before, c, after, rfl, hw, hc⟩ := gives_gatherAll_error.mp ((gives_gather_index hb).mp h)
        have hbc : Calls node b c := ⟨before, after, hb, hw⟩
        obtain ⟨d, hd, hn⟩ := ih c hbc hc
        exact ⟨d, .head hbc hd, hn⟩
  · rintro ⟨c, hc, hn⟩
    induction hc using Relation.ReflTransGen.head_induction_on with
    | refl => exact (gives_gather_error hn).mpr rfl
    | head hbc _ ih =>
      obtain ⟨before, after, hb, hw⟩ := hbc
      exact (gives_gather_index hb).mpr (gives_gatherAll_error.mpr ⟨before, _, after, rfl, hw, ih⟩)

end Gather

/-! ### A walk along a chain -/

section Chase

variable (node : β → Except ε (γ ⊕ β))

def chase : ℕ → β → Run ε γ
  | 0, _ => (none : Option (Except ε γ))
  | n + 1, b =>
    match node b with
    | .error e => throw e
    | .ok (.inl x) => pure x
    | .ok (.inr c) => chase n c

/-- `b` names `c` as the next node. -/
def Next (b c : β) : Prop := node b = .ok (.inr c)

variable {node}

lemma chase_succ (n : ℕ) (b : β) : chase node (n + 1) b =
    match node b with
    | .error e => throw e
    | .ok (.inl x) => pure x
    | .ok (.inr c) => chase node n c := rfl

variable {b : β}

lemma chase_error {e : ε} (hb : node b = .error e) (n : ℕ) : chase node (n + 1) b = throw e := by
  rw [chase_succ, hb]

lemma chase_stop {x : γ} (hb : node b = .ok (.inl x)) (n : ℕ) : chase node (n + 1) b = pure x := by
  rw [chase_succ, hb]

lemma chase_next {b c : β} (hb : node b = .ok (.inr c)) (n : ℕ) : chase node (n + 1) b = chase node n c := by
  rw [chase_succ, hb]

lemma mono_chase (b : β) : Mono fun n => chase node n b := by
  intro n
  induction n generalizing b with
  | zero => exact fun r h => nomatch h
  | succ n ih =>
    intro r h
    rcases hb : node b with e | x | c
    · simp only [chase_error hb] at h ⊢
      exact h
    · simp only [chase_stop hb] at h ⊢
      exact h
    · simp only [chase_next hb] at h ⊢
      exact ih c r h

lemma ends_chase_iff_acc : Ends (fun n => chase node n b) ↔ Acc (fun c b => Next node b c) b := by
  constructor
  · rintro ⟨r, n, h⟩
    induction n generalizing b with
    | zero => cases h
    | succ n ih =>
      refine ⟨b, fun c hc => ih ?_⟩
      simpa only [chase_next hc] using h
  · intro h
    induction h with
    | intro b _ ih =>
      rcases hb : node b with e | x | c
      · exact ⟨.error e, 1, by simp only [chase_error hb, out_throw]⟩
      · exact ⟨.ok x, 1, by simp only [chase_stop hb, out_pure]⟩
      · obtain ⟨r, n, hn⟩ := ih c hb
        exact ⟨r, n + 1, by simpa only [chase_next hb] using hn⟩

lemma ends_chase (hfin : {c | Relation.ReflTransGen (Next node) b c}.Finite) :
    Ends (fun n => chase node n b) ↔ NoReturn (Next node) b :=
  ends_chase_iff_acc.trans (acc_iff_noReturn hfin)

/-- A loop whose states get smaller ends. -/
lemma ends_chase_of_lt (μ : β → ℕ) (h : ∀ b c, Next node b c → μ c < μ b) (b : β) : Ends fun n => chase node n b := by
  apply ends_chase_iff_acc.mpr
  induction hb : μ b using Nat.strong_induction_on generalizing b with
  | _ k ih => exact ⟨b, fun c hc => ih (μ c) (hb ▸ h b c hc) c rfl⟩

variable {r : Except ε γ}

lemma gives_chase_fail {e : ε} (hb : node b = .error e) : Gives (fun n => chase node n b) r ↔ r = .error e := by
  rw [gives_of_succ rfl (chase_error hb), gives_const, out_throw, Option.some.injEq, eq_comm]

lemma gives_chase_stop {x : γ} (hb : node b = .ok (.inl x)) : Gives (fun n => chase node n b) r ↔ r = .ok x := by
  rw [gives_of_succ rfl (chase_stop hb), gives_const, out_pure, Option.some.injEq, eq_comm]

lemma gives_chase_next {b c : β} (hb : Next node b c) :
    Gives (fun n => chase node n b) r ↔ Gives (fun n => chase node n c) r :=
  gives_of_succ rfl (chase_next hb)

/-- A chain fails with what its last node fails with. -/
lemma gives_chase_error_iff {e : ε} : Gives (fun n => chase node n b) (.error e) ↔
    ∃ c, Relation.ReflTransGen (Next node) b c ∧ node c = .error e := by
  constructor
  · intro h
    have hacc := ends_chase_iff_acc.mp ⟨_, h⟩
    induction hacc with
    | intro b _ ih =>
      rcases hb : node b with e' | x | c
      · cases (gives_chase_fail hb).mp h
        exact ⟨b, .refl, hb⟩
      · have he := (gives_chase_stop hb).mp h
        cases he
      · obtain ⟨d, hd, hn⟩ := ih c hb ((gives_chase_next hb).mp h)
        exact ⟨d, .head hb hd, hn⟩
  · rintro ⟨c, hc, hn⟩
    induction hc using Relation.ReflTransGen.head_induction_on with
    | refl => exact (gives_chase_fail hn).mpr rfl
    | head hbc _ ih => exact (gives_chase_next hbc).mpr ih

end Chase

end Fuel
