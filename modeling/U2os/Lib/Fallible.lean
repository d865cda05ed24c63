import Mathlib.Tactic.Common

/-!
# Computations that may fail

A traversal that passes inputs to a fallible function fails just where one of the inputs does: it
hides no failure, and has none of its own.  `Calls f inputs x` says so of the outcome `x`.

## Main results

* `bind_eq_ok`, `bind_eq_error` : inversion of a sequence.
* `map_eq_ok`, `map_eq_error` : inversion of a last step that does not fail.
-/

namespace U2os.Fallible

variable {ε ι α β γ : Type}

/-- What a sequence of fallible steps succeeds with. -/
theorem bind_eq_ok {x : Except ε α} {f : α → Except ε β} {b : β} :
    x >>= f = .ok b ↔ ∃ a, x = .ok a ∧ f a = .ok b := by
  cases x with
  | error e => exact ⟨nofun, nofun⟩
  | ok a => exact ⟨fun h => ⟨a, rfl, h⟩, fun ⟨_, ha, h⟩ => by cases ha; exact h⟩

/-- A sequence fails with its first failure. -/
theorem bind_eq_error {x : Except ε α} {f : α → Except ε β} {e : ε} :
    x >>= f = .error e ↔ x = .error e ∨ ∃ a, x = .ok a ∧ f a = .error e := by
  cases x with
  | error e' =>
    constructor
    · intro h
      cases h
      exact .inl rfl
    · rintro (h | ⟨a, ha, -⟩)
      · cases h
        rfl
      · cases ha
  | ok a =>
    constructor
    · intro h
      exact .inr ⟨a, rfl, h⟩
    · rintro (h | ⟨a', ha, h⟩)
      · cases h
      · cases ha
        exact h

theorem map_eq_ok {x : Except ε α} {f : α → β} {b : β} :
    x.map f = .ok b ↔ ∃ a, x = .ok a ∧ f a = b := by
  cases x with
  | error e => exact ⟨nofun, nofun⟩
  | ok a => exact ⟨fun h => ⟨a, rfl, Except.ok.inj h⟩, fun ⟨_, ha, h⟩ => by cases ha; exact h ▸ rfl⟩

theorem map_eq_error {x : Except ε α} {f : α → β} {e : ε} :
    x.map f = .error e ↔ x = .error e := by
  cases x with
  | error e' =>
    constructor <;> intro h <;> cases h <;> rfl
  | ok a => exact ⟨nofun, nofun⟩

theorem forIn_eq_ok {items : List α} {body : α → Unit → Except ε (ForInStep Unit)} {u : Unit}
    (hbody : ∀ a, body a () ≠ .ok (.done ())) (h : forIn items () body = .ok u) :
    ∀ a ∈ items, body a () = .ok (.yield ()) := by
  induction items with
  | nil => simp
  | cons a items ih =>
    rw [List.forIn_cons] at h
    obtain ⟨step, hstep, h⟩ := bind_eq_ok.1 h
    cases step with
    | done _ => exact absurd hstep (hbody a)
    | yield _ => exact List.forall_mem_cons.2 ⟨hstep, ih h⟩

theorem forM_eq_ok {f : α → Except ε Unit} {xs : List α} {u : Unit} :
    xs.forM f = .ok u ↔ ∀ x ∈ xs, f x = .ok u := by
  induction xs with
  | nil => exact ⟨fun _ _ hx => absurd hx List.not_mem_nil, fun _ => rfl⟩
  | cons x xs ih =>
    rw [List.forall_mem_cons, ← ih]
    refine bind_eq_ok.trans ?_
    exact ⟨fun ⟨_, hx, hxs⟩ => ⟨hx, hxs⟩, fun ⟨hx, hxs⟩ => ⟨u, hx, hxs⟩⟩

/-- The outcome of a computation that calls a function on the inputs, until it fails on one. -/
structure Calls (f : ι → Except ε γ) (inputs : List ι) (x : Except ε α) : Prop where
  /-- Where the computation does not fail, no call did. -/
  of_ok : ∀ a, x = .ok a → ∀ i ∈ inputs, ∃ v, f i = .ok v
  /-- Where the computation fails, a call did. -/
  of_error : ∀ e, x = .error e → ∃ i ∈ inputs, f i = .error e

namespace Calls

variable {f : ι → Except ε γ} {is js : List ι} {x : Except ε α}

theorem pure (a : α) : Calls f [] (.ok a : Except ε α) :=
  ⟨fun _ _ _ hi => absurd hi List.not_mem_nil, nofun⟩

theorem call (i : ι) : Calls f [i] (f i) where
  of_ok v h j hj := by
    cases List.mem_singleton.1 hj
    exact ⟨v, h⟩
  of_error e h := ⟨i, List.mem_singleton_self i, h⟩

/-- What is done after the inputs of the first part calls the others, whatever the first part gave. -/
theorem bind {g : α → Except ε β} (hx : Calls f is x) (hg : ∀ a, Calls f js (g a)) :
    Calls f (is ++ js) (x >>= g) where
  of_ok b h i hi := by
    obtain ⟨a, ha, hb⟩ := bind_eq_ok.1 h
    rcases List.mem_append.1 hi with hi | hi
    · exact hx.of_ok a ha i hi
    · exact (hg a).of_ok b hb i hi
  of_error e h := by
    rcases bind_eq_error.1 h with h | ⟨a, -, h⟩
    · obtain ⟨i, hi, he⟩ := hx.of_error e h
      exact ⟨i, List.mem_append_left js hi, he⟩
    · obtain ⟨i, hi, he⟩ := (hg a).of_error e h
      exact ⟨i, List.mem_append_right is hi, he⟩

theorem map {g : α → β} (hx : Calls f is x) : Calls f is (g <$> x) := by
  have h : Calls f (is ++ []) (x >>= fun a => .ok (g a)) := hx.bind fun a => pure (g a)
  rw [List.append_nil] at h
  cases x <;> exact h

end Calls

variable {δ α' β' : Type} {R : α → α' → Prop} {S : β → β' → Prop}

/-- Both computations fail, or neither does and their results are related. -/
inductive Agree (R : α → α' → Prop) : Except ε α → Except δ α' → Prop where
  | ok {a : α} {b : α'} (h : R a b) : Agree R (.ok a) (.ok b)
  | error (e : ε) (e' : δ) : Agree R (.error e) (.error e')

namespace Agree

variable {x : Except ε α} {y : Except δ α'}

theorem bind {f : α → Except ε β} {g : α' → Except δ β'} (h : Agree R x y)
    (hfg : ∀ a b, x = .ok a → y = .ok b → R a b → Agree S (f a) (g b)) :
    Agree S (x >>= f) (y >>= g) := by
  cases h with
  | ok h => exact hfg _ _ rfl rfl h
  | error e e' => exact .error e e'

theorem map {f : α → β} {g : α' → β'} (h : Agree R x y)
    (hfg : ∀ a b, x = .ok a → y = .ok b → R a b → S (f a) (g b)) :
    Agree S (x.map f) (y.map g) := by
  cases h with
  | ok h => exact .ok (hfg _ _ rfl rfl h)
  | error e e' => exact .error e e'

theorem of_ok {a : α} (h : Agree R x y) (hx : x = .ok a) : ∃ b, y = .ok b ∧ R a b := by
  cases h <;> cases hx
  exact ⟨_, rfl, ‹_›⟩

theorem of_ok_right {b : α'} (h : Agree R x y) (hy : y = .ok b) : ∃ a, x = .ok a ∧ R a b := by
  cases h <;> cases hy
  exact ⟨_, rfl, ‹_›⟩

theorem of_isOk (hisOk : (∃ a, x = .ok a) ↔ ∃ b, y = .ok b)
    (h : ∀ a b, x = .ok a → y = .ok b → R a b) : Agree R x y := by
  cases x with
  | error e =>
    cases y with
    | error e' => exact .error e e'
    | ok b => exact absurd (hisOk.2 ⟨b, rfl⟩) (by simp)
  | ok a =>
    cases y with
    | error e' => exact absurd (hisOk.1 ⟨a, rfl⟩) (by simp)
    | ok b => exact .ok (h a b rfl rfl)

theorem of_map {T : β → α' → Prop} {f : α → β} (h : Agree T (x.map f) y) :
    Agree (fun a b => T (f a) b) x y := by
  cases x <;> cases h
  · exact .error _ _
  · exact .ok ‹_›

theorem map_left {T : β → α' → Prop} {f : α → β} (h : Agree (fun a b => T (f a) b) x y) :
    Agree T (x.map f) y := by
  cases h with
  | ok h => exact .ok h
  | error e e' => exact .error e e'

theorem mapError_left {ε' : Type} {f : ε → ε'} (h : Agree R x y) : Agree R (x.mapError f) y := by
  cases h with
  | ok h => exact .ok h
  | error e e' => exact .error _ e'

theorem ite {p q : Prop} [Decidable p] [Decidable q] {x' : Except ε α} {y' : Except δ α'}
    (hpq : p ↔ q) (h : p → Agree R x y) (h' : ¬p → Agree R x' y') :
    Agree R (if p then x else x') (if q then y else y') := by
  by_cases hp : p
  · rw [if_pos hp, if_pos (hpq.1 hp)]
    exact h hp
  · rw [if_neg hp, if_neg (mt hpq.2 hp)]
    exact h' hp

end Agree

end U2os.Fallible
