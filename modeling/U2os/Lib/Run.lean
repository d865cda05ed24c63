import Mathlib.Data.List.Induction
import Mathlib.Logic.Function.Basic
import Mathlib.Tactic.Common

/-!
# Machines and their runs

Every component of this development is a *machine*: states, an initial state and labelled
steps.  Properties of a component are properties of its *runs*, and most of them speak about
the past of a state, so a run carries the list of the labels performed so far (its *history*).

## Main results

* `Refines.steps` : a machine whose steps are runs of another one has only its runs.
-/

namespace U2os

open List Option

/-- An initial state and labelled steps. -/
structure Machine (σ : Type*) (ℓ : Type*) where
  /-- The state every run starts in. -/
  init : σ
  /-- `step s l t` : the machine can move from `s` to `t`, performing `l`. -/
  step : σ → ℓ → σ → Prop

namespace Machine

variable {σ ℓ : Type*} (M : Machine σ ℓ)

/-- Performing the labels `h` in order leads from the first state to the second. -/
inductive Steps (s : σ) : List ℓ → σ → Prop
  | nil : Steps s [] s
  | snoc {h : List ℓ} {l : ℓ} {t u : σ} : Steps s h t → M.step t l u → Steps s (h ++ [l]) u

/-- A run: from the initial state, with its history. -/
def Run (h : List ℓ) (s : σ) : Prop := M.Steps M.init h s

/-- Some run ends in `s`. -/
def Reachable (s : σ) : Prop := ∃ h, M.Run h s

variable {M}

namespace Steps

theorem single {s t : σ} {l : ℓ} (h : M.step s l t) : M.Steps s [l] t :=
  Steps.snoc Steps.nil h

theorem trans {s t u : σ} {h h' : List ℓ} (hs : M.Steps s h t) (ht : M.Steps t h' u) :
    M.Steps s (h ++ h') u := by
  induction ht with
  | nil => rwa [append_nil]
  | snoc _ hst ih => rw [← append_assoc]; exact ih.snoc hst

theorem cons {s t u : σ} {l : ℓ} {h : List ℓ} (hst : M.step s l t) (ht : M.Steps t h u) :
    M.Steps s (l :: h) u :=
  (single hst).trans ht

theorem eq_of_nil {s t : σ} (h : M.Steps s [] t) : t = s := by
  generalize hh : ([] : List ℓ) = h' at h
  cases h with
  | nil => rfl
  | snoc => simp at hh

/-- The last step of a run. -/
theorem last {s u : σ} {h : List ℓ} {l : ℓ} (hs : M.Steps s (h ++ [l]) u) :
    ∃ t, M.Steps s h t ∧ M.step t l u := by
  generalize hh : h ++ [l] = h' at hs
  cases hs with
  | nil => simp at hh
  | snoc hs hst =>
    obtain ⟨rfl, hl⟩ := append_inj' hh rfl
    obtain rfl : l = _ := by simpa using hl
    exact ⟨_, hs, hst⟩

theorem split {s u : σ} {h h' : List ℓ} (hs : M.Steps s (h ++ h') u) :
    ∃ t, M.Steps s h t ∧ M.Steps t h' u := by
  induction h' using reverseRecOn generalizing u with
  | nil => rw [append_nil] at hs; exact ⟨u, hs, Steps.nil⟩
  | append_singleton h' l ih =>
    rw [← append_assoc] at hs
    obtain ⟨v, hv, hst⟩ := hs.last
    obtain ⟨t, ht, htv⟩ := ih hv
    exact ⟨t, ht, htv.snoc hst⟩

theorem uncons {s u : σ} {h : List ℓ} {l : ℓ} (hs : M.Steps s (l :: h) u) :
    ∃ t, M.step s l t ∧ M.Steps t h u := by
  obtain ⟨t, ht, htu⟩ := split (h := [l]) hs
  obtain ⟨r, hr, hst⟩ := last (h := []) ht
  obtain rfl := hr.eq_of_nil
  exact ⟨t, hst, htu⟩

theorem exists_of_mem {s u : σ} {h : List ℓ} {l : ℓ} (hs : M.Steps s h u) (hl : l ∈ h) :
    ∃ h₁ h₂ t t', h = h₁ ++ l :: h₂ ∧ M.Steps s h₁ t ∧ M.step t l t' ∧ M.Steps t' h₂ u := by
  obtain ⟨h₁, h₂, rfl⟩ := append_of_mem hl
  obtain ⟨t, ht, htu⟩ := hs.split
  obtain ⟨t', hst, ht'⟩ := htu.uncons
  exact ⟨h₁, h₂, t, t', rfl, ht, hst, ht'⟩

/-- A relation between history and state that holds at the start and is kept by every step
holds along the run. -/
theorem history {I : List ℓ → σ → Prop} {s t : σ} {h : List ℓ} (hs : M.Steps s h t)
    (h₀ : I [] s)
    (hstep : ∀ h t l u, M.Steps s h t → I h t → M.step t l u → I (h ++ [l]) u) : I h t := by
  induction hs with
  | nil => exact h₀
  | snoc hs hst ih => exact hstep _ _ _ _ hs ih hst

/-- A predicate kept by every step whose label satisfies `P` is kept by every run whose labels
all satisfy `P`. -/
theorem invariantOn {P : ℓ → Prop} {I : σ → Prop} {s t : σ} {h : List ℓ} (hs : M.Steps s h t)
    (hP : ∀ l ∈ h, P l) (h₀ : I s) (hstep : ∀ t l u, P l → I t → M.step t l u → I u) : I t := by
  induction hs with
  | nil => exact h₀
  | snoc _ hst ih =>
    exact hstep _ _ _ (hP _ (by simp)) (ih fun l hl => hP l (by simp [hl])) hst

theorem invariant {I : σ → Prop} {s t : σ} {h : List ℓ} (hs : M.Steps s h t) (h₀ : I s)
    (hstep : ∀ t l u, I t → M.step t l u → I u) : I t :=
  hs.invariantOn (P := fun _ => True) (fun _ _ => trivial) h₀ fun t l u _ => hstep t l u

theorem exists_break {I : σ → Prop} {s t : σ} {h : List ℓ} (hs : M.Steps s h t) (h₀ : I s)
    (ht : ¬ I t) : ∃ h₁ l h₂ u v, h = h₁ ++ l :: h₂ ∧ M.Steps s h₁ u ∧ I u ∧ M.step u l v ∧
      ¬ I v ∧ M.Steps v h₂ t := by
  induction hs with
  | nil => exact absurd h₀ ht
  | @snoc h l t u hs hst ih =>
    by_cases hI : I t
    · exact ⟨h, l, [], t, u, rfl, hs, hI, hst, ht, Steps.nil⟩
    · obtain ⟨h₁, l', h₂, v, w, rfl, h1, hv, h2, hw, h3⟩ := ih hI
      exact ⟨h₁, l', h₂ ++ [l], v, w, by simp, h1, hv, h2, hw, h3.snoc hst⟩

end Steps

namespace Run

theorem nil : M.Run [] M.init := Steps.nil

theorem snoc {h : List ℓ} {s t : σ} {l : ℓ} (hr : M.Run h s) (hst : M.step s l t) :
    M.Run (h ++ [l]) t :=
  Steps.snoc hr hst

theorem append {h h' : List ℓ} {s t : σ} (hr : M.Run h s) (hs : M.Steps s h' t) :
    M.Run (h ++ h') t :=
  Steps.trans hr hs

theorem invariant {I : σ → Prop} {h : List ℓ} {s : σ} (hr : M.Run h s) (h₀ : I M.init)
    (hstep : ∀ s l t, I s → M.step s l t → I t) : I s :=
  Steps.invariant hr h₀ hstep

theorem history {I : List ℓ → σ → Prop} {h : List ℓ} {s : σ} (hr : M.Run h s)
    (h₀ : I [] M.init)
    (hstep : ∀ h s l t, M.Run h s → I h s → M.step s l t → I (h ++ [l]) t) : I h s :=
  Steps.history hr h₀ hstep

end Run

/-- The machine with only the steps that meet a condition. -/
def restrict (M : Machine σ ℓ) (P : σ → ℓ → σ → Prop) : Machine σ ℓ where
  init := M.init
  step s l t := M.step s l t ∧ P s l t

theorem Steps.of_restrict {P : σ → ℓ → σ → Prop} {s t : σ} {h : List ℓ}
    (hs : (M.restrict P).Steps s h t) : M.Steps s h t := by
  induction hs with
  | nil => exact Steps.nil
  | snoc _ hst ih => exact ih.snoc hst.1

/-- The machine of a function from a state and a label to the next state. -/
def ofPerform (init : σ) (perform : σ → ℓ → Option σ) : Machine σ ℓ where
  init := init
  step s l t := perform s l = some t

/-- A run whose steps all pass a check, executed. -/
def drive (perform : σ → ℓ → Option σ) (ok : σ → ℓ → Bool) : σ → List ℓ → Option σ
  | s, [] => some s
  | s, l :: ls => if ok s l then (perform s l).bind fun t => drive perform ok t ls else none

/-- A run driven by a function is a run of the machine that it defines. -/
theorem steps_drive {init : σ} {perform : σ → ℓ → Option σ} {ok : σ → ℓ → Bool}
    {P : σ → ℓ → Prop} (hok : ∀ s l, ok s l = true → P s l) {s t : σ} {ls : List ℓ}
    (h : drive perform ok s ls = some t) :
    ((ofPerform init perform).restrict fun s l _ => P s l).Steps s ls t := by
  induction ls generalizing s with
  | nil =>
    cases h
    exact .nil
  | cons l ls ih =>
    simp only [drive, ite_none_right_eq_some] at h
    obtain ⟨hl, h⟩ := h
    obtain ⟨u, hu, hd⟩ := bind_eq_some_iff.1 h
    exact Steps.cons ⟨hu, hok s l hl⟩ (ih hd)

theorem run_drive {init : σ} {perform : σ → ℓ → Option σ} {t : σ} {ls : List ℓ}
    (h : drive perform (fun _ _ => true) init ls = some t) : (ofPerform init perform).Run ls t :=
  (steps_drive (P := fun _ _ => True) (fun _ _ _ => trivial) h).of_restrict

/-- Every step of `A` is a run of `B` between the images of its states. -/
def Refines {τ m : Type*} (A : Machine σ ℓ) (B : Machine τ m) (f : σ → τ) : Prop :=
  ∀ s l t, A.step s l t → ∃ h, B.Steps (f s) h (f t)

/-- The runs of a refinement are runs of what it refines. -/
theorem Refines.steps {τ m : Type*} {A : Machine σ ℓ} {B : Machine τ m} {f : σ → τ}
    (hr : A.Refines B f) {s t : σ} {h : List ℓ} (hs : A.Steps s h t) :
    ∃ h', B.Steps (f s) h' (f t) := by
  induction hs with
  | nil => exact ⟨[], Steps.nil⟩
  | snoc _ hst ih =>
    obtain ⟨h₁, h1⟩ := ih
    obtain ⟨h₂, h2⟩ := hr _ _ _ hst
    exact ⟨h₁ ++ h₂, h1.trans h2⟩

end Machine

section Slots

variable {α : Type*} {c c' : ℕ} {x y : α}

theorem of_update_none {f : ℕ → Option α} (h : Function.update f c none c' = some x) :
    c' ≠ c ∧ f c' = some x := by
  rw [Function.update_apply] at h
  split_ifs at h with hc
  exact ⟨hc, h⟩

theorem of_update_some {f : ℕ → Option α} (h : Function.update f c (some y) c' = some x) :
    c' = c ∧ x = y ∨ c' ≠ c ∧ f c' = some x := by
  rw [Function.update_apply] at h
  split_ifs at h with hc
  · exact .inl ⟨hc, (some.inj h).symm⟩
  · exact .inr ⟨hc, h⟩

theorem of_set_some {l : List α} (h : (l.set c y)[c']? = some x) :
    c' = c ∧ x = y ∨ c' ≠ c ∧ l[c']? = some x := by
  rw [getElem?_set] at h
  split_ifs at h with hc hlt
  · exact .inl ⟨hc.symm, (some.inj h).symm⟩
  · exact .inr ⟨Ne.symm hc, h⟩

theorem of_push_some {l : List α} (h : (l ++ [y])[c]? = some x) :
    c = l.length ∧ x = y ∨ c ≠ l.length ∧ l[c]? = some x := by
  rcases Nat.lt_or_ge c l.length with hlt | hge
  · rw [getElem?_append_left hlt] at h
    exact .inr ⟨Nat.ne_of_lt hlt, h⟩
  · rw [getElem?_append_right hge, getElem?_singleton] at h
    split_ifs at h with hc
    exact .inl ⟨by omega, (some.inj h).symm⟩

end Slots

end U2os
