import Mathlib.Data.List.Infix
import Mathlib.Data.List.Intervals
import Mathlib.Order.Defs.PartialOrder

/-!
# Paths written with a separator

A path is a sequence of components; its text has a separator between them.  One path extends
another one strictly iff its text begins with the text of the other and a separator: this is what
makes a comparison of texts one of paths.

## Main results

* `Extends.of_initial`, `extends_concat_iff` : the order of paths.
-/

namespace U2os

open List

variable {α : Type*}

/-- `t` goes on where `s` ends. -/
def Extends (s t : List α) : Prop := s <+: t ∧ s ≠ t

theorem extends_append {s r : List α} : Extends s (s ++ r) ↔ r ≠ [] := by
  simp [Extends]

theorem Extends.exists_append {s t : List α} (h : Extends s t) : ∃ r, r ≠ [] ∧ t = s ++ r := by
  obtain ⟨⟨r, rfl⟩, hne⟩ := h
  exact ⟨r, extends_append.1 ⟨prefix_append s r, hne⟩, rfl⟩

theorem Extends.of_initial {s t u : List α} (h : s <+: t) (h' : Extends t u) : Extends s u := by
  obtain ⟨v, rfl⟩ := h
  obtain ⟨w, hw, rfl⟩ := h'.exists_append
  rw [append_assoc]
  exact extends_append.2 (by simp [hw])

/-- What a path with one more component extends is a prefix of the path. -/
theorem extends_concat_iff {s t : List α} {x : α} : Extends s (t ++ [x]) ↔ s <+: t := by
  constructor
  · intro h
    obtain ⟨r, hr, heq⟩ := h.exists_append
    obtain rfl | ⟨init, last, rfl⟩ := r.eq_nil_or_concat
    · exact absurd rfl hr
    · rw [concat_eq_append, ← append_assoc] at heq
      exact ⟨init, (append_inj' heq rfl).1.symm⟩
  · exact fun h => .of_initial h (extends_append.2 (cons_ne_nil _ _))

variable [BEq α] [LawfulBEq α]

omit [BEq α] [LawfulBEq α] in
theorem intercalate_append {sep : List α} {xs ys : List (List α)} (hx : xs ≠ []) (hy : ys ≠ []) :
    sep.intercalate (xs ++ ys) = sep.intercalate xs ++ sep ++ sep.intercalate ys := by
  induction xs with
  | nil => exact absurd rfl hx
  | cons x xs ih =>
    cases xs with
    | nil => simp [intercalate_cons_of_ne_nil hy]
    | cons x' xs =>
      rw [cons_append, cons_append, intercalate_cons_cons, ← cons_append, ih (cons_ne_nil _ _),
        intercalate_cons_cons]
      simp only [append_assoc]

theorem splitOn_injective (sep : α) : Function.Injective (List.splitOn sep) :=
  Function.LeftInverse.injective (g := [sep].intercalate) fun _ => intercalate_splitOn sep

/-- A text that starts with a name and the separator is one whose parts go on after those of the
name. -/
theorem append_sep_prefix_iff {sep : α} {s t : List α} :
    s ++ [sep] <+: t ↔ Extends (s.splitOn sep) (t.splitOn sep) := by
  constructor
  · rintro ⟨u, rfl⟩
    rw [append_assoc, singleton_append, splitOn_append_cons_self]
    exact extends_append.2 (splitOn_ne_nil _ _)
  · intro h
    obtain ⟨r, hr, ht⟩ := h.exists_append
    refine ⟨[sep].intercalate r, ?_⟩
    have hjoin := @intercalate_append _ [sep] _ _ (splitOn_ne_nil sep s) hr
    rw [← ht, intercalate_splitOn, intercalate_splitOn] at hjoin
    exact hjoin.symm

end U2os
