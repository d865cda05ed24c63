import Mathlib.Data.List.Pairwise
import Mathlib.Data.List.Infix
import Mathlib.Tactic.Common

/-!
# Reading a sorted list through a cursor

A log is a list whose keys strictly increase.  A reader keeps a *cursor*, the key of the last
entry it has seen, and asks for what comes after it; a writer that announces the entries in
order has announced all below some *frontier*.  This file has the algebra of the two.
-/

namespace U2os

open List

variable {α : Type*} (key : α → ℕ)

/-- The entries past a cursor. -/
def after (c : ℕ) (l : List α) : List α := l.filter fun a => c < key a

/-- The entries below a frontier. -/
def below (f : ℕ) (l : List α) : List α := l.filter fun a => key a < f

variable {key} {l m : List α} {a b : α} {c d f : ℕ}

@[simp] theorem mem_after : a ∈ after key c l ↔ a ∈ l ∧ c < key a := by simp [after]

@[simp] theorem mem_below : a ∈ below key f l ↔ a ∈ l ∧ key a < f := by simp [below]

@[simp] theorem after_nil : after key c [] = [] := rfl

theorem after_append : after key c (l ++ m) = after key c l ++ after key c m :=
  filter_append ..

theorem after_cons_of_lt (h : c < key a) : after key c (a :: l) = a :: after key c l :=
  filter_cons_of_pos (by simpa using h)

theorem after_cons_of_le (h : key a ≤ c) : after key c (a :: l) = after key c l :=
  filter_cons_of_neg (by simpa using h)

theorem after_eq_nil : after key c l = [] ↔ ∀ a ∈ l, key a ≤ c := by
  simp [after, filter_eq_nil_iff]

theorem prefix_after (h : l <+: m) : after key c l <+: after key c m := h.filter _

theorem filter_after (p : α → Bool) : (after key c l).filter p = after key c (l.filter p) := by
  simp only [after, filter_filter, Bool.and_comm]

theorem filter_below (p : α → Bool) : (below key f l).filter p = below key f (l.filter p) := by
  simp only [below, filter_filter, Bool.and_comm]

theorem after_eq_after (h : ∀ a ∈ l, c < key a ↔ d < key a) : after key c l = after key d l :=
  filter_congr fun a ha => by simp [h a ha]

theorem append_after_grow {r : List α} (hr : r ++ after key c l = after key d l)
    (h : ∀ a ∈ m, c < key a ↔ d < key a) : r ++ after key c (l ++ m) = after key d (l ++ m) := by
  rw [after_append, after_append, ← hr, append_assoc, after_eq_after h]

theorem below_eq_below (h : ∀ a ∈ l, key a < c ↔ key a < d) : below key c l = below key d l :=
  filter_congr fun a ha => by simp [h a ha]

theorem below_append_of_le (h : ∀ a ∈ m, f ≤ key a) : below key f (l ++ m) = below key f l := by
  have hm : m.filter (fun a => key a < f) = [] := by
    rw [filter_eq_nil_iff]
    intro a ha
    simpa using h a ha
  rw [below, filter_append, hm, append_nil, below]

section Sorted

variable (hl : l.Pairwise fun a b => key a < key b)
include hl

theorem after_eq_cons (h : after key c l = a :: m) : m = after key (key a) l := by
  induction l with
  | nil => simp at h
  | cons b l ih =>
    obtain ⟨hb, hl⟩ := pairwise_cons.1 hl
    by_cases hc : c < key b
    · rw [after_cons_of_lt hc] at h
      obtain ⟨rfl, rfl⟩ := cons_eq_cons.1 h
      rw [after_cons_of_le le_rfl]
      exact after_eq_after fun a ha => iff_of_true (hc.trans (hb a ha)) (hb a ha)
    · rw [after_cons_of_le (not_lt.1 hc)] at h
      have ha : a ∈ after key c l := by rw [h]; exact mem_cons_self
      rw [ih hl h, after_cons_of_le (hb a (mem_after.1 ha).1).le]

theorem append_after_next {r : List α} (hr : r ++ after key c l = after key d l)
    (h : a :: m <+: after key c l) : (r ++ [a]) ++ after key (key a) l = after key d l := by
  obtain ⟨t, ht⟩ := h
  rw [cons_append] at ht
  rw [← hr, ← ht, ← after_eq_cons hl ht.symm, append_assoc, singleton_append]

theorem prefix_after_of_cons (h : a :: m <+: after key c l) : m <+: after key (key a) l := by
  obtain ⟨r, hr⟩ := h
  exact ⟨r, after_eq_cons hl (by rw [← hr, cons_append])⟩

/-- A piece of the log right after a cursor has all that comes up to one of its rows. -/
theorem mem_of_prefix_after (h : m <+: after key c l) (ha : a ∈ m) (hb : b ∈ l) (hcb : c < key b)
    (hba : key b ≤ key a) : b ∈ m := by
  obtain ⟨r, hr⟩ := h
  have hb' : b ∈ m ++ r := by rw [hr]; exact mem_after.2 ⟨hb, hcb⟩
  rcases List.mem_append.1 hb' with hb' | hb'
  · exact hb'
  · -- Entries of the rest are past every entry of the batch.
    have hs : (m ++ r).Pairwise fun a b => key a < key b := by rw [hr]; exact hl.filter _
    exact absurd hba (not_le.2 ((pairwise_append.1 hs).2.2 a ha b hb'))

theorem below_prefix : below key f l <+: l := by
  induction l with
  | nil => exact prefix_rfl
  | cons b l ih =>
    obtain ⟨hb, hl⟩ := pairwise_cons.1 hl
    unfold below at ih ⊢
    by_cases hf : key b < f
    · rw [filter_cons_of_pos (by simpa using hf)]
      exact (prefix_cons_inj b).2 (ih hl)
    · rw [filter_cons_of_neg (by simpa using hf), filter_eq_nil_iff.2]
      · exact nil_prefix
      · intro a ha
        have := hb a ha
        simp only [decide_eq_true_eq]
        omega

/-- Moving the bound past a row adds that row. -/
theorem below_succ (ha : a ∈ l) : below key (key a + 1) l = below key (key a) l ++ [a] := by
  induction l with
  | nil => simp at ha
  | cons b l ih =>
    obtain ⟨hb, hl⟩ := pairwise_cons.1 hl
    unfold below at ih ⊢
    rcases mem_cons.1 ha with rfl | ha
    · have hnil : ∀ f ≤ key a + 1, l.filter (fun x => key x < f) = [] := by
        intro f hf
        rw [filter_eq_nil_iff]
        intro x hx
        have := hb x hx
        simp only [decide_eq_true_eq]
        omega
      rw [filter_cons_of_pos (by simp only [decide_eq_true_eq]; omega),
        filter_cons_of_neg (by simp only [decide_eq_true_eq]; omega),
        hnil (key a + 1) le_rfl, hnil (key a) (by omega), nil_append]
    · have := hb a ha
      rw [filter_cons_of_pos (by simp only [decide_eq_true_eq]; omega),
        filter_cons_of_pos (by simp only [decide_eq_true_eq]; omega), ih hl ha,
        cons_append]

end Sorted

end U2os
