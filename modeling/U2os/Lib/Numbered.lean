import Mathlib.Data.List.Nodup
import Mathlib.Tactic.Common

/-!
# Tables that number their rows

A table whose rows are numbered from one in the order of insertion and are never removed: the
number is given by the table, and it is the key.

## Main results

* `Numbered.mem_push`, `Numbered.mem_modify` : the rows afterwards.
-/

namespace U2os

open List

/-- Rows numbered from one. -/
structure Numbered (ρ : Type*) (key : ρ → ℕ) where
  /-- The rows. -/
  rows : List ρ
  /-- The numbers. -/
  numbered : rows.map key = range' 1 rows.length

namespace Numbered

variable {ρ : Type*} {key : ρ → ℕ}

/-- The empty table. -/
def empty : Numbered ρ key := ⟨[], rfl⟩

instance : Membership ρ (Numbered ρ key) := ⟨fun t r => r ∈ t.rows⟩

theorem mem_rows {t : Numbered ρ key} {r : ρ} : r ∈ t.rows ↔ r ∈ t := Iff.rfl

@[simp] theorem not_mem_empty (r : ρ) : r ∉ (empty : Numbered ρ key) := not_mem_nil

theorem nodup (t : Numbered ρ key) : (t.rows.map key).Nodup := by
  rw [t.numbered]
  exact nodup_range'

theorem eq_of_key {t : Numbered ρ key} {r r' : ρ} (h : r ∈ t) (h' : r' ∈ t)
    (hk : key r = key r') : r = r' :=
  inj_on_of_nodup_map t.nodup h h' hk

theorem key_le {t : Numbered ρ key} {r : ρ} (h : r ∈ t) : key r ≤ t.rows.length := by
  have hk : key r ∈ range' 1 t.rows.length := by
    rw [← t.numbered]
    exact mem_map_of_mem h
  have := mem_range'_1.1 hk
  omega

/-- The number of the next row. -/
def next (t : Numbered ρ key) : ℕ := t.rows.length + 1

theorem key_lt_next {t : Numbered ρ key} {r : ρ} (h : r ∈ t) : key r < t.next :=
  Nat.lt_succ_of_le (key_le h)

/-- An insertion; the row gets the next number. -/
def push (t : Numbered ρ key) (mk : ℕ → ρ) (h : ∀ n, key (mk n) = n) : Numbered ρ key where
  rows := t.rows ++ [mk t.next]
  numbered := by
    rw [map_append, t.numbered, length_append, length_singleton,
      range'_concat, map_singleton, h, next]
    simp [Nat.add_comm]

theorem mem_push {t : Numbered ρ key} {mk : ℕ → ρ} (h : ∀ n, key (mk n) = n) {x : ρ} :
    x ∈ t.push mk h ↔ x ∈ t ∨ x = mk t.next := by
  rw [← mem_rows]
  simp [push, mem_rows]

theorem mem_push_self (t : Numbered ρ key) (mk : ℕ → ρ) (h : ∀ n, key (mk n) = n) :
    mk t.next ∈ t.push mk h :=
  (mem_push h).2 (.inr rfl)

/-- An update of the row of one number. -/
def modify (t : Numbered ρ key) (k : ℕ) (f : ρ → ρ) (hf : ∀ r, key (f r) = key r) :
    Numbered ρ key where
  rows := t.rows.map fun r => if key r = k then f r else r
  numbered := by
    rw [map_map, length_map, ← t.numbered]
    refine map_congr_left fun r _ => ?_
    by_cases hk : key r = k
    · simp [hk, hf]
    · simp [hk]

theorem mem_modify {t : Numbered ρ key} {k : ℕ} {f : ρ → ρ} (hf : ∀ r, key (f r) = key r)
    {x : ρ} : x ∈ t.modify k f hf ↔ ∃ r ∈ t, x = if key r = k then f r else r := by
  rw [← mem_rows]
  simp only [modify, mem_map]
  exact exists_congr fun r => and_congr Iff.rfl eq_comm

/-- `UPDATE … WHERE p`: `f` rewrites the rows that satisfy `p` and keeps their numbers. -/
def updateWhere (t : Numbered ρ key) (p : ρ → Prop) [DecidablePred p] (f : ρ → ρ)
    (hf : ∀ r, key (f r) = key r) : Numbered ρ key where
  rows := t.rows.map fun r => if p r then f r else r
  numbered := by
    rw [map_map, length_map, ← t.numbered]
    refine map_congr_left fun r _ => ?_
    by_cases hp : p r
    · simp [hp, hf]
    · simp [hp]

/-- The rows after an update. -/
theorem mem_updateWhere {t : Numbered ρ key} {p : ρ → Prop} [DecidablePred p] {f : ρ → ρ}
    {hf : ∀ r, key (f r) = key r} {x : ρ} :
    x ∈ t.updateWhere p f hf ↔ ∃ r ∈ t, x = if p r then f r else r := by
  rw [← mem_rows]
  simp only [updateWhere, mem_map]
  exact exists_congr fun r => and_congr Iff.rfl eq_comm

theorem ext_rows {t u : Numbered ρ key} (h : t.rows = u.rows) : t = u := by
  cases t
  cases u
  cases h
  rfl

theorem updateWhere_eq_self {t : Numbered ρ key} {p : ρ → Prop} [DecidablePred p] {f : ρ → ρ}
    {hf : ∀ r, key (f r) = key r} (h : ∀ r ∈ t, ¬p r) : t.updateWhere p f hf = t := by
  refine ext_rows ?_
  calc t.rows.map (fun r => if p r then f r else r)
      = t.rows.map id := map_congr_left fun r hr => if_neg (h r hr)
    _ = t.rows := map_id _

/-- An update that no filtered row takes part in leaves the filtered rows as they are. -/
theorem filter_updateWhere {t : Numbered ρ key} {p : ρ → Prop} [DecidablePred p] {f : ρ → ρ}
    (hf : ∀ r, key (f r) = key r) {P : ρ → Bool}
    (h : ∀ r ∈ t, p r → P r = false ∧ P (f r) = false) :
    (t.updateWhere p f hf).rows.filter P = t.rows.filter P := by
  have hlist : ∀ l : List ρ, (∀ r ∈ l, p r → P r = false ∧ P (f r) = false) →
      (l.map fun r => if p r then f r else r).filter P = l.filter P := by
    intro l hl
    induction l with
    | nil => rfl
    | cons r l ih =>
      have hrest := ih fun q hq => hl q (mem_cons_of_mem _ hq)
      rw [map_cons, filter_cons, filter_cons, hrest]
      by_cases hp : p r
      · obtain ⟨h1, h2⟩ := hl r mem_cons_self hp
        rw [if_pos hp, h1, h2]
        rfl
      · rw [if_neg hp]
  exact hlist t.rows h

theorem filter_updateWhere_gone {t : Numbered ρ key} {p : ρ → Prop} [DecidablePred p] {f : ρ → ρ}
    (hf : ∀ r, key (f r) = key r) {P : ρ → Bool} (h : ∀ r, p r → P (f r) = false) :
    (t.updateWhere p f hf).rows.filter P = (t.rows.filter P).filter fun r => ¬p r := by
  have hlist : ∀ l : List ρ, (l.map fun r => if p r then f r else r).filter P =
      (l.filter P).filter fun r => ¬p r := by
    intro l
    induction l with
    | nil => rfl
    | cons r l ih =>
      rw [map_cons, filter_cons, ih]
      by_cases hp : p r <;> by_cases hP : P r = true <;> simp [hp, hP, h]
  exact hlist t.rows

theorem filter_modify {t : Numbered ρ key} {k : ℕ} {f : ρ → ρ} (hf : ∀ r, key (f r) = key r)
    {P : ρ → Bool} (h : ∀ r ∈ t, key r = k → P r = false ∧ P (f r) = false) :
    (t.modify k f hf).rows.filter P = t.rows.filter P :=
  filter_updateWhere (p := fun r => key r = k) hf h

theorem filter_modify_of {t : Numbered ρ key} {k : ℕ} {f : ρ → ρ} (hf : ∀ r, key (f r) = key r)
    {P : ρ → Bool} (h : ∀ r, P (f r) = P r) :
    (t.modify k f hf).rows.filter P = (t.rows.filter P).map fun r => if key r = k then f r else r := by
  rw [modify, filter_map]
  congr 1
  refine filter_congr fun r _ => ?_
  by_cases hk : key r = k <;> simp [hk, h]

theorem rows_modify_push {t : Numbered ρ key} {mk : ℕ → ρ} (h : ∀ n, key (mk n) = n) {f : ρ → ρ}
    (hf : ∀ r, key (f r) = key r) :
    ((t.push mk h).modify (t.push mk h).rows.length f hf).rows = t.rows ++ [f (mk t.next)] := by
  have hlength : (t.push mk h).rows.length = t.next := by simp [push, next]
  rw [hlength]
  simp only [modify, push, map_append, map_singleton, h, if_pos]
  congr 1
  calc t.rows.map (fun r => if key r = t.next then f r else r)
      = t.rows.map id :=
        map_congr_left fun r hr => if_neg (Nat.ne_of_lt (key_lt_next (mem_rows.1 hr)))
    _ = t.rows := map_id _

/-- The row of a number. -/
def find (t : Numbered ρ key) (k : ℕ) : Option ρ := t.rows.find? fun r => key r = k

end Numbered

end U2os
