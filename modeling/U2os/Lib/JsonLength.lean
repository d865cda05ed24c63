import Mathlib.Algebra.BigOperators.Group.List.Basic
import Mathlib.Algebra.Order.BigOperators.Group.List
import U2os.Lib.JsText
import U2os.Lib.Json

/-!
# Lengths of serialized values

How long the compact text of a value is, in code units.  The length of a text is the sum over its
parts, so an object whose entries are not longer than those of another one is not longer itself.

## Main results

* `JsText.length_append`, `JsText.length_intercalate_le` : lengths of composed texts.
-/

namespace U2os

namespace JsText

@[simp] theorem length_append (s t : String) : length (s ++ t) = length s + length t := by
  simp [length]

theorem length_intercalate_cons (sep s : String) (ss : List String) (h : ss ≠ []) :
    length (sep.intercalate (s :: ss)) = length s + length sep + length (sep.intercalate ss) := by
  obtain ⟨t, ts, rfl⟩ := List.exists_cons_of_ne_nil h
  rw [String.intercalate_cons_cons]
  simp only [length_append]

theorem length_intercalate_le {sep : String} {ss ts : List String}
    (h : List.Forall₂ (fun s t => length s ≤ length t) ss ts) :
    length (sep.intercalate ss) ≤ length (sep.intercalate ts) := by
  induction h with
  | nil => exact le_rfl
  | @cons s t ss ts hst hrest ih =>
    cases hrest with
    | nil => simpa using hst
    | cons h₁ h₂ =>
      rw [length_intercalate_cons _ _ _ (List.cons_ne_nil _ _),
        length_intercalate_cons _ _ _ (List.cons_ne_nil _ _)]
      omega

end JsText

namespace Json

theorem renderFields_eq (fields : List (String × Json)) :
    renderFields fields = fields.map renderField := by
  induction fields with
  | nil => rfl
  | cons p ps ih => rw [renderFields, ih, List.map_cons]

/-- An object is not longer than one whose values are, key by key, not shorter. -/
theorem length_render_obj_le {fields more : List (String × Json)}
    (h : List.Forall₂ (fun p q => p.1 = q.1 ∧
      JsText.length p.2.render ≤ JsText.length q.2.render) fields more) :
    JsText.length (obj fields).render ≤ JsText.length (obj more).render := by
  have hfields : List.Forall₂ (fun s t => JsText.length s ≤ JsText.length t)
      (renderFields fields) (renderFields more) := by
    rw [renderFields_eq, renderFields_eq, List.forall₂_map_left_iff, List.forall₂_map_right_iff]
    refine h.imp fun p q hpq => ?_
    obtain ⟨k, v⟩ := p
    obtain ⟨l, w⟩ := q
    obtain ⟨rfl, hlen⟩ := hpq
    simpa [renderField] using hlen
  have hinner := @JsText.length_intercalate_le "," _ _ hfields
  simp only [render, JsText.length_append]
  omega

end Json

end U2os
