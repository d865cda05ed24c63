import U2os.Lib.JsText

/-!
# Data that reads the same

The order of the keys of a mapping says nothing: whoever reads properties by name finds the same.
Reading a name that a mapping does not hold finds what every plain object inherits.

## Main results

* `Yaml.lookup_assign`, `Yaml.lookup_spread` : what an assignment and a spread leave.
-/

namespace U2os

namespace Yaml

/-- The same, but for the order of the keys of mappings. -/
inductive Same : Yaml → Yaml → Prop
  | refl (v : Yaml) : Same v v
  | map {es es' : List (String × Yaml)}
      (keys : ∀ k, (lookup es k).isSome = (lookup es' k).isSome)
      (values : ∀ k v v', lookup es k = some v → lookup es' k = some v' → Same v v') :
      Same (.map es) (.map es')

/-- Every mapping has each key once. -/
inductive Distinct : Yaml → Prop
  | map {es : List (String × Yaml)} (nodup : (es.map Prod.fst).Nodup)
      (values : ∀ k w, lookup es k = some w → Distinct w) : Distinct (.map es)
  | other {v : Yaml} (h : ∀ es, v ≠ .map es) : Distinct v

variable {es es' more : List (String × Yaml)} {k k' : String} {v w : Yaml}

theorem lookup_cons (e : String × Yaml) (es : List (String × Yaml)) (k : String) :
    lookup (e :: es) k = if e.1 = k then some e.2 else lookup es k := Assoc.get?_cons e es k

theorem lookup_eq_none_iff : lookup es k = none ↔ k ∉ es.map Prod.fst := Assoc.get?_eq_none_iff

theorem lookup_isSome_iff : (lookup es k).isSome ↔ k ∈ es.map Prod.fst := by
  rw [← Option.ne_none_iff_isSome, Ne, lookup_eq_none_iff, not_not]

theorem mem_of_lookup (h : lookup es k = some v) : (k, v) ∈ es := Assoc.mem_of_get? h

theorem assign_eq : assign k v es = Assoc.assign k v es := by
  induction es with
  | nil => rfl
  | cons e es ih => rw [assign, Assoc.assign, ih]

theorem lookup_assign : lookup (assign k v es) k' = if k = k' then some v else lookup es k' := by
  rw [assign_eq]
  exact Assoc.get?_assign

/-- Entries that are spread win over those that were there. -/
theorem lookup_spread (hnodup : (more.map Prod.fst).Nodup) :
    lookup (spread es more) k = (lookup more k).or (lookup es k) := by
  induction more generalizing es with
  | nil => rfl
  | cons e more ih =>
    obtain ⟨hnot, hnodup⟩ := List.nodup_cons.1 hnodup
    rw [spread, List.foldl_cons]
    change lookup (spread (assign e.1 e.2 es) more) k = _
    rw [ih hnodup, lookup_assign, lookup_cons]
    split_ifs with hk
    · rw [lookup_eq_none_iff.2 (hk ▸ hnot)]
      rfl
    · rfl

theorem entries_map (es : List (String × Yaml)) : (map es).entries = es := rfl

theorem Distinct.nodup (h : Distinct (.map es)) : (es.map Prod.fst).Nodup := by
  cases h with
  | map nodup _ => exact nodup
  | other h => exact absurd rfl (h es)

theorem Distinct.of_lookup (h : Distinct (.map es)) (k : String) (hw : lookup es k = some w) :
    Distinct w := by
  cases h with
  | map _ values => exact values k w hw
  | other h => exact absurd rfl (h es)

theorem Distinct.of_mem {e : String × Yaml} (h : Distinct (.map es)) (he : e ∈ es) :
    Distinct e.2 := h.of_lookup e.1 (Assoc.get?_eq_some_of_mem h.nodup he)

theorem Distinct.nil : Distinct (.map []) := .map List.nodup_nil nofun

theorem Distinct.str (s : String) : Distinct (.str s) := .other nofun

theorem Distinct.assign (h : Distinct (.map es)) (hv : Distinct v) (k : String) :
    Distinct (.map (assign k v es)) := by
  refine .map ?_ fun k' w hw => ?_
  · rw [assign_eq]
    exact Assoc.nodup_assign h.nodup
  · rw [lookup_assign] at hw
    split_ifs at hw
    · exact Option.some_inj.1 hw ▸ hv
    · exact h.of_lookup k' hw

/-- Maps are the same data if they have the same data under every key. -/
theorem same_map_iff :
    Same (.map es) (.map es') ↔ ∀ k, Option.Rel Same (lookup es k) (lookup es' k) := by
  constructor
  · intro h k
    cases h with
    | refl _ =>
      cases lookup es k with
      | none => exact .none
      | some v => exact .some (.refl v)
    | map keys values =>
      have hk := keys k
      cases hv : lookup es k <;> cases hv' : lookup es' k
      · exact .none
      · rw [hv, hv'] at hk
        cases hk
      · rw [hv, hv'] at hk
        cases hk
      · exact .some (values k _ _ hv hv')
  · intro h
    refine .map (fun k => ?_) fun k v v' hv hv' => ?_
    · have hk := h k
      generalize lookup es k = o at hk ⊢
      generalize lookup es' k = o' at hk ⊢
      cases hk <;> rfl
    · have hk := h k
      rw [hv, hv'] at hk
      cases hk with
      | some hsame => exact hsame

theorem Same.text_eq (h : Same v w) : v.text = w.text := by
  cases h with
  | refl _ => rfl
  | map keys _ => rw [text, text, keys]

end Yaml

/-- What a mapping inherits does not depend on its entries. -/
def Library.Uniform {words : List String} (L : Library words) : Prop :=
  ∀ es es' k, L.get (.data (.map es)) k = L.get (.data (.map es')) k

namespace JsValue

/-- The same, but for the order of the keys of mappings. -/
inductive Same : JsValue → JsValue → Prop
  | refl (x : JsValue) : Same x x
  | data {v w : Yaml} (h : v.Same w) : Same (.data v) (.data w)

variable {words : List String} {L : Library words} {x y : JsValue}

theorem get_map_same (hL : L.Uniform) {es es' : List (String × Yaml)} {k : String}
    (h : Option.Rel Yaml.Same (Yaml.lookup es k) (Yaml.lookup es' k)) :
    Same ((data (.map es)).get L k) ((data (.map es')).get L k) := by
  rw [JsValue.get, JsValue.get]
  generalize Yaml.lookup es k = o at h ⊢
  generalize Yaml.lookup es' k = o' at h ⊢
  cases h with
  | none =>
    dsimp only
    rw [hL es es' k]
    exact .refl _
  | some h => exact .data h

theorem Same.get (hL : L.Uniform) (h : Same x y) (k : String) : Same (x.get L k) (y.get L k) := by
  cases h with
  | refl _ => exact .refl _
  | data h =>
    cases h with
    | refl _ => exact .refl _
    | map keys values => exact get_map_same hL (Yaml.same_map_iff.1 (.map keys values) k)

theorem Same.text_eq (h : Same x y) : x.text = y.text := by
  cases h with
  | refl _ => rfl
  | data h => exact h.text_eq

theorem Same.isObject_eq (h : Same x y) : x.isObject = y.isObject := by
  cases h with
  | refl _ => rfl
  | data h => cases h <;> rfl

end JsValue

end U2os
