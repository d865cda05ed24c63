import U2os.Lib.JsNumber
import U2os.Lib.JsText

/-!
# Parsed values

What `JSON.parse` returns: numbers are those of the language, and an object has its own entries, in
the order in which they are listed.  A parsed object still inherits the members of
`Object.prototype`: `in` finds these as well, and `Object.hasOwn` does not.

## Main results

* `Assoc.get?_pick` : what is picked is read as before.
-/

namespace U2os

/-- A number that a text of JSON has; a great exponent gives an infinite one. -/
inductive Double where
  | finite (f : F64)
  | infinite (negative : Bool)

/-- `n > x`. -/
def Double.exceededBy : Double → ℕ → Bool
  | finite f, n => f.value < n
  | infinite negative, _ => negative

theorem Double.exceededBy_mono {x : Double} {m n : ℕ} (h : m ≤ n) (hm : x.exceededBy m = true) :
    x.exceededBy n = true := by
  cases x with
  | finite f =>
    simp only [exceededBy, decide_eq_true_eq] at hm ⊢
    exact hm.trans_le (by exact_mod_cast h)
  | infinite negative => exact hm

/-- A parsed value. -/
inductive ParsedJson where
  | null
  | bool (b : Bool)
  | num (x : Double)
  | str (s : String)
  | arr (items : List ParsedJson)
  | obj (entries : List (String × ParsedJson))

namespace ParsedJson

/-- The value of an own key. -/
def get? : ParsedJson → String → Option ParsedJson
  | obj entries, k => Assoc.get? entries k
  | _, _ => none

def keys : ParsedJson → List String
  | obj entries => entries.map Prod.fst
  | _ => []

/-- An object that is neither `null` nor an array. -/
def isObject : ParsedJson → Bool
  | obj _ => true
  | _ => false

theorem isObject_iff {v : ParsedJson} : v.isObject = true ↔ ∃ entries, v = obj entries := by
  cases v with
  | obj entries => exact ⟨fun _ => ⟨entries, rfl⟩, fun _ => rfl⟩
  | _ => exact ⟨nofun, nofun⟩

def typeOf : ParsedJson → String
  | null | arr _ | obj _ => "object"
  | bool _ => "boolean"
  | num _ => "number"
  | str _ => "string"

/-- The integer that a value is: `Number.isInteger`. -/
def integer? : ParsedJson → Option ℤ
  | num (.finite f) => if f.value.den = 1 then some f.value.num else none
  | _ => none

/-- `key in object`: own or inherited. -/
def hasProperty {V : Type} (entries : List (String × V)) (key : String) : Bool :=
  (Assoc.get? entries key).isSome || objectPrototype.contains key

mutual
/-- How many steps lead to the deepest part of a value. -/
def height : ParsedJson → ℕ
  | arr items => heightItems items
  | obj entries => heightEntries entries
  | _ => 0
/-- That of an array. -/
def heightItems : List ParsedJson → ℕ
  | [] => 0
  | v :: vs => max (height v + 1) (heightItems vs)
/-- That of an object. -/
def heightEntries : List (String × ParsedJson) → ℕ
  | [] => 0
  | e :: es => max (heightEntry e + 1) (heightEntries es)
def heightEntry : String × ParsedJson → ℕ
  | (_, v) => height v
end

end ParsedJson

namespace Assoc

variable {V : Type} {keys : List String} {es : List (String × V)} {k : String}

/-- The entries of the keys given, in their order. -/
def pick (keys : List String) (es : List (String × V)) : List (String × V) :=
  keys.filterMap fun key => (get? es key).map fun v => (key, v)

theorem get?_pick : get? (pick keys es) k = if k ∈ keys then get? es k else none := by
  induction keys with
  | nil => rfl
  | cons key keys ih =>
    cases hkey : get? es key with
    | none =>
      have hskip : pick (key :: keys) es = pick keys es := by simp [pick, hkey]
      rw [hskip, ih]
      by_cases hk : k = key
      · subst hk
        rw [hkey, ite_self, ite_self]
      · simp only [List.mem_cons, hk, false_or]
    | some v =>
      have hcons : pick (key :: keys) es = (key, v) :: pick keys es := by simp [pick, hkey]
      rw [hcons, get?_cons, ih]
      by_cases hk : key = k
      · subst hk
        rw [if_pos rfl, if_pos List.mem_cons_self, hkey]
      · simp only [if_neg hk, List.mem_cons, Ne.symm hk, false_or]

theorem get?_pick_of_subset (h : ∀ e ∈ es, e.1 ∈ keys) : get? (pick keys es) k = get? es k := by
  rw [get?_pick]
  split_ifs with hk
  · rfl
  · refine (get?_eq_none_iff.2 fun hmem => hk ?_).symm
    obtain ⟨e, he, rfl⟩ := List.mem_map.1 hmem
    exact h e he

end Assoc

end U2os
