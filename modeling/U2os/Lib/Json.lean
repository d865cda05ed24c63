import Mathlib.Tactic.Common

/-!
# JSON values

Values as the services exchange them.  An object keeps its entries in insertion order; inserting
a present key replaces its value in place.  A number is its literal.

## Main results

* `Json.lookup_insertField` : reading after writing.
-/

namespace U2os

/-- A JSON value. -/
inductive Json where
  /-- `null`. -/
  | null
  /-- A boolean. -/
  | bool (b : Bool)
  /-- A number, by its literal. -/
  | num (literal : String)
  /-- A string. -/
  | str (s : String)
  /-- An array. -/
  | arr (items : List Json)
  /-- An object, its entries in insertion order. -/
  | obj (fields : List (String × Json))

variable {fields more : List (String × Json)}

namespace Json

/-- The string of a string value. -/
def asStr? : Json → Option String
  | str s => some s
  | _ => none

/-- A string, or `null` for none. -/
def ofOptionStr : Option String → Json
  | some s => str s
  | none => null

/-- A number from an integer. -/
def ofInt (n : Int) : Json := num (toString n)

mutual
/-- Equality of values is decidable. -/
def decEq : (a b : Json) → Decidable (a = b)
  | null, null => isTrue rfl
  | bool x, bool y => decidable_of_iff (x = y) (by simp)
  | num x, num y => decidable_of_iff (x = y) (by simp)
  | str x, str y => decidable_of_iff (x = y) (by simp)
  | arr xs, arr ys =>
    haveI := decEqItems xs ys
    decidable_of_iff (xs = ys) (by simp)
  | obj xs, obj ys =>
    haveI := decEqFields xs ys
    decidable_of_iff (xs = ys) (by simp)
  | null, bool _ | null, num _ | null, str _ | null, arr _ | null, obj _
  | bool _, null | bool _, num _ | bool _, str _ | bool _, arr _ | bool _, obj _
  | num _, null | num _, bool _ | num _, str _ | num _, arr _ | num _, obj _
  | str _, null | str _, bool _ | str _, num _ | str _, arr _ | str _, obj _
  | arr _, null | arr _, bool _ | arr _, num _ | arr _, str _ | arr _, obj _
  | obj _, null | obj _, bool _ | obj _, num _ | obj _, str _ | obj _, arr _ =>
    isFalse nofun
/-- The items of two arrays. -/
def decEqItems : (xs ys : List Json) → Decidable (xs = ys)
  | [], [] => isTrue rfl
  | x :: xs, y :: ys =>
    haveI := decEq x y
    haveI := decEqItems xs ys
    decidable_of_iff (x = y ∧ xs = ys) (by simp)
  | [], _ :: _ | _ :: _, [] => isFalse nofun
/-- The entries of two objects. -/
def decEqFields : (xs ys : List (String × Json)) → Decidable (xs = ys)
  | [], [] => isTrue rfl
  | x :: xs, y :: ys =>
    haveI := decEqField x y
    haveI := decEqFields xs ys
    decidable_of_iff (x = y ∧ xs = ys) (by simp)
  | [], _ :: _ | _ :: _, [] => isFalse nofun
/-- One entry. -/
def decEqField : (x y : String × Json) → Decidable (x = y)
  | (k, v), (l, w) =>
    haveI := decEq v w
    decidable_of_iff (k = l ∧ v = w) (by simp)
end

instance : DecidableEq Json := decEq

/-- The hexadecimal digit of `n < 16`. -/
def hexDigit (n : ℕ) : Char := if n < 10 then Char.ofNat (48 + n) else Char.ofNat (87 + n)

/-- The escape of one character of a string. -/
def escapeChar (c : Char) : String :=
  if c = '"' then "\\\""
  else if c = '\\' then "\\\\"
  else if c.toNat = 8 then "\\b"
  else if c.toNat = 9 then "\\t"
  else if c.toNat = 10 then "\\n"
  else if c.toNat = 12 then "\\f"
  else if c.toNat = 13 then "\\r"
  else if c.toNat < 32 then
    "\\u00" ++ String.ofList [hexDigit (c.toNat / 16), hexDigit (c.toNat % 16)]
  else String.ofList [c]

/-- A string between quotes. -/
def quote (s : String) : String := "\"" ++ "".intercalate (s.toList.map escapeChar) ++ "\""

mutual
/-- The compact text of a value. -/
def render : Json → String
  | null => "null"
  | bool b => if b then "true" else "false"
  | num literal => literal
  | str s => quote s
  | arr items => "[" ++ ",".intercalate (renderItems items) ++ "]"
  | obj fields => "\x7b" ++ ",".intercalate (renderFields fields) ++ "\x7d"
/-- The texts of the items of an array. -/
def renderItems : List Json → List String
  | [] => []
  | j :: js => render j :: renderItems js
/-- The texts of the entries of an object. -/
def renderFields : List (String × Json) → List String
  | [] => []
  | p :: ps => renderField p :: renderFields ps
/-- The text of one entry. -/
def renderField : String × Json → String
  | (k, v) => quote k ++ ":" ++ render v
end

example : (obj [("a", num "1"), ("b", arr [null, str "x\n"])]).render
    = "\x7b\"a\":1,\"b\":[null,\"x\\n\"]\x7d" := by decide +kernel

mutual
/-- How deep the arrays and objects of a value nest. -/
def depth : Json → ℕ
  | arr items => depthItems items + 1
  | obj fields => depthFields fields + 1
  | _ => 0
/-- How deep the items of an array nest. -/
def depthItems : List Json → ℕ
  | [] => 0
  | j :: js => max (depth j) (depthItems js)
/-- How deep the entries of an object nest. -/
def depthFields : List (String × Json) → ℕ
  | [] => 0
  | p :: ps => max (depthField p) (depthFields ps)
/-- How deep the value of one entry nests. -/
def depthField : String × Json → ℕ
  | (_, v) => depth v
end

/-- The value of a key. -/
def lookup (fields : List (String × Json)) (k : String) : Option Json :=
  (fields.find? fun p => p.1 = k).map Prod.snd

/-- Insert an entry: a present key keeps its place. -/
def insertField (k : String) (v : Json) : List (String × Json) → List (String × Json)
  | [] => [(k, v)]
  | p :: ps => if p.1 = k then (k, v) :: ps else p :: insertField k v ps

/-- Insert every entry of `more`. -/
def extend (fields more : List (String × Json)) : List (String × Json) :=
  more.foldl (fun fs p => insertField p.1 p.2 fs) fields

/-- The value of a key of an object. -/
def get? : Json → String → Option Json
  | obj fields, k => lookup fields k
  | _, _ => none

theorem lookup_cons (p : String × Json) (ps : List (String × Json)) (k : String) :
    lookup (p :: ps) k = if p.1 = k then some p.2 else lookup ps k := by
  by_cases h : p.1 = k <;> simp [lookup, h]

theorem lookup_insertField (k k' : String) (v : Json) (fields : List (String × Json)) :
    lookup (insertField k v fields) k' = if k = k' then some v else lookup fields k' := by
  induction fields with
  | nil => simp only [insertField, lookup_cons]
  | cons p ps ih =>
    by_cases hp : p.1 = k
    · simp only [insertField, if_pos hp, lookup_cons]
      by_cases hk : k = k'
      · rw [if_pos hk, if_pos hk]
      · rw [if_neg hk, if_neg hk, if_neg (hp ▸ hk)]
    · simp only [insertField, if_neg hp, lookup_cons, ih]
      by_cases hk : k = k'
      · rw [if_pos hk, if_neg (hk ▸ hp), if_pos hk]
      · rw [if_neg hk, if_neg hk]

/-- What is found under a key is in the list. -/
theorem mem_of_lookup {k : String} {v : Json} (h : lookup fields k = some v) : (k, v) ∈ fields := by
  obtain ⟨p, hp, rfl⟩ := Option.map_eq_some_iff.1 h
  obtain rfl : p.1 = k := by simpa using List.find?_some hp
  exact List.mem_of_find?_eq_some hp

theorem lookup_extend_of_absent {k : String}
    (h : ∀ p ∈ more, p.1 ≠ k) : lookup (extend fields more) k = lookup fields k := by
  induction more generalizing fields with
  | nil => rfl
  | cons p ps ih =>
    rw [extend, List.foldl_cons, ← extend, ih fun q hq => h q (List.mem_cons_of_mem _ hq),
      lookup_insertField, if_neg (h p List.mem_cons_self)]

theorem lookup_extend_of_mem (hnodup : (more.map Prod.fst).Nodup)
    {p : String × Json} (hp : p ∈ more) : lookup (extend fields more) p.1 = some p.2 := by
  induction more generalizing fields with
  | nil => cases hp
  | cons q qs ih =>
    rw [List.map_cons, List.nodup_cons] at hnodup
    rw [extend, List.foldl_cons, ← extend]
    rcases List.mem_cons.1 hp with rfl | hp
    · rw [lookup_extend_of_absent, lookup_insertField, if_pos rfl]
      intro r hr heq
      exact hnodup.1 (heq ▸ List.mem_map_of_mem hr)
    · exact ih hnodup.2 hp

theorem insertField_eq_self {k : String} {v : Json}
    (h : lookup fields k = some v) : insertField k v fields = fields := by
  induction fields with
  | nil => cases h
  | cons p ps ih =>
    rw [lookup_cons] at h
    by_cases hp : p.1 = k
    · rw [if_pos hp] at h
      rw [insertField, if_pos hp, ← hp, ← Option.some.inj h]
    · rw [if_neg hp] at h
      rw [insertField, if_neg hp, ih h]

theorem extend_eq_self
    (h : ∀ p ∈ more, lookup fields p.1 = some p.2) : extend fields more = fields := by
  induction more with
  | nil => rfl
  | cons p ps ih =>
    rw [extend, List.foldl_cons, ← extend, insertField_eq_self (h p List.mem_cons_self)]
    exact ih fun q hq => h q (List.mem_cons_of_mem _ hq)

theorem extend_extend (hnodup : (more.map Prod.fst).Nodup) :
    extend (extend fields more) more = extend fields more :=
  extend_eq_self fun _ hp => lookup_extend_of_mem hnodup hp

end Json

end U2os
