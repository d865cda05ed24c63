import Mathlib.Tactic.Common

/-!
# Dynamic values and their properties

Data as a YAML document gives it, and what a program in JavaScript finds when it reads a property
of such data by a computed name.  A mapping and a list hold their own entries; everything else,
and every name they do not hold, is answered by the objects of the language itself.

A document whose aliases form a cycle is not represented.
-/

namespace U2os

/-- Data as a YAML document gives it.  The keys of a mapping are in the order in which the object
enumerates them. -/
inductive Yaml where
  | null
  | bool (b : Bool)
  /-- A number, by its text. -/
  | num (text : String)
  | str (s : String)
  /-- A date, by its text. -/
  | date (text : String)
  | bytes (bytes : List ℕ)
  | seq (items : List Yaml)
  | map (entries : List (String × Yaml))

namespace Yaml

/-- The value of a key. -/
def lookup (entries : List (String × Yaml)) (k : String) : Option Yaml :=
  (entries.find? fun p => p.1 = k).map Prod.snd

/-- An assignment to a key: a present key keeps its place. -/
def assign (k : String) (v : Yaml) : List (String × Yaml) → List (String × Yaml)
  | [] => [(k, v)]
  | p :: ps => if p.1 = k then (k, v) :: ps else p :: assign k v ps

/-- The entries of `more` are assigned. -/
def spread (entries more : List (String × Yaml)) : List (String × Yaml) :=
  more.foldl (fun es p => assign p.1 p.2 es) entries

mutual
/-- `String(value)`, or none where the conversion throws: a mapping with an entry `toString` has
no conversion that could be called. -/
def text : Yaml → Option String
  | null => some "null"
  | bool b => some (if b then "true" else "false")
  | num t => some t
  | str s => some s
  | date t => some t
  | bytes bs => some (",".intercalate (bs.map toString))
  | seq items => (texts items).map fun ts => ",".intercalate ts
  | map entries => if (lookup entries "toString").isSome then none else some "[object Object]"
/-- The texts of the items of a list; `null` is empty. -/
def texts : List Yaml → Option (List String)
  | [] => some []
  | null :: items => (texts items).map fun ts => "" :: ts
  | item :: items => (text item).bind fun t => (texts items).map fun ts => t :: ts
end

/-- `Boolean(value)`. -/
def truthy : Yaml → Bool
  | null => false
  | bool b => b
  | num t => t ≠ "0" && t ≠ "NaN"
  | str s => s ≠ ""
  | date _ | bytes _ | seq _ | map _ => true

/-- The value is an object, but neither `null` nor a list. -/
def isMapping : Yaml → Bool
  | map _ | date _ | bytes _ => true
  | null | bool _ | num _ | str _ | seq _ => false

/-- The entries a spread of the value copies. -/
def entries : Yaml → List (String × Yaml)
  | map es => es
  | seq items => items.zipIdx.map fun p => (toString p.2, p.1)
  | bytes bs => bs.zipIdx.map fun p => (toString p.2, num (toString p.1))
  | str s => s.toList.zipIdx.map fun p => (toString p.2, str (String.ofList [p.1]))
  | null | bool _ | num _ | date _ => []

end Yaml

/-- A value of the program: data, or an object or a function of the language itself. -/
inductive JsValue where
  | undefined
  | data (v : Yaml)
  | native (text : String) (callable : Bool)

namespace JsValue

/-- A string. -/
abbrev str (s : String) : JsValue := data (.str s)

/-- `String(value)`. -/
def text : JsValue → Option String
  | undefined => some "undefined"
  | data v => v.text
  | native t _ => some t

/-- `typeof value === 'object' && value !== null`. -/
def isObject : JsValue → Bool
  | data (.seq _) | data (.map _) | data (.date _) | data (.bytes _) => true
  | native _ callable => !callable
  | _ => false

end JsValue

/-- What the language's own objects hold.  None of it reads as one of `words`. -/
structure Library (words : List String) where
  /-- The property of a value that is no entry of the value. -/
  get : JsValue → String → JsValue
  plain : ∀ v k t, (get v k).text = some t → t ∉ words
  /-- What a plain object inherits is an object or a function. -/
  inherited : ∀ es k, get (.data (.map es)) k = .undefined ∨
    ∃ t callable, get (.data (.map es)) k = .native t callable

/-- The index a property name denotes. -/
def arrayIndex (k : String) : Option ℕ := k.toNat?.filter fun n => toString n = k

/-- `v?.[k]`. -/
def JsValue.get {words : List String} (L : Library words) (v : JsValue) (k : String) : JsValue :=
  match v with
  | .undefined | .data .null => .undefined
  | .data (.map es) =>
    match Yaml.lookup es k with
    | some x => .data x
    | none => L.get v k
  | .data (.seq xs) =>
    match (arrayIndex k).bind fun i => xs[i]? with
    | some x => .data x
    | none => L.get v k
  | v => L.get v k

/-- The names of the properties of `Object.prototype`. -/
def objectPrototype : List String :=
  ["constructor", "toString", "valueOf", "hasOwnProperty", "isPrototypeOf",
    "propertyIsEnumerable", "toLocaleString", "__proto__", "__defineGetter__",
    "__defineSetter__", "__lookupGetter__", "__lookupSetter__"]

end U2os
