import Mathlib.Data.List.Sort
import U2os.Lib.Fence
import U2os.Lib.Json
import U2os.Lib.JsText
import U2os.Lib.Trimming

/-!
# How Majordomo splits a vault file

The frontmatter and the body of a file: `parse_markdown` of `majordomo/src/vault/markdown.rs`.  What
the two YAML parsers make of the same text is one value here, a `CoreValue`: numbers carry the texts
that each side writes for them, and a mapping has its entries in the order of the text.

White space is that of Unicode, which has U+0085 and has not U+FEFF; JavaScript has it the other way.
-/

namespace U2os

/-- A number: its text in JavaScript, its text in the JSON of Rust, none where it is not finite, and
its text as a key in Rust. -/
structure CoreNumber where
  node : String
  json : Option String
  key : String

/-- A key.  A key that is a list or a mapping has its text in JavaScript. -/
inductive CoreKey where
  | null
  | bool (b : Bool)
  | num (n : CoreNumber)
  | str (s : String)
  | complex (node : String)

inductive CoreValue where
  | null
  | bool (b : Bool)
  | num (n : CoreNumber)
  | str (s : String)
  | seq (items : List CoreValue)
  | map (entries : List (CoreKey × CoreValue))

/-- The name of a property. -/
def CoreKey.node : CoreKey → String
  | .null => "null"
  | .bool b => if b then "true" else "false"
  | .num n => n.node
  | .str s => s
  | .complex node => node

/-- The number of a property that an object lists before the others: decimal digits, without a zero
before them. -/
def propertyIndex (k : String) : Option ℕ :=
  let n := k.toList.foldl (fun n c => 10 * n + (c.toNat - 48)) 0
  if k ≠ "" ∧ k.toList.all Char.isDigit = true ∧ (k.toList.head? = some '0' → k = "0") ∧
      n < 2 ^ 32 - 1 then some n
  else none

/-- The entries of an object, in the order in which it lists them. -/
def jsOrder {V : Type} (entries : List (String × V)) : List (String × V) :=
  (entries.filter fun e => (propertyIndex e.1).isSome).insertionSort
      (fun a b => (propertyIndex a.1).getD 0 ≤ (propertyIndex b.1).getD 0) ++
    entries.filter fun e => (propertyIndex e.1).isNone

mutual
/-- The value in JavaScript. -/
def CoreValue.toYaml : CoreValue → Yaml
  | .null => .null
  | .bool b => .bool b
  | .num n => .num n.node
  | .str s => .str s
  | .seq items => .seq (itemsToYaml items)
  | .map entries => .map (jsOrder (entriesToYaml entries))
/-- The items of a list. -/
def itemsToYaml : List CoreValue → List Yaml
  | [] => []
  | v :: vs => v.toYaml :: itemsToYaml vs
/-- The entries of a mapping, in the order of the text. -/
def entriesToYaml : List (CoreKey × CoreValue) → List (String × Yaml)
  | [] => []
  | (k, v) :: es => (k.node, v.toYaml) :: entriesToYaml es
end

namespace Majordomo.Vault

open Fence

def keyText : CoreKey → Except String String
  | .str s => .ok s
  | .bool b => .ok (if b then "true" else "false")
  | .null => .ok "null"
  | .num n => .ok n.key
  | .complex _ => .error "Frontmatter keys must be plain scalars"

mutual
def toJson : CoreValue → Except String Json
  | .null => .ok .null
  | .bool b => .ok (.bool b)
  | .num n => .ok (n.json.elim .null .num)
  | .str s => .ok (.str s)
  | .seq items => (toJsonItems items).map .arr
  | .map entries => (toJsonEntries entries []).map .obj
/-- The items of a list. -/
def toJsonItems : List CoreValue → Except String (List Json)
  | [] => .ok []
  | v :: vs => do
    let j ← toJson v
    let js ← toJsonItems vs
    .ok (j :: js)
/-- The entries of a mapping, after others. -/
def toJsonEntries : List (CoreKey × CoreValue) → List (String × Json) →
    Except String (List (String × Json))
  | [], out => .ok out
  | (k, v) :: es, out => do
    let key ← keyText k
    let value ← toJson v
    toJsonEntries es (Assoc.assign key value out)
end

/-- `char::is_whitespace`. -/
def isWhite (c : Char) : Bool :=
  [9, 10, 11, 12, 13, 32, 133, 160, 5760, 8232, 8233, 8239, 8287, 12288].contains c.toNat ||
    (8192 ≤ c.toNat && c.toNat ≤ 8202)

/-- `trim()`, of characters. -/
def trimChars (cs : List Char) : List Char := Trimming.trimBy isWhite cs

def trim (s : String) : String := String.ofList (trimChars s.toList)

/-- What a file holds. -/
structure Parsed where
  frontmatter : List (String × Json)
  body : String

/-- `strip_prefix('\u{feff}')`. -/
def stripBom (cs : List Char) : List Char :=
  if cs.head?.map Char.toNat = some 65279 then cs.tail else cs

/-- What `frontmatter_re` captures, and what is left after it. -/
def captures (source : List Char) : Option (List Char × List Char) := (opening source).bind block

/-- The frontmatter of a value. -/
def toFrontmatter (value : CoreValue) : Except String (List (String × Json)) := do
  match ← toJson value with
  | .null => .ok []
  | .obj fields => .ok fields
  | _ => .error "Frontmatter must be a mapping of keys to values"

def parseMarkdown (load : String → Except String CoreValue) (text : String) :
    Except String Parsed :=
  let source := stripBom text.toList
  match captures source with
  | none => .ok ⟨[], String.ofList (trimChars source)⟩
  | some (yaml, rest) =>
    match load (String.ofList yaml) with
    | .error e => .error ("Invalid YAML frontmatter: " ++ e)
    | .ok value => (toFrontmatter value).map fun fm => ⟨fm, String.ofList (trimChars rest)⟩

end Majordomo.Vault

end U2os
