import Mathlib.Logic.Encodable.Basic
import U2os.Lib.Stringify

/-!
# Schemas of packages

The subset of JSON Schema that packages may use (`packages/json-schema.js`).  `checkSchema` accepts
the schemas of the subset; `validate` lists the errors of a value, and `applyDefaults` fills in what
a value lacks.

Values and schemas are parsed JSON.  A keyword whose value `checkSchema` does not accept is passed
over, where the source may throw.  The depth is counted down: what is left of `MAX_DEPTH`.
-/

namespace U2os.Server.Packages.Schema

open ParsedJson

/-- `TYPES`. -/
def schemaTypes : List String :=
  ["string", "number", "integer", "boolean", "object", "array", "null"]

def supported : List String :=
  ["type", "properties", "required", "items", "enum", "const", "minimum", "maximum", "minLength",
    "maxLength", "minItems", "maxItems", "additionalProperties", "description", "title", "default",
    "format", "examples"]

def maxDepth : ℕ := 16

def maxErrors : ℕ := 20

/-- `Array.isArray(schema.type) ? schema.type : [schema.type]`. -/
def typesOf (schema : ParsedJson) : Option (List ParsedJson) :=
  (schema.get? "type").map fun
    | .arr types => types
    | type => [type]

/-- The entries of `properties`. -/
def propertiesOf (schema : ParsedJson) : List (String × ParsedJson) :=
  match schema.get? "properties" with
  | some (.obj properties) => properties
  | _ => []

/-- The texts among some values. -/
def texts (values : List ParsedJson) : List String :=
  values.filterMap fun
    | .str s => some s
    | _ => none

/-- The names of `required`. -/
def requiredOf (schema : ParsedJson) : List String :=
  match schema.get? "required" with
  | some (.arr names) => texts names
  | _ => []

/-- The options of `enum`. -/
def enumOf (schema : ParsedJson) : Option (List ParsedJson) :=
  match schema.get? "enum" with
  | some (.arr options) => some options
  | _ => none

/-- The number of a keyword. -/
def boundOf (schema : ParsedJson) (key : String) : Option Double :=
  match schema.get? key with
  | some (.num x) => some x
  | _ => none

/-- The schema of the items of an array. -/
def itemsOf (schema : ParsedJson) : Option ParsedJson :=
  (schema.get? "items").filter isObject

/-- The schema that a property is visited with. -/
def subschema (schema : ParsedJson) (name : String) : Option ParsedJson :=
  match Assoc.get? (propertiesOf schema) name with
  | some child => some child
  | none => (schema.get? "additionalProperties").filter isObject

/-- The property may not be there: `additionalProperties === false`. -/
def isClosedTo (schema : ParsedJson) (name : String) : Bool :=
  (Assoc.get? (propertiesOf schema) name).isNone &&
    match schema.get? "additionalProperties" with
    | some (.bool false) => true
    | _ => false

/-- The errors of the keywords of a schema, but for its subschemas and what comes after them. -/
def keywordErrors (schema : ParsedJson) (where_ : String) : List String :=
  (schema.keys.filterMap fun key =>
    if key ∈ supported then none
    else some (where_ ++ ": unsupported keyword \"" ++ key ++ "\"")) ++
  match typesOf schema with
  | none => []
  | some types =>
    if types = [] ∨ types.any (fun
        | .str type => type ∉ schemaTypes
        | _ => true) then
      [where_ ++ ".type: must be one of " ++ ", ".intercalate schemaTypes]
    else []

/-- The errors of `required`. -/
def requiredErrors (schema : ParsedJson) (where_ : String) : List String :=
  match schema.get? "required" with
  | none => []
  | some (.arr names) =>
    if names.any (fun v => v.typeOf ≠ "string") then
      [where_ ++ ".required: must be a list of property names"]
    else []
  | some _ => [where_ ++ ".required: must be a list of property names"]

/-- The errors of `enum` and of the bounds. -/
def boundErrors (schema : ParsedJson) (where_ : String) : List String :=
  (match schema.get? "enum" with
    | none | some (.arr (_ :: _)) => []
    | some _ => [where_ ++ ".enum: must be a non-empty list"]) ++
  ["minimum", "maximum", "minLength", "maxLength", "minItems", "maxItems"].filterMap fun key =>
    match schema.get? key with
    | none | some (.num _) => none
    | some _ => some (where_ ++ "." ++ key ++ ": must be a number")

section Children

variable (check : ParsedJson → String → List String → List String)
  (schema : ParsedJson) (where_ : String) (errors : List String)

/-- The subschemas of `properties`. -/
def checkProperties : List String :=
  match schema.get? "properties" with
  | none => errors
  | some (.obj properties) =>
    properties.foldl (fun errors e => check e.2 (where_ ++ ".properties." ++ e.1) errors) errors
  | some _ => errors ++ [where_ ++ ".properties: must be a mapping"]

/-- The subschema of `items`. -/
def checkItems : List String :=
  match schema.get? "items" with
  | none => errors
  | some items => check items (where_ ++ ".items") errors

/-- The subschema of `additionalProperties`, unless it is a boolean. -/
def checkAdditional : List String :=
  match schema.get? "additionalProperties" with
  | none | some (.bool _) => errors
  | some child => check child (where_ ++ ".additionalProperties") errors

end Children

/-- `checkSchema`, by what is left of the depth. -/
def checkSchemaAt : ℕ → ParsedJson → String → List String → List String
  | 0, _, where_, errors => errors ++ [where_ ++ ": nested too deeply"]
  | left + 1, schema, where_, errors =>
    if schema.isObject = false then errors ++ [where_ ++ ": must be a mapping"]
    else
      let errors := errors ++ keywordErrors schema where_
      let errors := checkProperties (checkSchemaAt left) schema where_ errors
      let errors := errors ++ requiredErrors schema where_
      let errors := checkItems (checkSchemaAt left) schema where_ errors
      let errors := checkAdditional (checkSchemaAt left) schema where_ errors
      errors ++ boundErrors schema where_

def checkSchema (schema : ParsedJson) : List String :=
  checkSchemaAt (maxDepth + 1) schema "schema" []

def matchesType (type : String) (value : ParsedJson) : Bool :=
  match type, value with
  | "string", .str _ => true
  | "number", .num (.finite _) => true
  | "integer", v => v.integer?.isSome
  | "boolean", .bool _ => true
  | "object", v => v.isObject
  | "array", .arr _ => true
  | "null", .null => true
  | _, _ => false

/-- A length, to be compared with a bound. -/
def count (n : ℕ) : WithBot (WithTop ℚ) := (((n : ℚ) : WithTop ℚ) : WithBot (WithTop ℚ))

section Visit

variable (N : NumberText)

def deepEqual (a b : ParsedJson) : Bool := a.stringify N == b.stringify N

def typeError (schema value : ParsedJson) (where_ : String) : Option String :=
  match typesOf schema with
  | none => none
  | some types =>
    if (texts types).any fun type => matchesType type value then none
    else some (where_ ++ ": expected " ++ " or ".intercalate (texts types))

/-- The errors of `const` and `enum`. -/
def equalityErrors (schema value : ParsedJson) (where_ : String) : List String :=
  (match schema.get? "const" with
    | none => []
    | some const => if deepEqual N const value then []
      else [where_ ++ ": must equal " ++ const.stringify N]) ++
  match enumOf schema with
  | none => []
  | some options => if options.any fun option => deepEqual N option value then []
    else [where_ ++ ": must be one of " ++
      ", ".intercalate (options.map fun v => v.stringify N)]

/-- The error of a bound from below. -/
def tooSmall (schema : ParsedJson) (key : String) (size : WithBot (WithTop ℚ))
    (message : String → String) : List String :=
  match boundOf schema key with
  | none => []
  | some bound => if size < bound.extended then [message (bound.toText N)] else []

/-- The error of a bound from above. -/
def tooLarge (schema : ParsedJson) (key : String) (size : WithBot (WithTop ℚ))
    (message : String → String) : List String :=
  match boundOf schema key with
  | none => []
  | some bound => if bound.extended < size then [message (bound.toText N)] else []

/-- The errors of the bounds of a number, a string or an array. -/
def rangeErrors (schema value : ParsedJson) (where_ : String) : List String :=
  match value with
  | .num x =>
    tooSmall N schema "minimum" x.extended (fun b => where_ ++ ": must be >= " ++ b) ++
    tooLarge N schema "maximum" x.extended (fun b => where_ ++ ": must be <= " ++ b)
  | .str s =>
    tooSmall N schema "minLength" (count (JsText.length s))
      (fun b => where_ ++ ": must be at least " ++ b ++ " characters") ++
    tooLarge N schema "maxLength" (count (JsText.length s))
      (fun b => where_ ++ ": must be at most " ++ b ++ " characters")
  | .arr items =>
    tooSmall N schema "minItems" (count items.length)
      (fun b => where_ ++ ": must have at least " ++ b ++ " items") ++
    tooLarge N schema "maxItems" (count items.length)
      (fun b => where_ ++ ": must have at most " ++ b ++ " items")
  | _ => []

/-- The errors of the names that are required. -/
def missingErrors (schema : ParsedJson) (entries : List (String × ParsedJson)) (where_ : String) :
    List String :=
  (requiredOf schema).filterMap fun name =>
    if (Assoc.get? entries name).isNone then some (where_ ++ "." ++ name ++ ": is required")
    else none

section Children

variable (visit : ParsedJson → ParsedJson → String → List String → List String)
  (schema : ParsedJson) (where_ : String)

/-- The items of an array are visited. -/
def visitItems (items : List ParsedJson) (errors : List String) : List String :=
  match itemsOf schema with
  | none => errors
  | some child => items.zipIdx.foldl (fun errors item =>
      visit child item.1 (where_ ++ "[" ++ toString item.2 ++ "]") errors) errors

/-- A property is visited, unless it may not be there or anything may. -/
def visitProperty (errors : List String) (e : String × ParsedJson) : List String :=
  match subschema schema e.1 with
  | some child => visit child e.2 (where_ ++ "." ++ e.1) errors
  | none =>
    if isClosedTo schema e.1 then errors ++ [where_ ++ "." ++ e.1 ++ ": is not allowed"]
    else errors

end Children

/-- `visit`, by what is left of the depth. -/
def visit : ℕ → ParsedJson → ParsedJson → String → List String → List String
  | left, schema, value, where_, errors =>
    if maxErrors ≤ errors.length then errors
    else match left with
      | 0 => errors ++ [where_ ++ ": nested too deeply"]
      | left + 1 =>
        match typeError schema value where_ with
        | some error => errors ++ [error]
        | none =>
          let errors := errors ++ equalityErrors N schema value where_ ++
            rangeErrors N schema value where_
          match value with
          | .arr items => visitItems (visit left) schema where_ items errors
          | .obj entries =>
            entries.foldl (visitProperty (visit left) schema where_)
              (errors ++ missingErrors schema entries where_)
          | _ => errors

def validate (schema value : ParsedJson) : List String :=
  visit N (maxDepth + 1) schema value "value" []

end Visit

/-- The number that a key is, if it is an index of arrays; such keys are listed first. -/
def arrayIndex? (key : String) : Option ℕ :=
  let n := Nat.ofDigitChars 10 key.toList 0
  if toString n = key ∧ n < 2 ^ 32 - 1 then some n else none

/-- A new key is listed after the smaller indices if it is an index, and last otherwise. -/
def insertKey (k : String) (v : ParsedJson) :
    List (String × ParsedJson) → List (String × ParsedJson)
  | [] => [(k, v)]
  | e :: es =>
    match arrayIndex? k, arrayIndex? e.1 with
    | some n, some m => if n < m then (k, v) :: e :: es else e :: insertKey k v es
    | some _, none => (k, v) :: e :: es
    | none, _ => e :: insertKey k v es

/-- A missing property with a default gets it; `result[name]` also finds inherited members. -/
def fillDefault (result : List (String × ParsedJson)) (name : String) (child : ParsedJson) :
    List (String × ParsedJson) :=
  match child.get? "default" with
  | none => result
  | some default => if hasProperty result name then result else insertKey name default result

def applyDefaults (schema : ParsedJson) (value : Option ParsedJson) : Option ParsedJson :=
  match schema.get? "properties" with
  | some (.obj properties) =>
    let fill := fun entries =>
      some (.obj (properties.foldl (fun result e => fillDefault result e.1 e.2) entries))
    match value with
    | none => fill []
    | some (.obj entries) => fill entries
    | some v => some v
  | _ => value

variable {es : List (String × ParsedJson)} {k k' name : String} {v : ParsedJson}

theorem get?_insertKey (h : k ≠ k') : Assoc.get? (insertKey k v es) k' = Assoc.get? es k' := by
  induction es with
  | nil => rw [insertKey, Assoc.get?_cons, if_neg h]
  | cons e es ih =>
    rw [insertKey]
    split
    · split_ifs
      · rw [Assoc.get?_cons, if_neg h]
      · rw [Assoc.get?_cons, Assoc.get?_cons, ih]
    · rw [Assoc.get?_cons, if_neg h]
    · rw [Assoc.get?_cons, Assoc.get?_cons, ih]

theorem get?_fillDefault {child : ParsedJson} (h : Assoc.get? es k = some v) :
    Assoc.get? (fillDefault es name child) k = some v := by
  unfold fillDefault
  cases child.get? "default" with
  | none => exact h
  | some default =>
    dsimp only
    split_ifs with hown
    · exact h
    · have hne : name ≠ k := by
        rintro rfl
        simp [hasProperty, h] at hown
      rw [get?_insertKey hne, h]

/-- A default is not put over a given value. -/
theorem get?_applyDefaults (schema : ParsedJson) (h : Assoc.get? es k = some v) :
    ∃ fs, applyDefaults schema (some (.obj es)) = some (.obj fs) ∧ Assoc.get? fs k = some v := by
  have hfold : ∀ (properties es : List (String × ParsedJson)), Assoc.get? es k = some v →
      Assoc.get? (properties.foldl (fun result e => fillDefault result e.1 e.2) es) k = some v := by
    intro properties
    induction properties with
    | nil => exact fun _ h => h
    | cons e properties ih => exact fun es h => ih _ (get?_fillDefault h)
  unfold applyDefaults
  split
  · exact ⟨_, rfl, hfold _ _ h⟩
  · exact ⟨es, rfl, h⟩

end U2os.Server.Packages.Schema
