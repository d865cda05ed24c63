import U2os.Server.Vault.Document

/-!
# What an edit makes of a vault file

The edits of the owner that go back into a file of the vault: `writeFactToVault`,
`removeFactFromVault` and `reclassifyFactInVault` of `vault/writeback.js`, as far as the frontmatter
and the body that they ask `editVaultFile` for.
-/

namespace U2os.Server.Vault

open Memory JsText Assoc

/-- Why an edit is refused. -/
inductive EditError where
  /-- `writeBackError`. -/
  | writeBack (message : String) (status : ℕ)
  /-- Any other error. -/
  | crash
deriving DecidableEq

/-- The file that an edit is about. -/
structure Target where
  relativePath : String
  owner : Bool

/-- What is to be written, and the level that the edit reports. -/
structure Written where
  frontmatter : List (String × Yaml)
  body : String
  effectiveClassification : Option Yaml

/-- `text in RANK`: the text is a level, or it is the name of a property that every object has. -/
def inRank (text : String) : Bool := text ∈ classifications || text ∈ objectPrototype

/-- The value is this text. -/
def isText (text : String) : Yaml → Bool
  | .str s => s = text
  | _ => false

/-- The items of a list, none where the value is not a list. -/
def asItems? : Option Yaml → Option (List Yaml)
  | some (.seq items) => some items
  | _ => none

/-- The entries of a mapping, none where the value is not a mapping: `isMapping`. -/
def asEntries? : Option Yaml → Option (List (String × Yaml))
  | some (.map entries) => some entries
  | _ => none

/-- The level of the file, for `applyClassification`.  It is none where the conversion of
`frontmatter.classification` to the name of a property throws. -/
def fileClass (fm : List (String × Yaml)) : Option Yaml :=
  match get? fm "classification" with
  | none => some (.str "personal")
  | some v => v.text.map fun text => if inRank text = true then v else .str "personal"

/-- The key is no longer one of the sensitive keys. -/
def clearSensitive (key : String) (fm : List (String × Yaml)) : List (String × Yaml) :=
  match asItems? (get? fm "sensitive_keys") with
  | some items => assign "sensitive_keys" (.seq (items.filter fun i => !isText key i)) fm
  | none => fm

/-- The key no longer has a level of its own. -/
def clearPerKey (key : String) (fm : List (String × Yaml)) : List (String × Yaml) :=
  match asEntries? (get? fm "classifications") with
  | some entries =>
    if key ∈ entries.map Prod.fst ∨ key ∈ objectPrototype then
      assign "classifications" (.map (erase key entries)) fm
    else fm
  | none => fm

def clearKeyLevel (key : String) (fm : List (String × Yaml)) : List (String × Yaml) :=
  clearPerKey key (clearSensitive key fm)

def applyClassification (key : String) (requested : Yaml) (fm : List (String × Yaml)) :
    Except EditError (List (String × Yaml)) :=
  match requested.text, fileClass fm with
  | some text, some fileClass =>
    if inRank text = true then
      let fm := clearKeyLevel key fm
      if isText "sensitive" requested = true ∧ isText "sensitive" fileClass = false then
        let items := (asItems? (get? fm "sensitive_keys")).getD []
        .ok (assign "sensitive_keys" (.seq (items ++ [.str key])) fm)
      else if (asStr? requested).any (fun level => isText level fileClass) = true then .ok fm
      else
        let entries := (asEntries? (get? fm "classifications")).getD []
        .ok (assign "classifications" (.map (assign key requested entries)) fm)
    else .error (.writeBack "classification must be public, personal, private, or sensitive" 400)
  | some text, none =>
    if inRank text = true then .error .crash
    else .error (.writeBack "classification must be public, personal, private, or sensitive" 400)
  | none, _ => .error .crash

/-- What `keyLevel` finds. -/
inductive KeyLevel where
  | unset
  | recorded (level : Yaml)
  /-- A property that every object has, which is no level. -/
  | inherited

def keyLevel (key : String) (fm : List (String × Yaml)) : KeyLevel :=
  if ((asItems? (get? fm "sensitive_keys")).getD []).any (isText key) = true then
    .recorded (.str "sensitive")
  else
    match asEntries? (get? fm "classifications") with
    | none => .unset
    | some entries =>
      match get? entries key with
      | some level => .recorded level
      | none => if key ∈ objectPrototype then .inherited else .unset

/-- `tidy`, of the sensitive keys. -/
def tidySensitive (fm : List (String × Yaml)) : List (String × Yaml) :=
  match asItems? (get? fm "sensitive_keys") with
  | some [] => erase "sensitive_keys" fm
  | _ => fm

/-- `tidy`, of the levels of single keys. -/
def tidyPerKey (fm : List (String × Yaml)) : List (String × Yaml) :=
  match asEntries? (get? fm "classifications") with
  | some [] => erase "classifications" fm
  | _ => fm

def tidy (fm : List (String × Yaml)) : List (String × Yaml) := tidyPerKey (tidySensitive fm)

def assertWritableKey (target : Target) (key : String) : Except EditError Unit :=
  if trim key = "" then .error (.writeBack "key is required" 400)
  else if key ∈ reservedKeys ∧ ¬(key = "name" ∧ target.owner = true) then
    .error (.writeBack ("\"" ++ key ++ "\" is reserved in vault files; edit " ++
      target.relativePath ++ " directly") 422)
  else .ok ()

/-- `fm[key] = value`.  Where `fm` holds no `__proto__` of its own, a value that is no object is
ignored under this name, and any other becomes the prototype of `fm`: no file reads back as that,
and `editVaultFile` refuses it. -/
def setProperty (key : String) (value : Yaml) (fm : List (String × Yaml)) :
    Except EditError (List (String × Yaml)) :=
  if key = "__proto__" ∧ get? fm "__proto__" = none then
    match value with
    | .bool _ | .num _ | .str _ => .ok fm
    | _ => .error (.writeBack "Could not produce a valid vault file for this edit" 500)
  else .ok (assign key value fm)

/-- What the owner asks of a fact. -/
structure FactEdit where
  key : String
  value : Yaml
  previousKey : Option String
  classification : Option Yaml
  append : Bool

/-- The key that is renamed, where there is one. -/
def FactEdit.renamed (edit : FactEdit) : Option String :=
  edit.previousKey.filter fun p => p ≠ "" ∧ p ≠ edit.key

/-- The frontmatter and the body without the key that is renamed. -/
def FactEdit.cleared (edit : FactEdit) (d : Document) : Document :=
  match edit.renamed with
  | none => d
  | some p =>
    if p = "notes" then ⟨clearKeyLevel p d.frontmatter, ""⟩
    else ⟨clearKeyLevel p (erase p d.frontmatter), d.body⟩

/-- The frontmatter and the body with the new value. -/
def FactEdit.stated (edit : FactEdit) (d : Document) : Except EditError Document :=
  if edit.key = "notes" then
    let text := match edit.value with
      | .str s => s
      | v => (encode v).render
    .ok ⟨d.frontmatter,
      if edit.append = true ∧ d.body ≠ "" then d.body ++ "\n\n" ++ text else text⟩
  else (setProperty edit.key edit.value d.frontmatter).map (⟨·, d.body⟩)

/-- `classification ?? (previousKey !== key ? previousLevel : undefined)`. -/
def FactEdit.requested (edit : FactEdit) (fm : List (String × Yaml)) : KeyLevel :=
  match edit.classification, edit.renamed with
  | none, some p | some .null, some p => keyLevel p fm
  | none, none | some .null, none => .unset
  | some level, _ => .recorded level

/-- What a frontmatter inherits from the value that is its prototype. -/
def inherits : Yaml → List (String × Yaml)
  | .map entries => entries
  | _ => []

/-- `writeFactToVault`, on what its file says. -/
def writeFactToVault (target : Target) (edit : FactEdit) (d : Document) :
    Except EditError Written := do
  assertWritableKey target edit.key
  match edit.requested d.frontmatter with
  | .unset => (edit.stated (edit.cleared d)).map fun stated =>
      ⟨tidy stated.frontmatter, stated.body, none⟩
  | .recorded level =>
    match edit.stated (edit.cleared d) with
    | .ok stated => (applyClassification edit.key level stated.frontmatter).map fun fm =>
        ⟨tidy fm, stated.body, some level⟩
    | .error e => do
      let _ ← applyClassification edit.key level
        ((edit.cleared d).frontmatter ++ inherits edit.value)
      .error e
  -- what is inherited converts to the text of a function or of an object, which is not in `RANK`
  | .inherited =>
    .error (.writeBack "classification must be public, personal, private, or sensitive" 400)

/-- `removeFactFromVault`, on what its file says. -/
def removeFactFromVault (key : String) (d : Document) : Document :=
  if key = "notes" then ⟨d.frontmatter, ""⟩
  else ⟨tidy (clearKeyLevel key (erase key d.frontmatter)), d.body⟩

/-- `reclassifyFactInVault`, on what its file says. -/
def reclassifyFactInVault (key : String) (classification : Yaml) (d : Document) :
    Except EditError Written := do
  let fm ← applyClassification key classification d.frontmatter
  .ok ⟨tidy fm, d.body, some classification⟩

end U2os.Server.Vault
