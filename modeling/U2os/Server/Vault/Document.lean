import U2os.Lib.JsText
import U2os.Server.Memory.FactStore

/-!
# What a vault file says

The entity, the facts and the record that a file of the vault names: `describe` of
`vault/indexer.js`, on what `vault/markdown.js` reads.  The schema of the frontmatter has neither
dates nor bytes.
-/

namespace U2os.Server.Vault

open Memory JsText Assoc

/-- `parseMarkdown`: the frontmatter, in the order of its keys, and the body, trimmed. -/
structure Document where
  frontmatter : List (String × Yaml)
  body : String

/-- `readVaultFile`: a document, or the message of its error. -/
abbrev Reading := Except String Document

/-- `COLLECTIONS`. -/
inductive Collection where
  | people | projects | commitments
deriving DecidableEq

/-- The folder of a collection. -/
def Collection.dir : Collection → String
  | people => "people"
  | projects => "projects"
  | commitments => "commitments"

/-- The type of the entities of a collection. -/
def Collection.type : Collection → String
  | people => "Person"
  | projects => "Project"
  | commitments => "Commitment"

/-- A file to index. -/
structure Source where
  relativePath : String
  type : String
  owner : Bool
  reading : Reading

def meFile : String := "me.md"

/-- The files of a vault: `me.md`, where it is a file, and those `listMarkdownFiles` lists of each
collection. -/
structure Files where
  me : Option Reading
  files : Collection → List (String × Reading)
  nodup : ∀ c, ((files c).map Prod.fst).Nodup

/-- The files of a collection, with their paths. -/
def Files.collection (v : Files) (c : Collection) : List Source :=
  (v.files c).map fun f => ⟨c.dir ++ "/" ++ f.1, c.type, false, f.2⟩

/-- The files in the order in which they are indexed. -/
def Files.sources (v : Files) : List Source :=
  (v.me.toList.map fun reading => ⟨meFile, "Person", true, reading⟩) ++
    (v.collection .people ++ (v.collection .projects ++ v.collection .commitments))

mutual
/-- The value that `JSON.stringify` writes. -/
def encode : Yaml → Json
  | .null => .null
  | .bool b => .bool b
  | .num text => if ["NaN", "Infinity", "-Infinity"].contains text then .null else .num text
  | .str s => .str s
  | .date text => .str text
  | .bytes bytes => .arr (bytes.map fun b => .num (toString b))
  | .seq items => .arr (encodeItems items)
  | .map entries => .obj (encodeEntries entries)
/-- The items of a list. -/
def encodeItems : List Yaml → List Json
  | [] => []
  | v :: vs => encode v :: encodeItems vs
/-- The entries of a mapping. -/
def encodeEntries : List (String × Yaml) → List (String × Json)
  | [] => []
  | (k, v) :: es => (k, encode v) :: encodeEntries es
end

def scalarText : Option Yaml → String
  | some (.str s) => trim s
  | some (.num text) => trim text
  | _ => ""

/-- What a heading says, after its `#`. -/
def headingText (rest : List Char) : Option String :=
  let line := (rest.dropWhile isSpace).takeWhile fun c => !isLineTerminator c
  if (rest.head?.any isSpace) = true ∧ line ≠ [] then some (String.ofList (trimChars line)) else none

/-- `body.match(/^#\s+(.+)$/m)?.[1]?.trim()`, of what follows the start of a line or not. -/
def heading (atStart : Bool) : List Char → Option String
  | [] => none
  | c :: rest =>
    match if atStart = true ∧ c = '#' then headingText rest else none with
    | some text => some text
    | none => heading (isLineTerminator c) rest

/-- `replace(/[-_]+/g, ' ')`, in a run of such characters or not. -/
def spaced (inRun : Bool) : List Char → List Char
  | [] => []
  | c :: cs =>
    if c = '-' ∨ c = '_' then
      if inRun then spaced true cs else ' ' :: spaced true cs
    else c :: spaced false cs

/-- `replace(/\b\w/g, (c) => c.toUpperCase())`, after a character. -/
def capitalized (previous : Option Char) : List Char → List Char
  | [] => []
  | c :: cs =>
    (if isWord c && !previous.any isWord then c.toUpper else c) :: capitalized (some c) cs

def baseName (relativePath : String) : List Char :=
  let name := (relativePath.toList.reverse.takeWhile (· ≠ '/')).reverse
  if ".md".toList.isSuffixOf name && name ≠ ".md".toList then name.take (name.length - 3) else name

def humanize (relativePath : String) : String :=
  String.ofList (trimChars (capitalized none (spaced false (baseName relativePath))))

/-- A fact a file states.  The classification is none where the key is one that every object has, and
no level is given for it. -/
structure StatedFact where
  value : Json
  classification : Option String
deriving DecidableEq

/-- What a file says. -/
structure Desired where
  name : String
  classification : String
  attributes : List (String × Json)
  facts : List (String × StatedFact)
  boundId : Option String

/-- Why a file is not indexed. -/
inductive Refusal where
  /-- It is reported, and the next file follows. -/
  | invalid (message : String)
  /-- Any other error ends the indexing. -/
  | crash

def reservedKeys : List String :=
  ["id", "name", "title", "classification", "sensitive_keys", "classifications"]

def maxKeyLength : ℕ := 100

def maxValueChars : ℕ := 20000

/-- `ENTITY_ID`. -/
def isEntityId (s : String) : Bool :=
  "ent_".toList.isPrefixOf s.toList &&
    ((s.toList.drop 4).all isWord && (1 ≤ (s.toList.drop 4).length && (s.toList.drop 4).length ≤ 64))

/-- The classification of a file. -/
def readClassification : Option Yaml → Except Refusal String
  | none | some .null => .ok "personal"
  | some (.str s) =>
    if s ∈ classifications then .ok s
    else .error (.invalid "classification must be public, personal, private, or sensitive")
  | some _ => .error (.invalid "classification must be public, personal, private, or sensitive")

/-- `value === null`. -/
def isNull : Yaml → Bool
  | .null => true
  | _ => false

/-- The string of a string value. -/
def asStr? : Yaml → Option String
  | .str s => some s
  | _ => none

/-- The sensitive keys of a file. -/
def readSensitiveKeys : Option Yaml → Except Refusal (List String)
  | none | some .null => .ok []
  | some (.seq items) =>
    match items.mapM asStr? with
    | some keys => .ok keys
    | none => .error (.invalid "sensitive_keys must be a list of key names")
  | some _ => .error (.invalid "sensitive_keys must be a list of key names")

/-- The levels a file gives to its keys. -/
def readLevels : Option Yaml → Except Refusal (List (String × String))
  | none | some .null => .ok []
  | some (.map entries) =>
    match entries.mapM fun e => ((asStr? e.2).filter (· ∈ classifications)).map (e.1, ·) with
    | some levels => .ok levels
    | none => .error (.invalid
        "classifications must map keys to public, personal, private, or sensitive")
  | some _ => .error (.invalid
      "classifications must map keys to public, personal, private, or sensitive")

/-- `levelFor`.  A key that every object has reads as that property. -/
def levelFor (sensitiveKeys : List String) (levels : List (String × String))
    (classification key : String) : Option String :=
  if key ∈ sensitiveKeys then some "sensitive"
  else
    match get? levels key with
    | some level => some level
    | none => if key ∈ objectPrototype then none else some classification

/-- `boundId`. -/
def readBoundId : Option Yaml → Except Refusal (Option String)
  | none => .ok none
  | some v =>
    match v.text with
    | none => .error .crash
    | some id =>
      if isEntityId id then .ok (some id)
      else .error (.invalid "id must be an existing record id such as ent_abc123")

/-- The name of a record. -/
def readName (relativePath : String) (d : Document) : String :=
  let name := scalarText (get? d.frontmatter "name")
  let title := scalarText (get? d.frontmatter "title")
  if name ≠ "" then name
  else if title ≠ "" then title
  else (heading true d.body.toList).getD (humanize relativePath)

/-- The attributes and the facts, while the entries of the frontmatter are read. -/
abbrev Stated := List (String × Yaml) × List (String × StatedFact)

/-- One entry of the frontmatter. -/
def stateEntry (type : String) (level : String → Option String) (acc : Stated)
    (entry : String × Yaml) : Except Refusal Stated :=
  let key := trim entry.1
  if key = "" ∨ key ∈ reservedKeys ∨ isNull entry.2 = true then .ok acc
  else if maxKeyLength < length key then
    .error (.invalid ("Key \"" ++ String.ofList (key.toList.take 20) ++
      "…\" is longer than 100 characters"))
  else if maxValueChars < length (encode entry.2).render then
    .error (.invalid ("Value for \"" ++ key ++ "\" is too large"))
  else
    .ok (if type = "Commitment" ∧ (key = "status" ∨ key = "due") then
        assign key entry.2 acc.1 else acc.1,
      assign key ⟨encode entry.2, level key⟩ acc.2)

/-- The name of the owner and the notes are facts too. -/
def stateBody (relativePath : String) (level : String → Option String) (d : Document)
    (facts : List (String × StatedFact)) : Except Refusal (List (String × StatedFact)) :=
  let name := scalarText (get? d.frontmatter "name")
  let facts := if relativePath = meFile ∧ name ≠ "" then
    assign "name" ⟨.str name, level "name"⟩ facts else facts
  if d.body = "" then .ok facts
  else if maxValueChars < length d.body then .error (.invalid "Notes are too large")
  else .ok (assign "notes" ⟨.str d.body, level "notes"⟩ facts)

/-- The status and the description of a commitment. -/
def commitmentAttributes (type name : String) (attributes : List (String × Yaml)) :
    Except Refusal (List (String × Yaml)) :=
  if type = "Commitment" then
    match (get? attributes "status").elim (some "open") Yaml.text with
    | some status =>
      .ok (assign "description" (.str name) (assign "status" (.str status) attributes))
    | none => .error .crash
  else .ok attributes

def describe (relativePath type : String) (d : Document) : Except Refusal Desired := do
  let classification ← readClassification (get? d.frontmatter "classification")
  let sensitiveKeys ← readSensitiveKeys (get? d.frontmatter "sensitive_keys")
  let levels ← readLevels (get? d.frontmatter "classifications")
  let boundId ← readBoundId (get? d.frontmatter "id")
  let level := levelFor sensitiveKeys levels classification
  let stated ← d.frontmatter.foldlM (stateEntry type level) ([("vaultPath", .str relativePath)], [])
  let facts ← stateBody relativePath level d stated.2
  let attributes ← commitmentAttributes type (readName relativePath d) stated.1
  return {
    name := readName relativePath d
    classification := classification
    attributes := encodeEntries attributes
    facts := facts
    boundId := boundId }

end U2os.Server.Vault
