import U2os.Lib.Entries
import U2os.Majordomo.Vault.Markdown

/-!
# What Majordomo reads in a vault file

The record that a parsed file describes: `describe` of `majordomo/src/vault/record.rs`.  The digest
of a path is a parameter.
-/

namespace U2os.Majordomo.Vault

open Assoc

inductive Classification where
  | public_ | personal | private_ | sensitive
deriving DecidableEq

/-- How it is written. -/
def Classification.text : Classification → String
  | .public_ => "public"
  | .personal => "personal"
  | .private_ => "private"
  | .sensitive => "sensitive"

/-- `Classification::parse`. -/
def Classification.parse : Json → Option Classification
  | .str s => [.public_, .personal, .private_, .sensitive].find? fun c => c.text = s
  | _ => none

inductive RecordKind where
  | owner | person | project | commitment
deriving DecidableEq

def RecordKind.typeName : RecordKind → String
  | .owner | .person => "Person"
  | .project => "Project"
  | .commitment => "Commitment"

structure Fact where
  value : Json
  classification : Classification
deriving DecidableEq

structure Record where
  id : String
  idFromFile : Bool
  path : String
  kind : RecordKind
  name : String
  classification : Classification
  facts : List (String × Fact)
  status : Option String

/-- `path_derived_id`, with the digest as hexadecimal digits. -/
def pathDerivedId (digest : String → String) (relativePath : String) : String :=
  "ent_vault_" ++ String.ofList ((digest relativePath).toList.take 20)

def reservedKeys : List String :=
  ["id", "name", "title", "classification", "sensitive_keys", "classifications"]

def maxKeyLength : ℕ := 100

def maxValueChars : ℕ := 20000

def utf16Len (s : String) : ℕ := (s.toList.map fun c => if c.toNat < 65536 then 1 else 2).sum

/-- The classification of a file. -/
def readClassification : Option Json → Except String Classification
  | none | some .null => .ok .personal
  | some v =>
    match Classification.parse v with
    | some c => .ok c
    | none => .error "classification must be public, personal, private, or sensitive"

/-- The sensitive keys of a file. -/
def readSensitiveKeys : Option Json → Except String (List String)
  | none | some .null => .ok []
  | some (.arr items) =>
    match items.mapM Json.asStr? with
    | some keys => .ok keys
    | none => .error "sensitive_keys must be a list of key names"
  | some _ => .error "sensitive_keys must be a list of key names"

/-- The levels of single keys. -/
def readPerKey : Option Json → Except String (List (String × Classification))
  | none | some .null => .ok []
  | some (.obj fields) =>
    match fields.mapM fun e => (Classification.parse e.2).map (e.1, ·) with
    | some levels => .ok levels
    | none => .error "classifications must map keys to public, personal, private, or sensitive"
  | some _ => .error "classifications must map keys to public, personal, private, or sensitive"

def levelFor (sensitiveKeys : List String) (perKey : List (String × Classification))
    (classification : Classification) (key : String) : Classification :=
  if key ∈ sensitiveKeys then .sensitive else (get? perKey key).getD classification

/-- `is_ascii_alphanumeric`, or an underscore. -/
def isWord (c : Char) : Bool := c.isAlphanum || c = '_'

/-- `is_ascii_hexdigit`. -/
def isHexDigit (c : Char) : Bool :=
  c.isDigit || ('a' ≤ c && c ≤ 'f') || ('A' ≤ c && c ≤ 'F')

/-- The groups of a hyphenated UUID. -/
def isUuid (text : String) : Bool :=
  let groups := text.toList.splitOn '-'
  groups.length = 5 && (groups.zip [8, 4, 4, 4, 12]).all fun g =>
    g.1.length = g.2 && g.1.all isHexDigit

def validBoundId (text : String) : Bool :=
  if "ent_".toList.isPrefixOf text.toList then
    let rest := text.toList.drop 4
    (1 ≤ rest.length && rest.length ≤ 64) && rest.all isWord
  else isUuid text

def invalidId : String := "id must be an existing record id such as ent_abc123 (or a UUID)"

def idText : Json → Option String
  | .str s => some s
  | .num n => some n
  | .bool b => some (if b then "true" else "false")
  | .null => some "null"
  | _ => none

/-- The id that a file gives. -/
def readBoundId : Option Json → Except String (Option String)
  | none => .ok none
  | some v =>
    match idText v with
    | some text => if validBoundId text = true then .ok (some text) else .error invalidId
    | none => .error invalidId

def scalarText : Option Json → Option String
  | some (.str s) => if trim s = "" then none else some (trim s)
  | some (.num n) => if trim n = "" then none else some (trim n)
  | _ => none

/-- `[\n\r\u{2028}\u{2029}]`. -/
def isLineTerminator (c : Char) : Bool := [10, 13, 8232, 8233].contains c.toNat

/-- What a heading says, after its `#`. -/
def headingText (rest : List Char) : Option String :=
  let line := (rest.dropWhile isWhite).takeWhile fun c => !isLineTerminator c
  if (rest.head?.any isWhite) = true ∧ line ≠ [] then some (String.ofList (trimChars line))
  else none

/-- `heading`, of what follows the start of a line or not. -/
def heading (atStart : Bool) : List Char → Option String
  | [] => none
  | c :: rest =>
    match if atStart = true ∧ c = '#' then headingText rest else none with
    | some text => some text
    | none => heading (c = '\n') rest

/-- The loop that replaces runs of hyphens and underscores by a space. -/
def spaced (inSep : Bool) : List Char → List Char
  | [] => []
  | c :: cs =>
    if c = '-' ∨ c = '_' then
      if inSep then spaced true cs else ' ' :: spaced true cs
    else c :: spaced false cs

/-- The loop that capitalizes words. -/
def capitalized (prevWord : Bool) : List Char → List Char
  | [] => []
  | c :: cs => (if isWord c && !prevWord then c.toUpper else c) :: capitalized (isWord c) cs

/-- The name of the file, without its suffix. -/
def stem (relativePath : String) : List Char :=
  let base := (relativePath.toList.reverse.takeWhile (· ≠ '/')).reverse
  if ".md".toList.isSuffixOf base then base.take (base.length - 3) else base

def humanize (relativePath : String) : String :=
  String.ofList (trimChars (capitalized false (spaced false (stem relativePath))))

/-- The name of a record. -/
def readName (relativePath : String) (parsed : Parsed) : String :=
  (((scalarText (get? parsed.frontmatter "name")).or
    (scalarText (get? parsed.frontmatter "title"))).or
      ((heading true parsed.body.toList).filter (· ≠ ""))).getD (humanize relativePath)

/-- One entry of the frontmatter. -/
def stateEntry (level : String → Classification) (entry : String × Json) :
    Except String (Option (String × Fact)) :=
  let key := trim entry.1
  if key = "" ∨ key ∈ reservedKeys ∨ entry.2 = .null then .ok none
  else if maxKeyLength < utf16Len key then
    .error ("Key \"" ++ String.ofList (key.toList.take 20) ++ "…\" is longer than 100 characters")
  else if maxValueChars < utf16Len entry.2.render then
    .error ("Value for \"" ++ key ++ "\" is too large")
  else .ok (some (key, ⟨entry.2, level key⟩))

/-- The name of the owner and the notes are facts too. -/
def stateBody (kind : RecordKind) (level : String → Classification) (parsed : Parsed)
    (facts : List (String × Fact)) : Except String (List (String × Fact)) :=
  let name := if kind = .owner then scalarText (get? parsed.frontmatter "name") else none
  let facts := name.elim facts fun n => assign "name" ⟨.str n, level "name"⟩ facts
  if parsed.body = "" then .ok facts
  else if maxValueChars < utf16Len parsed.body then .error "Notes are too large"
  else .ok (assign "notes" ⟨.str parsed.body, level "notes"⟩ facts)

/-- The status of a commitment, of the facts of the frontmatter. -/
def readStatus (stated : List (String × Fact)) : String :=
  match get? stated "status" with
  | none => "open"
  | some ⟨.str s, _⟩ => s
  | some ⟨other, _⟩ => other.render

def describe (digest : String → String) (relativePath : String) (kind : RecordKind)
    (parsed : Parsed) : Except String Record := do
  let fm := parsed.frontmatter
  let classification ← readClassification (get? fm "classification")
  let sensitiveKeys ← readSensitiveKeys (get? fm "sensitive_keys")
  let perKey ← readPerKey (get? fm "classifications")
  let level := levelFor sensitiveKeys perKey classification
  let boundId ← readBoundId (get? fm "id")
  let stated ← collect (stateEntry level) [] fm
  let facts ← stateBody kind level parsed stated
  return {
    id := boundId.getD (pathDerivedId digest relativePath)
    idFromFile := boundId.isSome
    path := relativePath
    kind := kind
    name := readName relativePath parsed
    classification := classification
    facts := facts
    status := if kind = .commitment then some (readStatus stated) else none }

end U2os.Majordomo.Vault
