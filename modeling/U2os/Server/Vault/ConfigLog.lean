import Mathlib.Data.List.Sort
import U2os.Lib.Json
import U2os.Lib.JsText

/-!
# The log of configuration changes

Every change to a watched configuration file is recorded in the journal of the vault
(`vault/config-log.js`): by the writer, or by comparing the file with a snapshot.  A file is shown
as its settings, by dotted keys; a list is one setting, with the text of the whole list, and what
looks like a credential by its key is redacted.

The reader of YAML and the order of keys are parameters.  A number is its text.  Writing the
journal and the snapshot succeeds.  A character that the limit of a value splits is left out.
-/

namespace U2os.Server.Vault.ConfigLog

def watched : List String :=
  ["policies.yaml", "mcp.yaml", "addons.yaml", "coding-agents.yaml", "job-hunt/autopilot.yaml",
    "job-hunt/models.yaml", "job-hunt/answers.yaml"]

/-- `KEYS_ONLY.has(file)`. -/
def keysOnly (file : String) : Bool := file = "job-hunt/answers.yaml"

def channels : List String := ["api", "cli", "external"]

/-- The words of `SECRET`. -/
def secretWords : List String :=
  ["key", "token", "secret", "password", "passphrase", "credential", "authorization"]

/-- `SECRET.test(key)`. -/
def isSecret (key : String) : Bool :=
  secretWords.any fun word =>
    (key.toList.map Char.toLower).tails.any fun rest => word.toList.isPrefixOf rest

/-- The integer that a key denotes; such keys come first, in their order. -/
def keyIndex (key : String) : Option ℕ :=
  let digits := key.toList
  let index := digits.foldl (fun n c => 10 * n + (c.toNat - 48)) 0
  if digits ≠ [] ∧ digits.all Char.isDigit ∧ (digits.head? = some '0' → digits = ['0']) ∧
    index < 4294967295 then some index
  else none

/-- The entry comes before the keys of integers from `n` on. -/
def isBelow {V : Type} (n : ℕ) (entry : String × V) : Bool :=
  match keyIndex entry.1 with
  | some m => m < n
  | none => false

/-- `out[key] = value`, for a text: the key of the prototype is not set. -/
def setKey {V : Type} (key : String) (value : V) (out : List (String × V)) : List (String × V) :=
  if key = "__proto__" then out
  else if out.any fun e => e.1 = key then out.map fun e => if e.1 = key then (key, value) else e
  else
    match keyIndex key with
    | some n => out.takeWhile (isBelow n) ++ (key, value) :: out.dropWhile (isBelow n)
    | none => out ++ [(key, value)]

theorem setKey_map {V W : Type} (f : String → V → W) (key : String) (value : V)
    (out : List (String × V)) :
    (setKey key value out).map (fun e => (e.1, f e.1 e.2)) =
      setKey key (f key value) (out.map fun e => (e.1, f e.1 e.2)) := by
  have hbelow (n : ℕ) : isBelow n ∘ (fun e : String × V => (e.1, f e.1 e.2)) = isBelow n := rfl
  unfold setKey
  rw [List.any_map]
  split_ifs with hproto hmem hmem'
  · rfl
  · rw [List.map_map, List.map_map]
    refine List.map_congr_left fun e _ => ?_
    by_cases he : e.1 = key <;> simp [he]
  · exact absurd hmem hmem'
  · rename_i hmem'
    exact absurd hmem' hmem
  · cases keyIndex key with
    | none => simp
    | some n =>
      simp only [List.map_append, List.map_cons]
      rw [List.takeWhile_map, List.dropWhile_map, hbelow]

/-- The settings of a file: dotted keys, and short values. -/
abbrev Values := List (String × String)

/-- The number has no text in JSON. -/
def isUnbounded (literal : String) : Bool := literal ∈ ["NaN", "Infinity", "-Infinity"]

mutual
/-- The value that JSON has for a value. -/
def finite : Json → Json
  | .num literal => if isUnbounded literal then .null else .num literal
  | .arr items => .arr (finiteItems items)
  | .obj fields => .obj (finiteFields fields)
  | v => v
/-- The items of an array. -/
def finiteItems : List Json → List Json
  | [] => []
  | v :: vs => finite v :: finiteItems vs
/-- The entries of an object. -/
def finiteFields : List (String × Json) → List (String × Json)
  | [] => []
  | p :: ps => finiteField p :: finiteFields ps
/-- One entry. -/
def finiteField : String × Json → String × Json
  | (k, v) => (k, finite v)
end

/-- The text of a setting that is no mapping: a list has that of `JSON.stringify`. -/
def leafText : Json → String
  | .arr items => (finite (.arr items)).render
  | .null => "null"
  | .bool b => if b then "true" else "false"
  | .num literal => literal
  | .str s => s
  | .obj _ => "[object Object]"

/-- The key of an entry of a mapping. -/
def dotted (prefix_ key : String) : String :=
  if prefix_ = "" then key else prefix_ ++ "." ++ key

mutual
def flatten : Json → String → Values → Values
  | .obj fields, prefix_, out =>
    let out := flattenFields fields prefix_ out
    if fields.isEmpty ∧ prefix_ ≠ "" then setKey prefix_ "\x7b\x7d" out else out
  | value, prefix_, out =>
    setKey (if prefix_ = "" then "(root)" else prefix_) (leafText value) out
/-- The entries of a mapping. -/
def flattenFields : List (String × Json) → String → Values → Values
  | [], _, out => out
  | p :: ps, prefix_, out => flattenFields ps prefix_ (flattenField p prefix_ out)
/-- One entry. -/
def flattenField : String × Json → String → Values → Values
  | (key, child), prefix_, out => flatten child (dotted prefix_ key) out
end

def maxValue : ℕ := 200

/-- `slice(0, n)`, by characters that fit. -/
def fitting : ℕ → List Char → List Char
  | _, [] => []
  | n, c :: cs =>
    let units := if c.toNat < 65536 then 1 else 2
    if units ≤ n then c :: fitting (n - units) cs else []

/-- What is shown of a value. -/
def shown (key value : String) : String :=
  if isSecret key then "[redacted]"
  else if maxValue < JsText.length value then String.ofList (fitting maxValue value.toList) ++ "…"
  else value

/-- The values as they are shown. -/
def redact (values : Values) : Values := values.map fun e => (e.1, shown e.1 e.2)

/-- What is at the place of a file. -/
inductive FileState where
  | absent
  | notRegular
  | unreadable
  | text (text : String)
  deriving DecidableEq

/-- `readConfigValues`; `load` is `yaml.load`, and none where it throws. -/
def readConfigValues (load : String → Option Json) : FileState → Option Values
  | .absent => none
  | .notRegular => some [("(file)", "not a regular file")]
  | .unreadable => some [("(file)", "unreadable")]
  | .text text =>
    match load text with
    | none => some [("(file)", "not valid YAML")]
    | some .null => some []
    | some data => some (redact (flatten data "" []))

/-- A change of a setting. -/
structure Change where
  key : String
  fromValue : Option String
  toValue : Option String
  deriving DecidableEq

/-- The change of a key, if there is one. -/
def changeOf (keysOnly : Bool) (before after : Values) (key : String) : Option Change :=
  if Assoc.get? before key = Assoc.get? after key then none
  else if keysOnly then some ⟨key, none, none⟩
  else some ⟨key, Assoc.get? before key, Assoc.get? after key⟩

/-- `diffConfig`; `collate a b` says that `a.localeCompare(b)` is not positive. -/
def diffConfig (collate : String → String → Bool) (before after : Option Values)
    (keysOnly : Bool) : List Change :=
  let before := before.getD []
  let after := after.getD []
  let keys := before.map Prod.fst ++ (after.map Prod.fst).filter (· ∉ before.map Prod.fst)
  (keys.filterMap (changeOf keysOnly before after)).insertionSort fun a b =>
    collate a.key b.key = true

/-- An entry of the journal. -/
structure Entry where
  ts : String
  source : String
  file : String
  changes : List Change
  more : Option ℕ
  deriving DecidableEq

def maxChanges : ℕ := 50

/-- The snapshot: the values of the files that were looked at. -/
abbrev Snapshot := List (String × Option Values)

/-- The vault: its files, its journal and its snapshot. -/
structure State where
  files : String → FileState
  journal : List Entry
  snapshot : Option Snapshot

/-- The entry that `record` appends. -/
def entryOf (file channel : String) (changes : List Change) (now : String) : Entry where
  ts := now
  source := channel
  file := file
  changes := changes.take maxChanges
  more := if maxChanges < changes.length then some (changes.length - maxChanges) else none

/-- `record`, and whether it recorded something.  Its channel is known wherever it is called. -/
def record (s : State) (file channel : String) (changes : List Change) (now : String) :
    State × Bool :=
  if changes.isEmpty then (s, false)
  else ({ s with journal := s.journal ++ [entryOf file channel changes now] }, true)

section

variable (load : String → Option Json) (collate : String → String → Bool)

/-- One file of `checkExternalConfigChanges`: with the snapshot that was there before and the one
that is being made. -/
def checkFile (now : String) (previous : Option Snapshot) (acc : State × Snapshot × ℕ)
    (file : String) : State × Snapshot × ℕ :=
  let (s, snapshot, recorded) := acc
  let current := readConfigValues load (s.files file)
  match previous.bind fun p => Assoc.get? p file with
  | some before =>
    let (s, done) := record s file "external" (diffConfig collate before current (keysOnly file)) now
    (s, Assoc.assign file current snapshot, if done then recorded + 1 else recorded)
  | none => (s, Assoc.assign file current snapshot, recorded)

/-- `checkExternalConfigChanges`: the vault, and the number of changes recorded. -/
def checkExternalConfigChanges (s : State) (files : List String) (now : String) : State × ℕ :=
  let (s, snapshot, recorded) :=
    files.foldl (checkFile load collate now s.snapshot) (s, s.snapshot.getD [], 0)
  ({ s with snapshot := some snapshot }, recorded)

/-- A file after its text is written; what is no file stays what it is. -/
def FileState.write (text : String) : FileState → FileState
  | .notRegular => .notRegular
  | .unreadable => .unreadable
  | _ => .text text

/-- `writeConfigFile`, which throws before it does anything if it is given another file or
another channel. -/
def writeConfigFile (s : State) (file text channel now : String) : State :=
  if file ∉ watched ∨ channel ∉ channels then s
  else
    let s := (checkExternalConfigChanges load collate s [file] now).1
    let before := readConfigValues load (s.files file)
    let s := { s with files := fun f => if f = file then (s.files file).write text else s.files f }
    let after := readConfigValues load (s.files file)
    let s := (record s file channel (diffConfig collate before after (keysOnly file)) now).1
    { s with snapshot := some (Assoc.assign file after (s.snapshot.getD [])) }

/-- What happens to the vault. -/
inductive Op where
  | write (file text channel now : String)
  | edit (file : String) (state : FileState)
  | check (files : List String) (now : String)
  deriving DecidableEq

/-- One thing happens. -/
def step (s : State) : Op → State
  | .write file text channel now => writeConfigFile load collate s file text channel now
  | .edit file state => { s with files := fun f => if f = file then state else s.files f }
  | .check files now => (checkExternalConfigChanges load collate s files now).1

/-- A sequence of them. -/
def run (s : State) (ops : List Op) : State := ops.foldl (step load collate) s

/-- Nothing has been recorded yet. -/
def start (files : String → FileState) : State := ⟨files, [], none⟩

end

end U2os.Server.Vault.ConfigLog
