import U2os.Server.Vault.Document

/-!
# Indexing a vault

`indexVault` of `vault/indexer.js`: the files of a vault become entities, facts and relationships.
Every file is applied in a transaction of its own; an error that is not about the file ends the
indexing, and what was applied before it stays.

The digest that names the record of a file is a parameter.
-/

namespace U2os.Server.Vault

open Memory

/-- `source LIKE 'vault:%'`, which does not mind the case. -/
def isLikeVault (source : String) : Bool :=
  "vault:".toList.isPrefixOf (source.toList.map Char.toLower)

/-- `source.startsWith('vault:')`. -/
def isVault (source : String) : Bool := "vault:".toList.isPrefixOf source.toList

/-- The source of what a file says. -/
def sourceOf (relativePath : String) : String := "vault:" ++ relativePath

/-- `status IN ('current', 'disputed')`. -/
def isActive (f : Fact) : Bool := f.status = .current || f.status = .disputed

def deleteFacts (facts : Facts) (p : Fact → Bool) (now : ℕ) : Facts :=
  facts.updateWhere (fun f => p f = true)
    (fun f => { f with status := .deleted, deletedAt := some now }) fun _ => rfl

/-- Active relationships are deleted. -/
def deleteRelationships (relationships : Numbered Relationship Relationship.id)
    (p : Relationship → Bool) (now : ℕ) : Numbered Relationship Relationship.id :=
  relationships.updateWhere (fun r => p r = true)
    (fun r => { r with status := "deleted", deletedAt := some now }) fun _ => rfl

def vaultEntityId (digest : String → String) (relativePath : String) : String :=
  "ent_vault_" ++ digest relativePath

/-- The records that files describe: the path of each file applied in this pass, with its entity. -/
abbrev Bound := List (String × String)

/-- `resolveEntityId`, for a file that is not that of the owner. -/
def resolveEntityId (digest : String → String) (db : MemoryDb) (bound : Bound) (relativePath : String)
    (boundId : Option String) : Except Refusal String :=
  let entityId := boundId.getD (vaultEntityId digest relativePath)
  if boundId.isSome ∧ boundId = db.ownerEntityId then
    .error (.invalid "Describe yourself in me.md; id cannot name the owner")
  else if boundId.any (fun id => (db.entities.find id).isNone) = true then
    .error (.invalid ("id " ++ entityId ++ " does not match a known record"))
  else if entityId ∈ bound.map Prod.snd then
    .error (.invalid "Another vault file already describes this record")
  else .ok entityId

/-- The attributes a record gets: one that the file names keeps what other sources gave it. -/
def mergedAttributes (db : MemoryDb) (d : Desired) (entityId : String) : List (String × Json) :=
  match d.boundId, db.entities.find entityId with
  | some _, some existing => Json.extend existing.attributes d.attributes
  | _, _ => d.attributes

/-- The row of a record. -/
def Desired.row (d : Desired) (entityId type : String) (attributes : List (String × Json)) (now : ℕ) :
    Entity where
  id := entityId
  type := type
  name := some d.name
  attributes := attributes
  status := some "active"
  classification := d.classification
  updatedAt := now

/-- The row says what the file says. -/
def Desired.isRow (d : Desired) (type : String) (attributes : List (String × Json)) (e : Entity) :
    Prop :=
  e.type = type ∧ e.name = some d.name ∧ e.attributes = attributes ∧ e.status = some "active" ∧
    e.classification = d.classification

instance (d : Desired) (type : String) (attributes : List (String × Json)) :
    DecidablePred (d.isRow type attributes) := fun e => by
  unfold Desired.isRow
  infer_instance

/-- The row of the record is written, where it is new or different. -/
def writeEntity (db : MemoryDb) (d : Desired) (entityId type : String) (now : ℕ) : MemoryDb × Bool :=
  let row := d.row entityId type (mergedAttributes db d entityId) now
  match db.entities.find entityId with
  | none => ({ db with entities := (db.entities.insert? row).getD db.entities }, true)
  | some existing =>
    if d.isRow type (mergedAttributes db d entityId) existing then (db, false)
    else ({ db with entities := db.entities.put row }, true)

/-- The open commitments of an owner to a record. -/
def promises (db : MemoryDb) (ownerEntityId entityId : String) : List Relationship :=
  db.relationships.rows.filter fun r => r.fromEntityId = ownerEntityId ∧
    r.toEntityId = some entityId ∧ r.relation = "promised" ∧ r.status = "active"

/-- `ensurePromised`; `none` where the owner is not known. -/
def ensurePromised (db : MemoryDb) (ownerEntityId entityId source classification : String) (now : ℕ) :
    Option (MemoryDb × Bool) :=
  let active := promises db ownerEntityId entityId
  match active.find? fun r => r.source = source with
  | some existing =>
    if existing.classification = classification then some (db, false)
    else some ({ db with
      relationships := db.relationships.modify existing.id
        (fun r => { r with classification := classification }) fun _ => rfl }, true)
  | none =>
    if active.any fun r => !isVault r.source then some (db, false)
    else if (db.entities.find ownerEntityId).isNone then none
    else some ({ db with
      relationships := db.relationships.push (fun id =>
        { id := id, fromEntityId := ownerEntityId, relation := "promised"
          toEntityId := some entityId, source := source, classification := classification
          status := "active", createdAt := now }) fun _ => rfl }, true)

/-- The fact is one of another file about the record. -/
def isOthersFact (entityId source : String) (f : Fact) : Bool :=
  f.entityId = entityId && isLikeVault f.source && f.source ≠ source && isActive f

/-- The relationship is one of another file about the record. -/
def isOthersRelationship (entityId source : String) (r : Relationship) : Bool :=
  r.toEntityId = some entityId && isLikeVault r.source && r.source ≠ source && r.status = "active"

/-- What an earlier file said about the record is retired. -/
def retireOthers (db : MemoryDb) (entityId source : String) (now : ℕ) : MemoryDb × Bool :=
  ({ db with
      facts := deleteFacts db.facts (isOthersFact entityId source) now
      relationships := deleteRelationships db.relationships (isOthersRelationship entityId source) now },
    db.facts.rows.any (isOthersFact entityId source) ||
      db.relationships.rows.any (isOthersRelationship entityId source))

/-- The fact is an active one of this file about the record. -/
def isOwnFact (entityId source : String) (f : Fact) : Bool :=
  f.entityId = entityId && f.source = source && isActive f

/-- The active facts of a file about a record, of one key. -/
def ownFacts (facts : List Fact) (entityId source key : String) : List Fact :=
  facts.filter fun f => isOwnFact entityId source f && f.key = key

/-- The fact of the file is there already. -/
def isStated (previous : List Fact) (stated : StatedFact) : Bool :=
  match previous with
  | [f] => f.value = stated.value && some f.classification = stated.classification
  | _ => false

/-- One fact of the file, given the facts there were before; `none` where it cannot be recorded. -/
def writeFact (entityId source : String) (now : ℕ) (existing : List Fact) (acc : MemoryDb × Bool)
    (stated : String × StatedFact) : Option (MemoryDb × Bool) :=
  let previous := ownFacts existing entityId source stated.1
  if isStated previous stated.2 then some acc
  else do
    let classification ← stated.2.classification
    let superseded := acc.1.facts.updateWhere (fun f => f.id ∈ previous.map Fact.id)
      (fun f => { f with status := .superseded }) Fact.superseded_id
    let db ← recordFact { acc.1 with facts := superseded }
      ⟨entityId, stated.1, stated.2.value, source, false, classification⟩ now
    -- the fact recorded is the newest row
    return ({ db with
      facts := db.facts.modify db.facts.rows.length
        (fun f => { f with supersedesFactId := (previous.head?.map Fact.id).or f.supersedesFactId })
        fun _ => rfl }, true)

/-- The fact is one the file does not state any more. -/
def isStale (entityId source : String) (facts : List (String × StatedFact)) (f : Fact) : Bool :=
  isOwnFact entityId source f && (Assoc.get? facts f.key).isNone

/-- The facts of a file; `none` where one cannot be recorded. -/
def writeFacts (db : MemoryDb) (changed : Bool) (d : Desired) (entityId source : String) (now : ℕ) :
    Option (MemoryDb × Bool) := do
  let existing := db.facts.rows
  let acc ← d.facts.foldlM (writeFact entityId source now existing) (db, changed)
  return ({ acc.1 with
      facts := deleteFacts acc.1.facts (isStale entityId source d.facts) now },
    acc.2 || existing.any (isStale entityId source d.facts))

/-- A commitment is one of the owner's. -/
def writePromise (db : MemoryDb) (s : Source) (d : Desired) (entityId : String) (now : ℕ) :
    Option (MemoryDb × Bool) :=
  match db.ownerEntityId with
  | some ownerEntityId =>
    if s.type = "Commitment" then
      ensurePromised db ownerEntityId entityId (sourceOf s.relativePath) d.classification now
    else some (db, false)
  | none => some (db, false)

/-- The record of a file that is not that of the owner. -/
def writeRecord (db : MemoryDb) (s : Source) (d : Desired) (entityId : String) (now : ℕ) :
    Option (MemoryDb × Bool) :=
  let written := writeEntity db d entityId s.type now
  (writePromise written.1 s d entityId now).map fun promised =>
    let retired := retireOthers promised.1 entityId (sourceOf s.relativePath) now
    (retired.1, written.2 || promised.2 || retired.2)

/-- `applyDocument`; `none` where a row cannot be written. -/
def applyDocument (db : MemoryDb) (s : Source) (d : Desired) (entityId : String) (now : ℕ) :
    Option (MemoryDb × Bool) :=
  (if s.owner then some (db, false) else writeRecord db s d entityId now).bind fun r =>
    writeFacts r.1 r.2 d entityId (sourceOf s.relativePath) now

structure Report where
  files : ℕ := 0
  changed : ℕ := 0
  unchanged : ℕ := 0
  removed : ℕ := 0
  errors : List (String × String) := []
  notes : List String := []
deriving DecidableEq

/-- The database, the records that are bound and the report, during a pass. -/
structure Pass where
  db : MemoryDb
  bound : Bound
  report : Report

/-- A file that cannot be indexed is reported; any other error ends the pass. -/
def Pass.refuse (p : Pass) (s : Source) : Refusal → Except MemoryDb Pass
  | .invalid message =>
    .ok { p with report := { p.report with errors := p.report.errors ++ [(s.relativePath, message)] } }
  | .crash => .error p.db

/-- The record of a file, where it has one. -/
def sourceEntity (digest : String → String) (db : MemoryDb) (bound : Bound) (ownerEntityId : String)
    (s : Source) (d : Desired) : Except Refusal String :=
  if s.owner then .ok ownerEntityId else resolveEntityId digest db bound s.relativePath d.boundId

/-- What a file says, and the record it says it of. -/
def readSource (digest : String → String) (db : MemoryDb) (bound : Bound) (s : Source) :
    Except Refusal (Desired × String) := do
  let document ← s.reading.mapError .invalid
  let desired ← describe s.relativePath s.type document
  let entityId ← sourceEntity digest db bound (db.ownerEntityId.getD "") s desired
  return (desired, entityId)

/-- One file of a pass. -/
def indexSource (digest : String → String) (now : ℕ) (p : Pass) (s : Source) : Except MemoryDb Pass :=
  let p := { p with report := { p.report with files := p.report.files + 1 } }
  if s.owner = true ∧ p.db.ownerEntityId = none then
    .ok { p with report := { p.report with
      notes := p.report.notes ++ [meFile ++ " will be indexed once the owner account exists"] } }
  else
    match readSource digest p.db p.bound s with
    | .error refusal => p.refuse s refusal
    | .ok (desired, entityId) =>
      match applyDocument p.db s desired entityId now with
      | none => .error p.db
      | some (db, changed) => .ok {
          db := db
          bound := p.bound ++ [(s.relativePath, entityId)]
          report := if changed then { p.report with changed := p.report.changed + 1 }
            else { p.report with unchanged := p.report.unchanged + 1 } }

/-- The path of the file that described an entity. -/
def vaultPath (e : Entity) : Option Json := (Json.lookup e.attributes "vaultPath").filter (· ≠ .null)

/-- The file at a path; a path that is not a text is that of no file. -/
def boundAt (bound : Bound) (path : Json) : Option String := path.asStr?.bind (Assoc.get? bound)

/-- No file describes the entity any more. -/
def isMissing (present : List String) (bound : Bound) (e : Entity) : Bool :=
  (vaultPath e).any fun path => e.status.any (· ≠ "deleted") && boundAt bound path ≠ some e.id &&
    !(path.asStr?.any (· ∈ present) && (boundAt bound path).isNone)

/-- The entity is deleted, or is not that of a file any more. -/
def unbacked (now : ℕ) (e : Entity) : Entity :=
  if "ent_vault_".toList.isPrefixOf e.id.toList then
    { e with status := some "deleted", deletedAt := some now, updatedAt := now }
  else { e with attributes := e.attributes.filter (·.1 ≠ "vaultPath"), updatedAt := now }

theorem unbacked_id (now : ℕ) (e : Entity) : (unbacked now e).id = e.id := by
  unfold unbacked
  split_ifs <;> rfl

def removeMissing (db : MemoryDb) (present : List String) (bound : Bound) (now : ℕ) :
    MemoryDb × ℕ :=
  let missing := db.entities.rows.filter fun e => isMissing present bound e
  let isGone := fun (id : String) => id ∈ missing.map Entity.id
  let facts := deleteFacts db.facts
    (fun f => isGone f.entityId && isLikeVault f.source && isActive f) now
  let relationships := deleteRelationships db.relationships
    (fun r => r.toEntityId.any (fun id => isGone id) && isLikeVault r.source && r.status = "active") now
  let entities := db.entities.updateWhere (fun e => isMissing present bound e = true) (unbacked now)
    (unbacked_id now)
  let isOwners := fun (f : Fact) =>
    db.ownerEntityId = some f.entityId && (meFile ∉ present) && f.source = sourceOf meFile && isActive f
  ({ db with
      entities := entities
      facts := deleteFacts facts isOwners now
      relationships := relationships },
    missing.length + if facts.rows.any isOwners then 1 else 0)

/-- `indexVault`: the database, and the report where it came to its end. -/
def indexVault (digest : String → String) (now : ℕ) (v : Files) (db : MemoryDb) :
    MemoryDb × Option Report :=
  match v.sources.foldlM (indexSource digest now) ⟨db, [], {}⟩ with
  | .error db => (db, none)
  | .ok p =>
    let removed := removeMissing p.db (v.sources.map Source.relativePath) p.bound now
    (removed.1, some { p.report with removed := removed.2 })

end U2os.Server.Vault
