import U2os.Lib.Run
import U2os.Server.Vault.Indexer

/-!
# The authority of facts

Facts recorded by anyone, corrected, deleted, reclassified and confirmed by the owner, and indexed
from the vault, in any order.

## Main results

* `oneCurrent_indexVault` : indexing keeps that at most one fact of a key is current.
-/

namespace U2os.Server.Vault

open Memory Option

variable {r : MemoryDb × Bool}

section Indexing

variable {digest : String → String} {facts : Facts} {db db' : MemoryDb} {now : ℕ}
  {entityId source : String}

theorem oneCurrent_deleteFacts (h : OneCurrent facts) (p : Fact → Bool) (now : ℕ) :
    OneCurrent (deleteFacts facts p now) :=
  h.updateWhere _ fun _ _ => ⟨rfl, rfl, FactStatus.noConfusion⟩

/-- A fact that the vault states is the only current one of its key. -/
theorem oneCurrent_writeFact {existing : List Fact} {acc acc' : MemoryDb × Bool}
    {stated : String × StatedFact} (h : OneCurrent acc.1.facts)
    (hw : writeFact entityId source now existing acc stated = some acc') :
    OneCurrent acc'.1.facts := by
  unfold writeFact at hw
  dsimp only at hw
  split_ifs at hw with hstated
  · obtain rfl := some.inj hw
    exact h
  · obtain ⟨classification, _, hw⟩ := bind_eq_some_iff.1 hw
    obtain ⟨recorded, hr, hw⟩ := bind_eq_some_iff.1 hw
    obtain rfl := some.inj hw
    have hsuperseded : OneCurrent (acc.1.facts.updateWhere
        (fun f => f.id ∈ (ownFacts existing entityId source stated.1).map Fact.id)
        (fun f => { f with status := .superseded }) Fact.superseded_id) :=
      h.updateWhere _ fun _ _ => ⟨rfl, rfl, FactStatus.noConfusion⟩
    have hrecorded : OneCurrent recorded.facts := by
      refine oneCurrent_recordFact ?_ hr
      exact hsuperseded
    exact hrecorded.modify (by intro _; rfl) fun _ => ⟨rfl, rfl, fun hs => hs⟩

theorem oneCurrent_foldlM_writeFact {existing : List Fact} (stated : List (String × StatedFact))
    {acc acc' : MemoryDb × Bool} (h : OneCurrent acc.1.facts)
    (hw : stated.foldlM (writeFact entityId source now existing) acc = some acc') :
    OneCurrent acc'.1.facts := by
  induction stated generalizing acc with
  | nil =>
    obtain rfl := some.inj hw
    exact h
  | cons x stated ih =>
    obtain ⟨next, hx, hrest⟩ := bind_eq_some_iff.1 hw
    exact ih (oneCurrent_writeFact h hx) hrest

theorem oneCurrent_writeFacts {changed : Bool} {d : Desired}
    (h : OneCurrent db.facts) (hw : writeFacts db changed d entityId source now = some r) :
    OneCurrent r.1.facts := by
  obtain ⟨acc, hfold, hw⟩ := bind_eq_some_iff.1 hw
  obtain rfl := some.inj hw
  exact oneCurrent_deleteFacts (oneCurrent_foldlM_writeFact d.facts h hfold) _ _

theorem facts_writeEntity (db : MemoryDb) (d : Desired) (entityId type : String) (now : ℕ) :
    (writeEntity db d entityId type now).1.facts = db.facts := by
  unfold writeEntity
  dsimp only
  split
  · rfl
  · split_ifs <;> rfl

theorem facts_ensurePromised {ownerEntityId classification : String}
    (h : ensurePromised db ownerEntityId entityId source classification now = some r) :
    r.1.facts = db.facts := by
  unfold ensurePromised at h
  dsimp only at h
  split at h
  · split_ifs at h <;> exact (congrArg (fun r => r.1.facts) (some.inj h)).symm
  · split_ifs at h <;> exact (congrArg (fun r => r.1.facts) (some.inj h)).symm

theorem oneCurrent_writeRecord {s : Source} {d : Desired}
    (h : OneCurrent db.facts) (hw : writeRecord db s d entityId now = some r) :
    OneCurrent r.1.facts := by
  obtain ⟨promised, hpromised, rfl⟩ := map_eq_some_iff.1 hw
  have hfacts : promised.1.facts = db.facts := by
    rw [← facts_writeEntity db d entityId s.type now]
    unfold writePromise at hpromised
    split at hpromised
    · split_ifs at hpromised
      · exact facts_ensurePromised hpromised
      · rw [← some.inj hpromised]
    · rw [← some.inj hpromised]
  refine oneCurrent_deleteFacts ?_ _ _
  rwa [hfacts]

theorem oneCurrent_applyDocument {s : Source} {d : Desired}
    (h : OneCurrent db.facts) (ha : applyDocument db s d entityId now = some r) :
    OneCurrent r.1.facts := by
  obtain ⟨written, hw, hfacts⟩ := bind_eq_some_iff.1 ha
  split_ifs at hw
  · obtain rfl := some.inj hw
    exact oneCurrent_writeFacts h hfacts
  · exact oneCurrent_writeFacts (oneCurrent_writeRecord h hw) hfacts

theorem oneCurrent_removeMissing (h : OneCurrent db.facts) (present : List String) (bound : Bound)
    (now : ℕ) : OneCurrent (removeMissing db present bound now).1.facts :=
  oneCurrent_deleteFacts (oneCurrent_deleteFacts h _ _) _ _

/-- Whether the pass goes on or ends, its database satisfies `I`. -/
def Reaches (I : MemoryDb → Prop) : Except MemoryDb Pass → Prop
  | .error db => I db
  | .ok p => I p.db

theorem oneCurrent_indexSource {p : Pass} {s : Source} (h : OneCurrent p.db.facts) :
    Reaches (fun db => OneCurrent db.facts) (indexSource digest now p s) := by
  unfold indexSource
  dsimp only
  split_ifs
  · exact h
  · split
    · rename_i refusal _
      cases refusal with
      | invalid message => exact h
      | crash => exact h
    · split
      · exact h
      · rename_i happlied
        exact oneCurrent_applyDocument h happlied

theorem oneCurrent_foldlM_indexSource (sources : List Source) {p : Pass} (h : OneCurrent p.db.facts) :
    Reaches (fun db => OneCurrent db.facts) (sources.foldlM (indexSource digest now) p) := by
  induction sources generalizing p with
  | nil => exact h
  | cons s sources ih =>
    have hs : Reaches (fun db => OneCurrent db.facts) (indexSource digest now p s) :=
      oneCurrent_indexSource h
    rw [List.foldlM_cons]
    cases heq : indexSource digest now p s with
    | error db =>
      rw [heq] at hs
      exact hs
    | ok q =>
      rw [heq] at hs
      exact ih hs

theorem oneCurrent_indexVault (h : OneCurrent db.facts) (v : Files) :
    OneCurrent (indexVault digest now v db).1.facts := by
  have hfold : Reaches (fun db => OneCurrent db.facts)
      (v.sources.foldlM (indexSource digest now) ⟨db, [], {}⟩) :=
    oneCurrent_foldlM_indexSource v.sources h
  unfold indexVault
  split
  · rename_i heq
    rwa [heq] at hfold
  · rename_i p heq
    rw [heq] at hfold
    exact oneCurrent_removeMissing hfold _ _ _

end Indexing

/-- A write to the memory. -/
inductive MemoryCall where
  | recordFact (new : NewFact)
  | correctFact (id : ℕ) (c : Correction)
  | deleteFact (id : ℕ)
  | reclassifyFact (id : ℕ) (classification : String)
  | confirmFact (id : ℕ)
  | indexVault (v : Files)
  /-- What else writes entities, relationships and the owner. -/
  | others (entities : Table Entity Entity.id)
      (relationships : Numbered Relationship Relationship.id) (ownerEntityId : Option String)

/-- A write, at a time; none where it refuses. -/
def performMemory (digest : String → String) (db : MemoryDb) : MemoryCall × ℕ → Option MemoryDb
  | (.recordFact new, now) => recordFact db new now
  | (.correctFact id c, now) => correctFact db id c now
  | (.deleteFact id, now) => deleteFact db id now
  | (.reclassifyFact id classification, _) => reclassifyFact db id classification
  | (.confirmFact id, now) => confirmFact db id now
  | (.indexVault v, now) => some (indexVault digest now v db).1
  | (.others entities relationships ownerEntityId, _) =>
    some ⟨entities, db.facts, relationships, ownerEntityId⟩

/-- Writes to a memory. -/
def memory (digest : String → String) (db : MemoryDb) : Machine MemoryDb (MemoryCall × ℕ) :=
  .ofPerform db (performMemory digest)

/-- No call makes a second fact of a key current. -/
theorem oneCurrent_performMemory {digest : String → String} {db db' : MemoryDb} {l : MemoryCall × ℕ}
    (h : OneCurrent db.facts) (hp : performMemory digest db l = some db') :
    OneCurrent db'.facts := by
  obtain ⟨call, now⟩ := l
  cases call with
  | recordFact new => exact oneCurrent_recordFact h hp
  | correctFact id c => exact oneCurrent_correctFact h hp
  | deleteFact id => exact oneCurrent_deleteFact h hp
  | reclassifyFact id classification => exact oneCurrent_reclassifyFact h hp
  | confirmFact id => exact oneCurrent_confirmFact h hp
  | indexVault v =>
    obtain rfl := some.inj hp
    exact oneCurrent_indexVault h v
  | others entities relationships ownerEntityId =>
    obtain rfl := some.inj hp
    exact h

/-- In every memory that began without facts, at most one fact of a key of an entity is current, and
recording what is inferred leaves every current fact that is not. -/
theorem fact_authority {digest : String → String} {init db : MemoryDb} {ls : List (MemoryCall × ℕ)}
    (hinit : init.facts = .empty) (hrun : (memory digest init).Run ls db) :
    OneCurrent db.facts ∧ ∀ new now db', recordFact db new now = some db' → new.inferred = true →
      ∀ f ∈ db.facts, f.inferred = false → f.status = .current → f ∈ db'.facts := by
  refine ⟨?_, fun new now db' hr hnew f hf => recordFact_inferred hr hnew hf⟩
  refine hrun.invariant (I := fun db => OneCurrent db.facts) ?_ fun _ _ _ h hp =>
    oneCurrent_performMemory h hp
  change OneCurrent init.facts
  rw [hinit]
  exact oneCurrent_empty

/-- A memory that knows its owner. -/
def sampleMemory : MemoryDb where
  entities := ⟨[⟨"ent_me", "Person", some "Me", [], some "active", "personal", none, 0⟩], by decide⟩
  facts := .empty
  relationships := .empty
  ownerEntityId := some "ent_me"

/-- A vault that says where the owner lives. -/
def sampleVault : Files where
  me := some (.ok ⟨[("city", .str "Paris")], ""⟩)
  files _ := []
  nodup _ := by simp

/-- What somebody imports, what an agent infers, the vault, and what the agent infers again. -/
def sampleCalls : List (MemoryCall × ℕ) :=
  [(.recordFact ⟨"ent_me", "city", .str "Paris", "import", false, "personal"⟩, 1),
    (.recordFact ⟨"ent_me", "city", .str "Rome", "agent", true, "personal"⟩, 2),
    (.indexVault sampleVault, 3),
    (.recordFact ⟨"ent_me", "city", .str "Rome", "agent", true, "personal"⟩, 4)]

/-- What the vault says is current, and what the agent infers is disputed. -/
theorem fact_authority_sample : ∃ db, (memory id sampleMemory).Run sampleCalls db ∧
    db.facts.rows.map Fact.status = [.superseded, .disputed, .current, .disputed] ∧
    OneCurrent db.facts := by
  have hsome : ((Machine.drive (performMemory id) (fun _ _ => true) sampleMemory sampleCalls).map
      fun db => db.facts.rows.map Fact.status) =
        some [.superseded, .disputed, .current, .disputed] := by
    decide +kernel
  obtain ⟨db, hdb, hstatus⟩ := map_eq_some_iff.1 hsome
  have hrun : (memory id sampleMemory).Run sampleCalls db := Machine.run_drive hdb
  exact ⟨db, hrun, hstatus, (fact_authority rfl hrun).1⟩

end U2os.Server.Vault
