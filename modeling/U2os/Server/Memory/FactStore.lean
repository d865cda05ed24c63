import U2os.Lib.Json
import U2os.Lib.Numbered
import U2os.Lib.Table

/-!
# Facts

The facts of the memory, with their statuses: `memory/fact-store.js`.  Two texts that
`JSON.stringify` wrote are equal just where the values are.

The revisions of facts, their confidence, provenance and time of observation are left out: nothing
that decides about a fact reads them.

## Main results

* `oneCurrent_recordFact`, `oneCurrent_correctFact` : the writes keep it.
-/

namespace U2os.Server.Memory

open Numbered

inductive FactStatus where
  | current | superseded | disputed | deleted
deriving DecidableEq

/-- A row of `facts`. -/
structure Fact where
  id : ℕ
  entityId : String
  key : String
  value : Json
  source : String
  inferred : Bool
  classification : String
  status : FactStatus
  supersedesFactId : Option ℕ := none
  lastConfirmedAt : Option ℕ := none
  deletedAt : Option ℕ := none
  createdAt : ℕ
deriving DecidableEq

/-- A row of `entities`; the attributes are an object. -/
structure Entity where
  id : String
  type : String
  name : Option String
  attributes : List (String × Json)
  status : Option String
  classification : String
  deletedAt : Option ℕ := none
  updatedAt : ℕ
deriving DecidableEq

/-- A row of `relationships`. -/
structure Relationship where
  id : ℕ
  fromEntityId : String
  relation : String
  toEntityId : Option String
  source : String
  classification : String
  status : String
  deletedAt : Option ℕ := none
  createdAt : ℕ
deriving DecidableEq

/-- The facts; they are never removed. -/
abbrev Facts := Numbered Fact Fact.id

/-- The tables of the memory. -/
structure MemoryDb where
  entities : Table Entity Entity.id
  facts : Facts
  relationships : Numbered Relationship Relationship.id
  /-- The entity of the owner, where one is set. -/
  ownerEntityId : Option String

/-- What `recordFact` is given. -/
structure NewFact where
  entityId : String
  key : String
  value : Json
  source : String
  inferred : Bool
  classification : String

/-- The fact is current, and of this key of this entity. -/
def Fact.isCurrentAt (entityId key : String) (f : Fact) : Prop :=
  f.entityId = entityId ∧ f.key = key ∧ f.status = .current

instance (entityId key : String) : DecidablePred (Fact.isCurrentAt entityId key) := fun f => by
  unfold Fact.isCurrentAt
  infer_instance

/-- The current facts of a key. -/
def currentFacts (facts : Facts) (entityId key : String) : List Fact :=
  facts.rows.filter fun f => f.isCurrentAt entityId key

/-- The status of a new fact, and what becomes of the current ones. -/
def recordedStatus (current : List Fact) (new : NewFact) : FactStatus × FactStatus :=
  let sameValue := current.all fun f => f.value = new.value
  let hasExplicit := current.any fun f => !f.inferred
  if current = [] then (.current, .current)
  else if new.inferred && hasExplicit then
    (if sameValue then .superseded else .disputed, .current)
  else if sameValue || (!new.inferred && current.all fun f => f.inferred) then
    (.current, .superseded)
  else (.disputed, .disputed)

/-- The current facts of a key get a status. -/
def settleCurrent (facts : Facts) (entityId key : String) (status : FactStatus) : Facts :=
  facts.updateWhere (Fact.isCurrentAt entityId key) (fun f => { f with status := status })
    fun _ => rfl

def NewFact.row (new : NewFact) (status : FactStatus) (now id : ℕ) : Fact where
  id := id
  entityId := new.entityId
  key := new.key
  value := new.value
  source := new.source
  inferred := new.inferred
  classification := new.classification
  status := status
  createdAt := now

/-- The rows after `recordFact`. -/
def recordRow (facts : Facts) (new : NewFact) (now : ℕ) : Facts :=
  let status := recordedStatus (currentFacts facts new.entityId new.key) new
  (settleCurrent facts new.entityId new.key status.2).push (new.row status.1 now) fun _ => rfl

/-- `recordFact`; `none` where the entity is not known. -/
def recordFact (db : MemoryDb) (new : NewFact) (now : ℕ) : Option MemoryDb :=
  if (db.entities.find new.entityId).isSome then
    some { db with facts := recordRow db.facts new now }
  else none

def classifications : List String := ["public", "personal", "private", "sensitive"]

/-- `mutateFact`; `none` where there is no such fact. -/
def mutateFact (db : MemoryDb) (id : ℕ) (update : Fact → Fact) (hid : ∀ f, (update f).id = f.id) :
    Option MemoryDb :=
  if (db.facts.find id).isSome then some { db with facts := db.facts.modify id update hid }
  else none

def confirmFact (db : MemoryDb) (id now : ℕ) : Option MemoryDb :=
  mutateFact db id (fun f => { f with lastConfirmedAt := some now }) fun _ => rfl

def reclassifyFact (db : MemoryDb) (id : ℕ) (classification : String) : Option MemoryDb :=
  if classification ∈ classifications then
    mutateFact db id (fun f => { f with classification := classification }) fun _ => rfl
  else none

theorem Fact.deleted_id (now : ℕ) (f : Fact) :
    { f with status := .deleted, deletedAt := some now }.id = f.id := rfl

def deleteFact (db : MemoryDb) (id now : ℕ) : Option MemoryDb :=
  mutateFact db id (fun f => { f with status := .deleted, deletedAt := some now })
    (Fact.deleted_id now)

/-- What `correctFact` is given. -/
structure Correction where
  value : Json
  key : Option String
  classification : Option String
  actor : String

/-- The fact a correction records. -/
def Correction.fact (c : Correction) (before : Fact) : NewFact where
  entityId := before.entityId
  key := match c.key with
    | some key => if key = "" then before.key else key
    | none => before.key
  value := c.value
  source := "correction:" ++ c.actor
  inferred := false
  classification := c.classification.getD before.classification

theorem Fact.superseded_id (f : Fact) : { f with status := .superseded }.id = f.id := rfl

/-- `correctFact`; `none` where it refuses. -/
def correctFact (db : MemoryDb) (id : ℕ) (c : Correction) (now : ℕ) : Option MemoryDb := do
  let before ← db.facts.find id
  guard (before.status = .current)
  guard (c.classification.all (· ∈ classifications) = true)
  let superseded := db.facts.modify id (fun f => { f with status := .superseded })
    Fact.superseded_id
  let db ← recordFact { db with facts := superseded } (c.fact before) now
  -- the replacement is the newest row
  return { db with
    facts := db.facts.modify db.facts.rows.length
      (fun f => { f with supersedesFactId := some id, lastConfirmedAt := some now }) fun _ => rfl }

/-- At most one fact of a key of an entity is current. -/
def OneCurrent (facts : Facts) : Prop :=
  ∀ f ∈ facts, ∀ g ∈ facts, f.status = .current → g.status = .current →
    f.entityId = g.entityId → f.key = g.key → f = g

variable {entityId key : String}

section OneCurrent

variable {facts facts' : Facts} {db db' : MemoryDb} {new : NewFact} {now id : ℕ} {f : Fact}

theorem oneCurrent_empty : OneCurrent .empty := fun f hf => absurd hf (not_mem_empty f)

theorem OneCurrent.of_rows (h : OneCurrent facts)
    (hrow : ∀ f' ∈ facts', f'.status = .current → ∃ f ∈ facts, f.id = f'.id ∧
      f.entityId = f'.entityId ∧ f.key = f'.key ∧ f.status = .current) : OneCurrent facts' := by
  intro f' hf' g' hg' hfc hgc hentity hkey
  obtain ⟨f, hf, hfid, hfe, hfk, hfs⟩ := hrow f' hf' hfc
  obtain ⟨g, hg, hgid, hge, hgk, hgs⟩ := hrow g' hg' hgc
  have hfg : f = g :=
    h f hf g hg hfs hgs (hfe.trans (hentity.trans hge.symm)) (hfk.trans (hkey.trans hgk.symm))
  exact eq_of_key hf' hg' (hfid.symm.trans ((congrArg Fact.id hfg).trans hgid))

/-- An update that makes no fact current keeps at most one. -/
theorem OneCurrent.updateWhere (h : OneCurrent facts) {p : Fact → Prop} [DecidablePred p]
    {update : Fact → Fact} (hid : ∀ f, (update f).id = f.id)
    (hu : ∀ f, p f → (update f).entityId = f.entityId ∧ (update f).key = f.key ∧
      ((update f).status = .current → f.status = .current)) :
    OneCurrent (facts.updateWhere p update hid) := by
  refine h.of_rows fun f' hf' hcurrent => ?_
  obtain ⟨f, hf, rfl⟩ := mem_updateWhere.1 hf'
  split_ifs at hcurrent ⊢ with hp
  · obtain ⟨hentity, hkey, hstatus⟩ := hu f hp
    exact ⟨f, hf, (hid f).symm, hentity.symm, hkey.symm, hstatus hcurrent⟩
  · exact ⟨f, hf, rfl, rfl, rfl, hcurrent⟩

theorem OneCurrent.modify (h : OneCurrent facts) {update : Fact → Fact}
    (hid : ∀ f, (update f).id = f.id)
    (hu : ∀ f, (update f).entityId = f.entityId ∧ (update f).key = f.key ∧
      ((update f).status = .current → f.status = .current)) :
    OneCurrent (facts.modify id update hid) :=
  h.updateWhere (p := fun f => f.id = id) hid fun f _ => hu f

/-- A new fact may be current where no other is. -/
theorem OneCurrent.push (h : OneCurrent facts) {mk : ℕ → Fact} {hid : ∀ n, (mk n).id = n}
    (hmk : (mk facts.next).status = .current →
      ∀ f ∈ facts, ¬f.isCurrentAt (mk facts.next).entityId (mk facts.next).key) :
    OneCurrent (facts.push mk hid) := by
  intro f hf g hg hfc hgc hentity hkey
  rcases (mem_push hid).1 hf with hf | rfl
  · rcases (mem_push hid).1 hg with hg | rfl
    · exact h f hf g hg hfc hgc hentity hkey
    · exact absurd ⟨hentity, hkey, hfc⟩ (hmk hgc f hf)
  · rcases (mem_push hid).1 hg with hg | rfl
    · exact absurd ⟨hentity.symm, hkey.symm, hgc⟩ (hmk hfc g hg)
    · rfl

theorem mem_currentFacts :
    f ∈ currentFacts facts entityId key ↔ f ∈ facts ∧ f.isCurrentAt entityId key := by
  simp [currentFacts, mem_rows]

theorem recordedStatus_current {current : List Fact} (h : (recordedStatus current new).1 = .current) :
    current = [] ∨ (recordedStatus current new).2 = .superseded := by
  unfold recordedStatus at h ⊢
  dsimp only at h ⊢
  split_ifs at h ⊢ with hnil hexplicit hsame hrest
  · exact .inl hnil
  · exact .inr rfl

theorem recordedStatus_inferred {current : List Fact} (hnew : new.inferred = true) (hf : f ∈ current)
    (hexplicit : f.inferred = false) : (recordedStatus current new).2 = .current := by
  have hany : (current.any fun g => !g.inferred) = true :=
    List.any_eq_true.2 ⟨f, hf, by rw [hexplicit]; rfl⟩
  unfold recordedStatus
  dsimp only
  rw [hnew, hany, if_neg (List.ne_nil_of_mem hf), if_pos (Bool.and_self true)]

theorem mem_settleCurrent {status : FactStatus} :
    f ∈ settleCurrent facts entityId key status ↔
      ∃ g ∈ facts, f = if g.isCurrentAt entityId key then { g with status := status } else g :=
  mem_updateWhere

@[simp] theorem next_settleCurrent {status : FactStatus} :
    (settleCurrent facts entityId key status).next = facts.next := by
  simp [next, settleCurrent, updateWhere]

theorem oneCurrent_recordRow (h : OneCurrent facts) : OneCurrent (recordRow facts new now) := by
  unfold recordRow
  dsimp only
  have hsettled : OneCurrent (settleCurrent facts new.entityId new.key
      (recordedStatus (currentFacts facts new.entityId new.key) new).2) := by
    refine h.updateWhere _ fun _ hat => ⟨rfl, rfl, fun _ => ?_⟩
    exact hat.2.2
  refine hsettled.push ?_
  intro hcurrent f hf hat
  obtain ⟨g, hg, rfl⟩ := mem_settleCurrent.1 hf
  split_ifs at hat with hgat
  · -- what was current has become superseded
    rcases recordedStatus_current hcurrent with hnil | hsuperseded
    · have hmem := mem_currentFacts.2 ⟨hg, hgat⟩
      rw [hnil] at hmem
      exact absurd hmem List.not_mem_nil
    · have hstatus := hat.2.2
      rw [hsuperseded] at hstatus
      cases hstatus
  · exact hgat hat

theorem recordFact_eq_some (h : recordFact db new now = some db') :
    (db.entities.find new.entityId).isSome = true ∧
      db' = { db with facts := recordRow db.facts new now } := by
  unfold recordFact at h
  split_ifs at h with hsome
  exact ⟨hsome, (Option.some.inj h).symm⟩

theorem recordFact_inferred (h : recordFact db new now = some db') (hnew : new.inferred = true)
    (hf : f ∈ db.facts) (hexplicit : f.inferred = false) (hcurrent : f.status = .current) :
    f ∈ db'.facts := by
  obtain ⟨_, rfl⟩ := recordFact_eq_some h
  refine (mem_push fun _ => rfl).2 (.inl (mem_settleCurrent.2 ⟨f, hf, ?_⟩))
  split_ifs with hat
  · rw [recordedStatus_inferred hnew (mem_currentFacts.2 ⟨hf, hat⟩) hexplicit, ← hcurrent]
  · rfl

theorem oneCurrent_recordFact (h : OneCurrent db.facts) (hr : recordFact db new now = some db') :
    OneCurrent db'.facts := by
  obtain ⟨_, rfl⟩ := recordFact_eq_some hr
  exact oneCurrent_recordRow h

theorem oneCurrent_mutateFact (h : OneCurrent db.facts) {update : Fact → Fact}
    {hid : ∀ f, (update f).id = f.id} (hm : mutateFact db id update hid = some db')
    (hu : ∀ f, (update f).entityId = f.entityId ∧ (update f).key = f.key ∧
      ((update f).status = .current → f.status = .current)) : OneCurrent db'.facts := by
  unfold mutateFact at hm
  split_ifs at hm
  obtain rfl := Option.some.inj hm
  exact h.modify hid hu

theorem oneCurrent_confirmFact (h : OneCurrent db.facts) (hc : confirmFact db id now = some db') :
    OneCurrent db'.facts :=
  oneCurrent_mutateFact h hc fun _ => ⟨rfl, rfl, fun hs => hs⟩

theorem oneCurrent_reclassifyFact {classification : String} (h : OneCurrent db.facts)
    (hr : reclassifyFact db id classification = some db') : OneCurrent db'.facts := by
  unfold reclassifyFact at hr
  split_ifs at hr
  exact oneCurrent_mutateFact h hr fun _ => ⟨rfl, rfl, fun hs => hs⟩

theorem oneCurrent_deleteFact (h : OneCurrent db.facts) (hd : deleteFact db id now = some db') :
    OneCurrent db'.facts :=
  oneCurrent_mutateFact h hd fun _ => ⟨rfl, rfl, FactStatus.noConfusion⟩

theorem oneCurrent_correctFact {c : Correction} (h : OneCurrent db.facts)
    (hc : correctFact db id c now = some db') : OneCurrent db'.facts := by
  obtain ⟨before, _, hc⟩ := Option.bind_eq_some_iff.1 hc
  obtain ⟨_, _, hc⟩ := Option.bind_eq_some_iff.1 hc
  obtain ⟨_, _, hc⟩ := Option.bind_eq_some_iff.1 hc
  obtain ⟨recorded, hr, hc⟩ := Option.bind_eq_some_iff.1 hc
  obtain rfl := Option.some.inj hc
  have hsuperseded : OneCurrent (db.facts.modify id (fun f => { f with status := .superseded })
      fun _ => rfl) := by
    refine h.modify _ fun _ => ⟨rfl, rfl, FactStatus.noConfusion⟩
  have hrecorded : OneCurrent recorded.facts := by
    refine oneCurrent_recordFact ?_ hr
    exact hsuperseded
  exact hrecorded.modify (by intro _; rfl) fun _ => ⟨rfl, rfl, fun hs => hs⟩

end OneCurrent

end U2os.Server.Memory
