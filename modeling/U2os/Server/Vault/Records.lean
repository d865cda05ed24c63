import U2os.Lib.Fallible
import U2os.Server.Vault.StatedFacts

/-!
# The record of a file

The parts of what applying a file does to the record it describes: its row, the commitment of the
owner, and what other files said of it.  Each part is written only where it is not in place, and is
in place afterwards.

## Main results

* `describe_wellFormed` : what is described is well formed.
* `rowInPlace_writeEntity`, `promises_ensurePromised`, `othersRetired_retireOthers` : the parts are in
  place after they were written.
-/

namespace U2os.Server.Vault

open Memory Fallible List Assoc Numbered

/-! ### What is described -/

/-- What `describe` yields of a file. -/
structure Desired.WellFormed (d : Desired) (relativePath : String) : Prop where
  facts : (d.facts.map Prod.fst).Nodup
  attributes : (d.attributes.map Prod.fst).Nodup
  vaultPath : Json.lookup d.attributes "vaultPath" = some (.str relativePath)

section Describe

variable {relativePath type : String} {level : String → Option String}

theorem keys_encodeEntries (es : List (String × Yaml)) :
    (encodeEntries es).map Prod.fst = es.map Prod.fst := by
  induction es with
  | nil => rfl
  | cons e es ih => rw [encodeEntries, map_cons, map_cons, ih]

theorem lookup_encodeEntries (es : List (String × Yaml)) (k : String) :
    Json.lookup (encodeEntries es) k = (get? es k).map encode := by
  induction es with
  | nil => rfl
  | cons e es ih =>
    rw [encodeEntries, Json.lookup_cons, get?_cons, ih]
    split_ifs <;> rfl

/-- The attributes are those of the path, and both maps have each key once. -/
structure StatedAt (relativePath : String) (acc : Stated) : Prop where
  attributes : (acc.1.map Prod.fst).Nodup
  facts : (acc.2.map Prod.fst).Nodup
  vaultPath : get? acc.1 "vaultPath" = some (.str relativePath)

theorem statedAt_stateEntry {acc acc' : Stated} {entry : String × Yaml}
    (h : StatedAt relativePath acc) (hs : stateEntry type level acc entry = .ok acc') :
    StatedAt relativePath acc' := by
  unfold stateEntry at hs
  dsimp only at hs
  split_ifs at hs with hskip hlong hlarge hkey <;> cases hs
  · exact h
  · refine ⟨nodup_assign h.attributes, nodup_assign h.facts, ?_⟩
    -- neither attribute of a commitment is the path
    rw [get?_assign, if_neg, h.vaultPath]
    rintro heq
    rcases hkey.2 with hk | hk <;> rw [hk] at heq <;> simp at heq
  · exact ⟨h.attributes, nodup_assign h.facts, h.vaultPath⟩

theorem statedAt_foldlM (entries : List (String × Yaml)) {acc acc' : Stated}
    (h : StatedAt relativePath acc) (hs : entries.foldlM (stateEntry type level) acc = .ok acc') :
    StatedAt relativePath acc' := by
  induction entries generalizing acc with
  | nil =>
    cases hs
    exact h
  | cons entry entries ih =>
    rw [foldlM_cons] at hs
    cases hnext : stateEntry type level acc entry with
    | error refusal =>
      rw [hnext] at hs
      cases hs
    | ok next =>
      rw [hnext] at hs
      exact ih (statedAt_stateEntry h hnext) hs

theorem nodup_stateBody {d : Document} {facts facts' : List (String × StatedFact)}
    (h : (facts.map Prod.fst).Nodup) (hs : stateBody relativePath level d facts = .ok facts') :
    (facts'.map Prod.fst).Nodup := by
  have hname : ∀ c : Prop, ∀ _ : Decidable c, ∀ x : StatedFact,
      ((if c then assign "name" x facts else facts).map Prod.fst).Nodup := by
    intro c _ x
    split_ifs
    · exact nodup_assign h
    · exact h
  unfold stateBody at hs
  dsimp only at hs
  by_cases hbody : d.body = ""
  · rw [if_pos hbody] at hs
    cases hs
    exact hname _ _ _
  · rw [if_neg hbody] at hs
    split_ifs at hs <;> cases hs
    · exact nodup_assign (nodup_assign h)
    · exact nodup_assign h

theorem commitmentAttributes_wellFormed {name : String} {attributes attributes' : List (String × Yaml)}
    (hnodup : (attributes.map Prod.fst).Nodup)
    (hpath : get? attributes "vaultPath" = some (.str relativePath))
    (h : commitmentAttributes type name attributes = .ok attributes') :
    (attributes'.map Prod.fst).Nodup ∧
      get? attributes' "vaultPath" = some (.str relativePath) := by
  unfold commitmentAttributes at h
  split_ifs at h
  · split at h <;> cases h
    refine ⟨nodup_assign (nodup_assign hnodup), ?_⟩
    rw [get?_assign, if_neg (by decide), get?_assign, if_neg (by decide), hpath]
  · cases h
    exact ⟨hnodup, hpath⟩

theorem describe_wellFormed {document : Document} {d : Desired}
    (h : describe relativePath type document = .ok d) : d.WellFormed relativePath := by
  obtain ⟨classification, _, h⟩ := bind_eq_ok.1 h
  obtain ⟨sensitiveKeys, _, h⟩ := bind_eq_ok.1 h
  obtain ⟨levels, _, h⟩ := bind_eq_ok.1 h
  obtain ⟨boundId, _, h⟩ := bind_eq_ok.1 h
  obtain ⟨stated, hstated, h⟩ := bind_eq_ok.1 h
  obtain ⟨facts, hfacts, h⟩ := bind_eq_ok.1 h
  obtain ⟨attributes, hattributes, h⟩ := bind_eq_ok.1 h
  cases h
  have hat : StatedAt relativePath stated :=
    statedAt_foldlM _ ⟨by simp, by simp, by simp [get?_cons]⟩ hstated
  obtain ⟨hnodup, hpath⟩ := commitmentAttributes_wellFormed hat.attributes hat.vaultPath hattributes
  refine ⟨nodup_stateBody hat.facts hfacts, ?_, ?_⟩
  · dsimp only
    rwa [keys_encodeEntries]
  · dsimp only
    rw [lookup_encodeEntries, hpath]
    rfl

end Describe

variable {db db' : MemoryDb} {d : Desired} {s : Source} {now : ℕ} {ownerEntityId : String}
  {entityId source classification type : String} {r : MemoryDb × Bool}

/-- An entity, its facts and what is promised of it are left. -/
structure SameAt (db db' : MemoryDb) (entityId : String) : Prop where
  entity : db'.entities.find entityId = db.entities.find entityId
  facts : db'.facts.rows.filter (·.entityId = entityId) = db.facts.rows.filter (·.entityId = entityId)
  relationships : db'.relationships.rows.filter (·.toEntityId = some entityId) =
    db.relationships.rows.filter (·.toEntityId = some entityId)

theorem SameAt.refl (db : MemoryDb) (entityId : String) : SameAt db db entityId := ⟨rfl, rfl, rfl⟩

theorem SameAt.trans {db'' : MemoryDb} (h : SameAt db db' entityId) (h' : SameAt db' db'' entityId) :
    SameAt db db'' entityId :=
  ⟨h'.entity.trans h.entity, h'.facts.trans h.facts, h'.relationships.trans h.relationships⟩

/-- The row of the record is as the file says. -/
def RowInPlace (db : MemoryDb) (d : Desired) (entityId type : String) : Prop :=
  ∃ e, db.entities.find entityId = some e ∧ d.isRow type (mergedAttributes db d entityId) e

theorem writeEntity_unchanged (h : (writeEntity db d entityId type now).2 = false) :
    (writeEntity db d entityId type now).1 = db ∧ RowInPlace db d entityId type := by
  unfold writeEntity at h ⊢
  dsimp only at h ⊢
  split at h
  · cases h
  · rename_i existing hfind
    split_ifs at h ⊢ with hrow
    exact ⟨rfl, existing, hfind, hrow⟩

theorem writeEntity_of_inPlace (h : RowInPlace db d entityId type) :
    writeEntity db d entityId type now = (db, false) := by
  obtain ⟨e, hfind, hrow⟩ := h
  unfold writeEntity
  dsimp only
  split
  · rename_i hnone
    rw [hfind] at hnone
    cases hnone
  · rename_i existing hexisting
    rw [hfind] at hexisting
    cases hexisting
    rw [if_pos hrow]

theorem writeEntity_frame (db : MemoryDb) (d : Desired) (entityId type : String) (now : ℕ) :
    (writeEntity db d entityId type now).1 =
      { db with entities := (writeEntity db d entityId type now).1.entities } := by
  unfold writeEntity
  dsimp only
  split
  · rfl
  · split_ifs <;> rfl

/-- A written row is the one that the document asks for. -/
theorem find_writeEntity (db : MemoryDb) (d : Desired) (entityId type : String) (now : ℕ) :
    ∃ e, d.isRow type (mergedAttributes db d entityId) e ∧
      ∀ k, (writeEntity db d entityId type now).1.entities.find k =
        if k = entityId then some e else db.entities.find k := by
  unfold writeEntity
  dsimp only
  split
  · rename_i hnone
    refine ⟨d.row entityId type (mergedAttributes db d entityId) now, ⟨rfl, rfl, rfl, rfl, rfl⟩, ?_⟩
    have hsome : ∃ t, db.entities.insert? (d.row entityId type (mergedAttributes db d entityId) now) =
        some t := by
      exact ⟨_, dif_pos (Table.find_eq_none.1 hnone)⟩
    obtain ⟨t, ht⟩ := hsome
    intro k
    rw [ht]
    exact Table.find_insert? ht k
  · rename_i existing hfind
    split_ifs with hrow
    · refine ⟨existing, hrow, fun k => ?_⟩
      split_ifs with hk
      · rw [hk, hfind]
      · rfl
    · refine ⟨d.row entityId type (mergedAttributes db d entityId) now, ⟨rfl, rfl, rfl, rfl, rfl⟩, ?_⟩
      exact fun k => Table.find_put_of_find hfind k

theorem rowInPlace_writeEntity (hwf : (d.attributes.map Prod.fst).Nodup)
    (hbound : d.boundId.isSome = true → (db.entities.find entityId).isSome = true) :
    RowInPlace (writeEntity db d entityId type now).1 d entityId type := by
  obtain ⟨e, hrow, hfind⟩ := find_writeEntity db d entityId type now
  have hself : (writeEntity db d entityId type now).1.entities.find entityId = some e := by
    rw [hfind, if_pos rfl]
  refine ⟨e, hself, ?_⟩
  have hmerged : mergedAttributes (writeEntity db d entityId type now).1 d entityId =
      mergedAttributes db d entityId := by
    have hattributes := hrow.2.2.1
    cases hid : d.boundId with
    | none => simp [mergedAttributes, hid]
    | some id =>
      obtain ⟨existing, hexisting⟩ := Option.isSome_iff_exists.1 (hbound (by rw [hid]; rfl))
      simp only [mergedAttributes, hid, hexisting] at hattributes
      simp only [mergedAttributes, hid, hexisting, hself, hattributes]
      exact Json.extend_extend hwf
  rwa [hmerged]

/-- A row that did not change is still in place. -/
theorem RowInPlace.congr (h : RowInPlace db d entityId type)
    (hfind : db'.entities.find entityId = db.entities.find entityId) :
    RowInPlace db' d entityId type := by
  have hmerged : mergedAttributes db' d entityId = mergedAttributes db d entityId := by
    rw [mergedAttributes, hfind, mergedAttributes]
  obtain ⟨e, he, hrow⟩ := h
  exact ⟨e, hfind.trans he, by rwa [hmerged]⟩

/-- A row in place names its file. -/
theorem RowInPlace.vaultPath {relativePath : String} (h : RowInPlace db d entityId type)
    (hwf : d.WellFormed relativePath) :
    ∃ e, db.entities.find entityId = some e ∧ e.status = some "active" ∧
      vaultPath e = some (.str relativePath) := by
  obtain ⟨e, hfind, hrow⟩ := h
  refine ⟨e, hfind, hrow.2.2.2.1, ?_⟩
  have hlookup : Json.lookup (mergedAttributes db d entityId) "vaultPath" =
      some (.str relativePath) := by
    unfold mergedAttributes
    split
    · exact Json.lookup_extend_of_mem hwf.attributes (Json.mem_of_lookup hwf.vaultPath)
    · exact hwf.vaultPath
  rw [Vault.vaultPath, hrow.2.2.1, hlookup]
  simp

/-! ### The commitment -/

/-- The commitment of the owner is as the file says. -/
def PromiseKept (active : List Relationship) (source classification : String) : Prop :=
  match active.find? fun r => r.source = source with
  | some r => r.classification = classification
  | none => (active.any fun r => !isVault r.source) = true

/-- All commitments are those of other files, one of which does not read as one: it stands in for that
of the file, and is retired. -/
structure LosesPromise (active : List Relationship) (source : String) : Prop where
  others : ∀ r ∈ active, isLikeVault r.source = true ∧ r.source ≠ source
  standsIn : ∃ r ∈ active, isVault r.source = false

theorem mem_promises {r : Relationship} : r ∈ promises db ownerEntityId entityId ↔
    r ∈ db.relationships ∧ r.fromEntityId = ownerEntityId ∧ r.toEntityId = some entityId ∧
      r.relation = "promised" ∧ r.status = "active" := by
  simp [promises, mem_rows]

theorem ensurePromised_unchanged
    (h : ensurePromised db ownerEntityId entityId source classification now = some r)
    (hunchanged : r.2 = false) :
    r.1 = db ∧ PromiseKept (promises db ownerEntityId entityId) source classification := by
  unfold ensurePromised at h
  unfold PromiseKept
  dsimp only at h
  cases hown : (promises db ownerEntityId entityId).find? fun r => r.source = source with
  | some existing =>
    rw [hown] at h
    dsimp only at h ⊢
    split_ifs at h with hclass <;> obtain rfl := Option.some.inj h
    · exact ⟨rfl, hclass⟩
    · cases hunchanged
  | none =>
    rw [hown] at h
    dsimp only at h ⊢
    split_ifs at h with hother hknown <;> obtain rfl := Option.some.inj h
    · exact ⟨rfl, hother⟩
    · cases hunchanged

theorem ensurePromised_of_kept
    (h : PromiseKept (promises db ownerEntityId entityId) source classification) :
    ensurePromised db ownerEntityId entityId source classification now = some (db, false) := by
  unfold PromiseKept at h
  unfold ensurePromised
  dsimp only
  cases hown : (promises db ownerEntityId entityId).find? fun r => r.source = source with
  | some existing =>
    rw [hown] at h
    exact if_pos h
  | none =>
    rw [hown] at h
    exact if_pos h

/-- Afterwards the commitment is that of the file, or is left to one that is no file's. -/
theorem promises_ensurePromised
    (h : ensurePromised db ownerEntityId entityId source classification now = some r) :
    (¬LosesPromise (promises db ownerEntityId entityId) source ∧
        ∃ x, ((promises r.1 ownerEntityId entityId).find? fun r => r.source = source) = some x ∧
          x.classification = classification) ∨
      r.1 = db ∧ (∀ x ∈ promises db ownerEntityId entityId, x.source ≠ source) ∧
        ∃ x ∈ promises db ownerEntityId entityId, isVault x.source = false := by
  unfold ensurePromised at h
  dsimp only at h
  cases hown : (promises db ownerEntityId entityId).find? fun r => r.source = source with
  | some existing =>
    have hsource : existing.source = source := by simpa using find?_some hown
    have hmem := mem_of_find?_eq_some hown
    have hkept : ¬LosesPromise (promises db ownerEntityId entityId) source :=
      fun hloses => (hloses.others existing hmem).2 hsource
    rw [hown] at h
    dsimp only at h
    split_ifs at h with hclass <;> obtain rfl := Option.some.inj h
    · exact .inl ⟨hkept, existing, hown, hclass⟩
    · -- the first one of the file gets the classification
      refine .inl ⟨hkept, { existing with classification := classification }, ?_, rfl⟩
      unfold promises at hown ⊢
      dsimp only
      rw [filter_modify_of _ (by intro _; rfl), find?_map]
      have hsame : ((fun r : Relationship => decide (r.source = source)) ∘ fun r =>
          if r.id = existing.id then { r with classification := classification } else r) =
          fun r => decide (r.source = source) := by
        funext r
        by_cases hid : r.id = existing.id <;> simp [hid]
      rw [hsame, hown]
      simp
  | none =>
    have hnone : ∀ x ∈ promises db ownerEntityId entityId, x.source ≠ source := by
      simpa using find?_eq_none.1 hown
    rw [hown] at h
    dsimp only at h
    split_ifs at h with hother hknown <;> obtain rfl := Option.some.inj h
    · refine .inr ⟨rfl, hnone, ?_⟩
      obtain ⟨x, hx, hvault⟩ := any_eq_true.1 hother
      exact ⟨x, hx, by simpa using hvault⟩
    · refine .inl ⟨fun hloses => ?_, ?_⟩
      · obtain ⟨x, hx, hvault⟩ := hloses.standsIn
        exact hother (any_eq_true.2 ⟨x, hx, by simp [hvault]⟩)
      · -- the new one comes last
        refine ⟨{ id := db.relationships.next, fromEntityId := ownerEntityId, relation := "promised"
                  toEntityId := some entityId, source := source, classification := classification
                  status := "active", createdAt := now }, ?_, rfl⟩
        unfold promises at hown ⊢
        rw [push, filter_append, find?_append, hown]
        simp

theorem ensurePromised_frame
    (h : ensurePromised db ownerEntityId entityId source classification now = some r) :
    r.1 = { db with relationships := r.1.relationships } := by
  unfold ensurePromised at h
  dsimp only at h
  split at h <;> split_ifs at h <;> obtain rfl := Option.some.inj h <;> rfl

theorem sameAt_ensurePromised {other : String} (hother : other ≠ entityId)
    (h : ensurePromised db ownerEntityId entityId source classification now = some r) :
    SameAt db r.1 other := by
  unfold ensurePromised at h
  dsimp only at h
  cases hown : (promises db ownerEntityId entityId).find? fun r => r.source = source with
  | some existing =>
    obtain ⟨hmem, _, hto, _⟩ := mem_promises.1 (mem_of_find?_eq_some hown)
    rw [hown] at h
    dsimp only at h
    split_ifs at h <;> obtain rfl := Option.some.inj h
    · exact .refl _ _
    · refine ⟨rfl, rfl, filter_modify (by intro _; rfl) fun x hx hid => ?_⟩
      obtain rfl := eq_of_key hx hmem hid
      simp [hto, Ne.symm hother]
  | none =>
    rw [hown] at h
    dsimp only at h
    split_ifs at h <;> obtain rfl := Option.some.inj h
    · exact .refl _ _
    · refine ⟨rfl, rfl, ?_⟩
      dsimp only
      rw [push, filter_append]
      simp [Ne.symm hother]

theorem promises_congr (h : SameAt db db' entityId) :
    promises db' ownerEntityId entityId = promises db ownerEntityId entityId := by
  have hfilter : ∀ rows : List Relationship, (rows.filter fun r => r.fromEntityId = ownerEntityId ∧
      r.toEntityId = some entityId ∧ r.relation = "promised" ∧ r.status = "active") =
      (rows.filter (·.toEntityId = some entityId)).filter fun r => r.fromEntityId = ownerEntityId ∧
        r.toEntityId = some entityId ∧ r.relation = "promised" ∧ r.status = "active" := by
    intro rows
    rw [filter_filter]
    refine filter_congr fun r _ => ?_
    by_cases hto : r.toEntityId = some entityId <;> simp [hto]
  rw [promises, hfilter, h.relationships, ← hfilter, promises]

/-! ### Other files -/

/-- No other file says anything of the record. -/
structure OthersRetired (db : MemoryDb) (entityId source : String) : Prop where
  facts : ∀ f ∈ db.facts, isOthersFact entityId source f = false
  relationships : ∀ r ∈ db.relationships, isOthersRelationship entityId source r = false

theorem isOthersFact_iff {f : Fact} : isOthersFact entityId source f = true ↔
    f.entityId = entityId ∧ isLikeVault f.source = true ∧ f.source ≠ source ∧ isActive f = true := by
  simp [isOthersFact, and_assoc]

theorem isOthersRelationship_iff {x : Relationship} : isOthersRelationship entityId source x = true ↔
    x.toEntityId = some entityId ∧ isLikeVault x.source = true ∧ x.source ≠ source ∧
      x.status = "active" := by
  simp [isOthersRelationship, and_assoc]

theorem retireOthers_of_retired (h : OthersRetired db entityId source) :
    retireOthers db entityId source now = (db, false) := by
  have hfacts : deleteFacts db.facts (isOthersFact entityId source) now = db.facts :=
    updateWhere_eq_self fun f hf => by simp [h.facts f hf]
  have hrelationships : deleteRelationships db.relationships (isOthersRelationship entityId source) now =
      db.relationships := updateWhere_eq_self fun r hr => by simp [h.relationships r hr]
  have hany : db.facts.rows.any (isOthersFact entityId source) = false :=
    any_eq_false.2 fun f hf => by simp [h.facts f hf]
  have hany' : db.relationships.rows.any (isOthersRelationship entityId source) = false :=
    any_eq_false.2 fun r hr => by simp [h.relationships r hr]
  rw [retireOthers, hfacts, hrelationships, hany, hany']
  rfl

theorem retired_of_retireOthers (h : (retireOthers db entityId source now).2 = false) :
    OthersRetired db entityId source := by
  obtain ⟨hfacts, hrelationships⟩ := Bool.or_eq_false_iff.1 h
  exact ⟨fun f hf => by simpa using any_eq_false.1 hfacts f hf,
    fun r hr => by simpa using any_eq_false.1 hrelationships r hr⟩

theorem mem_deleteRelationships {relationships : Numbered Relationship Relationship.id}
    {p : Relationship → Bool} {x : Relationship} : x ∈ deleteRelationships relationships p now ↔
      ∃ y ∈ relationships,
        x = if p y = true then { y with status := "deleted", deletedAt := some now } else y :=
  mem_updateWhere

theorem filter_deleteRelationships {relationships : Numbered Relationship Relationship.id}
    {p P : Relationship → Bool} (now : ℕ) (h : ∀ x ∈ relationships, p x = true → P x = false ∧
      P { x with status := "deleted", deletedAt := some now } = false) :
    (deleteRelationships relationships p now).rows.filter P = relationships.rows.filter P :=
  filter_updateWhere _ h

theorem othersRetired_retireOthers (db : MemoryDb) (entityId source : String) (now : ℕ) :
    OthersRetired (retireOthers db entityId source now).1 entityId source := by
  refine ⟨fun f hf => ?_, fun x hx => ?_⟩
  · obtain ⟨g, _, rfl⟩ := mem_deleteFacts.1 hf
    split_ifs with hothers
    · simp [isOthersFact, isActive]
    · simpa using hothers
  · obtain ⟨y, _, rfl⟩ := mem_deleteRelationships.1 hx
    split_ifs with hothers
    · simp [isOthersRelationship]
    · simpa using hothers

theorem sameAt_retireOthers {other : String} (hother : other ≠ entityId) :
    SameAt db (retireOthers db entityId source now).1 other := by
  refine ⟨rfl, filter_deleteFacts now fun f _ hothers => ?_,
    filter_deleteRelationships now fun x _ hothers => ?_⟩
  · simp [(isOthersFact_iff.1 hothers).1, Ne.symm hother]
  · simp [(isOthersRelationship_iff.1 hothers).1, Ne.symm hother]

theorem promises_retireOthers :
    promises (retireOthers db entityId source now).1 ownerEntityId entityId =
      (promises db ownerEntityId entityId).filter fun r =>
        !(isLikeVault r.source && r.source ≠ source) := by
  refine (filter_updateWhere_gone (by intro _; rfl) (by simp)).trans
    (filter_congr fun x hx => ?_)
  obtain ⟨_, _, hto, _, hstatus⟩ := mem_promises.1 hx
  simp [isOthersRelationship, hto, hstatus]

theorem OthersRetired.congr (h : OthersRetired db entityId source) (hsame : SameAt db db' entityId) :
    OthersRetired db' entityId source := by
  refine ⟨fun f hf => ?_, fun x hx => ?_⟩
  · rw [Bool.eq_false_iff]
    intro hothers
    have hmem : f ∈ db'.facts.rows.filter (·.entityId = entityId) :=
      mem_filter.2 ⟨hf, by simp [(isOthersFact_iff.1 hothers).1]⟩
    rw [hsame.facts] at hmem
    rw [h.facts f (mem_filter.1 hmem).1] at hothers
    cases hothers
  · rw [Bool.eq_false_iff]
    intro hothers
    have hmem : x ∈ db'.relationships.rows.filter (·.toEntityId = some entityId) :=
      mem_filter.2 ⟨hx, by simp [(isOthersRelationship_iff.1 hothers).1]⟩
    rw [hsame.relationships] at hmem
    rw [h.relationships x (mem_filter.1 hmem).1] at hothers
    cases hothers

end U2os.Server.Vault
