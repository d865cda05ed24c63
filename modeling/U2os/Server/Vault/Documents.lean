import U2os.Server.Vault.Records

/-!
# Applying a file

What applying a file leaves of the record it describes, and of others.
-/

namespace U2os.Server.Vault

open Memory List Option

variable {db db' : MemoryDb} {d : Desired} {s : Source} {now : ℕ} {ownerEntityId : String}
  {entityId source : String} {r : MemoryDb × Bool}

/-- A record is as a file says. -/
structure RecordInPlace (db : MemoryDb) (s : Source) (d : Desired) (entityId : String) : Prop where
  row : RowInPlace db d entityId s.type
  promise : ∀ ownerEntityId, db.ownerEntityId = some ownerEntityId → s.type = "Commitment" →
    PromiseKept (promises db ownerEntityId entityId) (sourceOf s.relativePath) d.classification
  retired : OthersRetired db entityId (sourceOf s.relativePath)

/-- A record and its facts are as a file says. -/
structure DocumentInPlace (db : MemoryDb) (s : Source) (d : Desired) (entityId : String) : Prop where
  record : s.owner = false → RecordInPlace db s d entityId
  facts : FactsInPlace db.facts.rows d.facts entityId (sourceOf s.relativePath)

/-- What a file leaves of its record: the row of the owner is left to others, and a commitment may be
lost. -/
structure Applied (before db : MemoryDb) (s : Source) (d : Desired) (entityId : String) : Prop where
  entity : s.owner = true → db.entities.find entityId = before.entities.find entityId
  row : s.owner = false → RowInPlace db d entityId s.type
  promise : s.owner = false → ∀ ownerEntityId, before.ownerEntityId = some ownerEntityId →
    s.type = "Commitment" →
      (PromiseKept (promises db ownerEntityId entityId) (sourceOf s.relativePath) d.classification ↔
        ¬LosesPromise (promises before ownerEntityId entityId) (sourceOf s.relativePath))
  retired : s.owner = false → OthersRetired db entityId (sourceOf s.relativePath)
  facts : FactsInPlace db.facts.rows d.facts entityId (sourceOf s.relativePath)

theorem isLikeVault_of_isVault (h : isVault source = true) : isLikeVault source = true := by
  have hmap := (List.isPrefixOf_iff_prefix.1 h).map Char.toLower
  exact isPrefixOf_iff_prefix.2 hmap

theorem writePromise_unchanged (h : writePromise db s d entityId now = some r) (hr : r.2 = false) :
    r.1 = db ∧ ∀ ownerEntityId, db.ownerEntityId = some ownerEntityId → s.type = "Commitment" →
      PromiseKept (promises db ownerEntityId entityId) (sourceOf s.relativePath) d.classification := by
  unfold writePromise at h
  split at h
  · rename_i owner howner
    split_ifs at h with htype
    · obtain ⟨hdb, hkept⟩ := ensurePromised_unchanged h hr
      refine ⟨hdb, fun other hother _ => ?_⟩
      rw [howner] at hother
      rwa [← some.inj hother]
    · obtain rfl := some.inj h
      exact ⟨rfl, fun _ _ hcommitment => absurd hcommitment htype⟩
  · rename_i hnone
    obtain rfl := some.inj h
    refine ⟨rfl, fun other hother _ => ?_⟩
    rw [hnone] at hother
    cases hother

theorem writePromise_of_kept (h : ∀ ownerEntityId, db.ownerEntityId = some ownerEntityId →
    s.type = "Commitment" →
      PromiseKept (promises db ownerEntityId entityId) (sourceOf s.relativePath) d.classification) :
    writePromise db s d entityId now = some (db, false) := by
  unfold writePromise
  split
  · rename_i owner howner
    split_ifs with htype
    · exact ensurePromised_of_kept (h owner howner htype)
    · rfl
  · rfl

theorem writePromise_frame (h : writePromise db s d entityId now = some r) :
    r.1 = { db with relationships := r.1.relationships } := by
  unfold writePromise at h
  split at h
  · split_ifs at h
    · exact ensurePromised_frame h
    · obtain rfl := some.inj h
      rfl
  · obtain rfl := some.inj h
    rfl

variable {other : String}

theorem sameAt_writePromise (hother : other ≠ entityId)
    (h : writePromise db s d entityId now = some r) : SameAt db r.1 other := by
  unfold writePromise at h
  split at h
  · split_ifs at h
    · exact sameAt_ensurePromised hother h
    · obtain rfl := some.inj h
      exact .refl _ _
  · obtain rfl := some.inj h
    exact .refl _ _

/-- With the others retired the promise is kept, unless it was left to another file. -/
theorem promiseKept_retired (h : writePromise db s d entityId now = some r)
    (howner : db.ownerEntityId = some ownerEntityId) (htype : s.type = "Commitment") :
    PromiseKept ((promises r.1 ownerEntityId entityId).filter fun x =>
        !(isLikeVault x.source && x.source ≠ sourceOf s.relativePath))
      (sourceOf s.relativePath) d.classification ↔
    ¬LosesPromise (promises db ownerEntityId entityId) (sourceOf s.relativePath) := by
  unfold writePromise at h
  rw [howner] at h
  dsimp only at h
  rw [if_pos htype] at h
  generalize hsource : sourceOf s.relativePath = source at h ⊢
  have hfind : ∀ active : List Relationship, (active.filter fun x =>
      !(isLikeVault x.source && x.source ≠ source)).find? (fun x => x.source = source) =
      active.find? fun x => x.source = source := by
    intro active
    rw [find?_filter]
    congr 1
    funext x
    by_cases hx : x.source = source <;> simp [hx]
  unfold PromiseKept
  rw [hfind]
  rcases promises_ensurePromised h with ⟨hkept, x, hx, hclass⟩ | ⟨hdb, hnone, y, hy, hvault⟩
  · rw [hx]
    exact iff_of_true hclass hkept
  · have hfindnone : ((promises db ownerEntityId entityId).find? fun x => x.source = source) = none :=
      find?_eq_none.2 fun x hx => by simpa using hnone x hx
    rw [hdb, hfindnone]
    dsimp only
    constructor
    · intro hany hloses
      obtain ⟨x, hx, _⟩ := List.any_eq_true.1 hany
      obtain ⟨hmem, hkeep⟩ := mem_filter.1 hx
      simp [(hloses.others x hmem).1, (hloses.others x hmem).2] at hkeep
    · intro hkept
      by_contra hany
      refine hkept ⟨fun x hx => ⟨?_, hnone x hx⟩, y, hy, hvault⟩
      by_contra hlike
      refine hany (List.any_eq_true.2 ⟨x, mem_filter.2 ⟨hx, by simp [hlike]⟩, ?_⟩)
      have hvault : isVault x.source ≠ true := fun hv => hlike (isLikeVault_of_isVault hv)
      simpa using hvault

theorem writeRecord_unchanged (h : writeRecord db s d entityId now = some r) (hr : r.2 = false) :
    r.1 = db ∧ RecordInPlace db s d entityId := by
  obtain ⟨promised, hpromised, rfl⟩ := map_eq_some_iff.1 h
  obtain ⟨hwritten, hretired⟩ := Bool.or_eq_false_iff.1 hr
  obtain ⟨hrow, hpromise⟩ := Bool.or_eq_false_iff.1 hwritten
  obtain ⟨hdb, hinPlace⟩ := writeEntity_unchanged hrow
  rw [hdb] at hpromised
  obtain ⟨hdb', hkept⟩ := writePromise_unchanged hpromised hpromise
  have hothers := retired_of_retireOthers hretired
  rw [hdb'] at hothers
  refine ⟨?_, hinPlace, hkept, hothers⟩
  dsimp only
  rw [hdb', retireOthers_of_retired hothers]

theorem writeRecord_of_inPlace (h : RecordInPlace db s d entityId) :
    writeRecord db s d entityId now = some (db, false) := by
  unfold writeRecord
  dsimp only
  rw [writeEntity_of_inPlace h.row, writePromise_of_kept h.promise, map_some,
    retireOthers_of_retired h.retired]
  rfl

theorem sameAt_writeRecord (hother : other ≠ entityId)
    (h : writeRecord db s d entityId now = some r) : SameAt db r.1 other := by
  obtain ⟨promised, hpromised, rfl⟩ := map_eq_some_iff.1 h
  obtain ⟨e, _, hfind⟩ := find_writeEntity db d entityId s.type now
  have hwritten : SameAt db (writeEntity db d entityId s.type now).1 other := by
    refine ⟨by rw [hfind, if_neg hother], ?_, ?_⟩ <;> rw [writeEntity_frame]
  exact (hwritten.trans (sameAt_writePromise hother hpromised)).trans (sameAt_retireOthers hother)

theorem ownerEntityId_applyDocument (h : applyDocument db s d entityId now = some r) :
    r.1.ownerEntityId = db.ownerEntityId := by
  obtain ⟨written, hwritten, hfacts⟩ := bind_eq_some_iff.1 h
  rw [onlyFacts_writeFacts hfacts]
  split_ifs at hwritten
  · rw [← some.inj hwritten]
  · obtain ⟨promised, hpromised, rfl⟩ := map_eq_some_iff.1 hwritten
    have hkept := congrArg MemoryDb.ownerEntityId (writePromise_frame hpromised)
    have hwritten := congrArg MemoryDb.ownerEntityId (writeEntity_frame db d entityId s.type now)
    exact hkept.trans hwritten

theorem applied_writeRecord (hwf : d.WellFormed s.relativePath)
    (hbound : d.boundId.isSome = true → (db.entities.find entityId).isSome = true)
    (h : writeRecord db s d entityId now = some r) :
    RowInPlace r.1 d entityId s.type ∧ OthersRetired r.1 entityId (sourceOf s.relativePath) ∧
      ∀ ownerEntityId, db.ownerEntityId = some ownerEntityId →
        s.type = "Commitment" →
          (PromiseKept (promises r.1 ownerEntityId entityId) (sourceOf s.relativePath)
              d.classification ↔
            ¬LosesPromise (promises db ownerEntityId entityId) (sourceOf s.relativePath)) := by
  obtain ⟨promised, hpromised, rfl⟩ := map_eq_some_iff.1 h
  have hrow : RowInPlace (writeEntity db d entityId s.type now).1 d entityId s.type :=
    rowInPlace_writeEntity hwf.attributes hbound
  have hframe := writePromise_frame hpromised
  have hwritten := congrArg MemoryDb.ownerEntityId (writeEntity_frame db d entityId s.type now)
  refine ⟨?_, othersRetired_retireOthers _ _ _ _, fun owner howner htype => ?_⟩
  · have hentities := congrArg (fun db => db.entities.find entityId) hframe
    exact hrow.congr hentities
  · have hpromises : promises (writeEntity db d entityId s.type now).1 owner entityId =
        promises db owner entityId := by
      rw [promises, writeEntity_frame, promises]
    dsimp only
    rw [promises_retireOthers, promiseKept_retired hpromised (hwritten.trans howner) htype,
      hpromises]

theorem applyDocument_unchanged :
    applyDocument db s d entityId now = some (db', false) ↔
      db' = db ∧ DocumentInPlace db s d entityId := by
  constructor
  · intro h
    obtain ⟨written, hwritten, hfacts⟩ := bind_eq_some_iff.1 h
    obtain ⟨hunchanged, hinPlace⟩ := inPlace_of_writeFacts hfacts rfl
    rw [writeFacts_of_inPlace hinPlace, hunchanged] at hfacts
    obtain rfl : written.1 = db' := congrArg Prod.fst (some.inj hfacts)
    split_ifs at hwritten with howner
    · obtain rfl := some.inj hwritten
      exact ⟨rfl, ⟨fun hnot => absurd howner (by simp [hnot]), hinPlace⟩⟩
    · obtain ⟨hdb, hrecord⟩ := writeRecord_unchanged hwritten hunchanged
      rw [hdb] at hinPlace
      exact ⟨hdb, ⟨fun _ => hrecord, hinPlace⟩⟩
  · rintro ⟨rfl, h⟩
    unfold applyDocument
    by_cases howner : s.owner = true
    · rw [if_pos howner]
      exact writeFacts_of_inPlace h.facts
    · rw [if_neg howner, writeRecord_of_inPlace (h.record (by simpa using howner))]
      exact writeFacts_of_inPlace h.facts

theorem FactsWritten.sameAt {stated : List (String × StatedFact)}
    (h : FactsWritten db db' stated entityId source) (hother : other ≠ entityId) :
    SameAt db db' other := by
  refine ⟨?_, h.others other hother, ?_⟩ <;> rw [h.onlyFacts]

theorem sameAt_applyDocument (hwf : d.WellFormed s.relativePath)
    (hother : other ≠ entityId) (h : applyDocument db s d entityId now = some r) :
    SameAt db r.1 other := by
  obtain ⟨written, hwritten, hfacts⟩ := bind_eq_some_iff.1 h
  have hlast := (factsWritten_writeFacts hwf.facts hfacts).sameAt hother
  split_ifs at hwritten
  · obtain rfl := some.inj hwritten
    exact hlast
  · exact (sameAt_writeRecord hother hwritten).trans hlast

/-- Written facts leave the facts of others retired. -/
theorem OthersRetired.writeFacts {stated : List (String × StatedFact)}
    (h : OthersRetired db entityId source) (hwritten : FactsWritten db db' stated entityId source) :
    OthersRetired db' entityId source := by
  refine ⟨fun f hf => ?_, ?_⟩
  · rw [Bool.eq_false_iff]
    intro hothers
    obtain ⟨hentity, hlike, hsource, hactive⟩ := isOthersFact_iff.1 hothers
    obtain ⟨g, hg, hgentity, hgsource, hgactive⟩ := hwritten.comes f hf hsource hactive
    have hgothers : isOthersFact entityId source g = true := isOthersFact_iff.2
      ⟨hgentity.trans hentity, hgsource ▸ hlike, hgsource ▸ hsource, hgactive⟩
    rw [h.facts g hg] at hgothers
    cases hgothers
  · rw [hwritten.onlyFacts]
    exact h.relationships

theorem applied_applyDocument (hwf : d.WellFormed s.relativePath)
    (hbound : s.owner = false → d.boundId.isSome = true →
      (db.entities.find entityId).isSome = true)
    (h : applyDocument db s d entityId now = some r) : Applied db r.1 s d entityId := by
  obtain ⟨written, hwritten, hfacts⟩ := bind_eq_some_iff.1 h
  have hlast := factsWritten_writeFacts hwf.facts hfacts
  have hentities : r.1.entities = written.1.entities := by rw [hlast.onlyFacts]
  have hpromises : ∀ owner, promises r.1 owner entityId = promises written.1 owner entityId := by
    intro owner
    rw [promises, hlast.onlyFacts, promises]
  split_ifs at hwritten with hs
  · obtain rfl := some.inj hwritten
    have hnot : s.owner ≠ false := by simp [hs]
    exact ⟨fun _ => by rw [hentities], fun h => absurd h hnot, fun h => absurd h hnot,
      fun h => absurd h hnot, hlast.inPlace⟩
  · obtain ⟨hrow, hretired, hpromise⟩ := applied_writeRecord hwf (hbound (by simpa using hs)) hwritten
    refine ⟨fun h => absurd h hs, fun _ => hrow.congr (by rw [hentities]), ?_,
      fun _ => hretired.writeFacts hlast, hlast.inPlace⟩
    intro _ owner ho htype
    rw [hpromises]
    exact hpromise owner ho htype

end U2os.Server.Vault
