import U2os.Server.Vault.Passes

/-!
# What no file describes any more

The removal that ends a pass: it leaves the records that are bound, and a second one finds nothing to
remove.
-/

namespace U2os.Server.Vault

open Memory List

variable {db : MemoryDb} {present : List String} {bound : Bound} {now later : ℕ} {id : String}

/-- The owner's file is gone, and the fact is one it stated. -/
def isOwnersFact (db : MemoryDb) (present : List String) (f : Fact) : Bool :=
  db.ownerEntityId = some f.entityId && (meFile ∉ present) && f.source = sourceOf meFile && isActive f

/-- The fact is one a file stated of a record that is missing. -/
def isMissingFact (db : MemoryDb) (present : List String) (bound : Bound) (f : Fact) : Bool :=
  (f.entityId ∈ (db.entities.rows.filter fun e => isMissing present bound e).map Entity.id) &&
    isLikeVault f.source && isActive f

/-- The relationship is one a file made to a record that is missing. -/
def isMissingRelationship (db : MemoryDb) (present : List String) (bound : Bound)
    (r : Relationship) : Bool :=
  r.toEntityId.any (fun id =>
      id ∈ (db.entities.rows.filter fun e => isMissing present bound e).map Entity.id) &&
    isLikeVault r.source && r.status = "active"

theorem removeMissing_eq (db : MemoryDb) (present : List String) (bound : Bound) (now : ℕ) :
    removeMissing db present bound now = ({ db with
      entities := db.entities.updateWhere (fun e => isMissing present bound e = true) (unbacked now)
        (unbacked_id now)
      facts := deleteFacts (deleteFacts db.facts (isMissingFact db present bound) now)
        (isOwnersFact db present) now
      relationships := deleteRelationships db.relationships (isMissingRelationship db present bound) now },
    (db.entities.rows.filter fun e => isMissing present bound e).length +
      if (deleteFacts db.facts (isMissingFact db present bound) now).rows.any (isOwnersFact db present)
      then 1 else 0) := rfl

theorem mem_missing : id ∈ (db.entities.rows.filter fun e => isMissing present bound e).map Entity.id ↔
    ∃ e, db.entities.find id = some e ∧ isMissing present bound e = true := by
  constructor
  · intro h
    obtain ⟨e, he, rfl⟩ := mem_map.1 h
    obtain ⟨hmem, hmissing⟩ := mem_filter.1 he
    exact ⟨e, Table.find_eq_some.2 ⟨hmem, rfl⟩, hmissing⟩
  · rintro ⟨e, hfind, hmissing⟩
    obtain ⟨hmem, rfl⟩ := Table.find_eq_some.1 hfind
    exact mem_map_of_mem (mem_filter.2 ⟨hmem, hmissing⟩)

theorem ownerEntityId_removeMissing :
    (removeMissing db present bound now).1.ownerEntityId = db.ownerEntityId := rfl

theorem find_removeMissing : (removeMissing db present bound now).1.entities.find id =
    (db.entities.find id).map fun e =>
      if isMissing present bound e = true then unbacked now e else e := by
  rw [removeMissing_eq]
  exact @Table.find_updateWhere _ _ _ _ _ _ _ _ (unbacked_id now) _

/-- The removal leaves a record alone whose file is there. -/
theorem sameAt_removeMissing
    (hrow : ∀ e, db.entities.find id = some e → isMissing present bound e = false)
    (howner : ∀ f ∈ db.facts, f.entityId = id → isOwnersFact db present f = false) :
    SameAt db (removeMissing db present bound now).1 id := by
  have hpresent : id ∉ (db.entities.rows.filter fun e => isMissing present bound e).map Entity.id := by
    intro h
    obtain ⟨e, hfind, hmissing⟩ := mem_missing.1 h
    rw [hrow e hfind] at hmissing
    cases hmissing
  refine ⟨?_, ?_, ?_⟩
  · rw [find_removeMissing]
    cases hfind : db.entities.find id with
    | none => rfl
    | some e => simp [hrow e hfind]
  · have hfirst : (deleteFacts db.facts (isMissingFact db present bound) now).rows.filter
        (·.entityId = id) = db.facts.rows.filter (·.entityId = id) := by
      refine filter_deleteFacts now fun f _ hgone => ?_
      have hne : f.entityId ≠ id := by
        rintro rfl
        simp [isMissingFact, hpresent] at hgone
      simp [hne]
    rw [removeMissing_eq]
    refine (filter_deleteFacts now fun f hf hgone => ?_).trans hfirst
    have hne : f.entityId ≠ id := by
      intro hid
      have hmem : f ∈ db.facts.rows.filter (·.entityId = id) := by
        rw [← hfirst]
        exact mem_filter.2 ⟨hf, by simp [hid]⟩
      rw [howner f (mem_filter.1 hmem).1 hid] at hgone
      cases hgone
    simp [hne]
  · rw [removeMissing_eq]
    refine filter_deleteRelationships now fun r _ hgone => ?_
    have hne : r.toEntityId ≠ some id := by
      intro hto
      simp [isMissingRelationship, hto, hpresent] at hgone
    simp [hne]

theorem not_isMissing_unbacked (e : Entity) : isMissing present bound (unbacked now e) = false := by
  unfold unbacked
  split_ifs
  · simp [isMissing]
  · have hlookup : Json.lookup (e.attributes.filter (·.1 ≠ "vaultPath")) "vaultPath" = none := by
      rw [Json.lookup, Option.map_eq_none_iff, find?_eq_none]
      intro p hp
      simpa using (mem_filter.1 hp).2
    rw [isMissing, vaultPath, hlookup]
    rfl

theorem not_isMissing_removeMissing {e : Entity}
    (he : e ∈ (removeMissing db present bound now).1.entities) : isMissing present bound e = false := by
  rw [removeMissing_eq] at he
  obtain ⟨x, _, rfl⟩ := Table.of_mem_updateWhere (unbacked_id now) he
  split_ifs with hmissing
  · exact not_isMissing_unbacked x
  · simpa using hmissing

theorem not_isOwnersFact_removeMissing {f : Fact}
    (hf : f ∈ (removeMissing db present bound now).1.facts) : isOwnersFact db present f = false := by
  rw [removeMissing_eq] at hf
  obtain ⟨g, _, rfl⟩ := mem_deleteFacts.1 hf
  split_ifs with howners
  · simp [isOwnersFact, isActive]
  · simpa using howners

theorem removeMissing_of_none (hrows : ∀ e ∈ db.entities, isMissing present bound e = false)
    (howner : ∀ f ∈ db.facts, isOwnersFact db present f = false) :
    removeMissing db present bound now = (db, 0) := by
  have hnone : (db.entities.rows.filter fun e => isMissing present bound e) = [] :=
    filter_eq_nil_iff.2 fun e he => by simp [hrows e he]
  have hfacts : deleteFacts db.facts (isMissingFact db present bound) now = db.facts :=
    Numbered.updateWhere_eq_self fun f _ => by simp [isMissingFact, hnone]
  have howners : deleteFacts db.facts (isOwnersFact db present) now = db.facts :=
    Numbered.updateWhere_eq_self fun f hf => by simp [howner f hf]
  have hrelationships : deleteRelationships db.relationships (isMissingRelationship db present bound) now =
      db.relationships := Numbered.updateWhere_eq_self fun r _ => by
    cases r.toEntityId <;> simp [isMissingRelationship, hnone]
  have hentities : db.entities.updateWhere (fun e => isMissing present bound e = true) (unbacked now)
      (unbacked_id now) = db.entities := Table.updateWhere_eq_self fun e he => by simp [hrows e he]
  have hany : db.facts.rows.any (isOwnersFact db present) = false :=
    any_eq_false.2 fun f hf => by simp [howner f hf]
  rw [removeMissing_eq, hfacts, howners, hrelationships, hentities, hnone, hany]
  rfl

theorem removeMissing_removeMissing :
    removeMissing (removeMissing db present bound now).1 present bound later =
      ((removeMissing db present bound now).1, 0) :=
  removeMissing_of_none (fun _ he => not_isMissing_removeMissing he) fun f hf => by
    rw [isOwnersFact, ownerEntityId_removeMissing]
    exact not_isOwnersFact_removeMissing hf

theorem of_mem_deleteFacts {facts : Facts} {p : Fact → Bool} {f : Fact}
    (hf : f ∈ deleteFacts facts p now) (hactive : isActive f = true) : f ∈ facts ∧ p f = false := by
  obtain ⟨g, hg, rfl⟩ := mem_deleteFacts.1 hf
  split_ifs at hactive ⊢ with hp
  · simp [isActive] at hactive
  · exact ⟨hg, by simpa using hp⟩

theorem not_isActive_of_missing {e : Entity} (hfind : db.entities.find id = some e)
    (hmissing : isMissing present bound e = true) {f : Fact}
    (hf : f ∈ (removeMissing db present bound now).1.facts) (hid : f.entityId = id)
    (hlike : isLikeVault f.source = true) : isActive f = false := by
  rw [Bool.eq_false_iff]
  intro hactive
  rw [removeMissing_eq] at hf
  obtain ⟨hkept, _⟩ := of_mem_deleteFacts hf hactive
  obtain ⟨_, hnot⟩ := of_mem_deleteFacts hkept hactive
  have hmem := mem_missing.2 ⟨e, hfind, hmissing⟩
  rw [← hid] at hmem
  simp [isMissingFact, hmem, hlike, hactive] at hnot

theorem Files.owner_collection {v : Files} {c : Collection} {s : Source} (hs : s ∈ v.collection c) :
    s.owner = false := by
  obtain ⟨f, _, rfl⟩ := mem_map.1 hs
  rfl

/-- The file of the owner comes first. -/
theorem Files.owner_first (v : Files) : ∀ s ∈ v.sources.tail, s.owner = false := by
  have hcollections : ∀ s ∈ v.collection .people ++ (v.collection .projects ++
      v.collection .commitments), s.owner = false := by
    intro s hs
    rcases List.mem_append.1 hs with hs | hs
    · exact owner_collection hs
    · rcases List.mem_append.1 hs with hs | hs
      · exact owner_collection hs
      · exact owner_collection hs
  intro s hs
  unfold Files.sources at hs
  cases hme : v.me with
  | none =>
    rw [hme] at hs
    exact hcollections s (mem_of_mem_tail hs)
  | some reading =>
    rw [hme] at hs
    exact hcollections s hs

theorem take_path (c : Collection) (name : String) :
    (c.dir ++ "/" ++ name).toList.take 2 = c.dir.toList.take 2 := by
  rw [String.toList_append, String.toList_append, append_assoc, take_append_of_le_length]
  cases c <;> decide

theorem take_of_mem_collection {v : Files} {c : Collection} {path : String}
    (h : path ∈ (v.collection c).map Source.relativePath) :
    path.toList.take 2 = c.dir.toList.take 2 := by
  obtain ⟨s, hs, rfl⟩ := mem_map.1 h
  obtain ⟨f, _, rfl⟩ := mem_map.1 hs
  exact take_path c f.1

theorem Files.nodup_collection (v : Files) (c : Collection) :
    ((v.collection c).map Source.relativePath).Nodup := by
  have hinj : ((v.files c).map Prod.fst).map (fun name => c.dir ++ "/" ++ name) =
      (v.collection c).map Source.relativePath := by
    simp [Files.collection]
  rw [← hinj]
  refine (v.nodup c).map fun a b hab => ?_
  have hlist := congrArg String.toList hab
  simp only [String.toList_append] at hlist
  exact String.toList_injective (append_cancel_left hlist)

/-- No two files have one path. -/
theorem Files.nodup_paths (v : Files) : (v.sources.map Source.relativePath).Nodup := by
  have hdisjoint : ∀ {l l' : List String} {k k' : List Char}, k ≠ k' →
      (∀ path ∈ l, path.toList.take 2 = k) → (∀ path ∈ l', path.toList.take 2 = k') →
      ∀ a ∈ l, ∀ b ∈ l', a ≠ b := by
    rintro l l' k k' hk hl hl' a ha b hb rfl
    exact hk ((hl a ha).symm.trans (hl' a hb))
  unfold Files.sources
  rw [map_append, map_append, map_append]
  refine nodup_append.2 ⟨?_, nodup_append.2 ⟨v.nodup_collection _,
    nodup_append.2 ⟨v.nodup_collection _, v.nodup_collection _, ?_⟩, ?_⟩, ?_⟩
  · cases v.me <;> simp
  · exact hdisjoint (by decide) (fun _ => take_of_mem_collection) fun _ => take_of_mem_collection
  · intro a ha b hb
    rcases List.mem_append.1 hb with hb | hb
    · exact hdisjoint (by decide) (fun _ => take_of_mem_collection)
        (fun _ => take_of_mem_collection) a ha b hb
    · exact hdisjoint (by decide) (fun _ => take_of_mem_collection)
        (fun _ => take_of_mem_collection) a ha b hb
  · have hme : ∀ path ∈ (v.me.toList.map fun reading => (⟨meFile, "Person", true, reading⟩ : Source)).map
        Source.relativePath, path.toList.take 2 = ['m', 'e'] := by
      intro path hpath
      cases hcase : v.me with
      | none => simp [hcase] at hpath
      | some reading =>
        obtain rfl : path = meFile := by simpa [hcase] using hpath
        decide
    intro a ha b hb
    rcases List.mem_append.1 hb with hb | hb
    · exact hdisjoint (by decide) hme (fun _ => take_of_mem_collection) a ha b hb
    · rcases List.mem_append.1 hb with hb | hb
      · exact hdisjoint (by decide) hme (fun _ => take_of_mem_collection) a ha b hb
      · exact hdisjoint (by decide) hme (fun _ => take_of_mem_collection) a ha b hb

end U2os.Server.Vault
