import U2os.Server.Vault.FactAuthority
import U2os.Server.Vault.Removal

/-!
# Indexing twice

A second pass over a vault that did not change writes nothing, but in three cases: a file names a
record that only a later file makes, the removal takes the facts of the owner's own file, or it is
left to a commitment of another file that is then retired.
-/

namespace U2os.Server.Vault

open Memory List Described

variable {digest : String → String} {db db₁ : MemoryDb} {v : Files} {l : List Source} {id : String}
  {now later : ℕ} {ds : List Described} {b : Described} {p : Pass}

/-- The file makes the record: it names none. -/
def Source.Makes (s : Source) (digest : String → String) (id : String) : Prop :=
  s.owner = false ∧ vaultEntityId digest s.relativePath = id ∧
    ∃ d, s.reads = .ok d ∧ d.boundId = none

/-- A file names a record that is not known, and that only later files make. -/
def BindsLater (digest : String → String) (db : MemoryDb) (l : List Source) : Prop :=
  ∃ l₁ s l₂ d id, l = l₁ ++ s :: l₂ ∧ s.owner = false ∧ s.reads = .ok d ∧ d.boundId = some id ∧
    db.ownerEntityId ≠ some id ∧ db.entities.find id = none ∧
    (∀ t ∈ l₁, ¬t.Makes digest id) ∧ ∃ t ∈ l₂, t.Makes digest id

/-- The file of the owner states facts, and the row of the owner is one of a file that is gone. -/
def LosesOwner (digest : String → String) (db : MemoryDb) (l : List Source) : Prop :=
  ∃ s ∈ l, s.owner = true ∧ ∃ d owner e, s.reads = .ok d ∧ d.facts ≠ [] ∧
    db.ownerEntityId = some owner ∧ db.entities.find owner = some e ∧
    isMissing (l.map Source.relativePath) (boundOf (describedBy digest db l)) e = true

/-- A commitment is left to one of another file. -/
def LosesCommitment (digest : String → String) (db : MemoryDb) (l : List Source) : Prop :=
  ∃ b ∈ describedBy digest db l, b.source.owner = false ∧ b.source.type = "Commitment" ∧
    ∃ owner, db.ownerEntityId = some owner ∧
      LosesPromise (promises db owner b.entityId) (sourceOf b.source.relativePath)

/-- An unknown id is described just where a file makes it. -/
theorem mem_described_of_unknown (hunknown : db.entities.find id = none)
    (hnot : db.ownerEntityId ≠ some id) :
    id ∈ (describedFrom digest db ds l).map entityId ↔
      id ∈ ds.map entityId ∨ ∃ s ∈ l, s.Makes digest id := by
  induction l generalizing ds with
  | nil => simp [describedFrom]
  | cons s l ih =>
    rw [describedFrom_cons, ih, map_append, mem_append, or_assoc]
    have hnext : id ∉ ds.map entityId →
        (id ∈ (describedNext digest db (boundOf ds) s).toList.map entityId ↔
          s.Makes digest id) := by
      intro hfresh
      constructor
      · intro h
        obtain ⟨b, hb, rfl⟩ := mem_map.1 h
        obtain ⟨rfl, hreads, hrecord⟩ := describedNext_eq_some.1 (Option.mem_toList.1 hb)
        have howner : b.source.owner = false := by
          rw [← Bool.not_eq_true]
          exact fun h => hnot (hrecord.owner h)
        have hnone : b.desired.boundId = none := by
          by_contra hsome
          have hknown := hrecord.known howner (Option.isSome_iff_ne_none.2 hsome)
          rw [hunknown] at hknown
          cases hknown
        refine ⟨howner, ?_, b.desired, hreads, hnone⟩
        rw [hrecord.named howner, hnone, Option.getD_none]
      · rintro ⟨howner, rfl, d, hreads, hnone⟩
        refine mem_map.2 ⟨⟨s, d, vaultEntityId digest s.relativePath⟩, Option.mem_toList.2
          (describedNext_eq_some.2 ⟨rfl, hreads, ?_⟩), rfl⟩
        refine ⟨fun h => ?_, fun _ => ?_, fun _ h => ?_, fun _ h => ?_, fun _ => ?_⟩
        · rw [howner] at h
          cases h
        · rw [hnone, Option.getD_none]
        · rw [hnone] at h
          cases h
        · rw [hnone] at h
          cases h
        · rwa [map_snd_boundOf]
    by_cases hfresh : id ∈ ds.map entityId
    · exact iff_of_true (.inl hfresh) (.inl hfresh)
    · rw [hnext hfresh, exists_mem_cons_iff]

theorem sublist_describedFrom (digest : String → String) (db : MemoryDb) (ds : List Described)
    (l : List Source) :
    ((describedFrom digest db ds l).map source).Sublist (ds.map source ++ l) := by
  induction l generalizing ds with
  | nil => simp [describedFrom]
  | cons s l ih =>
    rw [describedFrom_cons]
    refine (ih _).trans ?_
    rw [map_append, append_assoc]
    refine Sublist.append_left ?_ _
    cases hnext : describedNext digest db (boundOf ds) s with
    | none => exact sublist_cons_self s l
    | some b =>
      rw [Option.toList_some, map_singleton, (describedNext_eq_some.1 hnext).1]
      exact Sublist.refl _

/-! ### After the first pass -/

/-- What a pass and its removal leave. -/
structure Swept (digest : String → String) (db db₁ : MemoryDb) (l : List Source) : Prop where
  ownerEntityId : db₁.ownerEntityId = db.ownerEntityId
  noCrash : ∀ s ∈ l, ¬s.Crashes db
  known : ∀ id, id ∉ (describedBy digest db l).map entityId →
    (db₁.entities.find id).isSome = (db.entities.find id).isSome
  kept : ∀ id, (db.entities.find id).isSome = true → (db₁.entities.find id).isSome = true
  wellFormed : ∀ b ∈ describedBy digest db l, b.desired.WellFormed b.source.relativePath
  applied : ∀ b ∈ describedBy digest db l, b.source.owner = false →
    Applied db db₁ b.source b.desired b.entityId
  ownerKept : ∀ b ∈ describedBy digest db l, b.source.owner = true →
    (∀ e, db.entities.find b.entityId = some e →
      isMissing (l.map Source.relativePath) (boundOf (describedBy digest db l)) e = false) →
    Applied db db₁ b.source b.desired b.entityId
  ownerLost : ∀ b ∈ describedBy digest db l, b.source.owner = true →
    ∀ e, db.entities.find b.entityId = some e →
      isMissing (l.map Source.relativePath) (boundOf (describedBy digest db l)) e = true →
    ∀ f ∈ db₁.facts, f.entityId = b.entityId → isLikeVault f.source = true → isActive f = false
  settled : ∀ now, removeMissing db₁ (l.map Source.relativePath) (boundOf (describedBy digest db l)) now =
    (db₁, 0)

theorem Files.meFile_of_owner {s : Source} (hs : s ∈ v.sources) (howner : s.owner = true) :
    s.relativePath = meFile := by
  unfold Files.sources at hs
  rcases mem_append.1 hs with hs | hs
  · obtain ⟨reading, _, rfl⟩ := mem_map.1 hs
    rfl
  · exfalso
    have hcollection : ∀ {c}, s ∉ v.collection c := fun h => by
      rw [owner_collection h] at howner
      cases howner
    simp [hcollection] at hs

theorem isLikeVault_sourceOf (path : String) : isLikeVault (sourceOf path) = true := by
  refine isLikeVault_of_isVault (List.isPrefixOf_iff_prefix.2 ?_)
  rw [sourceOf, String.toList_append]
  exact prefix_append _ _

theorem sourceOf_injective : Function.Injective sourceOf := by
  intro a b h
  have hlist := congrArg String.toList h
  simp only [sourceOf, String.toList_append] at hlist
  exact String.toList_injective (append_cancel_left hlist)

theorem source_mem_of_described (hb : b ∈ describedBy digest db l) : b.source ∈ l :=
  ((of_mem_describedFrom hb).resolve_left not_mem_nil).1

theorem nodup_boundOf (digest : String → String) (db : MemoryDb) (v : Files) :
    ((boundOf (describedBy digest db v.sources)).map Prod.fst).Nodup := by
  have hsub := (sublist_describedFrom digest db [] v.sources).map
    Source.relativePath
  have hpaths : (boundOf (describedBy digest db v.sources)).map Prod.fst =
      ((describedBy digest db v.sources).map source).map Source.relativePath := by
    simp [boundOf]
  rw [hpaths]
  exact v.nodup_paths.sublist hsub

theorem boundAt_described (hb : b ∈ describedBy digest db v.sources) :
    boundAt (boundOf (describedBy digest db v.sources)) (.str b.source.relativePath) =
      some b.entityId :=
  Assoc.get?_eq_some_of_mem (nodup_boundOf digest db v) (mem_map_of_mem (f := fun b : Described =>
    (b.source.relativePath, b.entityId)) hb)

theorem sameAt_removed (hindexed : Indexed db p.db (describedBy digest db v.sources))
    (hb : b ∈ describedBy digest db v.sources) (howner : b.source.owner = false) :
    SameAt p.db (removeMissing p.db (v.sources.map Source.relativePath)
      (boundOf (describedBy digest db v.sources)) now).1 b.entityId := by
  have happlied := hindexed.applied b hb
  refine sameAt_removeMissing (fun e hfind => ?_) fun f hf hentity => ?_
  · obtain ⟨x, hx, hstatus, hpath⟩ := (happlied.row howner).vaultPath (hindexed.wellFormed b hb)
    obtain rfl := Option.some.inj (hx.symm.trans hfind)
    simp [isMissing, hpath, boundAt_described hb, Table.key_of_find hx]
  · -- a fact of the owner's file about the record was retired with the others
    rw [Bool.eq_false_iff]
    intro howners
    simp only [isOwnersFact, Bool.and_eq_true, decide_eq_true_eq] at howners
    obtain ⟨⟨⟨_, hgone⟩, hsource⟩, hactive⟩ := howners
    have hothers : isOthersFact b.entityId (sourceOf b.source.relativePath) f = true := by
      refine isOthersFact_iff.2 ⟨hentity, hsource ▸ isLikeVault_sourceOf meFile, fun heq => ?_, hactive⟩
      have hpath := sourceOf_injective (hsource.symm.trans heq)
      exact hgone (hpath ▸ mem_map_of_mem (source_mem_of_described hb))
    rw [(happlied.retired howner).facts f hf] at hothers
    cases hothers

theorem sameAt_removed_owner (hindexed : Indexed db p.db (describedBy digest db v.sources))
    (hb : b ∈ describedBy digest db v.sources) (howner : b.source.owner = true)
    (hkept : ∀ e, db.entities.find b.entityId = some e → isMissing (v.sources.map Source.relativePath)
      (boundOf (describedBy digest db v.sources)) e = false) :
    SameAt p.db (removeMissing p.db (v.sources.map Source.relativePath)
      (boundOf (describedBy digest db v.sources)) now).1 b.entityId := by
  have hsource := source_mem_of_described hb
  refine sameAt_removeMissing (fun e hfind => hkept e ?_) fun f _ _ => ?_
  · rwa [← (hindexed.applied b hb).entity howner]
  · have hpresent : meFile ∈ v.sources.map Source.relativePath := by
      rw [← Files.meFile_of_owner hsource howner]
      exact mem_map_of_mem hsource
    simp [isOwnersFact, hpresent]

/-- What the indexing has found stays. -/
theorem Indexed.kept (h : Indexed db p.db ds) (hid : (db.entities.find id).isSome = true) :
    (p.db.entities.find id).isSome = true := by
  by_cases hmem : id ∈ ds.map entityId
  · obtain ⟨b, hb, rfl⟩ := mem_map.1 hmem
    cases howner : b.source.owner with
    | true => rwa [(h.applied b hb).entity howner]
    | false =>
      obtain ⟨e, he, _⟩ := (h.applied b hb).row howner
      rw [he]
      rfl
  · rwa [h.known hmem]

theorem swept_indexVault {report : Report} (h : indexVault digest now v db = (db₁, some report)) :
    Swept digest db db₁ v.sources := by
  unfold indexVault at h
  cases hfold : v.sources.foldlM (indexSource digest now) ⟨db, [], {}⟩ with
  | error db' =>
    rw [hfold] at h
    cases h
  | ok p =>
    rw [hfold] at h
    obtain ⟨hbound, hindexed⟩ : p.bound = boundOf (describedBy digest db v.sources) ∧
        Indexed db p.db (describedBy digest db v.sources) :=
      indexed_foldlM (.nil db) rfl (.inl rfl) v.owner_first hfold
    dsimp only at h
    rw [hbound] at h
    obtain rfl := congrArg Prod.fst h
    have hfind : ∀ id, ((removeMissing p.db (v.sources.map Source.relativePath)
        (boundOf (describedBy digest db v.sources)) now).1.entities.find id).isSome =
        (p.db.entities.find id).isSome := by
      intro id
      rw [find_removeMissing, Option.isSome_map]
    constructor
    · exact hindexed.ownerEntityId
    · exact not_crashes_of_foldlM hfold
    · intro id hid
      rw [hfind, hindexed.known hid]
    · intro id hid
      rw [hfind]
      exact hindexed.kept hid
    · exact hindexed.wellFormed
    · intro b hb howner
      exact (hindexed.applied b hb).congr rfl (.refl _ _) (sameAt_removed hindexed hb howner)
    · intro b hb howner hkept
      exact (hindexed.applied b hb).congr rfl (.refl _ _)
        (sameAt_removed_owner hindexed hb howner hkept)
    · intro b hb howner e he hmissing f hf hentity hlike
      rw [← (hindexed.applied b hb).entity howner] at he
      exact not_isActive_of_missing he hmissing hf hentity hlike
    · exact fun _ => removeMissing_removeMissing

/-! ### The second pass -/

/-- Every file describes what it described, where none names a record that a later file makes: by
induction on the files. -/
theorem Swept.described (h : Swept digest db db₁ v.sources)
    (hbinds : ¬BindsLater digest db v.sources) :
    describedBy digest db₁ v.sources = describedBy digest db v.sources := by
  have hfrom : ∀ l₂ l₁, v.sources = l₁ ++ l₂ →
      describedFrom digest db₁ (describedBy digest db l₁) l₂ =
        describedFrom digest db (describedBy digest db l₁) l₂ := by
    intro l₂
    induction l₂ with
    | nil => exact fun _ _ => rfl
    | cons s l₂ ih =>
      intro l₁ hl
      have hnext : describedNext digest db₁ (boundOf (describedBy digest db l₁)) s =
          describedNext digest db (boundOf (describedBy digest db l₁)) s := by
        refine describedNext_congr h.ownerEntityId fun b hsource hreads hs hid hnot hfresh => ?_
        rw [map_snd_boundOf] at hfresh
        cases hfind : db.entities.find b.entityId with
        | some e => exact h.kept _ (by rw [hfind]; rfl)
        | none =>
          -- a record that is known now was made by a file: not an earlier one, nor this one
          have hearlier : ∀ t ∈ l₁, ¬t.Makes digest b.entityId := fun t ht hmakes =>
            hfresh ((mem_described_of_unknown hfind hnot).2 (.inr ⟨t, ht, hmakes⟩))
          refine (h.known _ fun hmade => ?_).trans (by rw [hfind])
          obtain ⟨t, ht, hmakes⟩ :=
            ((mem_described_of_unknown hfind hnot).1 hmade).resolve_left not_mem_nil
          rw [hl] at ht
          rcases mem_append.1 ht with ht | ht
          · exact hearlier t ht hmakes
          · rcases mem_cons.1 ht with rfl | ht
            · obtain ⟨_, _, d, hd, hnone⟩ := hmakes
              cases hreads.symm.trans hd
              rw [hid] at hnone
              cases hnone
            · exact hbinds ⟨l₁, s, l₂, b.desired, b.entityId, hl, hs, hreads, hid, hnot, hfind, hearlier,
                t, ht, hmakes⟩
      have hstep := ih (l₁ ++ [s]) (by simp [hl])
      have hsnoc : describedBy digest db (l₁ ++ [s]) = describedBy digest db l₁ ++
          (describedNext digest db (boundOf (describedBy digest db l₁)) s).toList := by
        simp [describedBy, describedFrom]
      rw [hsnoc] at hstep
      rw [describedFrom_cons, describedFrom_cons, hnext, hstep]
  exact hfrom v.sources [] rfl

theorem Applied.inPlace {s : Source} {d : Desired} {entityId : String}
    (h : Applied db db₁ s d entityId) (howner : db₁.ownerEntityId = db.ownerEntityId)
    (hkept : s.owner = false → s.type = "Commitment" → ∀ owner, db.ownerEntityId = some owner →
      ¬LosesPromise (promises db owner entityId) (sourceOf s.relativePath)) :
    DocumentInPlace db₁ s d entityId := by
  refine ⟨fun hs => ⟨h.row hs, fun owner ho htype => ?_, h.retired hs⟩, h.facts⟩
  rw [howner] at ho
  exact (h.promise hs owner ho htype).2 (hkept hs htype owner ho)

theorem factsInPlace_nil {rows : List Fact} {entityId path : String}
    (h : ∀ f ∈ rows, f.entityId = entityId → isLikeVault f.source = true → isActive f = false) :
    FactsInPlace rows [] entityId (sourceOf path) := by
  refine ⟨nofun, fun f hf => ?_⟩
  rw [Bool.eq_false_iff]
  intro hstale
  obtain ⟨hentity, hsource, hactive⟩ := isOwnFact_iff.1 (isStale_eq_true.1 hstale).1
  rw [h f hf hentity (hsource ▸ isLikeVault_sourceOf path)] at hactive
  cases hactive

/-- After a pass that loses nothing, every document is in place. -/
theorem Swept.inPlace (h : Swept digest db db₁ v.sources) (howner : ¬LosesOwner digest db v.sources)
    (hcommitment : ¬LosesCommitment digest db v.sources) :
    ∀ b ∈ describedBy digest db v.sources, DocumentInPlace db₁ b.source b.desired b.entityId := by
  intro b hb
  cases hs : b.source.owner with
  | false =>
    refine (h.applied b hb hs).inPlace h.ownerEntityId fun _ htype owner ho hloses => ?_
    exact hcommitment ⟨b, hb, hs, htype, owner, ho, hloses⟩
  | true =>
    have hrecord : b.source.owner = false → RecordInPlace db₁ b.source b.desired b.entityId := by
      intro hfalse
      rw [hs] at hfalse
      cases hfalse
    by_cases hlost : ∃ e, db.entities.find b.entityId = some e ∧
        isMissing (v.sources.map Source.relativePath) (boundOf (describedBy digest db v.sources)) e = true
    · obtain ⟨e, he, hmissing⟩ := hlost
      obtain ⟨hmem, hreads, _, hrecordOf⟩ := (of_mem_describedFrom hb).resolve_left not_mem_nil
      have hnil : b.desired.facts = [] := by
        by_contra hne
        exact howner ⟨b.source, hmem, hs, b.desired, b.entityId, e, hreads, hne, hrecordOf.owner hs, he,
          hmissing⟩
      refine ⟨hrecord, ?_⟩
      rw [hnil]
      exact factsInPlace_nil (h.ownerLost b hb hs e he hmissing)
    · refine ⟨hrecord, (h.ownerKept b hb hs fun e he => ?_).facts⟩
      rw [← Bool.not_eq_true]
      exact fun hmissing => hlost ⟨e, he, hmissing⟩

theorem vaultPath_unique {s t : Source} {d d' : Desired} {entityId : String}
    (hs : RowInPlace db d entityId s.type) (ht : RowInPlace db d' entityId t.type)
    (hd : d.WellFormed s.relativePath) (hd' : d'.WellFormed t.relativePath) :
    s.relativePath = t.relativePath := by
  obtain ⟨e, he, _, hpath⟩ := hs.vaultPath hd
  obtain ⟨e', he', _, hpath'⟩ := ht.vaultPath hd'
  obtain rfl := Option.some.inj (he.symm.trans he')
  simpa using hpath.symm.trans hpath'

theorem describedFrom_append (ds : List Described) (l₁ l₂ : List Source) :
    describedFrom digest db ds (l₁ ++ l₂) =
      describedFrom digest db (describedFrom digest db ds l₁) l₂ := foldl_append

theorem exists_maker {l₁ l₂ : List Source} (hnot : db.ownerEntityId ≠ some id)
    (hunknown : db.entities.find id = none) (hnone : ∀ t ∈ l₁, ¬t.Makes digest id)
    (hmakes : ∃ t ∈ l₂, t.Makes digest id) :
    ∃ c ∈ describedBy digest db (l₁ ++ l₂), c.entityId = id ∧ c.source ∈ l₂ ∧
      c.source.owner = false := by
  have hmem : id ∈ (describedBy digest db (l₁ ++ l₂)).map entityId := by
    obtain ⟨t, ht, hmakes⟩ := hmakes
    exact (mem_described_of_unknown hunknown hnot).2
      (.inr ⟨t, mem_append_right _ ht, hmakes⟩)
  obtain ⟨c, hc, rfl⟩ := mem_map.1 hmem
  have hc' := hc
  rw [describedBy, describedFrom_append] at hc'
  rcases of_mem_describedFrom hc' with hearlier | ⟨hsource, _, _, hrecord⟩
  · obtain ⟨t, ht, hmakes⟩ := ((mem_described_of_unknown hunknown hnot).1
      (mem_map_of_mem hearlier)).resolve_left not_mem_nil
    exact absurd hmakes (hnone t ht)
  · refine ⟨c, hc, rfl, hsource, ?_⟩
    rw [← Bool.not_eq_true]
    exact fun h => hnot (hrecord.owner h)

theorem exists_namer (digest : String → String) (l₁ : List Source) {s : Source} {d : Desired}
    (hs : s.owner = false)
    (hreads : s.reads = .ok d) (hid : d.boundId = some id) (hnot : db₁.ownerEntityId ≠ some id)
    (hknown : (db₁.entities.find id).isSome = true) :
    ∃ b ∈ describedBy digest db₁ (l₁ ++ [s]), b.entityId = id := by
  have hsnoc : describedBy digest db₁ (l₁ ++ [s]) = describedBy digest db₁ l₁ ++
      (describedNext digest db₁ (boundOf (describedBy digest db₁ l₁)) s).toList := by
    simp [describedBy, describedFrom]
  rw [hsnoc]
  by_cases hmem : id ∈ (describedBy digest db₁ l₁).map entityId
  · obtain ⟨b, hb, rfl⟩ := mem_map.1 hmem
    exact ⟨b, mem_append_left _ hb, rfl⟩
  · refine ⟨⟨s, d, id⟩, mem_append_right _ (Option.mem_toList.2
      (describedNext_eq_some.2 ⟨rfl, hreads, ?_⟩)), rfl⟩
    refine ⟨fun h => ?_, fun _ => ?_, fun _ _ h => ?_, fun _ _ => hknown, fun _ => ?_⟩
    · rw [hs] at h
      cases h
    · rw [hid, Option.getD_some]
    · exact hnot (h.symm.trans hid)
    · rwa [map_snd_boundOf]

theorem Swept.not_bindsLater (h : Swept digest db db₁ v.sources)
    (hplace : ∀ b ∈ describedBy digest db₁ v.sources,
      DocumentInPlace db₁ b.source b.desired b.entityId) : ¬BindsLater digest db v.sources := by
  rintro ⟨l₁, s, l₂, d, id, hl, hs, hreads, hid, hnot, hunknown, hnone, hmakes⟩
  have hl' : v.sources = (l₁ ++ [s]) ++ l₂ := by simp [hl]
  have hnone' : ∀ t ∈ l₁ ++ [s], ¬t.Makes digest id := by
    intro t ht hmakes
    rcases mem_append.1 ht with ht | ht
    · exact hnone t ht hmakes
    · obtain ⟨_, _, d', hd', hnil⟩ := mem_singleton.1 ht ▸ hmakes
      cases hreads.symm.trans hd'
      rw [hid] at hnil
      cases hnil
  obtain ⟨c, hc, rfl, hcsource, hcowner⟩ := exists_maker hnot hunknown hnone' hmakes
  rw [← hl'] at hc
  obtain ⟨e, he, hrow⟩ := (h.applied c hc hcowner).row hcowner
  obtain ⟨b, hb, hbid⟩ := exists_namer digest l₁ hs hreads hid
    (h.ownerEntityId ▸ hnot) (by rw [he]; rfl)
  have hbsource : b.source ∈ l₁ ++ [s] := source_mem_of_described hb
  have hball : b ∈ describedBy digest db₁ v.sources := by
    rw [hl', describedBy, describedFrom_append]
    exact mem_describedFrom_of_mem hb l₂
  have hbowner : b.source.owner = false := by
    obtain ⟨_, _, _, hrecord⟩ := (of_mem_describedFrom hb).resolve_left not_mem_nil
    rw [← Bool.not_eq_true]
    intro howner
    have ho := hrecord.owner howner
    rw [h.ownerEntityId, hbid] at ho
    exact hnot ho
  -- the row has one path, but the files have two
  have hbrow := ((hplace b hball).record hbowner).row
  rw [hbid] at hbrow
  obtain ⟨_, hbreads, _⟩ := (of_mem_describedFrom hball).resolve_left not_mem_nil
  have hpath := vaultPath_unique hbrow ⟨e, he, hrow⟩ (wellFormed_of_reads hbreads)
    (h.wellFormed c hc)
  have hnodup := v.nodup_paths
  rw [hl', map_append] at hnodup
  exact (nodup_append.1 hnodup).2.2 _ (mem_map_of_mem hbsource) _
    (mem_map_of_mem hcsource) hpath

theorem described_owner (digest : String → String) {s : Source} {d : Desired} {owner : String}
    (hs : s ∈ v.sources)
    (howner : s.owner = true) (hreads : s.reads = .ok d) (ho : db.ownerEntityId = some owner) :
    ⟨s, d, owner⟩ ∈ describedBy digest db v.sources := by
  have hfirst := v.owner_first
  cases hl : v.sources with
  | nil =>
    rw [hl] at hs
    cases hs
  | cons t l =>
    rw [hl] at hs hfirst
    have hst : s = t := (mem_cons.1 hs).resolve_right fun h => by
      rw [hfirst s h] at howner
      cases howner
    subst hst
    refine mem_describedFrom_of_mem (mem_append_right _ (Option.mem_toList.2
      (describedNext_eq_some.2 ⟨rfl, hreads, ?_⟩))) l
    exact ⟨fun _ => ho, by simp [howner], by simp [howner], by simp [howner], by simp [howner]⟩

theorem Swept.not_losesOwner (h : Swept digest db db₁ v.sources)
    (hplace : ∀ b ∈ describedBy digest db₁ v.sources,
      DocumentInPlace db₁ b.source b.desired b.entityId) : ¬LosesOwner digest db v.sources := by
  rintro ⟨s, hs, howner, d, owner, e, hreads, hfacts, ho, he, hmissing⟩
  have hfirst := described_owner digest hs howner hreads ho
  have hagain := described_owner digest hs howner hreads (h.ownerEntityId.trans ho)
  obtain ⟨x, hx⟩ := exists_mem_of_ne_nil _ hfacts
  have hstated := (hplace _ hagain).facts.there x hx
  unfold isStated at hstated
  split at hstated
  · rename_i f hown
    have hf : f ∈ ownFacts db₁.facts.rows owner (sourceOf s.relativePath) x.1 := by
      rw [hown]
      exact mem_singleton_self f
    obtain ⟨hmem, hfown, _⟩ := mem_ownFacts.1 hf
    obtain ⟨hentity, hsource, hactive⟩ := isOwnFact_iff.1 hfown
    rw [h.ownerLost _ hfirst howner e he hmissing f hmem hentity
      (hsource ▸ isLikeVault_sourceOf _)] at hactive
    cases hactive
  · cases hstated

theorem Swept.not_losesCommitment (h : Swept digest db db₁ v.sources)
    (hdescribed : describedBy digest db₁ v.sources = describedBy digest db v.sources)
    (hplace : ∀ b ∈ describedBy digest db₁ v.sources,
      DocumentInPlace db₁ b.source b.desired b.entityId) : ¬LosesCommitment digest db v.sources := by
  rintro ⟨b, hb, hs, htype, owner, ho, hloses⟩
  have hkept := ((hplace b (hdescribed ▸ hb)).record hs).promise owner (h.ownerEntityId.trans ho) htype
  exact ((h.applied b hb hs).promise hs owner ho htype).1 hkept hloses

/-- A second pass writes nothing just where no file names a record that only a later file makes, the
file of the owner keeps its facts, and no commitment is left to one of another file. -/
theorem indexVault_idempotent {report : Report}
    (h : indexVault digest now v db = (db₁, some report)) (later : ℕ) :
    (∃ again, indexVault digest later v db₁ = (db₁, some again) ∧ again.changed = 0 ∧
        again.removed = 0) ↔
      ¬BindsLater digest db v.sources ∧ ¬LosesOwner digest db v.sources ∧
        ¬LosesCommitment digest db v.sources := by
  have hswept := swept_indexVault h
  constructor
  · rintro ⟨again, hagain, hchanged, _⟩
    have hplace : ∀ b ∈ describedBy digest db₁ v.sources,
        DocumentInPlace db₁ b.source b.desired b.entityId := by
      unfold indexVault at hagain
      cases hfold : v.sources.foldlM (indexSource digest later) ⟨db₁, [], {}⟩ with
      | error db' =>
        rw [hfold] at hagain
        cases hagain
      | ok p =>
        rw [hfold] at hagain
        obtain rfl := Option.some.inj (congrArg Prod.snd hagain)
        exact (inPlace_foldlM rfl (fun b hb => absurd hb not_mem_nil) hfold hchanged).2
    have hbinds := hswept.not_bindsLater hplace
    exact ⟨hbinds, hswept.not_losesOwner hplace,
      hswept.not_losesCommitment (hswept.described hbinds) hplace⟩
  · rintro ⟨hbinds, howner, hcommitment⟩
    have hdescribed := hswept.described hbinds
    have hcrash : ∀ s ∈ v.sources, ¬s.Crashes db₁ := by
      intro s hs
      have hs' := hswept.noCrash s hs
      unfold Source.Crashes at hs' ⊢
      rwa [hswept.ownerEntityId]
    have hplace : ∀ b ∈ describedBy digest db₁ v.sources,
        DocumentInPlace db₁ b.source b.desired b.entityId := by
      rw [hdescribed]
      exact hswept.inPlace howner hcommitment
    have hquiet : ∃ p', v.sources.foldlM (indexSource digest later) ⟨db₁, [], {}⟩ = .ok p' ∧
        p'.db = db₁ ∧ p'.bound = boundOf (describedBy digest db₁ v.sources) ∧
        p'.report.changed = 0 := quiet_foldlM rfl hcrash hplace
    obtain ⟨p, hfold, hdb, hbound, hchanged⟩ := hquiet
    unfold indexVault
    rw [hfold]
    dsimp only
    rw [hdb, hbound, hdescribed, hswept.settled]
    exact ⟨_, rfl, hchanged, rfl⟩

/-- The names that three files get. -/
def sampleDigest (relativePath : String) : String :=
  if relativePath = "people/a.md" then "eb14b1b274e4fec85f73"
  else if relativePath = "people/b.md" then "6a9157061545eb045c26"
  else if relativePath = "commitments/reply.md" then "e85f48835d25fad254d1"
  else ""

/-- A file that names the record which the next one makes. -/
def laterVault : Files where
  me := none
  files
    | .people => [
        ("a.md", .ok ⟨[("id", .str "ent_vault_6a9157061545eb045c26"), ("city", .str "Rome")], ""⟩),
        ("b.md", .ok ⟨[("city", .str "Paris")], ""⟩)]
    | _ => []
  nodup c := by cases c <;> decide

/-- The first pass makes the record from the second file, and the second one from the first. -/
theorem laterVault_changes : ∃ db₁ report,
    indexVault sampleDigest 1 laterVault sampleMemory = (db₁, some report) ∧ report.changed = 1 ∧
      ¬∃ again, indexVault sampleDigest 2 laterVault db₁ = (db₁, some again) ∧ again.changed = 0 ∧
        again.removed = 0 := by
  have hfirst : (indexVault sampleDigest 1 laterVault sampleMemory).2.map Report.changed = some 1 := by
    decide +kernel
  have hsecond : (indexVault sampleDigest 2 laterVault
      (indexVault sampleDigest 1 laterVault sampleMemory).1).2.map Report.changed = some 1 := by
    decide +kernel
  obtain ⟨report, hreport, hchanged⟩ := Option.map_eq_some_iff.1 hfirst
  refine ⟨_, report, Prod.ext rfl hreport, hchanged, ?_⟩
  rintro ⟨again, hagain, hzero, _⟩
  rw [hagain, Option.map_some, hzero] at hsecond
  cases hsecond

/-- A memory that knows its owner and another person. -/
def homeMemory : MemoryDb where
  entities := ⟨[⟨"ent_me", "Person", some "Me", [], some "active", "personal", none, 0⟩,
    ⟨"ent_sam", "Person", some "Sam", [], some "active", "personal", none, 0⟩], by decide⟩
  facts := .empty
  relationships := .empty
  ownerEntityId := some "ent_me"

/-- A vault that says where the owner lives, where that person does, and what is promised. -/
def homeVault : Files where
  me := some (.ok ⟨[("city", .str "Paris")], ""⟩)
  files
    | .people => [("sam.md", .ok ⟨[("id", .str "ent_sam"), ("city", .str "Rome")], ""⟩)]
    | .commitments => [("reply.md", .ok ⟨[("due", .str "2026-01-02")], "# Reply to Sam"⟩)]
    | .projects => []
  nodup c := by cases c <;> decide

/-- What the three files say is written once. -/
theorem homeVault_settles : ∃ db₁ report,
    indexVault sampleDigest 1 homeVault homeMemory = (db₁, some report) ∧ report.changed = 3 ∧
      ∃ again, indexVault sampleDigest 2 homeVault db₁ = (db₁, some again) ∧ again.changed = 0 ∧
        again.removed = 0 := by
  have hfirst : (indexVault sampleDigest 1 homeVault homeMemory).2.map Report.changed = some 3 := by
    decide +kernel
  obtain ⟨report, hreport, hchanged⟩ := Option.map_eq_some_iff.1 hfirst
  refine ⟨_, report, Prod.ext rfl hreport, hchanged, ?_⟩
  refine (indexVault_idempotent (Prod.ext rfl hreport) 2).2 ⟨?_, ?_, ?_⟩
  · -- the one record that a file names is known
    rintro ⟨l₁, s, l₂, d, id, hl, _, hreads, hbound, _, hunknown, _⟩
    have hnamed : ∀ s ∈ homeVault.sources, ∀ id ∈ s.reads.toOption.bind Desired.boundId,
        (homeMemory.entities.find id).isSome = true := by
      decide +kernel
    have hknown := hnamed s (by simp [hl]) id (by rw [hreads]; exact hbound)
    rw [hunknown] at hknown
    cases hknown
  · -- the row of the owner is not that of a file
    rintro ⟨s, hs, _, d, owner, e, _, _, ho, he, hmissing⟩
    obtain rfl : "ent_me" = owner := Option.some.inj ho
    obtain rfl := Option.some.inj ((by decide : homeMemory.entities.find "ent_me" = some
      ⟨"ent_me", "Person", some "Me", [], some "active", "personal", none, 0⟩).symm.trans he)
    simp [isMissing, vaultPath, Json.lookup] at hmissing
  · -- nobody else states the commitment
    rintro ⟨b, _, _, _, owner, _, hloses⟩
    obtain ⟨r, hr, _⟩ := hloses.standsIn
    simp [promises, homeMemory, Numbered.empty] at hr

end U2os.Server.Vault
