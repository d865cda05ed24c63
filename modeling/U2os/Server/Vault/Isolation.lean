import U2os.Server.Vault.FactAuthority
import U2os.Server.Vault.Removal

/-!
# One file does not block the others

A file that is refused is reported, and the others are indexed as if it had been skipped.  A file
ends the whole pass instead where it fails otherwise: it cannot be read, a value of it cannot be
written as JSON or as a text, or it states a fact under a name that every object has, for which
`levelFor` finds a function and no level.

`Files` holds files that were read or refused, and values that can be written.  Here files are as
they may be.
-/

namespace U2os.Server.Vault

open Memory JsText Fallible List

/-- A document as it is read. -/
structure Loaded where
  /-- An alias within the value that it stands for reads as `null`. -/
  document : Document
  /-- The keys of the frontmatter whose value `JSON.stringify` throws on: it contains itself, or its
  text is longer than a string may be. -/
  unwritable : List String

/-- `readVaultFile`.  It crashes where the file is there and cannot be opened. -/
abbrev Loading := Except Refusal Loaded

/-- A file to index. -/
structure VaultFile where
  relativePath : String
  type : String
  owner : Bool
  loading : Loading

structure VaultFiles where
  me : Option Loading
  files : Collection → List (String × Loading)
  nodup : ∀ c, ((files c).map Prod.fst).Nodup

def Collection.file (c : Collection) (f : String × Loading) : VaultFile :=
  ⟨c.dir ++ "/" ++ f.1, c.type, false, f.2⟩

/-- The files in the order in which they are indexed. -/
def VaultFiles.all (v : VaultFiles) : List VaultFile :=
  (v.me.toList.map fun loading => ⟨meFile, "Person", true, loading⟩) ++
    ((v.files .people).map (Collection.file .people) ++
      ((v.files .projects).map (Collection.file .projects) ++
        (v.files .commitments).map (Collection.file .commitments)))

/-- One entry of the frontmatter, of any value. -/
def stateLoaded (unwritable : List String) (type : String) (level : String → Option String)
    (acc : Stated) (entry : String × Yaml) : Except Refusal Stated :=
  let key := trim entry.1
  if (key = "" ∨ key ∈ reservedKeys ∨ isNull entry.2 = true) ∨ maxKeyLength < length key ∨
      entry.1 ∉ unwritable then
    stateEntry type level acc entry
  else .error .crash

/-- `describe`. -/
def describeLoaded (relativePath type : String) (l : Loaded) : Except Refusal Desired := do
  let d := l.document
  let classification ← readClassification (Assoc.get? d.frontmatter "classification")
  let sensitiveKeys ← readSensitiveKeys (Assoc.get? d.frontmatter "sensitive_keys")
  let levels ← readLevels (Assoc.get? d.frontmatter "classifications")
  let boundId ← readBoundId (Assoc.get? d.frontmatter "id")
  let level := levelFor sensitiveKeys levels classification
  let stated ← d.frontmatter.foldlM (stateLoaded l.unwritable type level)
    ([("vaultPath", .str relativePath)], [])
  let facts ← stateBody relativePath level d stated.2
  let attributes ← commitmentAttributes type (readName relativePath d) stated.1
  return {
    name := readName relativePath d
    classification := classification
    attributes := encodeEntries attributes
    facts := facts
    boundId := boundId }

/-- What a file says. -/
def VaultFile.reads (f : VaultFile) : Except Refusal Desired :=
  f.loading >>= describeLoaded f.relativePath f.type

/-- A file of `Files` with the same path. -/
def VaultFile.at (f : VaultFile) (reading : Reading) : Source :=
  ⟨f.relativePath, f.type, f.owner, reading⟩

/-- One file of a pass. -/
def indexFile (digest : String → String) (now : ℕ) (p : Pass) (f : VaultFile) :
    Except MemoryDb Pass :=
  let s := f.at (.error "")
  let p := { p with report := { p.report with files := p.report.files + 1 } }
  if f.owner = true ∧ p.db.ownerEntityId = none then
    .ok { p with report := { p.report with
      notes := p.report.notes ++ [meFile ++ " will be indexed once the owner account exists"] } }
  else
    match f.reads >>= fun desired => sourceEntity digest p.db p.bound
        (p.db.ownerEntityId.getD "") s desired >>= fun entityId => pure (desired, entityId) with
    | .error refusal => p.refuse s refusal
    | .ok (desired, entityId) =>
      match applyDocument p.db s desired entityId now with
      | none => .error p.db
      | some (db, changed) => .ok {
          db := db
          bound := p.bound ++ [(f.relativePath, entityId)]
          report := if changed then { p.report with changed := p.report.changed + 1 }
            else { p.report with unchanged := p.report.unchanged + 1 } }

/-- `indexVault`, over some files of a vault that holds those at the paths. -/
def indexFiles (digest : String → String) (now : ℕ) (present : List String)
    (files : List VaultFile) (db : MemoryDb) : MemoryDb × Option Report :=
  match files.foldlM (indexFile digest now) ⟨db, [], {}⟩ with
  | .error db => (db, none)
  | .ok p =>
    let removed := removeMissing p.db present p.bound now
    (removed.1, some { p.report with removed := removed.2 })

variable {digest : String → String} {db before : MemoryDb} {s : Source} {d : Desired} {now : ℕ}
  {entityId path type : String} {p q p' q' : Pass} {f : VaultFile}

/-- A document whose `id` has no text. -/
def crashing : Document := ⟨[("id", .map [("toString", .null)])], ""⟩

/-- A file of `Files` that reads the same. -/
def VaultFile.source (f : VaultFile) : Source :=
  f.at (match f.reads, f.loading with
    | .error .crash, _ => .ok crashing
    | .error (.invalid message), _ => .error message
    | .ok _, .ok l => .ok l.document
    | .ok _, .error _ => .error "")

theorem foldlM_stateLoaded {unwritable : List String} {level : String → Option String}
    {entries : List (String × Yaml)} {acc acc' : Stated}
    (h : entries.foldlM (stateLoaded unwritable type level) acc = .ok acc') :
    entries.foldlM (stateEntry type level) acc = .ok acc' := by
  induction entries generalizing acc with
  | nil => exact h
  | cons entry entries ih =>
    obtain ⟨next, hnext, h⟩ := bind_eq_ok.1 h
    unfold stateLoaded at hnext
    dsimp only at hnext
    split_ifs at hnext
    rw [foldlM_cons, hnext]
    exact ih h

theorem describe_of_loaded {relativePath : String} {l : Loaded}
    (h : describeLoaded relativePath type l = .ok d) : describe relativePath type l.document = .ok d := by
  obtain ⟨classification, hclass, h⟩ := bind_eq_ok.1 h
  obtain ⟨sensitiveKeys, hsens, h⟩ := bind_eq_ok.1 h
  obtain ⟨levels, hlevels, h⟩ := bind_eq_ok.1 h
  obtain ⟨boundId, hid, h⟩ := bind_eq_ok.1 h
  obtain ⟨stated, hstated, h⟩ := bind_eq_ok.1 h
  refine bind_eq_ok.2 ⟨_, hclass, bind_eq_ok.2 ⟨_, hsens, bind_eq_ok.2 ⟨_, hlevels, ?_⟩⟩⟩
  exact bind_eq_ok.2 ⟨_, hid, bind_eq_ok.2 ⟨_, foldlM_stateLoaded hstated, h⟩⟩

theorem reads_source (f : VaultFile) : f.source.reads = f.reads := by
  unfold VaultFile.source
  cases hreads : f.reads with
  | error refusal => cases refusal <;> rfl
  | ok d =>
    obtain ⟨l, hl, h⟩ := bind_eq_ok.1 hreads
    rw [hl]
    exact describe_of_loaded h

theorem indexFile_eq (digest : String → String) (now : ℕ) (p : Pass) (f : VaultFile) :
    indexFile digest now p f = indexSource digest now p f.source := by
  unfold indexFile indexSource
  dsimp only
  rw [readSource_eq, reads_source]
  rfl

theorem foldlM_indexFile (files : List VaultFile) (p : Pass) :
    files.foldlM (indexFile digest now) p =
      (files.map VaultFile.source).foldlM (indexSource digest now) p := by
  rw [foldlM_map]
  congr 1
  funext p f
  exact indexFile_eq digest now p f

/-! ### Files that end a pass -/

variable {existing : List Fact}

theorem writeFact_eq_none {acc : MemoryDb × Bool} {x : String × StatedFact}
    (hknown : (acc.1.entities.find entityId).isSome = true) :
    writeFact entityId path now existing acc x = none ↔ x.2.classification = none := by
  unfold writeFact
  dsimp only
  split_ifs with hstated
  · refine iff_of_false (by simp) fun hnone => ?_
    -- what is there has a level
    unfold isStated at hstated
    split at hstated
    · simp [hnone] at hstated
    · cases hstated
  · cases hclass : x.2.classification with
    | none => exact iff_of_true rfl rfl
    | some classification =>
      refine iff_of_false ?_ (by simp)
      simp [recordFact, hknown]

theorem find_writeFact {acc acc' : MemoryDb × Bool} {x : String × StatedFact}
    (h : writeFact entityId path now existing acc x = some acc') :
    acc'.1.entities = acc.1.entities := by
  rcases writeFact_eq_some h with ⟨_, rfl⟩ | ⟨_, _, _, new, _, _, _, _, _, _, hdb⟩
  · rfl
  · rw [hdb]

theorem foldlM_writeFact_eq_none {stated : List (String × StatedFact)} {acc : MemoryDb × Bool}
    (hknown : (acc.1.entities.find entityId).isSome = true) :
    stated.foldlM (writeFact entityId path now existing) acc = none ↔
      ∃ x ∈ stated, x.2.classification = none := by
  induction stated generalizing acc with
  | nil => simp
  | cons x stated ih =>
    rw [foldlM_cons, exists_mem_cons_iff]
    cases hx : writeFact entityId path now existing acc x with
    | none => exact iff_of_true rfl (.inl ((writeFact_eq_none hknown).1 hx))
    | some acc' =>
      have hsome : x.2.classification ≠ none := fun hnone => by
        rw [(writeFact_eq_none hknown).2 hnone] at hx
        cases hx
      rw [or_iff_right hsome, ← ih (find_writeFact hx ▸ hknown)]
      rfl

theorem writeFacts_eq_none {changed : Bool}
    (hknown : (db.entities.find entityId).isSome = true) :
    writeFacts db changed d entityId path now = none ↔ ∃ x ∈ d.facts, x.2.classification = none := by
  have hfold : d.facts.foldlM (writeFact entityId path now db.facts.rows) (db, changed) = none ↔
      ∃ x ∈ d.facts, x.2.classification = none := foldlM_writeFact_eq_none hknown
  rw [← hfold]
  unfold writeFacts
  dsimp only
  cases d.facts.foldlM (writeFact entityId path now db.facts.rows) (db, changed) with
  | none => simp
  | some acc => simp

theorem ensurePromised_isSome {ownerEntityId classification : String}
    (howner : (db.entities.find ownerEntityId).isSome = true) :
    ∃ r, ensurePromised db ownerEntityId entityId path classification now = some r := by
  unfold ensurePromised
  dsimp only
  split
  · split_ifs <;> exact ⟨_, rfl⟩
  · split_ifs with hother hnone
    · exact ⟨_, rfl⟩
    · rw [Option.isNone_eq_false_iff.2 howner] at hnone
      cases hnone
    · exact ⟨_, rfl⟩

theorem writePromise_isSome (howner : ∀ o, db.ownerEntityId = some o →
      (db.entities.find o).isSome = true) :
    ∃ r, writePromise db s d entityId now = some r := by
  unfold writePromise
  split
  · next o ho =>
    split_ifs
    · exact ensurePromised_isSome (howner o ho)
    · exact ⟨_, rfl⟩
  · exact ⟨_, rfl⟩

theorem writeRecord_isSome (howner : ∀ o, db.ownerEntityId = some o →
      (db.entities.find o).isSome = true) :
    ∃ r, writeRecord db s d entityId now = some r ∧
      (r.1.entities.find entityId).isSome = true := by
  obtain ⟨e, _, hfind⟩ := find_writeEntity db d entityId s.type now
  have hown : (writeEntity db d entityId s.type now).1.ownerEntityId = db.ownerEntityId := by
    rw [writeEntity_frame]
  have hstill : ∀ o, (writeEntity db d entityId s.type now).1.ownerEntityId = some o →
      ((writeEntity db d entityId s.type now).1.entities.find o).isSome = true := by
    intro o ho
    rw [hfind]
    split_ifs
    · rfl
    · exact howner o (hown ▸ ho)
  obtain ⟨promised, hpromised⟩ : ∃ r, writePromise (writeEntity db d entityId s.type now).1 s d
      entityId now = some r := writePromise_isSome hstill
  refine ⟨_, Option.map_eq_some_iff.2 ⟨promised, hpromised, rfl⟩, ?_⟩
  have hentities := congrArg (fun db => db.entities.find entityId) (writePromise_frame hpromised)
  have hthere : (promised.1.entities.find entityId).isSome = true := by
    rw [hentities, hfind, if_pos rfl]
    rfl
  exact hthere

theorem applyDocument_eq_none (howner : ∀ o, db.ownerEntityId = some o →
      (db.entities.find o).isSome = true)
    (hentity : s.owner = true → db.ownerEntityId = some entityId) :
    applyDocument db s d entityId now = none ↔ ∃ x ∈ d.facts, x.2.classification = none := by
  unfold applyDocument
  by_cases hs : s.owner = true
  · rw [if_pos hs, Option.bind_some]
    exact writeFacts_eq_none (howner _ (hentity hs))
  · rw [if_neg hs]
    obtain ⟨r, hr, hknown⟩ := writeRecord_isSome howner
    rw [hr, Option.bind_some]
    exact writeFacts_eq_none hknown

/-- The owner stays known during a pass. -/
theorem Indexed.owner {ds : List Described} (h : Indexed before db ds)
    (howner : ∀ o, before.ownerEntityId = some o → (before.entities.find o).isSome = true) :
    ∀ o, db.ownerEntityId = some o → (db.entities.find o).isSome = true := by
  intro o ho
  have hbefore := howner o (h.ownerEntityId ▸ ho)
  by_cases hid : o ∈ ds.map Described.entityId
  · obtain ⟨b, hb, rfl⟩ := mem_map.1 hid
    cases hs : b.source.owner with
    | true => rwa [(h.applied b hb).entity hs]
    | false =>
      obtain ⟨e, he, _⟩ := (h.applied b hb).row hs
      rw [he]
      rfl
  · rwa [h.known hid]

/-- The file ends a pass that has described other files. -/
def Source.Blocks (digest : String → String) (db : MemoryDb) (ds : List Described) (s : Source) :
    Prop :=
  s.Crashes db ∨ ∃ b, describedNext digest db (boundOf ds) s = some b ∧
    ∃ x ∈ b.desired.facts, x.2.classification = none

/-- The indexing goes on past a file just where the file does not block. -/
theorem indexSource_isOk {ds : List Described} (h : Indexed before p.db ds)
    (hbound : p.bound = boundOf ds)
    (howner : ∀ o, before.ownerEntityId = some o → (before.entities.find o).isSome = true) :
    (∃ p', indexSource digest now p s = .ok p') ↔ ¬s.Blocks digest before ds := by
  have hnext : describedNext digest before (boundOf ds) s =
      describedNext digest p.db p.bound s := by
    rw [hbound]
    exact (h.describedNext s).symm
  constructor
  · rintro ⟨p', hp'⟩ hblocks
    rcases hblocks with hcrash | ⟨b, hb, hlevel⟩
    · refine not_crashes_of_indexSource hp' ?_
      unfold Source.Crashes at hcrash ⊢
      rwa [h.ownerEntityId]
    · rw [hnext] at hb
      rcases indexSource_eq_ok hp' with ⟨hnone, _⟩ | ⟨b', changed, hsome, ha, _⟩
      · rw [hnone] at hb
        cases hb
      · obtain rfl := Option.some.inj (hb.symm.trans hsome)
        obtain ⟨rfl, _, hrecord⟩ := describedNext_eq_some.1 hb
        rw [(applyDocument_eq_none (h.owner howner) hrecord.owner).2 hlevel] at ha
        cases ha
  · intro hblocks
    obtain ⟨hcrash, hlevel⟩ := not_or.1 hblocks
    rw [hnext] at hlevel
    unfold Source.Crashes at hcrash
    rw [← h.ownerEntityId] at hcrash
    unfold describedNext at hlevel
    unfold indexSource
    dsimp only
    split_ifs at hlevel ⊢ with hnone
    · exact ⟨_, rfl⟩
    · cases hread : readSource digest p.db p.bound s with
      | error refusal =>
        cases refusal with
        | invalid message => exact ⟨_, rfl⟩
        | crash => exact absurd ⟨hnone, reads_of_readSource_crash hread⟩ hcrash
      | ok described =>
        obtain ⟨d, entityId⟩ := described
        rw [hread] at hlevel
        have hdescribed : describedNext digest p.db p.bound s = some ⟨s, d, entityId⟩ := by
          unfold describedNext
          rw [if_neg hnone, hread]
        have hrecord := (describedNext_eq_some.1 hdescribed).2.2
        dsimp only
        cases ha : applyDocument p.db s d entityId now with
        | none =>
          exact absurd ⟨_, rfl, (applyDocument_eq_none (h.owner howner) hrecord.owner).1 ha⟩ hlevel
        | some r => exact ⟨_, rfl⟩

variable {l : List Source}

/-- A pass comes to its end where no file ends it: by induction on the files, the last one first. -/
theorem foldlM_isOk (hrest : ∀ s ∈ l.tail, s.owner = false)
    (howner : ∀ o, before.ownerEntityId = some o → (before.entities.find o).isSome = true) :
    (∃ p, l.foldlM (indexSource digest now) ⟨before, [], {}⟩ = .ok p) ↔
      ∀ l₁ s l₂, l = l₁ ++ s :: l₂ → ¬s.Blocks digest before (describedBy digest before l₁) := by
  induction l using reverseRecOn with
  | nil => exact iff_of_true ⟨_, rfl⟩ (by simp)
  | append_singleton l t ih =>
    have hrest' : ∀ s ∈ l.tail, s.owner = false := by
      intro s hs
      refine hrest s ?_
      cases l with
      | nil => cases hs
      | cons a l => exact mem_append_left _ hs
    have hstep {p : Pass} (hp : l.foldlM (indexSource digest now) ⟨before, [], {}⟩ = .ok p) :
        (∃ p', indexSource digest now p t = .ok p') ↔
          ¬t.Blocks digest before (describedBy digest before l) := by
      obtain ⟨hbound, hindexed⟩ := indexed_foldlM (.nil before) rfl (.inl rfl) hrest' hp
      exact indexSource_isOk hindexed hbound howner
    rw [foldlM_append]
    constructor
    · rintro ⟨p', hp'⟩ l₁ s l₂ hl
      obtain ⟨p, hp, hlast⟩ := bind_eq_ok.1 hp'
      simp only [foldlM_cons, foldlM_nil, bind_pure] at hlast
      rcases eq_nil_or_concat l₂ with rfl | ⟨l₂, a, rfl⟩
      · obtain ⟨rfl, ht⟩ := append_inj' hl rfl
        obtain rfl := head_eq_of_cons_eq ht
        exact (hstep hp).1 ⟨p', hlast⟩
      · have hinit : l = l₁ ++ s :: l₂ := by
          rw [concat_eq_append, ← cons_append, ← append_assoc] at hl
          exact (append_inj' hl rfl).1
        exact (ih hrest').1 ⟨p, hp⟩ l₁ s l₂ hinit
    · intro hblocks
      obtain ⟨p, hp⟩ := (ih hrest').2 fun l₁ s l₂ hl => hblocks l₁ s (l₂ ++ [t]) (by simp [hl])
      obtain ⟨p', hp'⟩ := (hstep hp).2 (hblocks l t [] rfl)
      refine ⟨p', bind_eq_ok.2 ⟨p, hp, ?_⟩⟩
      simpa only [foldlM_cons, foldlM_nil, bind_pure] using hp'

/-! ### Files that leave no trace -/

/-- Only the report tells the passes apart. -/
structure Pass.Same (p q : Pass) : Prop where
  db : q.db = p.db
  bound : q.bound = p.bound

theorem indexSource_same (h : p.Same q) (hp : indexSource digest now p s = .ok p') :
    ∃ q', indexSource digest now q s = .ok q' ∧ p'.Same q' := by
  obtain ⟨db, bound, report⟩ := p
  obtain ⟨db', bound', report'⟩ := q
  obtain ⟨rfl, rfl⟩ : db' = db ∧ bound' = bound := ⟨h.db, h.bound⟩
  unfold indexSource at hp ⊢
  dsimp only at hp ⊢
  split_ifs at hp ⊢
  · cases hp
    exact ⟨_, rfl, rfl, rfl⟩
  · cases hread : readSource digest db' bound' s with
    | error refusal =>
      rw [hread] at hp
      cases refusal with
      | invalid message =>
        cases hp
        exact ⟨_, rfl, rfl, rfl⟩
      | crash => cases hp
    | ok described =>
      rw [hread] at hp
      dsimp only at hp ⊢
      cases ha : applyDocument db' s described.1 described.2 now with
      | none =>
        rw [ha] at hp
        cases hp
      | some r =>
        rw [ha] at hp
        cases hp
        exact ⟨_, rfl, rfl, rfl⟩

theorem foldlM_same (h : p.Same q)
    (hp : l.foldlM (indexSource digest now) p = .ok p') :
    ∃ q', l.foldlM (indexSource digest now) q = .ok q' ∧ p'.Same q' := by
  induction l generalizing p q with
  | nil =>
    cases hp
    exact ⟨q, rfl, h⟩
  | cons s l ih =>
    obtain ⟨next, hnext, hp⟩ := bind_eq_ok.1 hp
    obtain ⟨next', hnext', hsame⟩ := indexSource_same h hnext
    obtain ⟨q', hq', hlast⟩ := ih hsame hp
    exact ⟨q', bind_eq_ok.2 ⟨next', hnext', hq'⟩, hlast⟩

theorem errors_indexSource (hp : indexSource digest now p s = .ok p') :
    p'.report.errors = p.report.errors ∨
      p'.Same p ∧ p'.report.errors.map Prod.fst =
        p.report.errors.map Prod.fst ++ [s.relativePath] := by
  unfold indexSource at hp
  dsimp only at hp
  split_ifs at hp
  · cases hp
    exact .inl rfl
  · cases hread : readSource digest p.db p.bound s with
    | error refusal =>
      rw [hread] at hp
      cases refusal with
      | invalid message =>
        cases hp
        exact .inr ⟨⟨rfl, rfl⟩, by simp⟩
      | crash => cases hp
    | ok described =>
      rw [hread] at hp
      dsimp only at hp
      cases ha : applyDocument p.db s described.1 described.2 now with
      | none =>
        rw [ha] at hp
        cases hp
      | some r =>
        rw [ha] at hp
        cases hp
        refine .inl ?_
        dsimp only
        split_ifs <;> rfl

theorem errors_foldlM (hp : l.foldlM (indexSource digest now) p = .ok p') :
    ∀ path ∈ p'.report.errors.map Prod.fst,
      path ∈ p.report.errors.map Prod.fst ∨ path ∈ l.map Source.relativePath := by
  induction l generalizing p with
  | nil =>
    cases hp
    exact fun path hpath => .inl hpath
  | cons s l ih =>
    obtain ⟨next, hnext, hp⟩ := bind_eq_ok.1 hp
    intro path hpath
    rw [map_cons, mem_cons]
    rcases ih hp path hpath with hearlier | hlater
    · rcases errors_indexSource hnext with heq | ⟨_, heq⟩
      · exact .inl (heq ▸ hearlier)
      · rw [heq, List.mem_append, mem_singleton] at hearlier
        exact hearlier.imp_right .inl
    · exact .inr (.inr hlater)

theorem foldlM_skip {l₁ l₂ : List Source}
    (hnodup : ((l₁ ++ s :: l₂).map Source.relativePath).Nodup)
    (hp : (l₁ ++ s :: l₂).foldlM (indexSource digest now) ⟨before, [], {}⟩ = .ok p)
    (herror : s.relativePath ∈ p.report.errors.map Prod.fst) :
    ∃ q, (l₁ ++ l₂).foldlM (indexSource digest now) ⟨before, [], {}⟩ = .ok q ∧ p.Same q := by
  rw [foldlM_append] at hp
  obtain ⟨p₁, h₁, hp⟩ := bind_eq_ok.1 hp
  obtain ⟨p₂, hs, h₂⟩ := bind_eq_ok.1 hp
  rw [map_append, map_cons, nodup_append] at hnodup
  have hnot₁ : s.relativePath ∉ p₁.report.errors.map Prod.fst := by
    intro hmem
    rcases errors_foldlM h₁ _ hmem with hmem | hmem
    · cases hmem
    · exact hnodup.2.2 _ hmem _ mem_cons_self rfl
  have hsame : p₂.Same p₁ := by
    rcases errors_indexSource hs with heq | ⟨hsame, _⟩
    · rcases errors_foldlM h₂ _ herror with hmem | hmem
      · rw [heq] at hmem
        exact absurd hmem hnot₁
      · exact absurd hmem (nodup_cons.1 hnodup.2.1).1
    · exact hsame
  obtain ⟨q, hq, hlast⟩ := foldlM_same hsame h₂
  refine ⟨q, ?_, hlast⟩
  rw [foldlM_append]
  exact bind_eq_ok.2 ⟨p₁, h₁, hq⟩

variable {v : VaultFiles}

def VaultFiles.standIn (v : VaultFiles) : Files where
  me := v.me.map fun loading => (VaultFile.mk meFile "Person" true loading).source.reading
  files c := (v.files c).map fun f => (f.1, (c.file f).source.reading)
  nodup c := by
    rw [List.map_map]
    exact v.nodup c

theorem sources_standIn (v : VaultFiles) : v.standIn.sources = v.all.map VaultFile.source := by
  have hcollection (c : Collection) : v.standIn.collection c =
      ((v.files c).map (Collection.file c)).map VaultFile.source := by
    unfold Files.collection VaultFiles.standIn
    rw [map_map, map_map]
    rfl
  unfold Files.sources VaultFiles.all
  rw [hcollection, hcollection, hcollection]
  simp only [map_append]
  congr 1
  cases hme : v.me with
  | none => simp [VaultFiles.standIn, hme]
  | some loading =>
    simp only [VaultFiles.standIn, hme]
    rfl

theorem owner_tail (v : VaultFiles) : ∀ s ∈ (v.all.map VaultFile.source).tail, s.owner = false := by
  rw [← sources_standIn]
  exact v.standIn.owner_first

theorem nodup_all (v : VaultFiles) :
    ((v.all.map VaultFile.source).map Source.relativePath).Nodup := by
  rw [← sources_standIn]
  exact v.standIn.nodup_paths

/-! ### Isolation -/

/-- The pass comes to its end, and what it makes of the other files is what it makes of them when a
file that it reports is skipped. -/
def Isolated (digest : String → String) (now : ℕ) (v : VaultFiles) (db : MemoryDb) : Prop :=
  ∃ db' report,
    indexFiles digest now (v.all.map VaultFile.relativePath) v.all db = (db', some report) ∧
    ∀ l₁ f l₂, v.all = l₁ ++ f :: l₂ → f.relativePath ∈ report.errors.map Prod.fst →
      ∃ report', indexFiles digest now (v.all.map VaultFile.relativePath) (l₁ ++ l₂) db =
        (db', some report')

/-- The file is looked at, and either it cannot be described, or it is not refused for the record that
it names, given the files before it, and states a fact without a level. -/
def VaultFile.Blocks (digest : String → String) (db : MemoryDb) (earlier : List VaultFile)
    (f : VaultFile) : Prop :=
  ¬(f.owner = true ∧ db.ownerEntityId = none) ∧
    (f.reads = .error .crash ∨ ∃ d, f.reads = .ok d ∧
      (∃ x ∈ d.facts, x.2.classification = none) ∧ ∃ entityId,
        sourceEntity digest db (boundOf (describedBy digest db (earlier.map VaultFile.source)))
          (db.ownerEntityId.getD "") (f.at (.error "")) d = .ok entityId)

/-- Whether a file blocks is decided by the files before it. -/
theorem blocks_source {earlier : List VaultFile} :
    f.source.Blocks digest db (describedBy digest db (earlier.map VaultFile.source)) ↔
      f.Blocks digest db earlier := by
  unfold Source.Blocks VaultFile.Blocks Source.Crashes describedNext
  rw [readSource_eq, reads_source]
  have howner : f.source.owner = f.owner := rfl
  rw [howner]
  by_cases hnone : f.owner = true ∧ db.ownerEntityId = none
  · simp [hnone]
  · rw [if_neg hnone]
    refine (or_congr (and_iff_right hnone) ?_).trans (and_iff_right hnone).symm
    generalize boundOf (describedBy digest db (earlier.map VaultFile.source)) = bound
    have hentity (d : Desired) : sourceEntity digest db bound (db.ownerEntityId.getD "") f.source d =
        sourceEntity digest db bound (db.ownerEntityId.getD "") (f.at (.error "")) d := rfl
    simp only [hentity]
    cases hreads : f.reads with
    | error refusal => exact iff_of_false nofun nofun
    | ok d =>
      cases hrecord : sourceEntity digest db bound (db.ownerEntityId.getD "") (f.at (.error "")) d with
      | error refusal =>
        refine iff_of_false ?_ ?_
        · rintro ⟨b, hb, _⟩
          simp [hrecord, bind, Except.bind] at hb
        · rintro ⟨d', hd, _, entityId, hid⟩
          cases hd
          rw [hrecord] at hid
          cases hid
      | ok entityId =>
        constructor
        · rintro ⟨b, hb, hlevel⟩
          obtain rfl : (⟨f.source, d, entityId⟩ : Described) = b := by
            simpa [hrecord, bind, Except.bind, pure, Except.pure] using hb
          exact ⟨d, rfl, hlevel, entityId, hrecord⟩
        · rintro ⟨d', hd, hlevel, _⟩
          cases hd
          exact ⟨⟨f.source, d, entityId⟩, by simp [hrecord, bind, Except.bind, pure, Except.pure],
            hlevel⟩

theorem indexFiles_of_ok (present : List String) {files : List VaultFile}
    (hp : (files.map VaultFile.source).foldlM (indexSource digest now) ⟨db, [], {}⟩ = .ok p) :
    indexFiles digest now present files db = ((removeMissing p.db present p.bound now).1,
      some { p.report with removed := (removeMissing p.db present p.bound now).2 }) := by
  unfold indexFiles
  rw [foldlM_indexFile, hp]

theorem foldlM_of_indexFiles {present : List String} {files : List VaultFile} {db' : MemoryDb}
    {report : Report} (h : indexFiles digest now present files db = (db', some report)) :
    ∃ p, (files.map VaultFile.source).foldlM (indexSource digest now) ⟨db, [], {}⟩ = .ok p := by
  unfold indexFiles at h
  rw [foldlM_indexFile] at h
  cases hp : (files.map VaultFile.source).foldlM (indexSource digest now) ⟨db, [], {}⟩ with
  | error db' =>
    rw [hp] at h
    cases h
  | ok p => exact ⟨p, rfl⟩

/-- The files of a vault are isolated just where none of them ends the pass.  The record of the owner
is there: `owners.entity_id` is a foreign key. -/
theorem isolated_iff
    (howner : ∀ o, db.ownerEntityId = some o → (db.entities.find o).isSome = true) :
    Isolated digest now v db ↔
      ∀ l₁ f l₂, v.all = l₁ ++ f :: l₂ → ¬f.Blocks digest db l₁ := by
  have hblocks : (∀ l₁ s l₂, v.all.map VaultFile.source = l₁ ++ s :: l₂ →
      ¬s.Blocks digest db (describedBy digest db l₁)) ↔
        ∀ l₁ f l₂, v.all = l₁ ++ f :: l₂ → ¬f.Blocks digest db l₁ := by
    constructor
    · intro h l₁ f l₂ hl hf
      refine h (l₁.map VaultFile.source) f.source (l₂.map VaultFile.source) ?_ (blocks_source.2 hf)
      rw [hl, map_append, map_cons]
    · intro h l₁ s l₂ hl hs
      obtain ⟨k₁, rest, hall, rfl, hrest⟩ := map_eq_append_iff.1 hl
      obtain ⟨f, k₂, rfl, rfl, rfl⟩ := map_eq_cons_iff.1 hrest
      exact h k₁ f k₂ hall (blocks_source.1 hs)
  rw [← hblocks, ← foldlM_isOk (owner_tail v) howner]
  constructor
  · rintro ⟨db', report, hindex, _⟩
    exact foldlM_of_indexFiles hindex
  · rintro ⟨p, hp⟩
    refine ⟨_, _, indexFiles_of_ok _ hp, fun l₁ f l₂ hl herror => ?_⟩
    have hnodup := nodup_all v
    rw [hl, map_append, map_cons] at hp hnodup
    obtain ⟨q, hq, hsame⟩ := foldlM_skip hnodup hp herror
    rw [← map_append] at hq
    rw [indexFiles_of_ok _ hq, hsame.db, hsame.bound]
    exact ⟨_, rfl⟩

/-- A file that is refused, and one that says where somebody lives. -/
def refusedVault : VaultFiles where
  me := none
  files
    | .people => [("a.md", .ok ⟨⟨[("classification", .str "secret")], ""⟩, []⟩),
        ("b.md", .ok ⟨⟨[("city", .str "Rome")], ""⟩, []⟩)]
    | _ => []
  nodup c := by cases c <;> decide

theorem refusedVault_isolated : Isolated id 1 refusedVault sampleMemory := by
  refine (isolated_iff ?_).2 ?_
  · intro o ho
    cases ho
    decide
  · have hlevels {f : VaultFile} (hf : f ∈ refusedVault.all) : f.reads ≠ .error .crash ∧
        ∀ d, f.reads = .ok d → ∀ x ∈ d.facts, x.2.classification ≠ none := by
      have hcheck : refusedVault.all.all (fun f => match f.reads with
          | .ok d => d.facts.all fun x => x.2.classification.isSome
          | .error .crash => false
          | .error (.invalid _) => true) = true := by decide +kernel
      have hread := all_eq_true.1 hcheck f hf
      refine ⟨fun h => by simp [h] at hread, fun d h x hx hnone => ?_⟩
      rw [h] at hread
      have hsome := all_eq_true.1 hread x hx
      rw [hnone] at hsome
      cases hsome
    rintro l₁ f l₂ hl ⟨_, hblocks⟩
    obtain ⟨hcrash, hsome⟩ := hlevels (hl ▸ mem_append_right l₁ mem_cons_self)
    rcases hblocks with h | ⟨d, hd, ⟨x, hx, hnone⟩, _⟩
    · exact hcrash h
    · exact hsome d hd x hx hnone

/-- A file with a key that every object has. -/
def blockedVault : VaultFiles where
  me := none
  files
    | .people => [("a.md", .ok ⟨⟨[("constructor", .str "Acme")], ""⟩, []⟩),
        ("b.md", .ok ⟨⟨[("city", .str "Rome")], ""⟩, []⟩)]
    | _ => []
  nodup c := by cases c <;> decide

/-- It ends the pass, and the file after it is not indexed. -/
theorem blockedVault_not_isolated :
    (indexFiles id 1 (blockedVault.all.map VaultFile.relativePath) blockedVault.all
        sampleMemory).2 = none ∧ ¬Isolated id 1 blockedVault sampleMemory := by
  have hnone : (indexFiles id 1 (blockedVault.all.map VaultFile.relativePath) blockedVault.all
      sampleMemory).2 = none := by decide +kernel
  refine ⟨hnone, ?_⟩
  rintro ⟨db', report, h, _⟩
  rw [h] at hnone
  cases hnone

end U2os.Server.Vault
