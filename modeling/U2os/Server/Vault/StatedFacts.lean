import U2os.Server.Vault.Indexer

/-!
# The facts a file states

What writing the facts of a file does: every fact that the file states is there once, no other fact
of the file is active, and facts of other entities are as they were.
-/

namespace U2os.Server.Vault

open Memory List Option Numbered

variable {facts : Facts} {db : MemoryDb} {d : Desired} {entityId source key : String} {now : ℕ}
  {new : NewFact} {stated : List (String × StatedFact)} {acc acc' : MemoryDb × Bool}
  {x : String × StatedFact}

/-- The facts of a file are as it states them. -/
structure FactsInPlace (rows : List Fact) (stated : List (String × StatedFact))
    (entityId source : String) : Prop where
  there : ∀ x ∈ stated, isStated (ownFacts rows entityId source x.1) x.2 = true
  noStale : ∀ f ∈ rows, isStale entityId source stated f = false

/-! ### One fact -/

/-- The facts that are replaced are superseded. -/
def supersede (facts : Facts) (previous : List Fact) : Facts :=
  facts.updateWhere (fun f => f.id ∈ previous.map Fact.id)
    (fun f => { f with status := .superseded }) Fact.superseded_id

/-- The status of the new fact, and what becomes of the current ones. -/
def restated (facts : Facts) (previous : List Fact) (new : NewFact) : FactStatus × FactStatus :=
  recordedStatus (currentFacts (supersede facts previous) new.entityId new.key) new

/-- The facts there were, without those that are replaced, and with what becomes of the current ones. -/
def settled (facts : Facts) (previous : List Fact) (new : NewFact) : Facts :=
  settleCurrent (supersede facts previous) new.entityId new.key (restated facts previous new).2

/-- A fact is recorded in place of others. -/
def restate (facts : Facts) (previous : List Fact) (new : NewFact) (now : ℕ) : Facts :=
  let recorded := recordRow (supersede facts previous) new now
  recorded.modify recorded.rows.length
    (fun f => { f with supersedesFactId := (previous.head?.map Fact.id).or f.supersedesFactId })
    fun _ => rfl

theorem writeFact_eq_some {existing : List Fact}
    (h : writeFact entityId source now existing acc x = some acc') :
    isStated (ownFacts existing entityId source x.1) x.2 = true ∧ acc' = acc ∨
      isStated (ownFacts existing entityId source x.1) x.2 = false ∧ acc'.2 = true ∧
        (acc.1.entities.find entityId).isSome = true ∧ ∃ new : NewFact,
          new.entityId = entityId ∧ new.key = x.1 ∧ new.source = source ∧ new.inferred = false ∧
          new.value = x.2.value ∧ some new.classification = x.2.classification ∧
          acc'.1 = { acc.1 with
            facts := restate acc.1.facts (ownFacts existing entityId source x.1) new now } := by
  unfold writeFact at h
  dsimp only at h
  split_ifs at h with hstated
  · exact .inl ⟨hstated, (some.inj h).symm⟩
  · obtain ⟨classification, hclass, h⟩ := bind_eq_some_iff.1 h
    obtain ⟨recorded, hr, h⟩ := bind_eq_some_iff.1 h
    obtain ⟨hknown, rfl⟩ := recordFact_eq_some hr
    obtain rfl := some.inj h
    exact .inr ⟨by simpa using hstated, rfl, hknown, _, rfl, rfl, rfl, rfl, rfl, hclass.symm, rfl⟩

variable {f : Fact}

theorem mem_ownFacts {rows : List Fact} : f ∈ ownFacts rows entityId source key ↔
    f ∈ rows ∧ isOwnFact entityId source f = true ∧ f.key = key := by
  simp [ownFacts]

theorem isOwnFact_iff : isOwnFact entityId source f = true ↔
    f.entityId = entityId ∧ f.source = source ∧ isActive f = true := by
  simp [isOwnFact, and_assoc]

/-- The row of the fact. -/
def restatedRow (facts : Facts) (previous : List Fact) (new : NewFact) (now : ℕ) : Fact :=
  { new.row (restated facts previous new).1 now (settled facts previous new).next with
    supersedesFactId := previous.head?.map Fact.id }

theorem rows_restate (facts : Facts) (previous : List Fact) (new : NewFact) (now : ℕ) :
    (restate facts previous new now).rows =
      (settled facts previous new).rows ++ [restatedRow facts previous new now] := by
  refine (rows_modify_push (by intro _; rfl) (by intro _; rfl)).trans ?_
  simp [restatedRow, settled, restated, NewFact.row]

theorem restated_of_explicit (facts : Facts) (previous : List Fact) (hnew : new.inferred = false) :
    (restated facts previous new).1 = .current ∨ (restated facts previous new).1 = .disputed := by
  unfold restated recordedStatus
  dsimp only
  rw [hnew]
  split_ifs
  · exact .inl rfl
  · contradiction
  · contradiction
  · exact .inl rfl
  · exact .inr rfl

theorem mem_restate {previous : List Fact} (hf : f ∈ restate facts previous new now)
    (hactive : isActive f = true) : f.source = new.source ∨
      ∃ g ∈ facts, g.entityId = f.entityId ∧ g.source = f.source ∧ isActive g = true := by
  rw [← mem_rows, rows_restate, mem_append, mem_singleton] at hf
  rcases hf with hf | rfl
  · right
    obtain ⟨g, hg, rfl⟩ := mem_settleCurrent.1 hf
    obtain ⟨x, hx, rfl⟩ := mem_updateWhere.1 hg
    split_ifs at hactive ⊢ with hprevious hat hat
    · cases hat.2.2
    · simp [isActive] at hactive
    · exact ⟨x, hx, rfl, rfl, by simp [isActive, hat.2.2]⟩
    · exact ⟨x, hx, rfl, rfl, hactive⟩
  · exact .inl rfl

theorem filter_restate {P : Fact → Bool}
    (hP : ∀ f g : Fact, f.entityId = g.entityId → f.key = g.key → P f = P g)
    (hnew : ∀ f : Fact, f.entityId = new.entityId → f.key = new.key → P f = false)
    {previous : List Fact} (hprevious : ∀ f ∈ facts, f.id ∈ previous.map Fact.id → P f = false) :
    (restate facts previous new now).rows.filter P = facts.rows.filter P := by
  have hsettled : (settled facts previous new).rows.filter P = facts.rows.filter P := by
    unfold settled settleCurrent supersede
    rw [filter_updateWhere _ ?_, filter_updateWhere _ ?_]
    · intro f hf hid
      refine ⟨hprevious f hf hid, ?_⟩
      rw [← hprevious f hf hid]
      exact hP { f with status := .superseded } f rfl rfl
    · intro f _ hat
      exact ⟨hnew f hat.1 hat.2.1, hnew _ hat.1 hat.2.1⟩
  rw [rows_restate, filter_append, filter_singleton, hnew _ rfl rfl, hsettled]
  simp

/-- A settled fact is no longer one of its own. -/
theorem isOwnFact_settled
    (hf : f ∈ settled facts (ownFacts facts.rows new.entityId new.source new.key) new)
    (hkey : f.key = new.key) : isOwnFact new.entityId new.source f = false := by
  obtain ⟨g, hg, hfg⟩ := mem_settleCurrent.1 hf
  obtain ⟨r, hr, hgr⟩ := mem_updateWhere.1 hg
  rw [Bool.eq_false_iff]
  intro hown
  obtain ⟨hentity, hsource, hactive⟩ := isOwnFact_iff.1 hown
  -- what is own and active after it was own and active before it, and is replaced
  have hreplaced : r.entityId = new.entityId → r.source = new.source → r.key = new.key →
      isActive r = true → r.id ∈ (ownFacts facts.rows new.entityId new.source new.key).map Fact.id :=
    fun h1 h2 h3 h4 => List.mem_map_of_mem (mem_ownFacts.2 ⟨hr, isOwnFact_iff.2 ⟨h1, h2, h4⟩, h3⟩)
  split_ifs at hgr with hprevious
  · -- replaced, so not current, and left by the settling
    subst hgr
    rw [if_neg fun hat => FactStatus.noConfusion hat.2.2] at hfg
    subst hfg
    exact absurd hactive (by simp [isActive])
  · subst hgr
    split_ifs at hfg with hat
    · subst hfg
      exact hprevious (hreplaced hat.1 hsource hat.2.1 (by simp [isActive, hat.2.2]))
    · subst hfg
      exact hprevious (hreplaced hentity hsource hkey hactive)

/-- Restating a fact leaves it as the one current fact of its source. -/
theorem ownFacts_restate (facts : Facts) (now : ℕ) (hnew : new.inferred = false) :
    ∃ f, ownFacts (restate facts (ownFacts facts.rows new.entityId new.source new.key) new now).rows
        new.entityId new.source new.key = [f] ∧ f.value = new.value ∧
      f.classification = new.classification := by
  have hnone : ownFacts (settled facts (ownFacts facts.rows new.entityId new.source new.key) new).rows
      new.entityId new.source new.key = [] := by
    refine eq_nil_iff_forall_not_mem.2 fun f hf => ?_
    obtain ⟨hmem, hown, hkey⟩ := mem_ownFacts.1 hf
    rw [isOwnFact_settled hmem hkey] at hown
    cases hown
  refine ⟨restatedRow facts (ownFacts facts.rows new.entityId new.source new.key) new now,
    ?_, rfl, rfl⟩
  generalize ownFacts facts.rows new.entityId new.source new.key = previous at hnone ⊢
  have hown : restatedRow facts previous new now ∈ ownFacts [restatedRow facts previous new now]
      new.entityId new.source new.key := by
    refine mem_ownFacts.2 ⟨mem_singleton_self _, isOwnFact_iff.2 ⟨rfl, rfl, ?_⟩, rfl⟩
    rcases restated_of_explicit facts previous hnew with hstatus | hstatus <;>
      simp [isActive, restatedRow, NewFact.row, hstatus]
  unfold ownFacts at hnone hown ⊢
  rw [rows_restate, filter_append, hnone, nil_append, filter_eq_self]
  intro f hf
  rw [mem_singleton.1 hf]
  exact (mem_filter.1 hown).2

/-! ### All facts -/

theorem filter_writeFact {P : Fact → Bool}
    (hP : ∀ f g : Fact, f.entityId = g.entityId → f.key = g.key → P f = P g)
    (hx : ∀ f : Fact, f.entityId = entityId → f.key = x.1 → P f = false)
    (h : writeFact entityId source now acc.1.facts.rows acc x = some acc') :
    acc'.1.facts.rows.filter P = acc.1.facts.rows.filter P := by
  rcases writeFact_eq_some h with ⟨_, rfl⟩ | ⟨_, _, _, new, hentity, hkey, _, _, _, _, hdb⟩
  · rfl
  · rw [hdb]
    refine filter_restate hP (by rwa [hentity, hkey]) fun f hf hid => ?_
    obtain ⟨g, hg, hgid⟩ := List.mem_map.1 hid
    obtain ⟨hmem, hown, hgkey⟩ := mem_ownFacts.1 hg
    obtain rfl := eq_of_key hmem hf hgid
    exact hx g (isOwnFact_iff.1 hown).1 hgkey

theorem isStated_writeFact (h : writeFact entityId source now acc.1.facts.rows acc x = some acc') :
    isStated (ownFacts acc'.1.facts.rows entityId source x.1) x.2 = true := by
  rcases writeFact_eq_some h with ⟨hstated, rfl⟩ | ⟨_, _, _, new, rfl, hkey, rfl, hinf, hv, hc, hdb⟩
  · exact hstated
  · obtain ⟨f, hown, hvalue, hclass⟩ := ownFacts_restate acc.1.facts now hinf
    rw [hdb, ← hkey, hown]
    simp [isStated, hvalue, hclass, hv, hc]

theorem onlyFacts_writeFact {existing : List Fact}
    (h : writeFact entityId source now existing acc x = some acc') :
    acc'.1 = { acc.1 with facts := acc'.1.facts } := by
  rcases writeFact_eq_some h with ⟨_, rfl⟩ | ⟨_, _, _, new, _, _, _, _, _, _, hdb⟩
  · rfl
  · rw [hdb]

theorem comes_writeFact {existing : List Fact}
    (h : writeFact entityId source now existing acc x = some acc') (hf : f ∈ acc'.1.facts)
    (hsource : f.source ≠ source) (hactive : isActive f = true) :
    ∃ g ∈ acc.1.facts, g.entityId = f.entityId ∧ g.source = f.source ∧ isActive g = true := by
  rcases writeFact_eq_some h with ⟨_, rfl⟩ | ⟨_, _, _, new, _, _, rfl, _, _, _, hdb⟩
  · exact ⟨f, hf, rfl, rfl, hactive⟩
  · rw [hdb] at hf
    exact (mem_restate hf hactive).resolve_left hsource

theorem ownFacts_congr {rows rows' : List Fact}
    (h : rows.filter (fun f => f.entityId = entityId && f.key = key) =
      rows'.filter fun f => f.entityId = entityId && f.key = key) :
    ownFacts rows entityId source key = ownFacts rows' entityId source key := by
  have hown : ∀ rows : List Fact, ownFacts rows entityId source key =
      (rows.filter fun f => f.entityId = entityId && f.key = key).filter (isOwnFact entityId source) := by
    intro rows
    rw [ownFacts, List.filter_filter]
    refine filter_congr fun f _ => ?_
    by_cases hf : isOwnFact entityId source f = true
    · simp [hf, (isOwnFact_iff.1 hf).1]
    · simp [hf]
  rw [hown, hown, h]

theorem ownFacts_writeFact (hkey : key ≠ x.1)
    (h : writeFact entityId source now acc.1.facts.rows acc x = some acc') :
    ownFacts acc'.1.facts.rows entityId source key = ownFacts acc.1.facts.rows entityId source key := by
  refine ownFacts_congr (filter_writeFact ?_ ?_ h)
  · intro f g hentity hk
    rw [hentity, hk]
  · intro f _ hk
    simp [hk, Ne.symm hkey]

theorem writeFact_congr {existing : List Fact}
    (h : ownFacts existing entityId source x.1 = ownFacts acc.1.facts.rows entityId source x.1) :
    writeFact entityId source now existing acc x =
      writeFact entityId source now acc.1.facts.rows acc x := by
  unfold writeFact
  rw [h]

section Fold

variable {existing : List Fact}

/-- What writing the facts of a file leaves: by induction on those that are left, each of which finds
its key as it was. -/
theorem foldlM_writeFact (acc : MemoryDb × Bool) (hnodup : (stated.map Prod.fst).Nodup)
    (hexisting : ∀ x ∈ stated, ownFacts existing entityId source x.1 =
      ownFacts acc.1.facts.rows entityId source x.1)
    (h : stated.foldlM (writeFact entityId source now existing) acc = some acc') :
    (∀ x ∈ stated, isStated (ownFacts acc'.1.facts.rows entityId source x.1) x.2 = true) ∧
      ∀ P : Fact → Bool, (∀ f g : Fact, f.entityId = g.entityId → f.key = g.key → P f = P g) →
        (∀ f : Fact, f.entityId = entityId → f.key ∈ stated.map Prod.fst → P f = false) →
        acc'.1.facts.rows.filter P = acc.1.facts.rows.filter P := by
  induction stated generalizing acc with
  | nil =>
    obtain rfl := some.inj h
    exact ⟨nofun, fun _ _ _ => rfl⟩
  | cons x stated ih =>
    obtain ⟨next, hx, hrest⟩ := bind_eq_some_iff.1 h
    rw [map_cons, nodup_cons] at hnodup
    rw [writeFact_congr (hexisting x mem_cons_self)] at hx
    have hne : ∀ y ∈ stated, y.1 ≠ x.1 := by
      rintro y hy heq
      exact hnodup.1 (heq ▸ List.mem_map_of_mem hy)
    obtain ⟨hstated, hfilter⟩ := ih next hnodup.2 (fun y hy => by
      rw [hexisting y (mem_cons_of_mem _ hy), ownFacts_writeFact (hne y hy) hx]) hrest
    refine ⟨fun y hy => ?_, fun P hP hno => ?_⟩
    · rcases mem_cons.1 hy with rfl | hy
      · -- the facts that are left have other keys
        rw [ownFacts_congr (hfilter _ ?_ ?_)]
        · exact isStated_writeFact hx
        · intro f g hentity hk
          rw [hentity, hk]
        · intro f _ hk
          have hkey : f.key ≠ y.1 := fun heq => hnodup.1 (heq ▸ hk)
          simp [hkey]
      · exact hstated y hy
    · rw [hfilter P hP fun f hf hk => hno f hf (mem_cons_of_mem _ hk)]
      exact filter_writeFact hP (fun f hf hk => hno f hf (hk ▸ mem_cons_self)) hx

theorem onlyFacts_foldlM
    (h : stated.foldlM (writeFact entityId source now existing) acc = some acc') :
    acc'.1 = { acc.1 with facts := acc'.1.facts } := by
  induction stated generalizing acc with
  | nil =>
    obtain rfl := some.inj h
    rfl
  | cons x stated ih =>
    obtain ⟨next, hx, hrest⟩ := bind_eq_some_iff.1 h
    rw [ih hrest, onlyFacts_writeFact hx]

theorem comes_foldlM_writeFact
    (h : stated.foldlM (writeFact entityId source now existing) acc = some acc')
    (hf : f ∈ acc'.1.facts) (hsource : f.source ≠ source) (hactive : isActive f = true) :
    ∃ g ∈ acc.1.facts, g.entityId = f.entityId ∧ g.source = f.source ∧ isActive g = true := by
  induction stated generalizing acc with
  | nil =>
    obtain rfl := some.inj h
    exact ⟨f, hf, rfl, rfl, hactive⟩
  | cons x stated ih =>
    obtain ⟨next, hx, hrest⟩ := bind_eq_some_iff.1 h
    obtain ⟨g, hg, hentity, hgsource, hgactive⟩ := ih hrest
    obtain ⟨y, hy, hyentity, hysource, hyactive⟩ :=
      comes_writeFact hx hg (hgsource ▸ hsource) hgactive
    exact ⟨y, hy, hyentity.trans hentity, hysource.trans hgsource, hyactive⟩

theorem foldlM_writeFact_of_stated
    (h : ∀ x ∈ stated, isStated (ownFacts existing entityId source x.1) x.2 = true) :
    stated.foldlM (writeFact entityId source now existing) acc = some acc := by
  induction stated with
  | nil => rfl
  | cons x stated ih =>
    have hx : writeFact entityId source now existing acc x = some acc := if_pos (h x mem_cons_self)
    rw [foldlM_cons, hx]
    exact ih fun y hy => h y (mem_cons_of_mem _ hy)

theorem stated_of_foldlM_writeFact
    (h : stated.foldlM (writeFact entityId source now existing) acc = some acc')
    (hunchanged : acc'.2 = false) :
    acc.2 = false ∧ ∀ x ∈ stated, isStated (ownFacts existing entityId source x.1) x.2 = true := by
  induction stated generalizing acc with
  | nil =>
    obtain rfl := some.inj h
    exact ⟨hunchanged, nofun⟩
  | cons x stated ih =>
    obtain ⟨next, hx, hrest⟩ := bind_eq_some_iff.1 h
    obtain ⟨hnext, hstated⟩ := ih hrest
    rcases writeFact_eq_some hx with ⟨hthere, rfl⟩ | ⟨_, hchanged, _⟩
    · exact ⟨hnext, forall_mem_cons.2 ⟨hthere, hstated⟩⟩
    · rw [hnext] at hchanged
      cases hchanged

end Fold

/-! ### A file -/

theorem isStale_eq_true : isStale entityId source stated f = true ↔
    isOwnFact entityId source f = true ∧ ∀ x ∈ stated, x.1 ≠ f.key := by
  simp only [isStale, Assoc.get?, Bool.and_eq_true, isNone_map, isNone_iff_eq_none,
    find?_eq_none, decide_eq_true_eq]

theorem mem_deleteFacts {p : Fact → Bool} : f ∈ deleteFacts facts p now ↔
    ∃ g ∈ facts, f = if p g = true then { g with status := .deleted, deletedAt := some now } else g :=
  mem_updateWhere

theorem filter_deleteFacts {p P : Fact → Bool} (now : ℕ)
    (h : ∀ f ∈ facts, p f = true → P f = false ∧
      P { f with status := .deleted, deletedAt := some now } = false) :
    (deleteFacts facts p now).rows.filter P = facts.rows.filter P :=
  filter_updateWhere _ h

variable {changed : Bool} {r : MemoryDb × Bool}

theorem onlyFacts_writeFacts (h : writeFacts db changed d entityId source now = some r) :
    r.1 = { db with facts := r.1.facts } := by
  obtain ⟨acc, hfold, h⟩ := bind_eq_some_iff.1 h
  obtain rfl := some.inj h
  dsimp only
  rw [onlyFacts_foldlM hfold]

/-- What writing the facts of a file does. -/
structure FactsWritten (db db' : MemoryDb) (stated : List (String × StatedFact))
    (entityId source : String) : Prop where
  inPlace : FactsInPlace db'.facts.rows stated entityId source
  onlyFacts : db' = { db with facts := db'.facts }
  others : ∀ other ≠ entityId, db'.facts.rows.filter (·.entityId = other) =
    db.facts.rows.filter (·.entityId = other)
  comes : ∀ f ∈ db'.facts, f.source ≠ source → isActive f = true →
    ∃ g ∈ db.facts, g.entityId = f.entityId ∧ g.source = f.source ∧ isActive g = true

/-- The facts of a document are written, each as it says. -/
theorem factsWritten_writeFacts (hnodup : (d.facts.map Prod.fst).Nodup)
    (h : writeFacts db changed d entityId source now = some r) :
    FactsWritten db r.1 d.facts entityId source := by
  obtain ⟨acc, hfold, hr⟩ := bind_eq_some_iff.1 h
  obtain rfl := some.inj hr
  obtain ⟨hstated, hfilter⟩ := foldlM_writeFact (db, changed) hnodup (fun _ _ => rfl) hfold
  refine ⟨⟨fun x hx => ?_, fun f hf => ?_⟩, ?_, fun other hother => ?_, fun f hf hsource hactive => ?_⟩
  · -- what is stale has a key that is not stated
    have hown : ownFacts (deleteFacts acc.1.facts (isStale entityId source d.facts) now).rows entityId
        source x.1 = ownFacts acc.1.facts.rows entityId source x.1 := by
      refine ownFacts_congr (filter_deleteFacts now fun f _ hstale => ?_)
      have hkey : f.key ≠ x.1 := ((isStale_eq_true.1 hstale).2 x hx).symm
      simp [hkey]
    exact (congrArg (isStated · x.2) hown).trans (hstated x hx)
  · obtain ⟨g, hg, rfl⟩ := mem_deleteFacts.1 (mem_rows.1 hf)
    split_ifs with hstale
    · simp [isStale, isOwnFact, isActive]
    · simpa using hstale
  · exact onlyFacts_writeFacts h
  · have hrest := hfilter (·.entityId = other) (fun f g hentity _ => by rw [hentity])
      (fun f hf _ => by simp [hf, Ne.symm hother])
    refine (filter_deleteFacts now fun f _ hstale => ?_).trans hrest
    have hentity := (isOwnFact_iff.1 (isStale_eq_true.1 hstale).1).1
    simp [hentity, Ne.symm hother]
  · obtain ⟨g, hg, rfl⟩ := mem_deleteFacts.1 hf
    split_ifs at hsource hactive ⊢
    · simp [isActive] at hactive
    · exact comes_foldlM_writeFact hfold hg hsource hactive

theorem writeFacts_of_inPlace (h : FactsInPlace db.facts.rows d.facts entityId source) :
    writeFacts db changed d entityId source now = some (db, changed) := by
  have hstale : db.facts.rows.any (isStale entityId source d.facts) = false :=
    List.any_eq_false.2 fun f hf => by simp [h.noStale f hf]
  have hdelete : deleteFacts db.facts (isStale entityId source d.facts) now = db.facts :=
    updateWhere_eq_self fun f hf => by simp [h.noStale f hf]
  unfold writeFacts
  dsimp only
  rw [foldlM_writeFact_of_stated h.there]
  simp [hstale, hdelete]

theorem inPlace_of_writeFacts
    (h : writeFacts db changed d entityId source now = some r) (hunchanged : r.2 = false) :
    changed = false ∧ FactsInPlace db.facts.rows d.facts entityId source := by
  obtain ⟨acc, hfold, h⟩ := bind_eq_some_iff.1 h
  obtain rfl := some.inj h
  obtain ⟨hacc, hstale⟩ := Bool.or_eq_false_iff.1 hunchanged
  obtain ⟨hchanged, hstated⟩ := stated_of_foldlM_writeFact hfold hacc
  exact ⟨hchanged, hstated, fun f hf => by simpa using List.any_eq_false.1 hstale f hf⟩

theorem FactsInPlace.congr {rows rows' : List Fact} (h : FactsInPlace rows stated entityId source)
    (hrows : rows'.filter (·.entityId = entityId) = rows.filter (·.entityId = entityId)) :
    FactsInPlace rows' stated entityId source := by
  have hmem : ∀ f ∈ rows', f.entityId = entityId → f ∈ rows := by
    intro f hf hentity
    have hfilter : f ∈ rows'.filter (·.entityId = entityId) := by simp [hf, hentity]
    rw [hrows] at hfilter
    exact (mem_filter.1 hfilter).1
  refine ⟨fun x hx => ?_, fun f hf => ?_⟩
  · have hown : ownFacts rows' entityId source x.1 = ownFacts rows entityId source x.1 := by
      refine ownFacts_congr ?_
      have hkey := congrArg (List.filter fun f => f.key = x.1) hrows
      simpa only [List.filter_filter, Bool.and_comm] using hkey
    rw [hown]
    exact h.there x hx
  · rw [Bool.eq_false_iff]
    intro hstale
    have hentity := (isOwnFact_iff.1 (isStale_eq_true.1 hstale).1).1
    rw [h.noStale f (hmem f hf hentity)] at hstale
    cases hstale

end U2os.Server.Vault
