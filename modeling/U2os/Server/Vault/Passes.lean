import U2os.Server.Vault.Documents

/-!
# Passes over a vault

Which file describes which record is said by the files and by the database before the pass: what a
pass itself makes is bound, and only to one file.
-/

namespace U2os.Server.Vault

open Memory Fallible List Option

variable {digest : String → String} {db db' before : MemoryDb} {bound : Bound} {s : Source}
  {d : Desired} {entityId : String} {boundId : Option String} {now : ℕ} {p p' : Pass}

/-! ### Which file describes which record -/

/-- What a file says. -/
def Source.reads (s : Source) : Except Refusal Desired :=
  s.reading.mapError .invalid >>= describe s.relativePath s.type

/-- A file, what it says, and the record it says it of. -/
structure Described where
  source : Source
  desired : Desired
  entityId : String

/-- The paths, with the records. -/
def boundOf (ds : List Described) : Bound := ds.map fun b => (b.source.relativePath, b.entityId)

theorem map_snd_boundOf (ds : List Described) :
    (boundOf ds).map Prod.snd = ds.map Described.entityId := by
  simp [boundOf]

theorem boundOf_append (ds more : List Described) :
    boundOf (ds ++ more) = boundOf ds ++ boundOf more := map_append

/-- The description of one file, where others are bound. -/
def describedNext (digest : String → String) (db : MemoryDb) (bound : Bound) (s : Source) :
    Option Described :=
  if s.owner = true ∧ db.ownerEntityId = none then none
  else
    match readSource digest db bound s with
    | .ok (desired, entityId) => some ⟨s, desired, entityId⟩
    | .error _ => none

/-- The descriptions of files that follow others. -/
def describedFrom (digest : String → String) (db : MemoryDb) (ds : List Described) (l : List Source) :
    List Described :=
  l.foldl (fun ds s => ds ++ (describedNext digest db (boundOf ds) s).toList) ds

/-- The descriptions of files. -/
def describedBy (digest : String → String) (db : MemoryDb) (l : List Source) : List Described :=
  describedFrom digest db [] l

/-- The record of a file. -/
structure IsRecordOf (digest : String → String) (db : MemoryDb) (bound : Bound) (s : Source)
    (boundId : Option String) (entityId : String) : Prop where
  owner : s.owner = true → db.ownerEntityId = some entityId
  named : s.owner = false → entityId = boundId.getD (vaultEntityId digest s.relativePath)
  notOwner : s.owner = false → boundId.isSome = true → boundId ≠ db.ownerEntityId
  known : s.owner = false → boundId.isSome = true → (db.entities.find entityId).isSome = true
  fresh : s.owner = false → entityId ∉ bound.map Prod.snd

theorem resolveEntityId_eq_ok {relativePath : String} :
    resolveEntityId digest db bound relativePath boundId = .ok entityId ↔
      entityId = boundId.getD (vaultEntityId digest relativePath) ∧
      (boundId.isSome = true → boundId ≠ db.ownerEntityId) ∧
      (boundId.isSome = true → (db.entities.find entityId).isSome = true) ∧
      entityId ∉ bound.map Prod.snd := by
  unfold resolveEntityId
  dsimp only
  have hknown : boundId.any (fun id => (db.entities.find id).isNone) = true ↔
      boundId.isSome = true ∧
        (db.entities.find (boundId.getD (vaultEntityId digest relativePath))).isSome = false := by
    cases boundId <;> simp
  split_ifs with howner hany hbound
  · constructor
    · intro h
      cases h
    · rintro ⟨_, h, _⟩
      exact absurd howner.2 (h howner.1)
  · constructor
    · intro h
      cases h
    · rintro ⟨rfl, _, h, _⟩
      obtain ⟨hsome, hnone⟩ := hknown.1 hany
      rw [h hsome] at hnone
      cases hnone
  · constructor
    · intro h
      cases h
    · rintro ⟨rfl, _, _, h⟩
      exact absurd hbound h
  · constructor
    · intro h
      cases h
      refine ⟨rfl, fun hsome heq => howner ⟨hsome, heq⟩, fun hsome => ?_, hbound⟩
      by_contra hnone
      exact hany (hknown.2 ⟨hsome, by simpa using hnone⟩)
    · rintro ⟨rfl, _⟩
      rfl

theorem readSource_eq : readSource digest db bound s = s.reads >>= fun d =>
    sourceEntity digest db bound (db.ownerEntityId.getD "") s d >>= fun entityId =>
      pure (d, entityId) := by
  unfold readSource Source.reads
  cases s.reading with
  | error message => rfl
  | ok document => rfl

variable {b : Described}

/-- What is described of a file that is read. -/
theorem describedNext_eq_some : describedNext digest db bound s = some b ↔
    b.source = s ∧ s.reads = .ok b.desired ∧
      IsRecordOf digest db bound s b.desired.boundId b.entityId := by
  have hrecord : ¬(s.owner = true ∧ db.ownerEntityId = none) →
      (sourceEntity digest db bound (db.ownerEntityId.getD "") s b.desired = .ok b.entityId ↔
        IsRecordOf digest db bound s b.desired.boundId b.entityId) := by
    intro hnone
    unfold sourceEntity
    cases howner : s.owner with
    | true =>
      obtain ⟨owner, ho⟩ := ne_none_iff_exists'.1 fun h => hnone ⟨howner, h⟩
      rw [if_pos rfl, ho, getD_some, Except.ok.injEq]
      constructor
      · rintro rfl
        exact ⟨fun _ => ho, by simp [howner], by simp [howner], by simp [howner], by simp [howner]⟩
      · intro h
        exact some.inj (ho.symm.trans (h.owner howner))
    | false =>
      rw [if_neg (by simp), resolveEntityId_eq_ok]
      constructor
      · rintro ⟨h1, h2, h3, h4⟩
        exact ⟨by simp [howner], fun _ => h1, fun _ => h2, fun _ => h3, fun _ => h4⟩
      · intro h
        exact ⟨h.named howner, h.notOwner howner, h.known howner, h.fresh howner⟩
  unfold describedNext
  split_ifs with hnone
  · constructor
    · intro h
      cases h
    · rintro ⟨rfl, _, h⟩
      have ho := h.owner hnone.1
      rw [hnone.2] at ho
      cases ho
  · rw [readSource_eq]
    cases hreads : s.reads with
    | error refusal =>
      constructor
      · intro h
        cases h
      · rintro ⟨_, h, _⟩
        cases h
    | ok d =>
      cases hentity : sourceEntity digest db bound (db.ownerEntityId.getD "") s d with
      | error refusal =>
        constructor
        · intro h
          simp [hentity, bind, Except.bind] at h
        · rintro ⟨_, hd, h⟩
          cases hd
          rw [← hrecord hnone, hentity] at h
          cases h
      | ok entityId =>
        constructor
        · intro h
          obtain rfl : (⟨s, d, entityId⟩ : Described) = b := by
            simpa [hentity, bind, Except.bind, pure, Except.pure] using h
          exact ⟨rfl, rfl, (hrecord hnone).1 hentity⟩
        · rintro ⟨rfl, hd, h⟩
          cases hd
          rw [← hrecord hnone, hentity] at h
          cases h
          simp [hentity, bind, Except.bind, pure, Except.pure]

theorem describedNext_congr (howner : db'.ownerEntityId = db.ownerEntityId)
    (hknown : ∀ b : Described, b.source = s → s.reads = .ok b.desired → s.owner = false →
      b.desired.boundId = some b.entityId → db.ownerEntityId ≠ some b.entityId →
      b.entityId ∉ bound.map Prod.snd →
        (db'.entities.find b.entityId).isSome = (db.entities.find b.entityId).isSome) :
    describedNext digest db' bound s = describedNext digest db bound s := by
  refine Option.ext fun b => ?_
  rw [describedNext_eq_some, describedNext_eq_some]
  refine and_congr_right fun hsource => and_congr_right fun hreads => ?_
  have hiff : s.owner = false → b.desired.boundId.isSome = true →
      b.entityId = b.desired.boundId.getD (vaultEntityId digest s.relativePath) →
      b.desired.boundId ≠ db.ownerEntityId → b.entityId ∉ bound.map Prod.snd →
      (db'.entities.find b.entityId).isSome = (db.entities.find b.entityId).isSome := by
    intro hs hsome hnamed hnot hfresh
    obtain ⟨id, hid⟩ := isSome_iff_exists.1 hsome
    rw [hid, getD_some] at hnamed
    subst hnamed
    exact hknown b hsource hreads hs hid (fun h => hnot (hid.trans h.symm)) hfresh
  constructor
  · intro h
    refine ⟨fun hs => howner ▸ h.owner hs, h.named, fun hs hsome => howner ▸ h.notOwner hs hsome,
      fun hs hsome => ?_, h.fresh⟩
    rw [← hiff hs hsome (h.named hs) (howner ▸ h.notOwner hs hsome) (h.fresh hs)]
    exact h.known hs hsome
  · intro h
    refine ⟨fun hs => howner ▸ h.owner hs, h.named, fun hs hsome => howner ▸ h.notOwner hs hsome,
      fun hs hsome => ?_, h.fresh⟩
    rw [hiff hs hsome (h.named hs) (h.notOwner hs hsome) (h.fresh hs)]
    exact h.known hs hsome

theorem describedFrom_cons (digest : String → String) (db : MemoryDb) (ds : List Described)
    (s : Source) (l : List Source) : describedFrom digest db ds (s :: l) =
      describedFrom digest db (ds ++ (describedNext digest db (boundOf ds) s).toList) l := rfl

variable {ds : List Described}

theorem mem_describedFrom_of_mem (hb : b ∈ ds)
    (l : List Source) : b ∈ describedFrom digest db ds l := by
  induction l generalizing ds with
  | nil => exact hb
  | cons s l ih => exact ih (mem_append_left _ hb)

variable {l : List Source}

theorem of_mem_describedFrom (hb : b ∈ describedFrom digest db ds l) :
    b ∈ ds ∨ b.source ∈ l ∧ b.source.reads = .ok b.desired ∧ ∃ earlier,
      IsRecordOf digest db earlier b.source b.desired.boundId b.entityId := by
  induction l generalizing ds with
  | nil => exact .inl hb
  | cons s l ih =>
    rw [describedFrom_cons] at hb
    rcases ih hb with hmem | ⟨hs, hreads, hrecord⟩
    · rcases List.mem_append.1 hmem with hmem | hnext
      · exact .inl hmem
      · obtain ⟨hsource, hreads, hrecord⟩ := describedNext_eq_some.1 (mem_toList.1 hnext)
        subst hsource
        exact .inr ⟨mem_cons_self, hreads, _, hrecord⟩
    · exact .inr ⟨mem_cons_of_mem _ hs, hreads, hrecord⟩

/-! ### What a pass leaves -/

/-- What a pass has left of a database, where it has applied some files. -/
structure Indexed (before db : MemoryDb) (ds : List Described) : Prop where
  ownerEntityId : db.ownerEntityId = before.ownerEntityId
  nodup : (ds.map Described.entityId).Nodup
  wellFormed : ∀ b ∈ ds, b.desired.WellFormed b.source.relativePath
  applied : ∀ b ∈ ds, Applied before db b.source b.desired b.entityId
  others : ∀ id ∉ ds.map Described.entityId, SameAt before db id

theorem Indexed.nil (db : MemoryDb) : Indexed db db [] :=
  ⟨rfl, by simp, nofun, nofun, fun id _ => .refl db id⟩

theorem Indexed.known (h : Indexed before db ds) {id : String}
    (hid : id ∉ ds.map Described.entityId) :
    (db.entities.find id).isSome = (before.entities.find id).isSome := by
  rw [(h.others id hid).entity]

theorem Applied.congr {before' : MemoryDb} (h : Applied before db s d entityId)
    (howner : before'.ownerEntityId = before.ownerEntityId)
    (hbefore : SameAt before' before entityId) (hdb : SameAt db db' entityId) :
    Applied before' db' s d entityId where
  entity hs := hdb.entity.trans ((h.entity hs).trans hbefore.entity)
  row hs := (h.row hs).congr hdb.entity
  promise hs owner ho htype := by
    rw [promises_congr hdb, ← promises_congr hbefore]
    exact h.promise hs owner (howner ▸ ho) htype
  retired hs := (h.retired hs).congr hdb
  facts := h.facts.congr hdb.facts

theorem wellFormed_of_reads (h : s.reads = .ok d) : d.WellFormed s.relativePath := by
  unfold Source.reads at h
  cases hreading : s.reading with
  | error message =>
    rw [hreading] at h
    cases h
  | ok document =>
    rw [hreading] at h
    exact describe_wellFormed h

/-- One more document is indexed. -/
theorem Indexed.snoc (h : Indexed before db ds) {b : Described}
    {r : MemoryDb × Bool} (hreads : b.source.reads = .ok b.desired)
    (hrecord : IsRecordOf digest before (boundOf ds) b.source b.desired.boundId b.entityId)
    (hfresh : b.entityId ∉ ds.map Described.entityId)
    (ha : applyDocument db b.source b.desired b.entityId now = some r) :
    Indexed before r.1 (ds ++ [b]) := by
  have hwf := wellFormed_of_reads hreads
  have hsame := h.others b.entityId hfresh
  have happlied := applied_applyDocument hwf (fun hs hsome => by
    rw [h.known hfresh]
    exact hrecord.known hs hsome) ha
  have hne : ∀ c ∈ ds, c.entityId ≠ b.entityId :=
    fun c hc heq => hfresh (heq ▸ List.mem_map_of_mem hc)
  refine ⟨(ownerEntityId_applyDocument ha).trans h.ownerEntityId, ?_, ?_, ?_, fun id hid => ?_⟩
  · rw [map_append, map_singleton, nodup_append]
    refine ⟨h.nodup, nodup_singleton _, fun id hid other hother => ?_⟩
    obtain ⟨c, hc, rfl⟩ := List.mem_map.1 hid
    rw [mem_singleton.1 hother]
    exact hne c hc
  · intro c hc
    rcases List.mem_append.1 hc with hc | hc
    · exact h.wellFormed c hc
    · rw [mem_singleton.1 hc]
      exact hwf
  · intro c hc
    rcases List.mem_append.1 hc with hc | hc
    · exact (h.applied c hc).congr rfl (.refl _ _) (sameAt_applyDocument hwf (hne c hc) ha)
    · rw [mem_singleton.1 hc]
      exact happlied.congr h.ownerEntityId.symm hsame (.refl _ _)
  · rw [map_append, List.mem_append, not_or] at hid
    have hother : id ≠ b.entityId := by simpa using hid.2
    exact (h.others id hid.1).trans (sameAt_applyDocument hwf hother ha)

/-- What a file adds to a pass. -/
theorem indexSource_eq_ok (hs : indexSource digest now p s = .ok p') :
    (describedNext digest p.db p.bound s = none ∧ p'.db = p.db ∧ p'.bound = p.bound ∧
        p'.report.changed = p.report.changed) ∨
      ∃ b changed, describedNext digest p.db p.bound s = some b ∧
        applyDocument p.db b.source b.desired b.entityId now = some (p'.db, changed) ∧
        p'.bound = p.bound ++ [(b.source.relativePath, b.entityId)] ∧
        p'.report.changed = p.report.changed + if changed then 1 else 0 := by
  unfold indexSource at hs
  unfold describedNext
  dsimp only at hs
  split_ifs at hs ⊢ with hnone
  · cases hs
    exact .inl ⟨rfl, rfl, rfl, rfl⟩
  · cases hread : readSource digest p.db p.bound s with
    | error refusal =>
      rw [hread] at hs
      cases refusal with
      | invalid message =>
        cases hs
        exact .inl ⟨rfl, rfl, rfl, rfl⟩
      | crash => cases hs
    | ok described =>
      obtain ⟨d, entityId⟩ := described
      rw [hread] at hs
      dsimp only at hs
      cases ha : applyDocument p.db s d entityId now with
      | none =>
        rw [ha] at hs
        cases hs
      | some r =>
        rw [ha] at hs
        cases hs
        refine .inr ⟨⟨s, d, entityId⟩, r.2, rfl, ha, rfl, ?_⟩
        dsimp only
        split_ifs <;> rfl

theorem Indexed.describedNext (h : Indexed before db ds) (s : Source) :
    describedNext digest db (boundOf ds) s = describedNext digest before (boundOf ds) s := by
  refine describedNext_congr h.ownerEntityId fun b _ _ _ _ _ hfresh => ?_
  rw [map_snd_boundOf] at hfresh
  exact h.known hfresh

theorem indexed_indexSource (h : Indexed before p.db ds)
    (hbound : p.bound = boundOf ds) (hfirst : s.owner = true → ds = [])
    (hs : indexSource digest now p s = .ok p') :
    p'.bound = boundOf (ds ++ (describedNext digest before (boundOf ds) s).toList) ∧
      Indexed before p'.db (ds ++ (describedNext digest before (boundOf ds) s).toList) := by
  have hnext : describedNext digest p.db p.bound s = describedNext digest before (boundOf ds) s := by
    rw [hbound]
    exact h.describedNext s
  rw [← hnext]
  rcases indexSource_eq_ok hs with ⟨hnone, hdb, hb, _⟩ | ⟨b, changed, hsome, ha, hb, _⟩
  · rw [hnone, hdb, hb]
    simpa using ⟨hbound, h⟩
  · rw [hsome, hb, hbound]
    rw [hsome] at hnext
    obtain ⟨rfl, hreads, hrecord⟩ := describedNext_eq_some.1 hnext.symm
    refine ⟨by simp [boundOf], h.snoc hreads hrecord ?_ ha⟩
    cases howner : b.source.owner with
    | true =>
      rw [hfirst howner]
      exact not_mem_nil
    | false =>
      rw [← map_snd_boundOf]
      exact hrecord.fresh howner

theorem indexed_foldlM (h : Indexed before p.db ds)
    (hbound : p.bound = boundOf ds) (hfirst : ds = [] ∨ ∀ s ∈ l, s.owner = false)
    (hrest : ∀ s ∈ l.tail, s.owner = false) (hs : l.foldlM (indexSource digest now) p = .ok p') :
    p'.bound = boundOf (describedFrom digest before ds l) ∧
      Indexed before p'.db (describedFrom digest before ds l) := by
  induction l generalizing p ds with
  | nil =>
    cases hs
    exact ⟨hbound, h⟩
  | cons s l ih =>
    obtain ⟨next, hnext, hs⟩ := bind_eq_ok.1 hs
    obtain ⟨hb, hi⟩ := indexed_indexSource h hbound (fun howner => hfirst.resolve_right fun hall => by
      rw [hall s mem_cons_self] at howner
      cases howner) hnext
    exact ih hi hb (.inr hrest) (fun t ht => hrest t (mem_of_mem_tail ht)) hs

/-! ### Passes that write nothing -/

/-- The file ends a pass. -/
def Source.Crashes (s : Source) (db : MemoryDb) : Prop :=
  ¬(s.owner = true ∧ db.ownerEntityId = none) ∧ s.reads = .error .crash

theorem reads_of_readSource_crash (h : readSource digest db bound s = .error .crash) :
    s.reads = .error .crash := by
  rw [readSource_eq] at h
  cases hreads : s.reads with
  | error refusal =>
    rw [hreads] at h
    cases h
    rfl
  | ok d =>
    rw [hreads] at h
    exfalso
    have hentity : sourceEntity digest db bound (db.ownerEntityId.getD "") s d = .error .crash := by
      cases hs : sourceEntity digest db bound (db.ownerEntityId.getD "") s d with
      | error refusal =>
        simp only [hs, bind, Except.bind] at h
        cases h
        rfl
      | ok entityId =>
        simp only [hs, bind, Except.bind] at h
        cases h
    unfold sourceEntity resolveEntityId at hentity
    dsimp only at hentity
    split_ifs at hentity <;> cases hentity

theorem not_crashes_of_indexSource (h : indexSource digest now p s = .ok p') : ¬s.Crashes p.db := by
  rintro ⟨hnone, hreads⟩
  unfold indexSource at h
  dsimp only at h
  rw [if_neg hnone, readSource_eq, hreads] at h
  cases h

theorem ownerEntityId_indexSource (h : indexSource digest now p s = .ok p') :
    p'.db.ownerEntityId = p.db.ownerEntityId := by
  rcases indexSource_eq_ok h with ⟨_, hdb, _⟩ | ⟨b, changed, _, ha, _⟩
  · rw [hdb]
  · exact ownerEntityId_applyDocument ha

theorem not_crashes_of_foldlM (h : l.foldlM (indexSource digest now) p = .ok p') :
    ∀ s ∈ l, ¬s.Crashes p.db := by
  induction l generalizing p with
  | nil => nofun
  | cons s l ih =>
    obtain ⟨next, hnext, h⟩ := bind_eq_ok.1 h
    refine forall_mem_cons.2 ⟨not_crashes_of_indexSource hnext, fun t ht hcrash => ih h t ht ?_⟩
    unfold Source.Crashes at hcrash ⊢
    rwa [ownerEntityId_indexSource hnext]

theorem quiet_indexSource (now : ℕ) (hcrash : ¬s.Crashes p.db)
    (hplace : ∀ b, describedNext digest p.db p.bound s = some b →
      DocumentInPlace p.db b.source b.desired b.entityId) :
    ∃ p', indexSource digest now p s = .ok p' ∧ p'.db = p.db ∧
      p'.bound = p.bound ++ boundOf (describedNext digest p.db p.bound s).toList ∧
      p'.report.changed = p.report.changed := by
  unfold describedNext at hplace ⊢
  unfold indexSource
  dsimp only
  split_ifs at hplace ⊢ with hnone
  · exact ⟨_, rfl, rfl, by simp [boundOf], rfl⟩
  · cases hread : readSource digest p.db p.bound s with
    | error refusal =>
      cases refusal with
      | invalid message => exact ⟨_, rfl, rfl, by simp [boundOf], rfl⟩
      | crash => exact absurd ⟨hnone, reads_of_readSource_crash hread⟩ hcrash
    | ok described =>
      obtain ⟨d, entityId⟩ := described
      rw [hread] at hplace
      have ha : applyDocument p.db s d entityId now = some (p.db, false) :=
        applyDocument_unchanged.2 ⟨rfl, hplace _ rfl⟩
      dsimp only
      rw [ha]
      exact ⟨_, rfl, rfl, rfl, rfl⟩

theorem quiet_foldlM (hbound : p.bound = boundOf ds)
    (hcrash : ∀ s ∈ l, ¬s.Crashes p.db)
    (hplace : ∀ b ∈ describedFrom digest p.db ds l,
      DocumentInPlace p.db b.source b.desired b.entityId) :
    ∃ p', l.foldlM (indexSource digest now) p = .ok p' ∧ p'.db = p.db ∧
      p'.bound = boundOf (describedFrom digest p.db ds l) ∧
      p'.report.changed = p.report.changed := by
  induction l generalizing p ds with
  | nil => exact ⟨p, rfl, rfl, hbound, rfl⟩
  | cons s l ih =>
    obtain ⟨next, hnext, hdb, hb, hchanged⟩ := quiet_indexSource now
      (hcrash s mem_cons_self) fun b hb => hplace b (mem_describedFrom_of_mem
        (mem_append_right _ (mem_toList.2 (hbound ▸ hb))) l)
    rw [hbound, ← boundOf_append] at hb
    obtain ⟨p', hp', hdb', hb', hchanged'⟩ := ih hb
      (fun t ht => hdb ▸ hcrash t (mem_cons_of_mem _ ht)) (hdb ▸ hplace)
    refine ⟨p', ?_, hdb'.trans hdb, ?_, hchanged'.trans hchanged⟩
    · rw [foldlM_cons, hnext]
      exact hp'
    · rw [hb', hdb]
      rfl

theorem changed_le_foldlM (h : l.foldlM (indexSource digest now) p = .ok p') :
    p.report.changed ≤ p'.report.changed := by
  induction l generalizing p with
  | nil =>
    cases h
    exact le_rfl
  | cons s l ih =>
    obtain ⟨next, hnext, h⟩ := bind_eq_ok.1 h
    refine le_trans ?_ (ih h)
    rcases indexSource_eq_ok hnext with ⟨_, _, _, hchanged⟩ | ⟨b, changed, _, _, _, hchanged⟩
    · exact hchanged.ge
    · omega

theorem inPlace_foldlM (hbound : p.bound = boundOf ds)
    (hds : ∀ b ∈ ds, DocumentInPlace p.db b.source b.desired b.entityId)
    (h : l.foldlM (indexSource digest now) p = .ok p')
    (hunchanged : p'.report.changed = p.report.changed) :
    p'.db = p.db ∧ ∀ b ∈ describedFrom digest p.db ds l,
      DocumentInPlace p.db b.source b.desired b.entityId := by
  induction l generalizing p ds with
  | nil =>
    cases h
    exact ⟨rfl, hds⟩
  | cons s l ih =>
    obtain ⟨next, hnext, h⟩ := bind_eq_ok.1 h
    have hle := changed_le_foldlM h
    rw [describedFrom_cons]
    rcases indexSource_eq_ok hnext with ⟨hnone, hdb, hb, hchanged⟩ |
      ⟨b, changed, hsome, ha, hb, hchanged⟩
    · rw [hbound] at hnone hb
      rw [hnone, toList_none, append_nil, ← hdb]
      exact ih hb (hdb ▸ hds) h (hunchanged.trans hchanged.symm)
    · -- a file that was written would have been counted
      have hfalse : changed = false := by
        cases changed with
        | false => rfl
        | true =>
          rw [if_pos rfl] at hchanged
          omega
      subst hfalse
      obtain ⟨hdb, hplace⟩ := applyDocument_unchanged.1 ha
      rw [hbound] at hsome hb
      rw [hsome, toList_some, ← hdb]
      refine ih (by simpa [boundOf] using hb) (fun c hc => ?_) h (by simpa [hchanged] using hunchanged)
      rw [hdb]
      rcases List.mem_append.1 hc with hc | hc
      · exact hds c hc
      · rw [mem_singleton.1 hc]
        exact hplace

end U2os.Server.Vault
