import U2os.Server.Backup.RecoveryProgress

/-!
# The reviews of a restored home

Reviews of the work and of the connectivity of a restored home, one after another, each of them a
preview or applied, and each of them stopped anywhere or not.  Nothing else changes the home.
-/

namespace U2os.Server.Backup

open Script List Option Backup FileTree

inductive ReviewCall where
  | work (apply : Bool) (fresh : Fresh)
  | connectivity (apply : Bool) (fresh : Fresh)

/-- What a call returns. -/
inductive ReviewResult where
  | work (r : WorkReview)
  | connectivity (r : ConnectivityReview)

def ReviewCall.script (D : Digests) : ReviewCall → Script Home ReviewResult
  | .work apply fresh => do
    let r ← reviewRecoveryWork apply fresh
    return .work r
  | .connectivity apply fresh => do
    let r ← reviewRecoveryConnectivity D apply fresh
    return .connectivity r

/-- Calls from a home on. -/
def reviews (D : Digests) (home : Home) : Machine Home (ReviewCall × Outcome ReviewResult) :=
  machine home (ReviewCall.script D)

/-- A home that was restored: its marker has a random id that nothing in the home mentions yet. -/
structure Restored (home : Home) (marker : Marker) (recoveryId : String) : Prop where
  isInactive : readInactiveRecoveryMarker home = some marker
  recoveryIdOf : marker.recoveryId = some recoveryId
  workQuarantine : marker.workQuarantine = none
  preparation : marker.connectivityPreparation = none
  quarantine : marker.connectivityQuarantine = none
  nothing : ∀ p, ["recovery-review", recoveryId] <+: p → home.node? p = none
  events : ∀ db, openDatabase home = some db → ∀ e ∈ db.events, e.subjectId ≠ recoveryId

variable {base : Home}

section Calls

variable {D : Digests} {home h t : Home} {marker : Marker} {recoveryId : String} {db : RecoveryDb}
  {receipt : WorkReceipt} {now : ℕ} {fresh : Fresh} {s : Survey}

theorem wp_work_of_checkpoint (apply : Bool) (hm : readInactiveRecoveryMarker h = some marker)
    (hdb : openDatabase h = some db) (hsup : db.supported = true)
    (hwork : readWorkQuarantineCheckpoint db marker = some (some receipt))
    (hid : marker.workQuarantine.map WorkReceipt.id = some receipt.id) :
    (reviewRecoveryWork apply fresh).wp (fun t => t = h)
      (fun r t => r = some ⟨true, receipt.counts, if apply then some receipt else none⟩ ∧ t = h)
      h := by
  unfold reviewRecoveryWork
  refine wp_get_bind ?_
  rw [hm, hdb]
  refine wp_ofOption_bind nofun fun _ heq => ?_
  obtain rfl := some.inj heq
  refine wp_ofOption_bind nofun fun _ heq => ?_
  obtain rfl := some.inj heq
  refine wp_ensure_bind (fun hnot => absurd hsup hnot) fun _ => ?_
  rw [hwork]
  refine wp_ofOption_bind nofun fun _ heq => ?_
  obtain rfl := some.inj heq
  dsimp only
  unfold confirmWork
  rw [wp_bind]
  exact wp_when (fun hnot => absurd hid hnot.2) fun _ => ⟨rfl, rfl, rfl, rfl⟩

theorem wp_workPreview (home : Home) (fresh : Fresh) :
    (reviewRecoveryWork false fresh).wp (fun t => t = home) (fun _ t => t = home) home := by
  unfold reviewRecoveryWork
  refine wp_get_bind (wp_ofOption_bind (fun _ => ⟨rfl, rfl⟩) fun m _ => ?_)
  refine wp_ofOption_bind (fun _ => ⟨rfl, rfl⟩) fun db _ => ?_
  refine wp_ensure_bind (fun _ => ⟨rfl, rfl⟩) fun _ => ?_
  refine wp_ofOption_bind (fun _ => ⟨rfl, rfl⟩) fun found _ => ?_
  cases found with
  | none => exact ⟨rfl, rfl⟩
  | some receipt =>
    dsimp only
    unfold confirmWork
    rw [wp_bind]
    exact wp_when (fun hnot => absurd hnot.1 Bool.false_ne_true) fun _ => ⟨rfl, rfl, rfl⟩

/-! ### The homes that reviews leave -/

/-- The database after the work review. -/
def stoppedHome (home : Home) (recoveryId : String) (db : RecoveryDb) (receipt : WorkReceipt)
    (now : ℕ) : Home :=
  home.set databaseFile (.file (.database (quarantineWork db recoveryId receipt now)))

/-- The home after the work review. -/
def quarantinedHome (home : Home) (marker : Marker) (recoveryId : String) (db : RecoveryDb)
    (receipt : WorkReceipt) (now : ℕ) : Home :=
  (stoppedHome home recoveryId db receipt now).set recoveryFile
    (.file (.marker { marker with workQuarantine := some receipt }))

/-- The work of the database can be stopped, and the receipt says what was. -/
structure Stoppable (home : Home) (db : RecoveryDb) (receipt : WorkReceipt) : Prop where
  database : openDatabase home = some db
  supported : db.supported = true
  valid : receipt.isValid = true
  counts : receipt.counts = counts db

/-- The homes after the work review: nothing else was done, or connectivity is under review. -/
def WorkDone (D : Digests) (base h : Home) : Prop :=
  SameBut base h ∨ ∃ s, Ready D base s ∧ Progress D base s h

/-- The work review was made, with this receipt. -/
def WorkApplied (D : Digests) (home : Home) (marker : Marker) (recoveryId : String)
    (receipt : WorkReceipt) (h : Home) : Prop :=
  ∃ db now, Stoppable home db receipt ∧
    WorkDone D (quarantinedHome home marker recoveryId db receipt now) h

/-- The homes that reviews leave. -/
inductive Reviewed (D : Digests) (home : Home) (marker : Marker) (recoveryId : String) :
    Home → Prop where
  | restored {h : Home} (hs : SameBut home h) : Reviewed D home marker recoveryId h
  | stopped {h : Home} {db : RecoveryDb} {receipt : WorkReceipt} {now : ℕ}
      (hstop : Stoppable home db receipt)
      (hs : SameBut (stoppedHome home recoveryId db receipt now) h) :
      Reviewed D home marker recoveryId h
  | applied {h : Home} {receipt : WorkReceipt}
      (ha : WorkApplied D home marker recoveryId receipt h) : Reviewed D home marker recoveryId h

theorem SameBut.readInactiveRecoveryMarker (hs : SameBut home h) :
    readInactiveRecoveryMarker h = readInactiveRecoveryMarker home := by
  unfold Backup.readInactiveRecoveryMarker readInstallationIdentity FileTree.read?
  rw [hs _ (by decide), hs _ (by decide)]

theorem Stoppable.openDatabase (hstop : Stoppable home db receipt) :
    openDatabase (stoppedHome home recoveryId db receipt now) =
      some (quarantineWork db recoveryId receipt now) := by
  obtain ⟨hdir, _⟩ := openDatabase_eq_some.1 hstop.database
  refine openDatabase_eq_some.2 ⟨?_, ?_⟩
  · rw [stoppedHome, node?_set, if_neg (by decide), hdir]
  · rw [stoppedHome, node?_set, if_pos rfl]

theorem node?_quarantinedHome {p : List String} (hp : p ≠ recoveryFile)
    (hp' : p ≠ databaseFile) :
    (quarantinedHome home marker recoveryId db receipt now).node? p = home.node? p := by
  rw [quarantinedHome, stoppedHome, node?_set, if_neg hp, node?_set, if_neg hp']

theorem Stoppable.openDatabase_quarantined (hstop : Stoppable home db receipt) :
    Backup.openDatabase (quarantinedHome home marker recoveryId db receipt now) =
      some (quarantineWork db recoveryId receipt now) := by
  rw [quarantinedHome, openDatabase_set_recoveryFile, hstop.openDatabase]

theorem SameActive.set (hs : SameActive home h) {p : List String} (n : Node Content)
    (hp : p.head? ≠ some "credentials" ∧ p.head? ≠ some "config") : SameActive home (h.set p n) := by
  intro x hx
  rw [node?_set, if_neg, hs x hx]
  rintro rfl
  exact hx.elim hp.1 hp.2

theorem sameActive_stoppedHome : SameActive home (stoppedHome home recoveryId db receipt now) :=
  SameActive.set (fun _ _ => rfl) _ (by decide)

theorem sameActive_quarantinedHome :
    SameActive home (quarantinedHome home marker recoveryId db receipt now) :=
  sameActive_stoppedHome.set _ (by decide)

section Restored

variable (h0 : Restored home marker recoveryId)

include h0

theorem Restored.events_eq_nil (hdb : openDatabase home = some db) :
    workEvents db marker = [] ∧ connectivityEvents db marker = [] := by
  constructor
  · refine filter_eq_nil_iff.2 fun e he => ?_
    simp [h0.recoveryIdOf, h0.events db hdb e he]
  · refine filter_eq_nil_iff.2 fun e he => ?_
    simp [h0.recoveryIdOf, h0.events db hdb e he]

theorem Restored.checkpoint (hdb : openDatabase home = some db) :
    readWorkQuarantineCheckpoint db marker = some none := by
  unfold readWorkQuarantineCheckpoint
  rw [(h0.events_eq_nil hdb).1]
  simp [h0.workQuarantine]

theorem Restored.marker_stopped :
    readInactiveRecoveryMarker (stoppedHome home recoveryId db receipt now) = some marker := by
  rw [← h0.isInactive]
  unfold readInactiveRecoveryMarker readInstallationIdentity read? stoppedHome
  rw [node?_set, node?_set, if_neg (by decide), if_neg (by decide)]

theorem Restored.checkpoint_stopped (hstop : Stoppable home db receipt) (now : ℕ) {marker' : Marker}
    (hid : marker'.recoveryId = some recoveryId) :
    readWorkQuarantineCheckpoint (quarantineWork db recoveryId receipt now) marker' =
      some (some receipt) :=
  readWorkQuarantineCheckpoint_quarantineWork (h0.checkpoint hstop.database) h0.recoveryIdOf hid
    hstop.valid

theorem Restored.marker_quarantined :
    readInactiveRecoveryMarker (quarantinedHome home marker recoveryId db receipt now) =
      some { marker with workQuarantine := some receipt } := by
  have hinactive := readInactiveRecoveryMarker_eq_some h0.isInactive
  have hidentity : readInstallationIdentity (quarantinedHome home marker recoveryId db receipt now) =
      readInstallationIdentity home := by
    unfold readInstallationIdentity read? quarantinedHome stoppedHome
    rw [node?_set, node?_set, if_neg (by decide), if_neg (by decide)]
  unfold readInactiveRecoveryMarker read?
  rw [hidentity, quarantinedHome, node?_set, if_pos rfl]
  exact if_pos hinactive

theorem Restored.survey_eq_some (hstop : Stoppable home db receipt) :
    survey D (quarantinedHome home marker recoveryId db receipt now) = some s ↔
      s.marker = { marker with workQuarantine := some receipt } ∧
      s.db = quarantineWork db recoveryId receipt now ∧ s.work = receipt ∧
      db.supportedConnectivity = true ∧ databaseState D db = some s.state ∧
      activeFiles D home = some s.files ∧ s.master = fingerprint D home masterKey ∧
      hasMaster s.master s.files = true := by
  have hcheckpoint : readWorkQuarantineCheckpoint (quarantineWork db recoveryId receipt now)
      { marker with workQuarantine := some receipt } = some (some receipt) :=
    h0.checkpoint_stopped hstop now h0.recoveryIdOf
  rw [Backup.survey_eq_some, h0.marker_quarantined, hstop.openDatabase_quarantined,
    sameActive_quarantinedHome.activeFiles, sameActive_quarantinedHome.fingerprint (.inl rfl)]
  constructor
  · rintro ⟨hm, hdb, hsup, hwork, _, hstate, hfiles, hmaster, hhas⟩
    have hm' := (Option.some.inj hm).symm
    have hdb' := (Option.some.inj hdb).symm
    rw [hm', hdb', hcheckpoint] at hwork
    rw [hdb'] at hsup hstate
    exact ⟨hm', hdb', (Option.some.inj hwork).symm, hsup.2, hstate, hfiles, hmaster, hhas⟩
  · rintro ⟨hm, hdb, hw, hsup, hstate, hfiles, hmaster, hhas⟩
    rw [hm, hdb, hw, hcheckpoint]
    exact ⟨rfl, rfl, ⟨hstop.supported, hsup⟩, rfl, ⟨rfl, by simp [h0.recoveryIdOf]⟩, hstate, hfiles,
      hmaster, hhas⟩

/-- A quarantined home that was restored is ready for the review of its connections. -/
theorem Restored.ready (hstop : Stoppable home db receipt)
    (hs : survey D (quarantinedHome home marker recoveryId db receipt now) = some s) :
    Ready D (quarantinedHome home marker recoveryId db receipt now) s := by
  obtain ⟨hm, hdb, _⟩ := (h0.survey_eq_some hstop).1 hs
  have hrid : s.marker.recoveryId.getD "" = recoveryId := by
    rw [hm]
    simp [h0.recoveryIdOf]
  refine ⟨hs, ?_, ?_, ?_, fun p hp => ?_⟩
  · rw [hm]
    exact h0.preparation
  · rw [hm]
    exact h0.quarantine
  · rw [hdb, hm]
    have hnone := (h0.events_eq_nil hstop.database).2
    unfold connectivityEvents at hnone ⊢
    change (db.events ++ _).filter _ = []
    rw [filter_append, hnone]
    have htype : workEventType ≠ connectivityEventType := by decide
    simp [htype]
  · rw [hrid] at hp
    rw [node?_quarantinedHome, h0.nothing p hp]
    · rintro rfl
      exact absurd hp (by simp [recoveryFile])
    · rintro rfl
      exact absurd hp (by simp [databaseFile])

end Restored

/-! ### What a call does -/

theorem Progress.reads (hp : Progress D base s h) (hr : Ready D base s) :
    ∃ marker' db', readInactiveRecoveryMarker h = some marker' ∧ openDatabase h = some db' ∧
      db'.supported = s.db.supported ∧
      readWorkQuarantineCheckpoint db' marker' = readWorkQuarantineCheckpoint s.db s.marker ∧
      marker'.workQuarantine = s.marker.workQuarantine := by
  obtain ⟨hm, hdb, _⟩ := survey_eq_some.1 hr.survey
  cases hp with
  | before hs =>
    rw [hs.readInactiveRecoveryMarker, hs.openDatabase]
    exact ⟨_, _, hm, hdb, rfl, rfl, rfl⟩
  | @opened id _ _ ho =>
    exact ⟨s.opened id, s.db, hr.readInactiveRecoveryMarker ho.toFramed (by simp) fun _ => rfl,
      hr.openDatabase ho.toFramed (by simp), rfl, rfl, rfl⟩
  | @published id now _ _ hp =>
    have hallowed := (hr.inventoried id now).allowed
    exact ⟨s.opened id, s.db, hr.readInactiveRecoveryMarker hp.toFramed hallowed fun _ => rfl,
      hr.openDatabase hp.toFramed hallowed, rfl, rfl, rfl⟩
  | @committed id now marker' _ _ hm' hc =>
    have hallowed := (hr.inventoried id now).allowed
    refine ⟨marker', _, hr.readInactiveRecoveryMarker hc.toFramed hallowed ?_,
      hr.openDatabase hc.toFramed hallowed, rfl, ?_, ?_⟩
    · rcases hm' with rfl | rfl <;> exact fun _ => rfl
    · rw [readWorkQuarantineCheckpoint_quarantineConnectivity]
      rcases hm' with rfl | rfl <;> rfl
    · rcases hm' with rfl | rfl <;> rfl

theorem Progress.openDatabase (hp : Progress D base s h) (hr : Ready D base s) :
    openDatabase h = some s.db ∨ ∃ recoveryId receipt,
      openDatabase h = some (quarantineConnectivity s.db recoveryId receipt) := by
  obtain ⟨_, hdb, _⟩ := survey_eq_some.1 hr.survey
  cases hp with
  | before hs => exact .inl (hs.openDatabase.trans hdb)
  | opened _ _ ho => exact .inl (hr.openDatabase ho.toFramed (by simp))
  | published _ _ hp => exact .inl (hr.openDatabase hp.toFramed (hr.inventoried _ _).allowed)
  | committed _ _ _ hc =>
    exact .inr ⟨_, _, hr.openDatabase hc.toFramed (hr.inventoried _ _).allowed⟩

/-- A database is as it was, or changed as a whole. -/
def DatabaseStep (h t : Home) : Prop :=
  openDatabase t = openDatabase h ∨ ∃ db, openDatabase h = some db ∧
    ((∃ recoveryId receipt now,
      openDatabase t = some (quarantineWork db recoveryId receipt now)) ∨
    ∃ recoveryId receipt, openDatabase t = some (quarantineConnectivity db recoveryId receipt))

theorem DatabaseStep.refl (h : Home) : DatabaseStep h h := .inl rfl

/-- A call in a home with progress makes progress, or comes to its end. -/
theorem Progress.connect (hp : Progress D base s h) (hr : Ready D base s)
    (fresh : Fresh) :
    (reviewRecoveryConnectivity D true fresh).wp
      (fun t => Progress D base s t ∧ DatabaseStep h t) (Ends D base s) h := by
  have hgo : Backup.openDatabase h = some s.db →
      (reviewRecoveryConnectivity D true fresh).wp
        (fun t => Progress D base s t ∧ DatabaseStep h t) (Ends D base s) h := by
    intro hdb
    refine wp_mono (wp_apply hr hp) (fun t ht => ⟨ht, ?_⟩) fun _ _ ht => ht
    rcases ht.openDatabase hr with hsame | ⟨recoveryId, receipt, hchanged⟩
    · exact .inl (hsame.trans hdb.symm)
    · exact .inr ⟨s.db, hdb, .inr ⟨recoveryId, receipt, hchanged⟩⟩
  obtain ⟨_, hdb, _⟩ := Backup.survey_eq_some.1 hr.survey
  cases hp with
  | before hs => exact hgo (hs.openDatabase.trans hdb)
  | opened _ _ ho => exact hgo (hr.openDatabase ho.toFramed (by simp))
  | published _ _ hp => exact hgo (hr.openDatabase hp.toFramed (hr.inventoried _ _).allowed)
  | @committed id now marker' hid hconn hm hc =>
    -- what is committed stays, so the database does
    have hallowed := (hr.inventoried id now).allowed
    have hsame : ∀ {m t}, Committed base s id now m t → DatabaseStep h t := fun ht => .inl
      ((hr.openDatabase ht.toFramed hallowed).trans (hr.openDatabase hc.toFramed hallowed).symm)
    refine wp_mono (wp_committed hr hid hconn hm hc) ?_ ?_
    · rintro t (ht | ht)
      · exact ⟨.committed hid hconn hm ht, hsame ht⟩
      · exact ⟨.committed hid hconn (.inr rfl) ht, hsame ht⟩
    · rintro r t ⟨rfl, ht⟩
      exact .inl ⟨true, id, now, rfl, hconn, hid, ht⟩

theorem WorkDone.work (h0 : Restored home marker recoveryId) (hstop : Stoppable home db receipt)
    (hd : WorkDone D (quarantinedHome home marker recoveryId db receipt now) h) (apply : Bool)
    (fresh : Fresh) :
    (reviewRecoveryWork apply fresh).wp (fun t => t = h)
      (fun r t => r = some ⟨true, receipt.counts, if apply then some receipt else none⟩ ∧ t = h)
      h := by
  have hcheckpoint : readWorkQuarantineCheckpoint (quarantineWork db recoveryId receipt now)
      { marker with workQuarantine := some receipt } = some (some receipt) :=
    h0.checkpoint_stopped hstop now h0.recoveryIdOf
  have hsupported : (quarantineWork db recoveryId receipt now).supported = true := hstop.supported
  rcases hd with hs | ⟨s, hr, hp⟩
  · refine wp_work_of_checkpoint apply ?_ ?_ hsupported hcheckpoint rfl
    · rw [hs.readInactiveRecoveryMarker, h0.marker_quarantined]
    · rw [hs.openDatabase, hstop.openDatabase_quarantined]
  · obtain ⟨hm, hdb, _⟩ := (h0.survey_eq_some hstop).1 hr.survey
    obtain ⟨marker', db', hmarker, hopen, hsup, hwork, hkept⟩ := hp.reads hr
    rw [hdb, hm, hcheckpoint] at hwork
    refine wp_work_of_checkpoint apply hmarker hopen ?_ hwork ?_
    · rw [hsup, hdb]
      exact hsupported
    · rw [hkept, hm]
      rfl

/-- The review of connectivity came to its end. -/
structure Connected (D : Digests) (base : Home) (s : Survey) (receipt : ConnectivityReceipt)
    (h : Home) : Prop where
  ready : Ready D base s
  connectable : Connectable D base s
  committed : ∃ id now, isUuid id = true ∧ receipt = (s.plan id now).receipt ∧
    Committed base s id now (s.closed id now) h

/-- A call in a home whose work is done makes progress, or comes to its end. -/
theorem WorkDone.connect (hready : ∀ s, survey D base = some s → Ready D base s)
    (hd : WorkDone D base h) (fresh : Fresh) :
    (reviewRecoveryConnectivity D true fresh).wp
      (fun t => WorkDone D base t ∧ DatabaseStep h t)
      (fun r t => (r = none ∧ ∀ s, Ready D base s → ¬Connectable D base s) ∨
        ∃ s already receipt, r = some ⟨already, false, s.counts⟩ ∧ Connected D base s receipt t)
      h := by
  have happly : ∀ s, Ready D base s → Progress D base s h →
      (reviewRecoveryConnectivity D true fresh).wp
        (fun t => WorkDone D base t ∧ DatabaseStep h t)
        (fun r t => (r = none ∧ ∀ s, Ready D base s → ¬Connectable D base s) ∨
          ∃ s already receipt, r = some ⟨already, false, s.counts⟩ ∧ Connected D base s receipt t)
        h := by
    intro s hr hp
    refine wp_mono (hp.connect hr fresh) (fun t ht => ⟨.inr ⟨s, hr, ht.1⟩, ht.2⟩) fun r t ht => ?_
    rcases ht with ⟨already, id, now, hret, hconn, hid, hc⟩ | ⟨hret, hconn, _⟩
    · exact .inr ⟨s, already, _, hret, hr, hconn, id, now, hid, rfl, hc⟩
    · refine .inl ⟨hret, fun s' hr' => ?_⟩
      obtain rfl := some.inj (hr.survey.symm.trans hr'.survey)
      exact hconn
  rcases hd with hs | ⟨s, hr, hp⟩
  · cases hsurvey : survey D base with
    | some s => exact happly s (hready s hsurvey) (.before hs)
    | none =>
      unfold reviewRecoveryConnectivity
      refine wp_get_bind (wp_ofOption_bind (fun _ => ?_) fun s heq => ?_)
      · refine ⟨⟨.inl hs, .refl h⟩, .inl ⟨rfl, fun s hr => ?_⟩⟩
        rw [hr.survey] at hsurvey
        cases hsurvey
      · rw [hs.survey, hsurvey] at heq
        cases heq
  · exact happly s hr hp

theorem Connected.connect {receipt : ConnectivityReceipt}
    (hc : Connected D base s receipt h) (apply : Bool) (fresh : Fresh) :
    (reviewRecoveryConnectivity D apply fresh).wp (Connected D base s receipt)
      (fun r _ => r = some ⟨true, false, s.counts⟩) h := by
  obtain ⟨id, now, hid, hreceipt, hcommitted⟩ := hc.committed
  refine wp_mono (wp_committed hc.ready hid hc.connectable (.inr rfl) hcommitted) ?_ fun _ _ h => h.1
  rintro t (ht | ht) <;> exact ⟨hc.ready, hc.connectable, id, now, hid, hreceipt, ht⟩

theorem Connected.has_receipt {receipt : ConnectivityReceipt}
    (hc : Connected D base s receipt h) : ∃ m, readInactiveRecoveryMarker h = some m ∧
      m.connectivityQuarantine = some receipt := by
  obtain ⟨id, now, _, hreceipt, hcommitted⟩ := hc.committed
  have hi := hc.ready.inventoried id now
  refine ⟨s.closed id now, ?_, congrArg some hreceipt.symm⟩
  exact hc.ready.readInactiveRecoveryMarker hcommitted.toFramed hi.allowed fun _ => rfl

theorem Connected.workDone {receipt : ConnectivityReceipt}
    (hc : Connected D base s receipt h) : WorkDone D base h := by
  obtain ⟨id, now, hid, _, hcommitted⟩ := hc.committed
  exact .inr ⟨s, hc.ready, .committed hid hc.connectable (.inr rfl) hcommitted⟩

/-! ### The work review of a restored home -/

/-- What an applied review of the work returns, and leaves. -/
def EndsWork (D : Digests) (home : Home) (marker : Marker) (recoveryId : String)
    (r : Option WorkReview) (t : Home) : Prop :=
  (r = none ∧ ∀ db receipt, ¬Stoppable home db receipt) ∨
    ∃ already receipt, r = some ⟨already, receipt.counts, some receipt⟩ ∧
      WorkApplied D home marker recoveryId receipt t

theorem wp_write_quarantined {suffix : Suffix} (hstop : Stoppable home db receipt)
    (hs : SameBut (stoppedHome home recoveryId db receipt now) t) {Q : Option Unit → Home → Prop}
    (hstep : ∀ u, openDatabase u = openDatabase t → DatabaseStep h u)
    (hend : ∀ u, WorkApplied D home marker recoveryId receipt u → DatabaseStep h u →
      Q (some ()) u) :
    (writeRecoveryState suffix { marker with workQuarantine := some receipt }).wp
      (fun u => Reviewed D home marker recoveryId u ∧ DatabaseStep h u) Q t := by
  refine wp_writeRecoveryState (fun u hu => ?_) fun u hu => ?_
  · exact ⟨.stopped hstop (hs.trans hu), hstep u hu.openDatabase⟩
  · have happlied : WorkApplied D home marker recoveryId receipt u :=
      ⟨db, now, hstop, .inl ((hs.set _ _).trans hu)⟩
    have hsame : DatabaseStep h u :=
      hstep u (hu.openDatabase.trans (openDatabase_set_recoveryFile t _))
    exact ⟨⟨.applied happlied, hsame⟩, hend u happlied hsame⟩

/-- The review of the work of a restored home comes to its end, or stops with what it did kept. -/
theorem wp_work_of_restored (D : Digests) (fresh : Fresh) (h0 : Restored home marker recoveryId)
    (hs : SameBut home h) :
    (reviewRecoveryWork true fresh).wp
      (fun t => Reviewed D home marker recoveryId t ∧ DatabaseStep h t)
      (EndsWork D home marker recoveryId) h := by
  have hrefused : (∀ db receipt, ¬Stoppable home db receipt) →
      (Reviewed D home marker recoveryId h ∧ DatabaseStep h h) ∧
        EndsWork D home marker recoveryId none h :=
    fun hnot => ⟨⟨.restored hs, .refl h⟩, .inl ⟨rfl, hnot⟩⟩
  unfold reviewRecoveryWork
  refine wp_get_bind ?_
  rw [hs.readInactiveRecoveryMarker, h0.isInactive, hs.openDatabase]
  refine wp_ofOption_bind nofun fun _ heq => ?_
  obtain rfl := some.inj heq
  refine wp_ofOption_bind (fun hnone => hrefused fun db receipt hstop => ?_) fun db hdb => ?_
  · rw [hstop.database] at hnone
    cases hnone
  refine wp_ensure_bind (fun hnot => hrefused fun db' receipt hstop => ?_) fun hsup => ?_
  · obtain rfl := some.inj (hdb.symm.trans hstop.database)
    exact hnot hstop.supported
  rw [h0.checkpoint hdb]
  refine wp_ofOption_bind nofun fun _ heq => ?_
  obtain rfl := some.inj heq
  have hstop : Stoppable home db (newWorkReceipt fresh db) :=
    ⟨hdb, hsup, newWorkReceipt_isValid fresh db, rfl⟩
  have hdbh : openDatabase h = some db := hs.openDatabase.trans hdb
  have hid : marker.recoveryId.getD fresh.recoveryId.1 = recoveryId := by
    rw [h0.recoveryIdOf]
    rfl
  have hidentified : identified fresh marker = marker := by
    unfold identified
    rw [hid, ← h0.recoveryIdOf]
  dsimp only
  rw [if_pos rfl]
  unfold applyWork
  rw [wp_bind]
  refine wp_when (fun hnone => absurd (h0.recoveryIdOf.symm.trans hnone) (some_ne_none _))
    fun _ => ⟨⟨.restored hs, .refl h⟩, ?_⟩
  unfold stopWork
  rw [hidentified, hid, wp_bind, wp_modify]
  have hstopped : SameBut (stoppedHome home recoveryId db (newWorkReceipt fresh db) fresh.now)
      (commit (fun db' => quarantineWork db' recoveryId (newWorkReceipt fresh db) fresh.now) h) := by
    unfold commit read?
    rw [(openDatabase_eq_some.1 hdbh).2]
    exact hs.set _ _
  have hstep : ∀ u, openDatabase u = openDatabase
      (commit (fun db' => quarantineWork db' recoveryId (newWorkReceipt fresh db) fresh.now) h) →
      DatabaseStep h u := by
    intro u hu
    rw [openDatabase_commit _ hdbh] at hu
    exact .inr ⟨db, hdbh, .inl ⟨recoveryId, _, fresh.now, hu⟩⟩
  refine ⟨⟨.restored hs, .refl h⟩, ⟨.stopped hstop hstopped, hstep _ rfl⟩, ?_⟩
  rw [wp_bind]
  exact wp_write_quarantined hstop hstopped hstep fun u hu hsame =>
    ⟨⟨.applied hu, hsame⟩, .inr ⟨false, _, rfl, hu⟩⟩

theorem wp_work_of_stopped (h0 : Restored home marker recoveryId) (hstop : Stoppable home db receipt)
    (hs : SameBut (stoppedHome home recoveryId db receipt now) h) :
    (reviewRecoveryWork true fresh).wp
      (fun t => Reviewed D home marker recoveryId t ∧ DatabaseStep h t)
      (EndsWork D home marker recoveryId) h := by
  have hsupported : (quarantineWork db recoveryId receipt now).supported = true := hstop.supported
  unfold reviewRecoveryWork
  refine wp_get_bind ?_
  rw [hs.readInactiveRecoveryMarker, h0.marker_stopped, hs.openDatabase, hstop.openDatabase]
  refine wp_ofOption_bind nofun fun _ heq => ?_
  obtain rfl := some.inj heq
  refine wp_ofOption_bind nofun fun _ heq => ?_
  obtain rfl := some.inj heq
  refine wp_ensure_bind (fun hnot => absurd hsupported hnot) fun _ => ?_
  rw [h0.checkpoint_stopped hstop _ h0.recoveryIdOf]
  refine wp_ofOption_bind nofun fun _ heq => ?_
  obtain rfl := some.inj heq
  dsimp only
  unfold confirmWork
  rw [wp_bind]
  refine wp_when (fun _ => ?_) fun hnot => absurd ⟨rfl, ?_⟩ hnot
  · exact wp_write_quarantined hstop hs (fun u hu => .inl hu) fun u hu hsame =>
      ⟨⟨.applied hu, hsame⟩, .inr ⟨true, _, rfl, hu⟩⟩
  · rw [h0.workQuarantine]
    exact (some_ne_none _).symm

theorem WorkApplied.work (h0 : Restored home marker recoveryId)
    (ha : WorkApplied D home marker recoveryId receipt h) (apply : Bool) (fresh : Fresh) :
    (reviewRecoveryWork apply fresh).wp (fun t => t = h)
      (fun r t => r = some ⟨true, receipt.counts, if apply then some receipt else none⟩ ∧ t = h)
      h := by
  obtain ⟨_, _, hstop, hd⟩ := ha
  exact hd.work h0 hstop apply fresh

theorem Reviewed.work (h0 : Restored home marker recoveryId)
    (hrev : Reviewed D home marker recoveryId h) (fresh : Fresh) :
    (reviewRecoveryWork true fresh).wp
      (fun t => Reviewed D home marker recoveryId t ∧ DatabaseStep h t)
      (EndsWork D home marker recoveryId) h := by
  cases hrev with
  | restored hs => exact wp_work_of_restored D _ h0 hs
  | stopped hstop hs => exact wp_work_of_stopped h0 hstop hs
  | applied ha =>
    refine wp_mono (ha.work h0 true fresh) ?_ ?_
    · rintro t rfl
      exact ⟨.applied ha, .refl t⟩
    · rintro r t ⟨rfl, rfl⟩
      exact .inr ⟨true, _, rfl, ha⟩

theorem survey_of_workQuarantine_none (hm : readInactiveRecoveryMarker h = some marker)
    (hnone : marker.workQuarantine = none) : survey D h = none := by
  refine eq_none_iff_forall_ne_some.2 fun s hs => ?_
  obtain ⟨hmarker, _, _, _, hids, _⟩ := survey_eq_some.1 hs
  rw [hm] at hmarker
  obtain rfl := some.inj hmarker
  rw [hnone] at hids
  exact absurd hids.1.symm (some_ne_none _)

theorem wp_connect_of_survey (apply : Bool) (hsurvey : survey D h = none) :
    (reviewRecoveryConnectivity D apply fresh).wp (fun t => t = h) (fun r t => r = none ∧ t = h)
      h := by
  unfold reviewRecoveryConnectivity
  refine wp_get_bind ?_
  rw [hsurvey]
  exact ⟨rfl, rfl, rfl⟩

theorem Reviewed.connect (h0 : Restored home marker recoveryId)
    (hrev : Reviewed D home marker recoveryId h) (fresh : Fresh) :
    (reviewRecoveryConnectivity D true fresh).wp
      (fun t => Reviewed D home marker recoveryId t ∧ DatabaseStep h t) (fun _ _ => True) h := by
  have hrefused : survey D h = none →
      (reviewRecoveryConnectivity D true fresh).wp
        (fun t => Reviewed D home marker recoveryId t ∧ DatabaseStep h t) (fun _ _ => True) h :=
    fun hnone => wp_mono (wp_connect_of_survey true hnone)
      (by rintro t rfl; exact ⟨hrev, .refl t⟩) fun _ _ _ => trivial
  cases hrev with
  | restored hs =>
    refine hrefused (survey_of_workQuarantine_none ?_ h0.workQuarantine)
    rw [hs.readInactiveRecoveryMarker, h0.isInactive]
  | stopped hstop hs =>
    refine hrefused (survey_of_workQuarantine_none ?_ h0.workQuarantine)
    rw [hs.readInactiveRecoveryMarker, h0.marker_stopped]
  | applied ha =>
    obtain ⟨db, now, hstop, hd⟩ := ha
    refine wp_mono (hd.connect (fun s => h0.ready hstop) fresh) ?_ fun _ _ _ => trivial
    exact fun t ht => ⟨.applied ⟨db, now, hstop, ht.1⟩, ht.2⟩

theorem Reviewed.call (h0 : Restored home marker recoveryId)
    (hrev : Reviewed D home marker recoveryId h) (c : ReviewCall) :
    (c.script D).wp (fun t => Reviewed D home marker recoveryId t ∧ DatabaseStep h t)
      (fun _ _ => True) h := by
  have hsame : ∀ t, t = h → Reviewed D home marker recoveryId t ∧ DatabaseStep h t := by
    rintro t rfl
    exact ⟨hrev, .refl t⟩
  rcases c with ⟨apply, fresh⟩ | ⟨apply, fresh⟩
  · refine wp_map ?_
    cases apply with
    | false => exact wp_mono (wp_workPreview h fresh) hsame fun _ _ _ => trivial
    | true => exact wp_mono (hrev.work h0 fresh) (fun _ ht => ht) fun _ _ _ => trivial
  · refine wp_map ?_
    cases apply with
    | false => exact wp_mono (wp_preview h fresh) hsame fun _ _ _ => trivial
    | true => exact hrev.connect h0 fresh

theorem WorkApplied.call (h0 : Restored home marker recoveryId)
    (ha : WorkApplied D home marker recoveryId receipt h) (c : ReviewCall) :
    (c.script D).wp (WorkApplied D home marker recoveryId receipt) (fun _ _ => True) h := by
  have hsame : ∀ t, t = h → WorkApplied D home marker recoveryId receipt t := by
    rintro t rfl
    exact ha
  rcases c with ⟨apply, fresh⟩ | ⟨apply, fresh⟩
  · exact wp_map (wp_mono (ha.work h0 apply fresh) hsame fun _ _ _ => trivial)
  · refine wp_map ?_
    cases apply with
    | false => exact wp_mono (wp_preview h fresh) hsame fun _ _ _ => trivial
    | true =>
      obtain ⟨db, now, hstop, hd⟩ := ha
      exact wp_mono (hd.connect (fun s => h0.ready hstop) fresh)
        (fun t ht => ⟨db, now, hstop, ht.1⟩) fun _ _ _ => trivial

theorem Connected.call (h0 : Restored home marker recoveryId) (hstop : Stoppable home db receipt)
    {receipt' : ConnectivityReceipt}
    (hc : Connected D (quarantinedHome home marker recoveryId db receipt now) s receipt' h)
    (c : ReviewCall) :
    (c.script D).wp (Connected D (quarantinedHome home marker recoveryId db receipt now) s receipt')
      (fun _ _ => True) h := by
  rcases c with ⟨apply, fresh⟩ | ⟨apply, fresh⟩
  · refine wp_map (wp_mono (hc.workDone.work h0 hstop apply fresh) ?_ fun _ _ _ => trivial)
    rintro t rfl
    exact hc
  · exact wp_map (wp_mono (hc.connect apply fresh) (fun _ ht => ht) fun _ _ _ => trivial)

theorem invariant_reviews {C : Home → Prop} (hC : C home)
    (hcall : ∀ h c, C h → (ReviewCall.script D c).wp C (fun _ _ => True) h)
    {ls : List (ReviewCall × Outcome ReviewResult)} (hrun : (reviews D home).Run ls h) : C h :=
  (run_machine (R := fun _ _ => True) hC (fun c h hh => hcall h c hh) hrun).1

end Calls

end U2os.Server.Backup
