import U2os.Server.Backup.RecoverySteps

/-!
# The progress of a review of connectivity

Every home that a review leaves, wherever it stops, is one that the next review goes on from, and
the review that comes to its end leaves one where it is known to be applied.
-/

namespace U2os.Server.Backup

open Script List Option

section Progress

variable {D : Digests} {base h t : Home} {marker : Marker} {db : RecoveryDb} {s : Survey}
  {id : String} {now : ℕ} {fresh : Fresh} {apply : Bool}

/-- The review can be brought to its end: there is room for its folder, and the accounts can be
disconnected. -/
def Connectable (D : Digests) (base : Home) (s : Survey) : Prop :=
  isFree base ["recovery-review"] = true ∧
    (databaseState D (disconnect s.db)).map DatabaseState.hash = some s.state.afterHash

/-- The homes between the first step of the review and the last one. -/
inductive Progress (D : Digests) (base : Home) (s : Survey) : Home → Prop where
  | before {h : Home} (hs : SameBut base h) : Progress D base s h
  | opened {h : Home} {id : String} (hid : isUuid id = true)
      (hfree : isFree base ["recovery-review"] = true) (ho : Opened base (s.opened id) s.db h) :
      Progress D base s h
  | published {h : Home} {id : String} {now : ℕ} (hid : isUuid id = true)
      (hfree : isFree base ["recovery-review"] = true)
      (hp : Published base (s.opened id) s.db (s.plan id now) h) : Progress D base s h
  | committed {h : Home} {id : String} {now : ℕ} {marker : Marker} (hid : isUuid id = true)
      (hconn : Connectable D base s) (hm : s.isClosing id now marker)
      (hc : Committed base s id now marker h) : Progress D base s h

/-- How an applied review ends: at the last marker, or refused. -/
def Ends (D : Digests) (base : Home) (s : Survey) (r : Option ConnectivityReview) (t : Home) :
    Prop :=
  (∃ already id now, r = some ⟨already, false, s.counts⟩ ∧ Connectable D base s ∧
      isUuid id = true ∧ Committed base s id now (s.closed id now) t) ∨
    r = none ∧ ¬Connectable D base s ∧ Progress D base s t

theorem wp_preview (home : Home) (fresh : Fresh) :
    (reviewRecoveryConnectivity D false fresh).wp (fun t => t = home) (fun _ t => t = home) home := by
  unfold reviewRecoveryConnectivity
  refine wp_get_bind (wp_ofOption_bind (fun _ => ⟨rfl, rfl⟩) fun s _ => ?_)
  split_ifs with hprep
  · exact ⟨rfl, rfl⟩
  · have hsome : s.marker.connectivityPreparation ≠ none := fun hnone => hprep ⟨rfl, hnone⟩
    refine wp_ensure_bind (fun _ => ⟨rfl, rfl⟩) fun _ => ?_
    rw [wp_bind]
    refine wp_when (fun hnone => absurd hnone hsome) fun _ => ⟨rfl, ?_⟩
    generalize { s with marker := prepared fresh s.marker } = s'
    unfold reviewPrepared privateDirectory ensureInventory
    rw [wp_bind]
    refine wp_get_bind (wp_ensure.2 ⟨rfl, fun _ => ?_, fun _ => rfl⟩)
    rw [wp_bind]
    refine wp_get_bind (wp_when (fun _ => ?_) fun _ => ⟨rfl, ?_⟩)
    · exact wp_ensure_bind (fun _ => ⟨rfl, rfl⟩) fun happly => absurd happly.1 Bool.false_ne_true
    refine wp_get_bind (wp_ofOption_bind (fun _ => ⟨rfl, rfl⟩) fun i _ => ?_)
    refine wp_ensure_bind (fun _ => ⟨rfl, rfl⟩) fun _ => ?_
    split
    · refine wp_ensure_bind (fun _ => ⟨rfl, rfl⟩) fun _ => ?_
      exact wp_ensure_bind (fun _ => ⟨rfl, rfl⟩) fun _ => ⟨rfl, rfl⟩
    · refine wp_ensure_bind (fun _ => ⟨rfl, rfl⟩) fun _ => ?_
      unfold confirmConnectivity
      refine wp_ensure_bind (fun _ => ⟨rfl, rfl⟩) fun _ => ?_
      rw [wp_bind]
      exact wp_when (fun happly => absurd happly.1 Bool.false_ne_true) fun _ => ⟨rfl, rfl, rfl⟩
    · exact ⟨rfl, rfl⟩

theorem prepared_of_some {x : Preparation} (hm : marker.connectivityPreparation = some x) :
    prepared fresh marker = marker := by
  unfold prepared
  rw [hm]
  cases marker
  cases hm
  rfl

theorem Survey.isClosing.preparation (hm : s.isClosing id now marker) :
    marker.connectivityPreparation = some ⟨id, []⟩ := by
  rcases hm with rfl | rfl <;> rfl

theorem readInventory_of_published (hr : Ready D base s) (hid : isUuid id = true)
    (hm : s.isClosing id now marker) (hp : Published base marker db (s.plan id now) h) :
    readInventory h marker = some (s.plan id now) := by
  have hvalid : (s.plan id now).isValid marker = true := by
    rcases hm with rfl | rfl <;> exact hr.isValid hid now
  unfold readInventory FileTree.read?
  rw [hp.inventoryAt]
  exact if_pos hvalid

theorem Ready.connectivityEvents (hr : Ready D base s) (hm : s.isClosing id now marker)
    (receipt : ConnectivityReceipt) :
    connectivityEvents (quarantineConnectivity s.db (s.marker.recoveryId.getD "") receipt) marker =
      [⟨connectivityEventType, "system:recovery", s.marker.recoveryId.getD "",
        .connectivity receipt⟩] := by
  have hrid : marker.recoveryId = s.marker.recoveryId := by
    rcases hm with rfl | rfl <;> rfl
  have hnone := hr.events
  unfold Backup.connectivityEvents quarantineConnectivity at *
  rw [hrid, filter_append, hnone]
  simp

/-- From a committed review the call comes to its end, wherever it stopped. -/
theorem wp_committed (hr : Ready D base s) (hid : isUuid id = true) (hconn : Connectable D base s)
    (hm : s.isClosing id now marker) (hc : Committed base s id now marker h) :
    (reviewRecoveryConnectivity D apply fresh).wp
      (fun t => Committed base s id now marker t ∨ Committed base s id now (s.closed id now) t)
      (fun r t => r = some ⟨true, false, s.counts⟩ ∧
        if apply = true then Committed base s id now (s.closed id now) t
        else Committed base s id now marker t) h := by
  have hi := hr.inventoried id now
  obtain ⟨state, hstate, hhash⟩ := map_eq_some_iff.1 hconn.2
  have hprep := hm.preparation
  unfold reviewRecoveryConnectivity
  refine wp_get_bind ?_
  rw [hc.survey hr hm hstate]
  refine wp_ofOption_bind nofun fun _ heq => ?_
  obtain rfl := some.inj heq
  dsimp only
  rw [if_neg fun hnot => some_ne_none _ (hprep.symm.trans hnot.2)]
  refine wp_ensure_bind (fun hnot => absurd ?_ hnot) fun _ => ?_
  · rw [hprep]
    exact Bool.and_eq_true_iff.2 ⟨hid, rfl⟩
  rw [wp_bind]
  refine wp_when (fun hnot => absurd (hprep.symm.trans hnot) (some_ne_none _)) fun _ =>
    ⟨.inl hc, ?_⟩
  rw [prepared_of_some hprep]
  unfold reviewPrepared
  rw [wp_bind]
  refine wp_privateDirectory apply (.inl hc) ?_ hc.directories
  dsimp only
  rw [wp_bind]
  refine wp_ensureInventory_of_published hc.inventoryAt (.inl hc) (wp_get_bind ?_)
  rw [readInventory_of_published hr hid hm hc.toPublished]
  refine wp_ofOption_bind nofun fun _ heq => ?_
  obtain rfl := some.inj heq
  refine wp_ensure_bind (fun hnot => absurd (hc.toPublished.checkFiles hi) hnot) fun _ => ?_
  rw [hr.connectivityEvents hm]
  refine wp_ensure_bind (fun hnot => absurd rfl hnot) fun _ => ?_
  unfold confirmConnectivity
  refine wp_ensure_bind (fun hnot => absurd ⟨rfl, hhash⟩ hnot) fun _ => ?_
  rw [wp_bind]
  refine wp_when (fun hwrite => ?_) fun hnot => ⟨.inl hc, .inl hc, rfl, ?_⟩
  · rcases hm with rfl | rfl
    · refine wp_writeRecoveryState (fun t ht => .inl (hc.sameBut hr ht)) fun t ht => ?_
      have hclosed := (hc.set_marker hr (.inl rfl)).sameBut hr ht
      exact ⟨.inr hclosed, .inr hclosed, rfl, by rwa [if_pos hwrite.1]⟩
    · exact absurd rfl hwrite.2
  · split_ifs with happly
    · rcases hm with rfl | rfl
      · refine absurd ⟨happly, ?_⟩ hnot
        change Option.map ConnectivityReceipt.id s.marker.connectivityQuarantine ≠ _
        rw [hr.quarantine]
        exact (some_ne_none _).symm
      · exact hc
    · exact hc

theorem wp_applyConnectivity (hr : Ready D base s) (hid : isUuid id = true)
    (hfree : isFree base ["recovery-review"] = true) (files : List InventoryFile)
    (hp : Published base (s.opened id) s.db (s.plan id now) h) :
    (applyConnectivity D fresh { s with marker := s.opened id, files := files }
      (s.plan id now)).wp (Progress D base s) (Ends D base s) h := by
  have hi := hr.inventoried id now
  obtain ⟨_, _, _, hwork, _, hstate, _⟩ := survey_eq_some.1 hr.survey
  have hprogress : ∀ t, Published base (s.opened id) s.db (s.plan id now) t →
      Progress D base s t := fun t ht => .published hid hfree ht
  unfold applyConnectivity
  rw [wp_bind]
  refine wp_moveFiles hp hi hprogress fun t ht hmoved => wp_get_bind ?_
  refine wp_ensure_bind (fun hnot => absurd (ht.checkFiles hi) hnot) fun _ => ?_
  rw [hr.openDatabase ht.toFramed hi.allowed]
  refine wp_ofOption_bind nofun fun _ heq => ?_
  obtain rfl := Option.some.inj heq
  have hbefore : (databaseState D s.db).map DatabaseState.hash = some (s.plan id now).beforeHash := by
    rw [hstate]
    rfl
  have hsame := congrArg (Option.map WorkReceipt.id) hwork
  refine wp_ensure_bind (fun hnot => absurd ⟨hbefore, hsame⟩ hnot) fun _ => ?_
  refine wp_ensure_bind (fun hnot => ⟨hprogress t ht, .inr ⟨rfl, ?_, hprogress t ht⟩⟩) fun hafter => ?_
  · exact fun hconn => hnot hconn.2
  have hconn : Connectable D base s := ⟨hfree, hafter⟩
  have hcommitted := committed_commit hr ht hmoved
  rw [wp_bind, wp_modify]
  refine ⟨hprogress t ht, .committed hid hconn (.inl rfl) hcommitted, ?_⟩
  rw [wp_bind]
  refine wp_writeRecoveryState (fun u hu => ?_) fun u hu => ?_
  · exact .committed hid hconn (.inl rfl) (hcommitted.sameBut hr hu)
  · have hclosed := (hcommitted.set_marker hr (.inl rfl)).sameBut hr hu
    have hlast : Progress D base s u := .committed hid hconn (.inr rfl) hclosed
    exact ⟨hlast, hlast, .inl ⟨false, id, now, rfl, hconn, hid, hclosed⟩⟩

theorem wp_reviewInventory (hr : Ready D base s) (hid : isUuid id = true)
    (hfree : isFree base ["recovery-review"] = true) (files : List InventoryFile)
    (hp : Published base (s.opened id) s.db (s.plan id now) h) :
    (reviewInventory D true fresh { s with marker := s.opened id, files := files }).wp
      (Progress D base s) (Ends D base s) h := by
  have hi := hr.inventoried id now
  unfold reviewInventory
  refine wp_get_bind ?_
  rw [readInventory_of_published hr hid (.inl rfl) hp]
  refine wp_ofOption_bind nofun fun _ heq => ?_
  obtain rfl := some.inj heq
  refine wp_ensure_bind (fun hnot => absurd (hp.checkFiles hi) hnot) fun _ => ?_
  rw [show connectivityEvents s.db (s.opened id) = [] from hr.events]
  refine wp_ensure_bind (fun hnot => absurd hr.quarantine hnot) fun _ => ?_
  refine wp_ensure_bind (fun hnot => absurd rfl hnot) fun _ => ?_
  exact wp_applyConnectivity hr hid hfree files hp

theorem Ready.noRecovery (hr : Ready D base s) :
    base.node? ["recovery-review", s.marker.recoveryId.getD ""] = none :=
  hr.nothing _ (prefix_refl _)

theorem Ready.noReview (hr : Ready D base s) (id : String) :
    base.node? (reviewDirectory (s.opened id)) = none :=
  hr.nothing _ ⟨[id], rfl⟩

theorem wp_reviewPrepared (hr : Ready D base s) (hid : isUuid id = true)
    (hfree : isFree base ["recovery-review"] = true) (ho : Opened base (s.opened id) s.db h) :
    (reviewPrepared D true fresh { s with marker := s.opened id }).wp
      (Progress D base s) (Ends D base s) h := by
  have hdirectories : ∀ p ∈ reviewDirectories (s.opened id), isFree base p = true := by
    intro p hp
    simp only [reviewDirectories, mem_cons, not_mem_nil, or_false] at hp
    unfold isFree at hfree ⊢
    rcases hp with rfl | rfl | rfl
    · exact hfree
    · change (base.node? ["recovery-review", s.marker.recoveryId.getD ""]).all Node.isDir = true
      rw [hr.noRecovery]
      rfl
    · rw [hr.noReview]
      rfl
  unfold reviewPrepared
  rw [wp_bind]
  refine wp_openDirectories ho hdirectories (fun t ht => .opened hid hfree ht) fun t ht hmade => ?_
  dsimp only
  rw [wp_bind]
  refine wp_ensureInventory_of_opened ht hr hmade (fun u hu => .opened hid hfree hu) fun u hu => ?_
  exact ⟨.published hid hfree hu, wp_reviewInventory hr hid hfree s.files hu⟩

theorem Opened.of_set_marker (hr : Ready D base s) (ht : SameBut
    (h.set recoveryFile (.file (.marker (s.opened id)))) t) (hs : SameBut base h) :
    Opened base (s.opened id) s.db t := by
  have hdb := (openDatabase_eq_some.1 (survey_eq_some.1 hr.survey).2.1).2
  have hset : ∀ p, isStaging p = false → p ≠ recoveryFile → t.node? p = base.node? p := by
    intro p hp hne
    rw [ht p hp, FileTree.node?_set, if_neg hne, hs p hp]
  refine ⟨⟨?_, ?_, fun p hp _ _ hne _ => hset p hp hne⟩, fun p hp hhead => .inl (hset p hp ?_)⟩
  · rw [ht _ (by decide), FileTree.node?_set, if_pos rfl]
  · rw [hset _ (by decide) (by decide), hdb]
  · rintro rfl
    exact absurd hhead (by decide)

theorem SameBut.survey (hs : SameBut base h) : Backup.survey D h = Backup.survey D base := by
  have hactive : SameActive base h := by
    intro p hp
    refine hs p ?_
    cases p with
    | nil => rfl
    | cons folder rest => exact isStaging_folder (by simpa [or_comm] using hp) rest
  have hmarker : readInactiveRecoveryMarker h = readInactiveRecoveryMarker base := by
    unfold readInactiveRecoveryMarker readInstallationIdentity FileTree.read?
    rw [hs _ (by decide), hs _ (by decide)]
  unfold Backup.survey
  rw [hmarker, hs.openDatabase, hactive.activeFiles, hactive.fingerprint (.inl rfl)]

/-- From an untouched home the call makes progress, or comes to its end. -/
theorem wp_apply_of_before (hr : Ready D base s) (hs : SameBut base h) :
    (reviewRecoveryConnectivity D true fresh).wp (Progress D base s) (Ends D base s) h := by
  have hprepared : prepared fresh s.marker = s.opened fresh.preparationId.1 := by
    unfold prepared Survey.opened
    rw [hr.preparation]
    rfl
  have hbefore : ∀ t, SameBut h t → Progress D base s t := fun t ht => .before (hs.trans ht)
  unfold reviewRecoveryConnectivity
  refine wp_get_bind ?_
  rw [hs.survey, hr.survey]
  refine wp_ofOption_bind nofun fun _ heq => ?_
  obtain rfl := some.inj heq
  rw [if_neg fun hnot => Bool.false_ne_true hnot.1.symm, hprepared, hr.preparation]
  refine wp_ensure_bind (fun hnot => absurd rfl hnot) fun _ => ?_
  rw [wp_bind]
  refine wp_when (fun _ => ?_) fun hnot => absurd rfl hnot
  unfold prepare
  rw [hprepared]
  refine wp_get_bind (wp_ensure_bind (fun hnot => ?_) fun hfree => wp_ensure_bind (fun hnot => ?_)
    fun _ => ?_)
  · refine ⟨.before hs, .inr ⟨rfl, fun hconn => hnot ⟨?_, ?_⟩, .before hs⟩⟩
    · unfold isFree
      rw [hs _ (by decide)]
      exact hconn.1
    · unfold isFree
      rw [hs _ (by simp [isStaging, stages, show isStageName ".u2os-recovery-stage-"
        "recovery-review" = false by decide]), hr.noRecovery]
      rfl
  · refine absurd ?_ hnot
    have hmem : reviewDirectory (s.opened fresh.preparationId.1) ∈
        reviewDirectories (s.opened fresh.preparationId.1) := by
      simp [reviewDirectories]
    rw [hs _ (isStaging_reviewDirectories hmem), hr.noReview]
    rfl
  · have hroot : isFree base ["recovery-review"] = true := by
      have hfree' := hfree.1
      unfold isFree at hfree' ⊢
      rwa [hs _ (by decide)] at hfree'
    refine wp_writeRecoveryState hbefore fun t ht => ?_
    have ho := Opened.of_set_marker hr ht hs
    exact ⟨.opened fresh.preparationId.2 hroot ho, wp_reviewPrepared hr fresh.preparationId.2 hroot ho⟩

theorem wp_apply_of_survey (hid : isUuid id = true) {files : List InventoryFile}
    (hsurvey : survey D h = some { s with marker := s.opened id, files := files })
    (hprogress : Progress D base s h)
    (hrest : (reviewPrepared D true fresh { s with marker := s.opened id, files := files }).wp
      (Progress D base s) (Ends D base s) h) :
    (reviewRecoveryConnectivity D true fresh).wp (Progress D base s) (Ends D base s) h := by
  unfold reviewRecoveryConnectivity
  refine wp_get_bind ?_
  rw [hsurvey]
  refine wp_ofOption_bind nofun fun _ heq => ?_
  obtain rfl := Option.some.inj heq
  rw [if_neg fun hnot => Bool.false_ne_true hnot.1.symm]
  have hvalid : (some (⟨id, []⟩ : Preparation)).all Preparation.isValid = true :=
    Bool.and_eq_true_iff.2 ⟨hid, rfl⟩
  refine wp_ensure_bind (fun hnot => absurd hvalid hnot) fun _ => ?_
  rw [wp_bind]
  refine wp_when (fun hnot => absurd hnot (some_ne_none _)) fun _ => ⟨hprogress, ?_⟩
  dsimp only
  have hopened : prepared fresh (s.opened id) = s.opened id := prepared_of_some rfl
  rw [hopened]
  exact hrest

theorem wp_apply (hr : Ready D base s) (hp : Progress D base s h) :
    (reviewRecoveryConnectivity D true fresh).wp (Progress D base s) (Ends D base s) h := by
  cases hp with
  | before hs => exact wp_apply_of_before hr hs
  | opened hid hfree ho =>
    exact wp_apply_of_survey hid (ho.survey hr) (.opened hid hfree ho)
      (wp_reviewPrepared hr hid hfree ho)
  | published hid hfree hp =>
    obtain ⟨files, hsurvey⟩ := hp.survey hr
    have hprogress : Progress D base s h := .published hid hfree hp
    refine wp_apply_of_survey hid hsurvey hprogress ?_
    unfold reviewPrepared
    rw [wp_bind]
    refine wp_privateDirectory true hprogress ?_ hp.directories
    dsimp only
    rw [wp_bind]
    exact wp_ensureInventory_of_published hp.inventoryAt hprogress
      (wp_reviewInventory hr hid hfree files hp)
  | committed hid hconn hm hc =>
    refine wp_mono (wp_committed hr hid hconn hm hc) ?_ ?_
    · rintro t (ht | ht)
      · exact .committed hid hconn hm ht
      · exact .committed hid hconn (.inr rfl) ht
    · rintro r t ⟨rfl, ht⟩
      exact .inl ⟨true, _, _, rfl, hconn, hid, ht⟩

end Progress

end U2os.Server.Backup
