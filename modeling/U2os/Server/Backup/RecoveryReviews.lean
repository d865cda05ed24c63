import U2os.Server.Backup.RecoveryRuns

/-!
# Every run of reviews

What holds of a restored home whatever reviews were made of it and wherever they stopped: it stays
inactive, no file is lost, the database changes as a whole, and a review that is made again comes to
the end of a review that was not stopped.
-/

namespace U2os.Server.Backup

open Script List Option

/-- Every file of the inventory is at its path or in the review folder, as it was in `home`. -/
structure FilesKept (D : Digests) (home h : Home) : Prop where
  inventoried : ∀ m i, readInactiveRecoveryMarker h = some m →
    h.node? (inventoryFile m) = some (.file (.inventory i)) → activeFiles D home = some i.files
  kept : ∀ files, activeFiles D home = some files → ∀ x ∈ files, ∃ c,
    home.node? x.path = some (.file (.bytes c)) ∧ c.length = x.size ∧ D.bytes c = x.hash ∧
      (h.node? x.path = some (.file (.bytes c)) ∨ ∃ m, readInactiveRecoveryMarker h = some m ∧
        h.node? (reviewDirectory m ++ x.path) = some (.file (.bytes c)))

/-- Every later review of the work says that it was applied, with this receipt. -/
def WorkSettled (D : Digests) (h : Home) (receipt : WorkReceipt) : Prop :=
  ∀ ls t, (reviews D h).Run ls t → ∀ apply fresh,
    ((reviewRecoveryWork apply fresh).run t).1 =
      some ⟨true, receipt.counts, if apply then some receipt else none⟩

/-- Every later review of connectivity says that it was applied, with this receipt, which the marker
has. -/
def ConnectivitySettled (D : Digests) (h : Home) (receipt : ConnectivityReceipt) : Prop :=
  ∀ ls t, (reviews D h).Run ls t → (∃ m, readInactiveRecoveryMarker t = some m ∧
      m.connectivityQuarantine = some receipt) ∧
    ∀ apply fresh, ((reviewRecoveryConnectivity D apply fresh).run t).1 =
      some ⟨true, false, receipt.counts⟩

/-- Where a review of connectivity that is not stopped comes to its end from `h₁`, it does from `h`,
with the same receipt but for the id and the time. -/
def ResumesConnectivity (D : Digests) (h₁ h : Home) : Prop :=
  ∀ fresh₁ k₁ h₂, (reviewRecoveryConnectivity D true fresh₁).run h₁ = (some k₁, h₂) →
    ∀ fresh, ∃ already receipt t, (reviewRecoveryConnectivity D true fresh).run h =
        (some ⟨already, false, receipt.counts⟩, t) ∧ receipt.counts = k₁.counts ∧
      ConnectivitySettled D t receipt

/-- Where a review of the work that is not stopped comes to its end from `home`, it does from `h`,
with the same receipt but for the id and the time; and then that of connectivity does. -/
def ResumesWork (D : Digests) (home h : Home) : Prop :=
  ∀ fresh₁ w₁ h₁, (reviewRecoveryWork true fresh₁).run home = (some w₁, h₁) →
    ∀ fresh, ∃ already receipt t, (reviewRecoveryWork true fresh).run h =
        (some ⟨already, receipt.counts, some receipt⟩, t) ∧
      (∃ id appliedAt, w₁.receipt = some { receipt with id := id, appliedAt := appliedAt }) ∧
      WorkSettled D t receipt ∧ ResumesConnectivity D h₁ t

section Reviews

variable {D : Digests} {base home h t : Home} {marker : Marker} {recoveryId : String}
  {db : RecoveryDb} {receipt : WorkReceipt} {now : ℕ} {s : Survey}

theorem assertExecutableHome_eq_false (hm : readInactiveRecoveryMarker h = some marker) :
    assertExecutableHome h = false := by
  unfold readInactiveRecoveryMarker FileTree.read? at hm
  unfold assertExecutableHome
  cases hnode : h.node? recoveryFile with
  | some _ => rfl
  | none =>
    rw [hnode] at hm
    cases hm

theorem SameBut.filesKept (hs : SameBut base h)
    (hnone : ∀ m, Backup.readInactiveRecoveryMarker h = some m →
    base.node? (inventoryFile m) = none) : FilesKept D base h where
  inventoried m i hm hi := by
    rw [hs _ isStaging_inventoryFile, hnone m hm] at hi
    cases hi
  kept files hfiles x hx := by
    obtain ⟨hallowed, _, c, hc, hlength, hhash⟩ := file_of_activeFiles hfiles hx
    exact ⟨c, hc, hlength, hhash, .inl ((hs _ (isStaging_allowedFile hallowed)).trans hc)⟩

theorem Published.filesKept {i : Inventory} (hp : Published base marker db i h)
    (hi : Inventoried D base i) (hm : readInactiveRecoveryMarker h = some marker) :
    FilesKept D base h where
  inventoried m j hmarker hj := by
    obtain rfl := some.inj (hm.symm.trans hmarker)
    obtain rfl : i = j := by
      have hnode := hp.inventoryAt.symm.trans hj
      simpa using hnode
    exact hi.active
  kept files hfiles x hx := by
    obtain rfl := some.inj (hi.active.symm.trans hfiles)
    obtain ⟨_, _, c, hc, hlength, hhash⟩ := hi.file hx
    refine ⟨c, hc, hlength, hhash, ?_⟩
    rcases hp.sources x hx with hsource | hgone
    · exact .inl (hsource.trans hc)
    · -- what is gone from its path is held
      rcases hp.held x hx with hheld | ⟨_, hsource⟩
      · exact .inr ⟨marker, hm, hheld.trans hc⟩
      · exact absurd hgone hsource

theorem Opened.filesKept {id : String} (ho : Opened base (s.opened id) s.db h)
    (hr : Ready D base s) : FilesKept D base h where
  inventoried m i hm hi := by
    rw [hr.readInactiveRecoveryMarker ho.toFramed (by simp) fun _ => rfl] at hm
    obtain rfl := some.inj hm
    rcases ho.review _ isStaging_inventoryFile rfl with hsame | ⟨_, _, hdir⟩
    · have hnone := hr.nothing (inventoryFile (s.opened id)) ⟨[id, "inventory.json"], rfl⟩
      rw [hsame, hnone] at hi
      cases hi
    · rw [hdir] at hi
      cases hi
  kept files hfiles x hx := by
    obtain ⟨hallowed, _, c, hc, hlength, hhash⟩ := file_of_activeFiles hfiles hx
    obtain ⟨folder, name, hpath, hfolder⟩ := allowedFile_eq hallowed
    refine ⟨c, hc, hlength, hhash, .inl ?_⟩
    rw [hpath] at hc ⊢
    exact (ho.toFramed.node?_folder hfolder not_mem_nil).trans hc

theorem Progress.filesKept (hp : Progress D base s h) (hr : Ready D base s) :
    FilesKept D base h := by
  cases hp with
  | before hs =>
    refine hs.filesKept fun m hm => hr.nothing _ ?_
    rw [hs.readInactiveRecoveryMarker, (survey_eq_some.1 hr.survey).1] at hm
    obtain rfl := some.inj hm
    exact ⟨[_, "inventory.json"], rfl⟩
  | opened _ _ ho => exact ho.filesKept hr
  | @published id now _ _ hp =>
    have hi := hr.inventoried id now
    exact hp.filesKept hi (hr.readInactiveRecoveryMarker hp.toFramed hi.allowed fun _ => rfl)
  | @committed id now _ _ _ hm hc =>
    have hi := hr.inventoried id now
    refine hc.toPublished.filesKept hi (hr.readInactiveRecoveryMarker hc.toFramed hi.allowed ?_)
    rcases hm with rfl | rfl <;> exact fun _ => rfl

theorem FilesKept.of_sameActive (hk : FilesKept D base h) (hsame : SameActive home base) :
    FilesKept D home h where
  inventoried m i hm hi := hsame.activeFiles.symm.trans (hk.inventoried m i hm hi)
  kept files hfiles x hx := by
    obtain ⟨c, hc, hrest⟩ := hk.kept files (hsame.activeFiles.trans hfiles) x hx
    obtain ⟨folder, name, hpath, hfolder⟩ := allowedFile_eq (file_of_activeFiles hfiles hx).1
    refine ⟨c, ?_, hrest⟩
    rw [← hc, hsame x.path]
    rw [hpath]
    exact hfolder.symm.imp (congrArg some) (congrArg some)

theorem Restored.noInventory (h0 : Restored home marker recoveryId) {m : Marker}
    (hm : m.recoveryId = marker.recoveryId) : home.node? (inventoryFile m) = none := by
  refine h0.nothing _ ⟨[(m.connectivityPreparation.map Preparation.id).getD "", "inventory.json"], ?_⟩
  unfold inventoryFile reviewDirectory
  rw [hm, h0.recoveryIdOf]
  rfl

theorem node?_stoppedHome_inventoryFile (m : Marker) :
    (stoppedHome home recoveryId db receipt now).node? (inventoryFile m) =
      home.node? (inventoryFile m) := by
  rw [stoppedHome, FileTree.node?_set, if_neg (by simp [inventoryFile, reviewDirectory, databaseFile])]

theorem node?_quarantinedHome_inventoryFile (m : Marker) :
    (quarantinedHome home marker recoveryId db receipt now).node? (inventoryFile m) =
      home.node? (inventoryFile m) :=
  node?_quarantinedHome (by simp [inventoryFile, reviewDirectory, recoveryFile])
    (by simp [inventoryFile, reviewDirectory, databaseFile])

theorem Reviewed.filesKept (h0 : Restored home marker recoveryId)
    (hrev : Reviewed D home marker recoveryId h) : FilesKept D home h := by
  cases hrev with
  | restored hs =>
    refine hs.filesKept fun m hm => h0.noInventory ?_
    rw [hs.readInactiveRecoveryMarker, h0.isInactive] at hm
    obtain rfl := some.inj hm
    rfl
  | stopped hstop hs =>
    refine FilesKept.of_sameActive (hs.filesKept fun m hm => ?_) sameActive_stoppedHome
    rw [hs.readInactiveRecoveryMarker, h0.marker_stopped] at hm
    obtain rfl := some.inj hm
    rw [node?_stoppedHome_inventoryFile]
    exact h0.noInventory rfl
  | applied ha =>
    obtain ⟨db, now, hstop, hs | ⟨s, hr, hp⟩⟩ := ha
    · refine FilesKept.of_sameActive (hs.filesKept fun m hm => ?_) sameActive_quarantinedHome
      rw [hs.readInactiveRecoveryMarker, h0.marker_quarantined] at hm
      obtain rfl := some.inj hm
      rw [node?_quarantinedHome_inventoryFile]
      exact h0.noInventory rfl
    · exact (hp.filesKept hr).of_sameActive sameActive_quarantinedHome

theorem Reviewed.hasMarker (h0 : Restored home marker recoveryId)
    (hrev : Reviewed D home marker recoveryId h) : ∃ m, readInactiveRecoveryMarker h = some m := by
  cases hrev with
  | restored hs => exact ⟨_, hs.readInactiveRecoveryMarker.trans h0.isInactive⟩
  | stopped hstop hs => exact ⟨_, hs.readInactiveRecoveryMarker.trans h0.marker_stopped⟩
  | applied ha =>
    obtain ⟨db, now, hstop, hs | ⟨s, hr, hp⟩⟩ := ha
    · exact ⟨_, hs.readInactiveRecoveryMarker.trans h0.marker_quarantined⟩
    · obtain ⟨m, _, hm, _⟩ := hp.reads hr
      exact ⟨m, hm⟩

theorem Restored.reviewed (h0 : Restored home marker recoveryId)
    {ls : List (ReviewCall × Outcome ReviewResult)} (hrun : (reviews D home).Run ls h) :
    Reviewed D home marker recoveryId h :=
  invariant_reviews (.restored (.refl home)) (fun _ c ht => wp_mono (ht.call h0 c)
    (fun _ hu => hu.1) fun _ _ _ => trivial) hrun

theorem WorkApplied.settled (h0 : Restored home marker recoveryId)
    (ha : WorkApplied D home marker recoveryId receipt h) : WorkSettled D h receipt := by
  intro ls t hrun apply fresh
  have happlied := invariant_reviews ha (fun u c hu => hu.call h0 c) hrun
  exact (wp_iff.1 (happlied.work h0 apply fresh)).2.1

theorem Connected.counts {receipt' : ConnectivityReceipt} (hc : Connected D base s receipt' h) :
    receipt'.counts = s.counts := by
  obtain ⟨id, now, _, rfl, _⟩ := hc.committed
  rfl

theorem Connected.settled (h0 : Restored home marker recoveryId) (hstop : Stoppable home db receipt)
    {receipt' : ConnectivityReceipt}
    (hc : Connected D (quarantinedHome home marker recoveryId db receipt now) s receipt' h) :
    ConnectivitySettled D h receipt' := by
  intro ls t hrun
  have hconnected := invariant_reviews hc (fun u c hu => hu.call h0 hstop c) hrun
  refine ⟨hconnected.has_receipt, fun apply fresh => ?_⟩
  rw [(wp_iff.1 (hconnected.connect apply fresh)).2, hconnected.counts]

/-- If the connections can be reviewed after one review of the work, they can after each. -/
theorem Restored.connectable (h0 : Restored home marker recoveryId)
    {db₁ : RecoveryDb} {receipt₁ : WorkReceipt} {now₁ : ℕ} {s₁ : Survey}
    (hstop₁ : Stoppable home db₁ receipt₁) (hstop : Stoppable home db receipt)
    (hr : Ready D (quarantinedHome home marker recoveryId db₁ receipt₁ now₁) s₁)
    (hconn : Connectable D (quarantinedHome home marker recoveryId db₁ receipt₁ now₁) s₁) :
    ∃ s, Ready D (quarantinedHome home marker recoveryId db receipt now) s ∧
      Connectable D (quarantinedHome home marker recoveryId db receipt now) s ∧
      s.counts = s₁.counts := by
  obtain rfl := Option.some.inj (hstop₁.database.symm.trans hstop.database)
  obtain ⟨_, hdb, _, hsup, hstate, hfiles, hmaster, hhas⟩ := (h0.survey_eq_some hstop₁).1 hr.survey
  have hsurvey : survey D (quarantinedHome home marker recoveryId db₁ receipt now) = some
      ⟨{ marker with workQuarantine := some receipt }, quarantineWork db₁ recoveryId receipt now, receipt,
        s₁.state, s₁.files, s₁.master⟩ :=
    (h0.survey_eq_some hstop).2 ⟨rfl, rfl, rfl, hsup, hstate, hfiles, hmaster, hhas⟩
  have hroot : ∀ {r n}, isFree (quarantinedHome home marker recoveryId db₁ r n) ["recovery-review"] =
      isFree home ["recovery-review"] := by
    intro r n
    unfold isFree
    rw [node?_quarantinedHome (by decide) (by decide)]
  obtain ⟨hfree, hafter⟩ := hconn
  refine ⟨_, h0.ready hstop hsurvey, ⟨?_, ?_⟩, rfl⟩
  · rw [hroot] at hfree ⊢
    exact hfree
  · rw [hdb] at hafter
    exact hafter

/-- The connections are reviewed alike after any review of the work. -/
theorem WorkApplied.resumes (h0 : Restored home marker recoveryId) {h₁ : Home}
    {receipt₁ : WorkReceipt} (ha₁ : WorkApplied D home marker recoveryId receipt₁ h₁)
    (ha : WorkApplied D home marker recoveryId receipt h) : ResumesConnectivity D h₁ h := by
  intro fresh₁ k₁ h₂ hrun fresh
  obtain ⟨db₁, now₁, hstop₁, hd₁⟩ := ha₁
  obtain ⟨db, now, hstop, hd⟩ := ha
  have hend₁ := (wp_iff.1 (hd₁.connect (fun s => h0.ready hstop₁) fresh₁)).2
  have hend := (wp_iff.1 (hd.connect (fun s => h0.ready hstop) fresh)).2
  rw [hrun] at hend₁
  obtain ⟨hrefused, _⟩ | ⟨s₁, _, _, hk₁, hc₁⟩ := hend₁
  · cases hrefused
  obtain rfl := some.inj hk₁
  obtain ⟨s, hr, hconn, hcounts⟩ := h0.connectable hstop₁ hstop hc₁.ready hc₁.connectable
  obtain ⟨_, hnot⟩ | ⟨s', already, receipt', hret, hc⟩ := hend
  · exact absurd hconn (hnot s hr)
  obtain rfl := some.inj (hr.survey.symm.trans hc.ready.survey)
  refine ⟨already, receipt', _, Prod.ext ?_ rfl, hc.counts.trans hcounts, hc.settled h0 hstop⟩
  rw [hret, hc.counts]

theorem Stoppable.receipt_eq {receipt₁ : WorkReceipt} {db₁ : RecoveryDb}
    (hstop₁ : Stoppable home db₁ receipt₁) (hstop : Stoppable home db receipt) :
    receipt₁ = { receipt with id := receipt₁.id, appliedAt := receipt₁.appliedAt } := by
  obtain rfl := some.inj (hstop₁.database.symm.trans hstop.database)
  have hvalid := hstop.valid
  have hvalid₁ := hstop₁.valid
  have hcounts := hstop₁.counts.trans hstop.counts.symm
  simp only [WorkReceipt.isValid, Bool.and_eq_true, decide_eq_true_eq] at hvalid hvalid₁
  obtain ⟨⟨⟨⟨⟨⟨hversion, _⟩, hscope⟩, hkeys⟩, _⟩, _⟩, _⟩ := hvalid
  obtain ⟨⟨⟨⟨⟨⟨hversion₁, _⟩, hscope₁⟩, hkeys₁⟩, _⟩, _⟩, _⟩ := hvalid₁
  cases receipt₁
  simp_all

/-- A review of the work that stopped is resumed by the next call. -/
theorem Reviewed.resumes (h0 : Restored home marker recoveryId)
    (hrev : Reviewed D home marker recoveryId h) : ResumesWork D home h := by
  intro fresh₁ w₁ h₁ hrun fresh
  have hend₁ := (wp_iff.1 (wp_work_of_restored D fresh₁ h0 (.refl home))).2
  have hend := (wp_iff.1 (hrev.work h0 fresh)).2
  rw [hrun] at hend₁
  obtain ⟨hrefused, _⟩ | ⟨_, receipt₁, hw₁, ha₁⟩ := hend₁
  · cases hrefused
  obtain rfl := Option.some.inj hw₁
  have ⟨db₁, now₁, hstop₁, _⟩ := ha₁
  obtain ⟨_, hnot⟩ | ⟨already, receipt, hret, ha⟩ := hend
  · exact absurd hstop₁ (hnot _ _)
  have ⟨db, now, hstop, _⟩ := ha
  refine ⟨already, receipt, _, Prod.ext hret rfl, ⟨_, _, congrArg some (hstop₁.receipt_eq hstop)⟩,
    ha.settled h0, ha₁.resumes h0 ha⟩

/-- In every home that reviews leave, wherever they stopped: it is inactive, no file is lost, the next
call leaves the database as it was or changed as a whole, and reviews that are made again end as
reviews that were not stopped. -/
theorem reviews_are_safe (h0 : Restored home marker recoveryId)
    {ls : List (ReviewCall × Outcome ReviewResult)} (hrun : (reviews D home).Run ls h) :
    assertExecutableHome h = false ∧ FilesKept D home h ∧
      (∀ l t, (reviews D home).step h l t → DatabaseStep h t) ∧ ResumesWork D home h := by
  have hrev := h0.reviewed hrun
  obtain ⟨m, hm⟩ := hrev.hasMarker h0
  refine ⟨assertExecutableHome_eq_false hm, hrev.filesKept h0, fun l t hstep => ?_, hrev.resumes h0⟩
  exact (step_machine (R := fun _ _ => True) (hrev.call h0 l.1) hstep).1.2

end Reviews

/-- The hashes of what the home has. -/
def sampleDigests : Digests where
  bytes b :=
    if b = [123, 125] then "44136fa355b3678a1146ad16f7e8649e94fb4fc21fe77e8310c060f61caaff8a"
    else "e3b0c44298fc1c149afbf4c8996fb92427ae41e4649b934ca495991b7852b855"
  rows x :=
    if x = ([], []) then "96aae767948d17f254f3a0a6a4481f2d5e39efe242a9096c8d0597f9537a2cb3"
    else "e3b0c44298fc1c149afbf4c8996fb92427ae41e4649b934ca495991b7852b855"
  before p q := decide ("/".intercalate p ≤ "/".intercalate q)
  isSha_bytes b := by
    split_ifs <;> decide +kernel
  isSha_rows x := by
    split_ifs <;> decide +kernel

/-- The marker, with the id that `restoreBackup` writes. -/
def sampleMarker : Marker :=
  { restoredMarker with recoveryId := some sampleFresh.recoveryId.1 }

/-- The home of `restoredDb`, with a configuration. -/
def sampleHome : Home :=
  (restoredHome.set recoveryFile (.file (.marker sampleMarker))).set ["config", "config.json"]
    (.file (.bytes [123, 125]))

theorem restored_sampleHome : Restored sampleHome sampleMarker sampleFresh.recoveryId.1 where
  isInactive := by decide +kernel
  recoveryIdOf := rfl
  workQuarantine := rfl
  preparation := rfl
  quarantine := rfl
  nothing p hp := by
    refine eq_none_iff_forall_ne_some.2 fun n hn => ?_
    have hmem := List.mem_map_of_mem (f := FileEntry.path) (FileTree.node?_eq_some.1 hn)
    have hpaths : sampleHome.rows.map FileEntry.path = [["config"], ["config", "installation.json"],
        ["db"], databaseFile, recoveryFile, ["config", "config.json"]] := by decide +kernel
    change p ∈ sampleHome.rows.map FileEntry.path at hmem
    rw [hpaths] at hmem
    simp only [databaseFile, recoveryFile, mem_cons, not_mem_nil, or_false] at hmem
    rcases hmem with rfl | rfl | rfl | rfl | rfl | rfl <;> simp at hp
  events db hdb := by
    have hsome : openDatabase sampleHome = some restoredDb := by
      refine openDatabase_eq_some.2 ⟨?_, ?_⟩ <;> rfl
    obtain rfl := Option.some.inj (hsome.symm.trans hdb)
    exact fun _ he => absurd he not_mem_nil

/-- A review of the work, and one of connectivity that is stopped. -/
def interruptedHome (n : ℕ) : Home :=
  (ReviewCall.script sampleDigests (.connectivity true sampleFresh)).stopAfter n
    ((ReviewCall.script sampleDigests (.work true sampleFresh)).run sampleHome).2

/-- After forty steps the configuration is in the review folder only. -/
theorem interruptedHome_is_safe :
    ((interruptedHome 40).node? ["config", "config.json"]).isNone = true ∧
      ((interruptedHome 40).node? (["recovery-review", sampleFresh.recoveryId.1,
        sampleFresh.preparationId.1] ++ ["config", "config.json"])).isSome = true ∧
      FilesKept sampleDigests sampleHome (interruptedHome 40) ∧
      ResumesWork sampleDigests sampleHome (interruptedHome 40) := by
  have hrun : (reviews sampleDigests sampleHome).Run
      [(.work true sampleFresh, .ended _), (.connectivity true sampleFresh, .stopped)]
      (interruptedHome 40) :=
    .snoc (.snoc .nil rfl) (stops_stopAfter 40 _ _)
  obtain ⟨_, hfiles, _, hresumes⟩ := reviews_are_safe restored_sampleHome hrun
  exact ⟨by decide +kernel, by decide +kernel, hfiles, hresumes⟩

end U2os.Server.Backup
