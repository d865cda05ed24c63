import U2os.Server.Agent.RunLimits
import U2os.Server.Backup.RecoveryHome

/-!
# The review of unfinished work

`reviewRecoveryWork` of `backup/recovery-quarantine.js`, and what the loops of the runtime find
after it: the queue worker, the runs that wait, the wakes of goals and the triggers.

Workflow runs and automation instances are none of its tables: a restored home is not executable,
so no automation runs there.

## Main results

* `Stopped.atRest` : nothing runs where the review finds nothing to count.
-/

namespace U2os.Server.Backup

open Agent Script List Option FileTree

/-- What the process brings: random ids, the time and the suffixes of staging directories. -/
structure Fresh where
  recoveryId : Uuid
  receiptId : Uuid
  preparationId : Uuid
  now : ℕ
  suffix : ℕ → Suffix

/-- What `reviewRecoveryWork` returns; the receipt where it applies. -/
structure WorkReview where
  alreadyApplied : Bool
  counts : Counts
  receipt : Option WorkReceipt
deriving DecidableEq

/-- The marker with a recovery id. -/
def identified (fresh : Fresh) (marker : Marker) : Marker :=
  { marker with recoveryId := some (marker.recoveryId.getD fresh.recoveryId.1) }

/-- The receipt of a review. -/
def newWorkReceipt (fresh : Fresh) (db : RecoveryDb) : WorkReceipt where
  version := 1
  id := fresh.receiptId.1
  appliedAt := some fresh.now
  counts := counts db
  scope := "database-work-only"
  otherKeys := []

/-- The transaction, and the marker after it. -/
def stopWork (fresh : Fresh) (marker : Marker) (receipt : WorkReceipt) : Script Home WorkReview := do
  modify (commit fun db =>
    quarantineWork db (marker.recoveryId.getD fresh.recoveryId.1) receipt fresh.now)
  writeRecoveryState (fresh.suffix 1)
    { identified fresh marker with workQuarantine := some receipt }
  return ⟨false, receipt.counts, some receipt⟩

/-- The part of `reviewRecoveryWork` that applies. -/
def applyWork (fresh : Fresh) (marker : Marker) (db : RecoveryDb) : Script Home WorkReview := do
  when (marker.recoveryId = none)
    (writeRecoveryState (fresh.suffix 0) (identified fresh marker))
  stopWork fresh marker (newWorkReceipt fresh db)

/-- The part of `reviewRecoveryWork` that finds a checkpoint. -/
def confirmWork (apply : Bool) (fresh : Fresh) (marker : Marker) (receipt : WorkReceipt) :
    Script Home WorkReview := do
  when (apply = true ∧ marker.workQuarantine.map WorkReceipt.id ≠ some receipt.id)
    (writeRecoveryState (fresh.suffix 0) { marker with workQuarantine := some receipt })
  return ⟨true, receipt.counts, if apply then some receipt else none⟩

def reviewRecoveryWork (apply : Bool) (fresh : Fresh) : Script Home WorkReview := do
  let home ← get
  let marker ← ofOption (readInactiveRecoveryMarker home)
  let db ← ofOption (openDatabase home)
  ensure (db.supported = true)
  match ← ofOption (readWorkQuarantineCheckpoint db marker) with
  | some receipt => confirmWork apply fresh marker receipt
  | none => if apply then applyWork fresh marker db else return ⟨false, counts db, none⟩

theorem newWorkReceipt_isValid (fresh : Fresh) (db : RecoveryDb) :
    (newWorkReceipt fresh db).isValid = true := by
  simp [WorkReceipt.isValid, newWorkReceipt, fresh.receiptId.2, counts, countKeys]

/-! ### What the loops find -/

/-- The guard of `claimTrigger`: a timer has to be due. -/
def claimable (lease : TriggerLease) (requireDue : Bool) (now : ℕ) (t : Trigger) : Bool :=
  t.enabled && (lease.owner.isNone || lease.expiresAt.all (· ≤ now)) &&
    (!requireDue || t.nextCheckAt.any (· ≤ now))

/-- The loops of the runtime find nothing to start or to go on with, now or later. -/
structure AtRest (s : Store) : Prop where
  leaseNext : ∀ owner leaseMs now, leaseNextAction s.queue owner leaseMs now = none
  leaseOne : ∀ actionId owner leaseMs now,
    leaseActionByActionId s.queue actionId owner leaseMs now = none
  requeue : ∀ actionId approval policy now, requeueAction s.queue actionId approval policy now = none
  actions : ∀ a ∈ s.actions, a.status ≠ .pending ∧ a.status ≠ .approved
  /-- `resumeRunPlanning` and `resumeRunDependents` go no further than this. -/
  resumable : ∀ runId t view, getRun s runId = some (t, view) →
    view.run.status ≠ .readyToContinue ∧ ∀ x ∈ view.steps, x.status.isOpen = false
  continuations : ∀ runId, (claimContinuation s runId).2 = false
  steps : ∀ runId index actionId now t, beginRunStep s runId index actionId now ≠ .ok t
  triggers : ∀ t ∈ s.triggers, t.enabled = false ∧
    ∀ lease requireDue now, claimable lease requireDue now t = false
  wakes : ∀ wakeId triggerId runId now, deliverWake s wakeId triggerId runId now = (s, false)
  schedules : schedulesToCheck s = []

/-- The run cannot be gone on with. -/
def IsOver (r : AgentRun) : Prop :=
  r.continuationAfterStep = none ∧
    (r.status ≠ .readyToContinue ∨ r.cancelRequestedAt.isSome = true)

/-- What makes the loops find nothing. -/
structure Quiet (s : Store) : Prop where
  items : ∀ q ∈ s.queue, q.status = .completed ∨
    q.status = .failed ∧ q.errorClass = some .recoveryReviewRequired
  actions : ∀ a ∈ s.actions, isAuthorized a = false
  runs : ∀ r ∈ s.runs, IsOver r
  steps : ∀ x ∈ s.steps, (s.runs.find x.runId).isSome = true → x.status.isOpen = false
  triggers : ∀ t ∈ s.triggers, t.enabled = false
  wakes : ∀ w ∈ s.wakes, w.status ≠ .pending
  schedules : ∀ x ∈ s.schedules, x.status ≠ .active

theorem isOpen_of_isOpenStep {x : RunStep} (h : isOpenStep x = false) : x.status.isOpen = false := by
  simp only [isOpenStep, Bool.or_eq_false_iff, decide_eq_false_iff_not] at h
  unfold StepStatus.isOpen
  split
  · exact absurd ‹_› h.1.1
  · exact absurd ‹_› h.2
  · rfl

variable {db : RecoveryDb}

/-- Stopped work leaves the queue, the runs and the wakes quiet. -/
theorem Stopped.quiet (h : Stopped db) : Quiet db.toStore where
  items q hq := by
    by_cases hne : q.status = .completed
    · exact .inl hne
    · have hheld := (h.items q hq hne).1
      simp only [isHeldItem, Bool.and_eq_true, decide_eq_true_eq] at hheld
      exact .inr hheld.1.1.1.1
  actions := h.actions
  runs r hr := by
    have hwork := h.runs r hr
    simp only [RecoveryDb.runWork, Bool.or_eq_false_iff, Bool.and_eq_false_iff,
      Bool.not_eq_false'] at hwork
    refine ⟨isNone_iff_eq_none.1 (by simpa using hwork.1.2), ?_⟩
    rcases hwork.1.1 with hfinished | hcancelled
    · refine .inl fun hready => ?_
      rw [hready] at hfinished
      cases hfinished
    · exact .inr (by simpa using hcancelled)
  steps x hx hrun := by
    obtain ⟨r, hr⟩ := isSome_iff_exists.1 hrun
    have hwork := h.runs r (Table.mem_of_find hr)
    simp only [RecoveryDb.runWork, Bool.or_eq_false_iff, List.any_eq_false, Bool.and_eq_true,
      decide_eq_true_eq, not_and, Bool.not_eq_true] at hwork
    exact isOpen_of_isOpenStep (hwork.2 x hx (Table.key_of_find hr).symm)
  triggers := h.triggers
  wakes := h.wakes
  schedules := h.schedules

section Quiet

variable {s : Store}

theorem currentStepStatus_stays_closed {db : ActionDb} {x : RunStep} (h : x.status.isOpen = false) :
    (currentStepStatus db x).isOpen = false := by
  by_cases hid : x.actionId.isSome = true
  · exact currentStepStatus_not_open hid
  · rw [Bool.not_eq_true, isSome_eq_false_iff, isNone_iff_eq_none] at hid
    simp only [currentStepStatus, hid]
    split_ifs
    · rfl
    · exact h

theorem classifyRun_ne_readyToContinue (statuses : List StepStatus) (cancelled stopped : Bool) :
    classifyRun statuses false cancelled stopped ≠ .readyToContinue := by
  have hite : ∀ (p : Prop) [Decidable p] {x y : RunStatus}, x ≠ .readyToContinue →
      y ≠ .readyToContinue → (if p then x else y) ≠ .readyToContinue := by
    intro p _ x y hx hy
    split_ifs
    · exact hx
    · exact hy
  unfold classifyRun
  refine hite _ (hite _ nofun (hite _ nofun nofun)) ?_
  iterate 9 refine hite _ RunStatus.noConfusion ?_
  simp

theorem IsOver.currentRunStatus {r : AgentRun} (h : IsOver r) (steps : List RunStep) :
    currentRunStatus r steps ≠ .readyToContinue := by
  unfold Agent.currentRunStatus
  dsimp only
  split_ifs with hkept
  · rcases h.2 with h | h
    · exact h
    · -- only a run that is not cancelled keeps its status
      simp [h] at hkept
  · rw [h.1]
    exact classifyRun_ne_readyToContinue _ _ _

theorem IsOver.restarted {r : AgentRun} (h : IsOver r) : IsOver r.restarted := by
  unfold AgentRun.restarted
  dsimp only
  split_ifs
  · exact ⟨h.1, .inl RunStatus.noConfusion⟩
  · exact ⟨h.1, .inl RunStatus.noConfusion⟩
  · exact h
  · exact h

theorem Quiet.not_due (h : Quiet s) {q : QueueItem} (hq : q ∈ s.queue) (now : ℕ) :
    ¬ q.due now := by
  rcases h.items q hq with hs | ⟨hs, _⟩
  · simp [QueueItem.due, hs, QueueStatus.waits, QueueStatus.isHeld]
  · simp [QueueItem.due, hs, QueueStatus.waits, QueueStatus.isHeld]

theorem Quiet.getRun_spec (h : Quiet s) {runId : String} {t : Store} {view : RunView}
    (hg : getRun s runId = some (t, view)) :
    view.run.continuationAfterStep = none ∧ view.run.status ≠ .readyToContinue ∧
      ∀ x ∈ view.steps, x.status.isOpen = false := by
  obtain ⟨r, hr, heq⟩ := map_eq_some_iff.1 hg
  obtain ⟨rfl, rfl⟩ := Prod.mk.inj heq
  have hover := h.runs r (Table.mem_of_find hr)
  refine ⟨hover.1, hover.currentRunStatus _, fun x hx => ?_⟩
  obtain ⟨y, hy, rfl⟩ := List.mem_map.1 hx
  obtain ⟨hmem', hrun⟩ := mem_filter.1 ((mem_insertionSort _).1 hy)
  refine currentStepStatus_stays_closed (h.steps y hmem' ?_)
  rw [of_decide_eq_true hrun, hr]
  rfl

/-- Where all is quiet, no call starts anything. -/
theorem Quiet.atRest (h : Quiet s) : AtRest s where
  leaseNext owner leaseMs now := by
    have hnone : s.queue.rows.filter (fun q => QueueItem.due now q) = [] := by
      refine filter_eq_nil_iff.2 fun q hq => ?_
      simpa using h.not_due hq now
    simp [leaseNextAction, nextDue, hnone]
  leaseOne actionId owner leaseMs now := by
    unfold leaseActionByActionId
    cases hq : s.queue.find actionId with
    | none => rfl
    | some q => exact if_neg (h.not_due (Table.mem_of_find hq) now)
  requeue actionId approval policy now := by
    unfold requeueAction
    cases hq : s.queue.find actionId with
    | none => rfl
    | some q =>
      simp only
      rcases h.items q (Table.mem_of_find hq) with hs | ⟨_, hc⟩
      · split_ifs with h1 h2
        · rfl
        · rw [hs] at h2
          exact absurd h2 (by decide)
        · rfl
      · exact if_pos (by simp [hc, ErrorClass.isFinal])
  actions a ha := by
    have hauth := h.actions a ha
    simpa [isAuthorized] using hauth
  resumable runId t view hg := (h.getRun_spec hg).2
  continuations runId := by
    unfold claimContinuation
    cases hg : getRun s runId with
    | none => rfl
    | some p =>
      obtain ⟨t, view⟩ := p
      simp only
      rw [if_neg fun hclaim => (h.getRun_spec hg).2.1 hclaim.1]
  steps runId index actionId now t ht := by
    obtain ⟨r, x, hr, hx, _, _, hopen, _⟩ := beginRunStep_eq_ok ht
    have hrun : (s.runs.find x.runId).isSome = true := by
      have hkey : x.key = (runId, index) := Table.key_of_find hx
      rw [show x.runId = runId from (Prod.mk.inj hkey).1, hr]
      rfl
    rw [h.steps x (Table.mem_of_find hx) hrun] at hopen
    cases hopen
  triggers t ht := by
    have hoff := h.triggers t ht
    exact ⟨hoff, fun _ _ _ => by simp [claimable, hoff]⟩
  wakes wakeId triggerId runId now := by
    unfold deliverWake
    split
    · rfl
    · rename_i wake hw
      obtain ⟨hfind, _⟩ := filter_eq_some_iff.1 hw
      exact if_pos (h.wakes wake (Table.mem_of_find hfind))
  schedules := by
    have hnone : s.schedules.rows.filter (fun (x : ResearchSchedule) => x.status = .active) = [] := by
      refine filter_eq_nil_iff.2 fun x hx => ?_
      simpa using h.schedules x hx
    simp [schedulesToCheck, hnone]

/-- What the loops still write where they find nothing: they read runs, and a restart does. -/
inductive Reading where
  | getRun (runId : String)
  | reconcileInterruptedRuns

/-- What a reading writes. -/
def performReading (s : Store) : Reading → Option Store
  | .getRun runId => some (touchRun s runId)
  | .reconcileInterruptedRuns => some (reconcileInterruptedRuns s)

/-- The runtime after a review, without the owner. -/
def readings (s : Store) : Machine Store Reading := .ofPerform s performReading

theorem touchRun_frame (s : Store) (runId : String) :
    (touchRun s runId).triggers = s.triggers ∧ (touchRun s runId).wakes = s.wakes ∧
      (touchRun s runId).schedules = s.schedules := by
  unfold touchRun getRun
  cases s.runs.find runId <;> exact ⟨rfl, rfl, rfl⟩

theorem touchRun_isSome (s : Store) (runId id : String) :
    ((touchRun s runId).runs.find id).isSome = (s.runs.find id).isSome := by
  rw [rewrittenAt_touchRun s runId]
  split_ifs with hid
  · rw [hid, isSome_map]
  · rfl

theorem Quiet.touchRun (h : Quiet s) (runId : String) : Quiet (touchRun s runId) := by
  have hdb := touchRun_db s runId
  have hrewritten := rewrittenAt_touchRun s runId
  obtain ⟨htriggers, hwakes, hschedules⟩ := touchRun_frame s runId
  refine ⟨?_, ?_, ?_, ?_, htriggers ▸ h.triggers, hwakes ▸ h.wakes, hschedules ▸ h.schedules⟩
  · rw [hdb]
    exact h.items
  · rw [hdb]
    exact h.actions
  · refine (hrewritten.evolves (R := fun r r' => IsOver r → IsOver r') (N := fun _ => False)
      (fun _ h => h) fun r _ hover => ⟨hover.1, .inl (hover.currentRunStatus _)⟩).all h.runs
      (fun _ _ hR hr => hR hr) fun _ hN => hN.elim
  · intro x hx hrun
    rcases (reread_steps s runId).comes x hx with ⟨y, hy, hxy | ⟨hid, rfl⟩⟩ | hN
    · rw [hxy] at hrun ⊢
      exact h.steps y hy (touchRun_isSome s runId _ ▸ hrun)
    · exact currentStepStatus_stays_closed (h.steps y hy (touchRun_isSome s runId _ ▸ hrun))
    · exact hN.elim

/-- A restart keeps all quiet. -/
theorem Quiet.reconcileInterruptedRuns (h : Quiet s) : Quiet (reconcileInterruptedRuns s) := by
  unfold Agent.reconcileInterruptedRuns
  dsimp only
  generalize hs : Store.mk _ _ _ _ _ _ _ = s'
  have hquiet : Quiet s' := by
    subst hs
    refine ⟨h.items, h.actions, fun r hr => ?_, fun x hx hrun => ?_, h.triggers, h.wakes,
      h.schedules⟩
    · obtain ⟨r₀, hr₀, rfl⟩ := Table.of_mem_updateWhere AgentRun.restarted_id hr
      rw [if_pos trivial]
      exact (h.runs r₀ hr₀).restarted
    · obtain ⟨y, hy, rfl⟩ := Table.of_mem_updateWhere (by intro _; rfl) hx
      split_ifs at hrun ⊢
      · rfl
      · refine h.steps y hy ?_
        simpa [Table.find_updateWhere] using hrun
  generalize List.map AgentRun.id _ = ids
  clear hs
  induction ids generalizing s' with
  | nil => exact hquiet
  | cons id ids ih => exact ih _ (hquiet.touchRun id)

theorem Quiet.readings (h : Quiet s) {ls : List Reading} {t : Store} (hs : (readings s).Run ls t) :
    Quiet t := by
  refine hs.invariant h fun u l v hu hstep => ?_
  cases l with
  | getRun runId =>
    obtain rfl : Agent.touchRun u runId = v := some.inj hstep
    exact hu.touchRun runId
  | reconcileInterruptedRuns =>
    obtain rfl : Agent.reconcileInterruptedRuns u = v := some.inj hstep
    exact hu.reconcileInterruptedRuns

end Quiet

/-! ### What the review does -/

variable {home : Home}

theorem openDatabase_eq_some :
    openDatabase home = some db ↔
      home.node? ["db"] = some .dir ∧ home.node? databaseFile = some (.file (.database db)) := by
  unfold openDatabase read?
  constructor
  · intro h
    split at h
    · rename_i hdir hfile
      obtain ⟨n, hn, hcontent⟩ := bind_eq_some_iff.1 hfile
      obtain rfl := some.inj h
      cases n <;> cases hcontent
      exact ⟨hdir, hn⟩
    · cases h
  · rintro ⟨hdir, hfile⟩
    rw [hdir, hfile]
    rfl

theorem SameBut.openDatabase {a b : Home} (h : SameBut a b) : openDatabase b = openDatabase a := by
  unfold Backup.openDatabase read?
  rw [h ["db"] (by decide), h databaseFile (by decide)]

theorem openDatabase_set_recoveryFile (home : Home) (n : Node Content) :
    openDatabase (home.set recoveryFile n) = openDatabase home := by
  unfold openDatabase read?
  rw [node?_set, node?_set, if_neg (by decide), if_neg (by decide)]

theorem openDatabase_commit (f : RecoveryDb → RecoveryDb)
    (h : openDatabase home = some db) : openDatabase (commit f home) = some (f db) := by
  obtain ⟨hdir, hfile⟩ := openDatabase_eq_some.1 h
  have hread : home.read? databaseFile = some (.database db) := by
    rw [read?, hfile]
    rfl
  refine openDatabase_eq_some.2 ⟨?_, ?_⟩
  · simp only [commit, hread]
    rw [node?_set, if_neg (by decide), hdir]
  · simp only [commit, hread]
    rw [node?_set, if_pos rfl]

theorem wp_writeRecoveryState_database {suffix : Suffix} {state : Marker}
    {Q : Option Unit → Home → Prop} (h : openDatabase home = some db)
    (hend : ∀ t, openDatabase t = some db → Q (some ()) t) :
    (writeRecoveryState suffix state).wp (fun _ => True) Q home := by
  refine wp_writeRecoveryState (fun _ _ => trivial) fun t ht => ⟨trivial, hend t ?_⟩
  rw [ht.openDatabase, openDatabase_set_recoveryFile, h]

/-- What happened is still on record, and the automations are as they were. -/
structure RetainsEvidence (db db' : RecoveryDb) : Prop where
  actions : db.actions.Evolves
    (fun a b => b.id = a.id ∧ b.result = a.result ∧ (a.status = .executed → b = a))
    (fun _ => False) db'.actions
  attempts : db'.attempts = db.attempts
  workflowRuns : db'.workflowRuns = db.workflowRuns
  automationInstances : db'.automationInstances = db.automationInstances

theorem RetainsEvidence.refl (db : RecoveryDb) : RetainsEvidence db db :=
  ⟨.refl (fun _ => ⟨rfl, rfl, fun _ => rfl⟩) _, rfl, rfl, rfl⟩

/-- What an applied review leaves of the home it found. -/
def Quarantined (home home' : Home) : Prop :=
  ∃ db db', openDatabase home = some db ∧ openDatabase home' = some db' ∧
    Quiet db'.toStore ∧ RetainsEvidence db db'

theorem wp_confirmWork {fresh : Fresh} {marker : Marker} {receipt : WorkReceipt}
    (hdb : openDatabase home = some db)
    (hreceipt : readWorkQuarantineCheckpoint db marker = some (some receipt)) :
    (confirmWork true fresh marker receipt).wp (fun _ => True) (fun _ t => Quarantined home t)
      home := by
  have hend : ∀ t, openDatabase t = some db → Quarantined home t := fun t ht =>
    ⟨db, db, hdb, ht, (stopped_of_checkpoint hreceipt).quiet, .refl db⟩
  unfold confirmWork
  rw [wp_bind]
  refine wp_when (fun _ => ?_) fun _ => ⟨trivial, trivial, hend home hdb⟩
  exact wp_writeRecoveryState_database hdb fun t ht => ⟨trivial, hend t ht⟩

theorem wp_applyWork {fresh : Fresh} {marker : Marker} (hdb : openDatabase home = some db) :
    (applyWork fresh marker db).wp (fun _ => True) (fun _ t => Quarantined home t) home := by
  have hstop : ∀ t, openDatabase t = some db →
      (stopWork fresh marker (newWorkReceipt fresh db)).wp (fun _ => True)
        (fun _ t => Quarantined home t) t := by
    intro t ht
    unfold stopWork
    rw [wp_bind, wp_modify]
    refine ⟨trivial, trivial, ?_⟩
    rw [wp_bind]
    refine wp_writeRecoveryState_database (openDatabase_commit _ ht) fun u hu => ⟨trivial, ?_⟩
    exact ⟨db, _, hdb, hu, (stopped_quarantineWork _ _ _ _).quiet,
      evolves_actions_quarantineWork _ _ _ _, rfl, rfl, rfl⟩
  unfold applyWork
  rw [wp_bind]
  refine wp_when (fun _ => ?_) fun _ => ⟨trivial, hstop home hdb⟩
  exact wp_writeRecoveryState_database hdb hstop

theorem wp_reviewRecoveryWork (home : Home) (fresh : Fresh) :
    (reviewRecoveryWork true fresh).wp (fun _ => True)
      (fun r t => r.isSome = true → Quarantined home t) home := by
  have hrefused : True ∧ ((none : Option WorkReview).isSome = true → Quarantined home home) :=
    ⟨trivial, nofun⟩
  unfold reviewRecoveryWork
  refine wp_get_bind (wp_ofOption_bind (fun _ => hrefused) fun marker _ => ?_)
  refine wp_ofOption_bind (fun _ => hrefused) fun db hdb => ?_
  refine wp_ensure_bind (fun _ => hrefused) fun _ => ?_
  refine wp_ofOption_bind (fun _ => hrefused) fun found hfound => ?_
  cases found with
  | none => exact wp_mono (wp_applyWork hdb) (fun _ h => h) fun _ _ h _ => h
  | some receipt => exact wp_mono (wp_confirmWork hdb hfound) (fun _ h => h) fun _ _ h _ => h

/-- Nothing runs in a restored home after a review that was applied, whatever the runtime reads or
however often it is restarted, and what happened is on record. -/
theorem quarantined_home_atRest {home home' : Home} {fresh : Fresh} {review : WorkReview}
    (h : (reviewRecoveryWork true fresh).run home = (some review, home')) :
    ∃ db db', openDatabase home = some db ∧ openDatabase home' = some db' ∧
      (∀ ls s, (readings db'.toStore).Run ls s → AtRest s) ∧ RetainsEvidence db db' := by
  have hwp := (wp_iff.1 (wp_reviewRecoveryWork home fresh)).2
  rw [h] at hwp
  obtain ⟨db, db', hdb, hdb', hquiet, hkept⟩ := hwp rfl
  exact ⟨db, db', hdb, hdb', fun _ _ hs => (hquiet.readings hs).atRest, hkept⟩

/-- An approved mail that waits to be sent, and a workflow run that waits to be leased. -/
def restoredDb : RecoveryDb where
  actions := ⟨[{ id := "a", requestedBy := "owner", tool := "email.send", arguments := .null,
                 status := .approved, createdAt := 0 }], by decide⟩
  queue := ⟨[{ actionId := "a", tool := "email.send", arguments := .null, idempotencyKey := "a",
               nextAttemptAt := 0, createdAt := 0 }], by decide⟩
  attempts := .empty
  runs := .empty
  steps := .empty
  goals := .empty
  wakes := .empty
  schedules := .empty
  triggers := .empty
  triggerLeases := fun _ => ⟨none, none⟩
  sessions := ["s"]
  events := []
  workflowRuns := ⟨[{ id := "w", kind := .automation, definitionId := "d", packageId := "p",
                      principalPackageId := "p", rootRunId := "w", workflow := .code "c",
                      createdAt := 0 }], by decide⟩
  automationInstances := .empty
  connections := .empty
  devices := .empty
  supported := true
  supportedConnectivity := true

/-- The marker `restoreBackup` leaves. -/
def restoredMarker : Marker where
  version := 1
  status := "inactive"
  database := "ok"
  verifiedAt := some 1
  installationId := some "i"
  recoveryId := none
  workQuarantine := none
  connectivityPreparation := none
  connectivityQuarantine := none

def restoredHome : Home where
  rows := [⟨recoveryFile, .file (.marker restoredMarker)⟩, ⟨["config"], .dir⟩,
    ⟨["config", "installation.json"], .file (.installation (some "i"))⟩, ⟨["db"], .dir⟩,
    ⟨databaseFile, .file (.database restoredDb)⟩]
  nodup := by decide

/-- What a process may bring. -/
def sampleFresh : Fresh where
  recoveryId := ⟨"00000000-0000-4000-8000-000000000001", by decide +kernel⟩
  receiptId := ⟨"00000000-0000-4000-8000-000000000002", by decide +kernel⟩
  preparationId := ⟨"00000000-0000-4000-8000-000000000003", by decide +kernel⟩
  now := 7
  suffix n := if n = 0 then ⟨"a", by decide⟩ else ⟨"b", by decide⟩

/-- A review stops the mail, which a worker would have sent before, and then nothing runs. -/
theorem quarantined_restoredHome :
    (leaseNextAction restoredDb.queue "w" 1000 9).isSome = true ∧
      ∃ db', openDatabase ((reviewRecoveryWork true sampleFresh).run restoredHome).2 = some db' ∧
        ∀ ls s, (readings db'.toStore).Run ls s → AtRest s := by
  have hsome : ((reviewRecoveryWork true sampleFresh).run restoredHome).1.isSome = true := by
    decide +kernel
  obtain ⟨review, hreview⟩ := isSome_iff_exists.1 hsome
  refine ⟨by decide, ?_⟩
  have hrun : (reviewRecoveryWork true sampleFresh).run restoredHome =
      (some review, ((reviewRecoveryWork true sampleFresh).run restoredHome).2) := Prod.ext hreview rfl
  obtain ⟨_, db', _, hdb', hrest, _⟩ := quarantined_home_atRest hrun
  exact ⟨db', hdb', hrest⟩

/-- A workflow run that waits can still be leased after the review. -/
theorem workflow_runs_are_not_quarantined :
    ((reviewRecoveryWork true sampleFresh).run restoredHome).1.isSome = true ∧
      ((openDatabase ((reviewRecoveryWork true sampleFresh).run restoredHome).2).bind fun db =>
        Packages.leaseRun db.workflowRuns "w" "worker" 1000 9).isSome = true := by
  decide +kernel

end U2os.Server.Backup
