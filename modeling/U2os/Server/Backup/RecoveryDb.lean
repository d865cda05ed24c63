import U2os.Server.Agent.RunStore
import U2os.Server.Packages.WorkflowStore

/-!
# The database of a restored home

The tables a recovery review reads and writes, and the statements of `backup/recovery-quarantine.js`
on them: the counts, the transaction that stops the work, and the checkpoint it leaves.  The tables
are those of the runtime; the columns `updated_at` are left out, and of `validateRecoverySchema` only
its answer is kept.
-/

namespace U2os.Server.Backup

open Agent

/-- The counts, under their keys. -/
abbrev Counts := List (String × ℕ)

/-- `UUID`, where `h` is a hexadecimal digit and `v` one of `89ab`. -/
def uuidPattern : String := "hhhhhhhh-hhhh-4hhh-vhhh-hhhhhhhhhhhh"

/-- A lower-case hexadecimal digit. -/
def isHex (c : Char) : Bool := c.isDigit || 'a' ≤ c && c ≤ 'f'

/-- The character fits the one of the pattern. -/
def fitsUuid (p c : Char) : Bool :=
  if p = 'h' then isHex c else if p = 'v' then ['8', '9', 'a', 'b'].contains c else c = p

/-- `UUID.test`. -/
def isUuid (s : String) : Bool :=
  s.toList.length = uuidPattern.toList.length &&
    (uuidPattern.toList.zip s.toList).all fun x => fitsUuid x.1 x.2

/-- What `randomUUID` gives. -/
abbrev Uuid := { s : String // isUuid s = true }

/-- A receipt of the work review, as it is parsed.  The time is there where the text is one that
`toISOString` gives. -/
structure WorkReceipt where
  version : ℕ
  id : String
  appliedAt : Option ℕ
  counts : Counts
  scope : String
  /-- Its keys besides these. -/
  otherKeys : List String
deriving DecidableEq

/-- A receipt of the connectivity review. -/
structure ConnectivityReceipt where
  id : String
  appliedAt : ℕ
  counts : Counts
deriving DecidableEq

/-- The column `data` of an event of a review. -/
inductive EventData where
  | work (receipt : WorkReceipt)
  | connectivity (receipt : ConnectivityReceipt)
  /-- Anything else, too long a text included. -/
  | other
deriving DecidableEq

/-- A row of `events`. -/
structure RecoveryEvent where
  type : String
  source : String
  subjectId : String
  data : EventData
deriving DecidableEq

/-- The lease columns of a trigger. -/
structure TriggerLease where
  owner : Option String
  expiresAt : Option ℕ

/-- A row of `connection_instances`. -/
structure ConnectionInstance where
  id : String
  status : String
  credentialRevision : ℕ
  smtpInstanceId : Option String
  smtpPairInitialized : ℕ
  deletedAt : Option ℕ
  lastError : Option String
deriving DecidableEq

/-- A row of `devices`. -/
structure DeviceRow where
  id : String
  status : String
  trust : String
deriving DecidableEq

/-- The database of a restored home. -/
structure RecoveryDb extends Store where
  /-- The lease columns of `triggers`. -/
  triggerLeases : String → TriggerLease
  sessions : List String
  events : List RecoveryEvent
  workflowRuns : Packages.Runs
  automationInstances : Packages.Instances
  connections : Table ConnectionInstance ConnectionInstance.id
  devices : Table DeviceRow DeviceRow.id
  /-- `validateRecoverySchema` accepts the schema, without and with the columns of the connectivity
  review. -/
  supported : Bool
  supportedConnectivity : Bool

/-- The action waits for the owner, or is approved. -/
def isAuthorized (a : AgentAction) : Bool := a.status = .pending || a.status = .approved

/-- The action of a queue item was executed. -/
def RecoveryDb.hasExecuted (db : RecoveryDb) (actionId : String) : Bool :=
  (db.actions.find actionId).any fun a => a.status = .executed

/-- The queue item of an action is not completed. -/
def RecoveryDb.isQueued (db : RecoveryDb) (actionId : String) : Bool :=
  (db.queue.find actionId).any fun q => q.status ≠ .completed

/-- A step that is not over. -/
def isOpenStep (x : RunStep) : Bool :=
  x.status = .planned || x.status = .running || x.status = .waitingDependency

def RecoveryDb.runWork (db : RecoveryDb) (r : AgentRun) : Bool :=
  !r.status.isFinished && r.cancelRequestedAt.isNone || r.continuationAfterStep.isSome ||
    db.steps.rows.any fun (x : RunStep) => x.runId = r.id && isOpenStep x

/-- The trigger is enabled or leased. -/
def RecoveryDb.triggerWork (db : RecoveryDb) (t : Trigger) : Bool :=
  t.enabled || (db.triggerLeases t.id).owner.isSome

def counts (db : RecoveryDb) : Counts :=
  [("approvals", db.actions.rows.countP isAuthorized),
    ("heldQueueItems", db.queue.rows.countP fun (q : QueueItem) =>
      q.status ≠ .completed && !db.hasExecuted q.actionId),
    ("knownCompletedQueueRepairs", db.queue.rows.countP fun (q : QueueItem) =>
      q.status ≠ .completed && db.hasExecuted q.actionId),
    ("runsToStop", db.runs.rows.countP db.runWork),
    ("pausedGoals", db.goals.rows.countP fun (g : Goal) => g.status.canRun),
    ("enabledTriggers", db.triggers.rows.countP fun (t : Trigger) => t.enabled),
    ("pendingWakes", db.wakes.rows.countP fun (w : GoalWake) => w.status = .pending),
    ("activeSchedules", db.schedules.rows.countP fun (x : ResearchSchedule) => x.status = .active),
    ("sessions", db.sessions.length)]

/-! ### The transaction -/

/-- The action with its approval revoked: what it was is retained. -/
def revoked (now : ℕ) (a : AgentAction) : AgentAction :=
  { a with
    rejectedAt := a.rejectedAt <|> some now
    rejectedBy := a.rejectedBy <|> some "system:recovery" }

/-- Approvals are revoked. -/
def revokeActions (db : RecoveryDb) (now : ℕ) : RecoveryDb :=
  { db with
    actions := db.actions.updateWhere
      (fun a => isAuthorized a || a.status ≠ .executed && db.isQueued a.id) (revoked now)
      fun _ => rfl }

/-- Actions that wait or are approved are cancelled. -/
def cancelActions (db : RecoveryDb) : RecoveryDb :=
  { db with
    actions := db.actions.updateWhere (fun a => isAuthorized a)
      (fun a => { a with status := .cancelled }) fun _ => rfl }

/-- The item without its lease and its authorization. -/
def unauthorized (q : QueueItem) : QueueItem :=
  { q with
    leaseOwner := none, leaseExpiresAt := none, approvalReference := none
    policyDecisionReference := none }

/-- The item of an executed action. -/
def completed (q : QueueItem) : QueueItem := { unauthorized q with status := .completed }

theorem completed_actionId (q : QueueItem) : (completed q).actionId = q.actionId := rfl

/-- The items of executed actions are completed. -/
def completeItems (db : RecoveryDb) : RecoveryDb :=
  { db with
    queue := db.queue.updateWhere (fun q => q.status ≠ .completed && db.hasExecuted q.actionId)
      completed completed_actionId }

/-- The item, held for the owner. -/
def held (q : QueueItem) : QueueItem :=
  { unauthorized q with
    status := .failed
    errorClass := some .recoveryReviewRequired
    lastError := some ("Restored snapshot requires owner review; the original may have " ++
      "progressed after capture") }

theorem held_actionId (q : QueueItem) : (held q).actionId = q.actionId := rfl

/-- All other items are held. -/
def holdItems (db : RecoveryDb) : RecoveryDb :=
  { db with
    queue := db.queue.updateWhere (fun q => q.status ≠ .completed) held held_actionId }

/-- The run, cancelled. -/
def stopped (now : ℕ) (r : AgentRun) : AgentRun :=
  { r with
    status := .cancelled
    cancelRequestedAt := r.cancelRequestedAt <|> some now
    cancelledBy := r.cancelledBy <|> some "system:recovery"
    continuationAfterStep := none
    continuationClaimed := false }

/-- Runs are cancelled. -/
def stopRuns (db : RecoveryDb) (now : ℕ) : RecoveryDb :=
  { db with runs := db.runs.updateWhere (fun r => db.runWork r) (stopped now) fun _ => rfl }

/-- The action of a step was executed, or its item is completed. -/
def RecoveryDb.stepExecuted (db : RecoveryDb) (x : RunStep) : Bool :=
  x.actionId.any fun id =>
    db.hasExecuted id || (db.queue.find id).any fun q => q.status = .completed

/-- The step, closed. -/
def RecoveryDb.closed (db : RecoveryDb) (x : RunStep) : RunStep :=
  { x with status := if db.stepExecuted x then .executed else .cancelled }

def closeSteps (db : RecoveryDb) : RecoveryDb :=
  { db with steps := db.steps.updateWhere (fun x => isOpenStep x) db.closed fun _ => rfl }

theorem disabled_id (t : Trigger) :
    { t with enabled := false, nextCheckAt := none }.id = t.id := rfl

/-- Goals pause, triggers are disabled, wakes and schedules are cancelled, sessions are gone. -/
def stopGoals (db : RecoveryDb) : RecoveryDb :=
  { db with
    goals := db.goals.updateWhere (fun g => g.status.canRun)
      (fun g => { g with status := .paused, revision := g.revision + 1 }) fun _ => rfl
    triggers := db.triggers.updateWhere (fun t => db.triggerWork t)
      (fun t => { t with enabled := false, nextCheckAt := none }) disabled_id
    triggerLeases := fun id =>
      if db.triggers.rows.any fun (t : Trigger) => t.id = id && db.triggerWork t then ⟨none, none⟩
      else db.triggerLeases id
    wakes := db.wakes.updateWhere (fun w => w.status = .pending)
      (fun w => { w with status := .cancelled, blocker := some "recovery_review_required" })
      fun _ => rfl
    schedules := db.schedules.updateWhere (fun x => x.status = .active)
      (fun x => { x with status := .cancelled, blocker := some "recovery_review_required" })
      fun _ => rfl
    sessions := [] }

/-- `EVENT_TYPE`. -/
def workEventType : String := "system.recovery_work_quarantined"

/-- The checkpoint. -/
def recordWork (db : RecoveryDb) (recoveryId : String) (receipt : WorkReceipt) : RecoveryDb :=
  { db with
    events := db.events ++ [⟨workEventType, "system:recovery", recoveryId, .work receipt⟩] }

/-- The transaction of `reviewRecoveryWork`. -/
def quarantineWork (db : RecoveryDb) (recoveryId : String) (receipt : WorkReceipt) (now : ℕ) :
    RecoveryDb :=
  recordWork
    (stopGoals (closeSteps (stopRuns (holdItems (completeItems (cancelActions
      (revokeActions db now)))) now)))
    recoveryId receipt

/-- `connectivityPreparation` of a marker. -/
structure Preparation where
  id : String
  otherKeys : List String
deriving DecidableEq

/-- What `.u2os-recovery.json` says; a time is there where it is finite. -/
structure Marker where
  version : ℕ
  status : String
  database : String
  verifiedAt : Option ℕ
  installationId : Option String
  recoveryId : Option String
  workQuarantine : Option WorkReceipt
  connectivityPreparation : Option Preparation
  connectivityQuarantine : Option ConnectivityReceipt
deriving DecidableEq

def countKeys : List String :=
  ["approvals", "heldQueueItems", "knownCompletedQueueRepairs", "runsToStop", "pausedGoals",
    "enabledTriggers", "pendingWakes", "activeSchedules", "sessions"]

/-- The format of a receipt. -/
def WorkReceipt.isValid (r : WorkReceipt) : Bool :=
  r.version = 1 && isUuid r.id && r.scope = "database-work-only" && r.otherKeys = [] &&
    r.counts.length = countKeys.length && countKeys.all (fun k => (r.counts.lookup k).isSome) &&
    r.appliedAt.isSome

/-- The item is held, as the transaction holds it. -/
def isHeldItem (q : QueueItem) : Bool :=
  q.status = .failed && q.errorClass = some .recoveryReviewRequired && q.leaseOwner.isNone &&
    q.leaseExpiresAt.isNone && q.approvalReference.isNone && q.policyDecisionReference.isNone

/-- The tables are as the transaction leaves them. -/
def isStopped (db : RecoveryDb) : Bool :=
  ((counts db).all fun c => c.1 = "heldQueueItems" || c.2 = 0) &&
    db.queue.rows.countP (fun (q : QueueItem) => q.status ≠ .completed && !isHeldItem q) = 0 &&
    db.actions.rows.countP (fun (a : AgentAction) =>
      a.status ≠ .executed && a.rejectedAt.isNone && db.isQueued a.id) = 0

/-- The checkpoints for a marker. -/
def workEvents (db : RecoveryDb) (marker : Marker) : List RecoveryEvent :=
  db.events.filter fun e => e.type = workEventType && e.source = "system:recovery" &&
    e.subjectId = marker.recoveryId.getD ""

/-- `readWorkQuarantineCheckpoint`; `none` where it refuses. -/
def readWorkQuarantineCheckpoint (db : RecoveryDb) (marker : Marker) :
    Option (Option WorkReceipt) :=
  match workEvents db marker with
  | [] => if marker.workQuarantine.isSome then none else some none
  | [e] =>
    match e.data with
    | .work receipt => if receipt.isValid && isStopped db then some (some receipt) else none
    | _ => none
  | _ => none

/-- Nothing runs. -/
structure Stopped (db : RecoveryDb) : Prop where
  actions : ∀ a ∈ db.actions, isAuthorized a = false
  items : ∀ q ∈ db.queue, q.status ≠ .completed →
    isHeldItem q = true ∧ db.hasExecuted q.actionId = false
  rejected : ∀ a ∈ db.actions, a.status ≠ .executed → a.rejectedAt = none →
    db.isQueued a.id = false
  runs : ∀ r ∈ db.runs, db.runWork r = false
  goals : ∀ g ∈ db.goals, g.status.canRun = false
  triggers : ∀ t ∈ db.triggers, t.enabled = false
  wakes : ∀ w ∈ db.wakes, w.status ≠ .pending
  schedules : ∀ x ∈ db.schedules, x.status ≠ .active
  sessions : db.sessions = []

theorem isStopped_iff {db : RecoveryDb} : isStopped db = true ↔ Stopped db := by
  simp only [isStopped, counts, List.all_cons, List.all_nil, Bool.and_eq_true, Bool.or_eq_true,
    decide_eq_true_eq, List.countP_eq_zero, Table.mem_rows, List.length_eq_zero_iff,
    Bool.not_eq_true, Bool.and_true, Bool.not_eq_true', String.reduceEq, false_or, true_or, true_and,
    not_and, Bool.not_eq_false, Option.isNone_iff_eq_none, and_imp, ne_eq]
  constructor
  · rintro ⟨⟨⟨ha, hx, hr, hg, ht, hw, hs, hses⟩, hheld⟩, hrej⟩
    exact ⟨ha, fun q hq hne => ⟨hheld q hq hne, hx q hq hne⟩, hrej, hr, hg, ht, hw, hs, hses⟩
  · intro h
    exact ⟨⟨⟨h.actions, fun q hq hne => (h.items q hq hne).2, h.runs, h.goals, h.triggers, h.wakes,
      h.schedules, h.sessions⟩, fun q hq hne => (h.items q hq hne).1⟩, h.rejected⟩

/-! ### What the transaction does -/

section Quarantine

variable (db : RecoveryDb) (recoveryId : String) (receipt : WorkReceipt) (now : ℕ)

theorem mem_actions_quarantineWork {a : AgentAction}
    (ha : a ∈ (quarantineWork db recoveryId receipt now).actions) :
    isAuthorized a = false ∧ (a.status = .executed ∨ a.rejectedAt ≠ none ∨
      ∃ b ∈ db.actions, a = b ∧ db.isQueued b.id = false) := by
  obtain ⟨a', ha', rfl⟩ := Table.of_mem_updateWhere (by intro _; rfl) ha
  obtain ⟨b, hb, rfl⟩ := Table.of_mem_updateWhere (by intro _; rfl) ha'
  by_cases hrevoked : (isAuthorized b || b.status ≠ .executed && db.isQueued b.id) = true
  · rw [if_pos hrevoked]
    have hrejected : (revoked now b).rejectedAt ≠ none := by
      unfold revoked
      cases b.rejectedAt <;> exact Option.some_ne_none _
    split_ifs with hauth
    · exact ⟨rfl, .inr (.inl hrejected)⟩
    · exact ⟨Bool.eq_false_of_not_eq_true hauth, .inr (.inl hrejected)⟩
  · rw [if_neg hrevoked]
    simp only [Bool.or_eq_true, Bool.and_eq_true, decide_eq_true_eq, not_or, not_and] at hrevoked
    rw [if_neg hrevoked.1]
    refine ⟨Bool.eq_false_of_not_eq_true hrevoked.1, ?_⟩
    by_cases hex : b.status = .executed
    · exact .inl hex
    · exact .inr (.inr ⟨b, hb, rfl, Bool.eq_false_of_not_eq_true (hrevoked.2 hex)⟩)

theorem mem_queue_quarantineWork {q : QueueItem}
    (hq : q ∈ (quarantineWork db recoveryId receipt now).queue) (hne : q.status ≠ .completed) :
    isHeldItem q = true ∧
      (quarantineWork db recoveryId receipt now).hasExecuted q.actionId = false := by
  change q ∈ (holdItems (completeItems (cancelActions (revokeActions db now)))).queue at hq
  change _ ∧ (cancelActions (revokeActions db now)).hasExecuted q.actionId = false
  generalize cancelActions (revokeActions db now) = u at hq ⊢
  obtain ⟨q', hq', rfl⟩ := Table.of_mem_updateWhere (by intro _; rfl) hq
  obtain ⟨q₀, hq₀, rfl⟩ := Table.of_mem_updateWhere (by intro _; rfl) hq'
  by_cases hexecuted : (q₀.status ≠ .completed && u.hasExecuted q₀.actionId) = true
  · rw [if_pos hexecuted, if_neg (fun h => h rfl)] at hne
    exact absurd rfl hne
  · rw [if_neg hexecuted] at hne ⊢
    by_cases h : q₀.status = .completed
    · rw [if_neg (not_not_intro h)] at hne
      exact absurd h hne
    · rw [if_pos h]
      refine ⟨rfl, ?_⟩
      change u.hasExecuted q₀.actionId = false
      simpa [h] using hexecuted

theorem mem_steps_quarantineWork {x : RunStep}
    (hx : x ∈ (quarantineWork db recoveryId receipt now).steps) : isOpenStep x = false := by
  obtain ⟨y, _, rfl⟩ := Table.of_mem_updateWhere (by intro _; rfl) hx
  by_cases h : isOpenStep y = true
  · rw [if_pos h]
    unfold isOpenStep RecoveryDb.closed
    split_ifs <;> rfl
  · rw [if_neg h]
    exact Bool.eq_false_of_not_eq_true h

theorem isQueued_quarantineWork {actionId : String} (h : db.isQueued actionId = false) :
    (quarantineWork db recoveryId receipt now).isQueued actionId = false := by
  change (holdItems (completeItems (cancelActions (revokeActions db now)))).isQueued actionId =
    false
  change (cancelActions (revokeActions db now)).isQueued actionId = false at h
  generalize cancelActions (revokeActions db now) = u at h ⊢
  unfold RecoveryDb.isQueued at h ⊢
  simp only [holdItems, completeItems, Table.find_updateWhere]
  cases hq : u.queue.find actionId with
  | none => rfl
  | some q =>
    simp only [hq, Option.any_some, ne_eq, decide_not, Bool.not_eq_false', decide_eq_true_eq] at h
    simp [h]

theorem mem_runs_quarantineWork {r : AgentRun}
    (hr : r ∈ (quarantineWork db recoveryId receipt now).runs) :
    (quarantineWork db recoveryId receipt now).runWork r = false := by
  have hsteps : ∀ x ∈ (quarantineWork db recoveryId receipt now).steps, isOpenStep x = false :=
    fun x hx => mem_steps_quarantineWork db recoveryId receipt now hx
  obtain ⟨r₀, _, rfl⟩ := Table.of_mem_updateWhere (by intro _; rfl) hr
  unfold RecoveryDb.runWork
  simp only [Bool.or_eq_false_iff, List.any_eq_false, Bool.and_eq_true, not_and, Bool.not_eq_true]
  refine ⟨?_, fun x hx _ => hsteps x hx⟩
  split_ifs with h
  · exact ⟨rfl, rfl⟩
  · simp only [Bool.or_eq_true, not_or, Bool.not_eq_true] at h
    exact h.1

/-- A quarantine stops all work. -/
theorem stopped_quarantineWork : Stopped (quarantineWork db recoveryId receipt now) where
  actions _ ha := (mem_actions_quarantineWork db recoveryId receipt now ha).1
  items _ hq hne := mem_queue_quarantineWork db recoveryId receipt now hq hne
  rejected a ha hne hnone := by
    rcases (mem_actions_quarantineWork db recoveryId receipt now ha).2 with h | h | ⟨b, _, rfl, h⟩
    · exact absurd h hne
    · exact absurd hnone h
    · exact isQueued_quarantineWork db recoveryId receipt now h
  runs r hr := mem_runs_quarantineWork db recoveryId receipt now hr
  goals g hg := by
    obtain ⟨g₀, _, rfl⟩ := Table.of_mem_updateWhere (by intro _; rfl) hg
    split_ifs with h
    · rfl
    · exact Bool.eq_false_of_not_eq_true h
  triggers t ht := by
    obtain ⟨t₀, _, rfl⟩ := Table.of_mem_updateWhere (by intro _; rfl) ht
    split_ifs with h
    · rfl
    · simp only [RecoveryDb.triggerWork, Bool.or_eq_true, not_or, Bool.not_eq_true] at h
      exact h.1
  wakes w hw := by
    obtain ⟨w₀, _, rfl⟩ := Table.of_mem_updateWhere (by intro _; rfl) hw
    split_ifs with h
    · exact WakeStatus.noConfusion
    · exact h
  schedules x hx := by
    obtain ⟨x₀, _, rfl⟩ := Table.of_mem_updateWhere (by intro _; rfl) hx
    split_ifs with h
    · exact ScheduleStatus.noConfusion
    · exact h
  sessions := rfl

theorem evolves_actions_quarantineWork :
    db.actions.Evolves (fun a b => b.id = a.id ∧ b.result = a.result ∧ (a.status = .executed → b = a))
      (fun _ => False) (quarantineWork db recoveryId receipt now).actions := by
  refine Table.Evolves.trans ?_ ?_ (Table.Evolves.updateWhere (by intro _; rfl) ?_ ?_)
    (Table.Evolves.updateWhere (t := (revokeActions db now).actions) (by intro _; rfl) ?_ ?_)
  · rintro a b c ⟨hid, hresult, hex⟩ ⟨hid', hresult', hex'⟩
    refine ⟨hid'.trans hid, hresult'.trans hresult, fun h => ?_⟩
    obtain rfl := hex h
    exact hex' h
  · exact fun _ _ h _ => h
  · exact fun a => ⟨rfl, rfl, fun _ => rfl⟩
  · intro a _ ha
    refine ⟨rfl, rfl, fun h => ?_⟩
    simp [isAuthorized, h] at ha
  · exact fun a => ⟨rfl, rfl, fun _ => rfl⟩
  · intro a _ ha
    refine ⟨rfl, rfl, fun h => ?_⟩
    simp [isAuthorized, h] at ha

end Quarantine

theorem stopped_of_checkpoint {db : RecoveryDb} {marker : Marker} {receipt : WorkReceipt}
    (h : readWorkQuarantineCheckpoint db marker = some (some receipt)) : Stopped db := by
  unfold readWorkQuarantineCheckpoint at h
  split at h
  · split_ifs at h
    cases h
  · split at h
    · split_ifs at h with hok
      exact isStopped_iff.1 (Bool.and_eq_true_iff.1 hok).2
    · cases h
  · cases h

/-- The checkpoint of a quarantine is read back as it was written. -/
theorem readWorkQuarantineCheckpoint_quarantineWork {db : RecoveryDb} {marker marker' : Marker}
    {recoveryId : String} {receipt : WorkReceipt} {now : ℕ}
    (h : readWorkQuarantineCheckpoint db marker = some none)
    (hid : marker.recoveryId = some recoveryId) (hid' : marker'.recoveryId = some recoveryId)
    (hvalid : receipt.isValid = true) :
    readWorkQuarantineCheckpoint (quarantineWork db recoveryId receipt now) marker' =
      some (some receipt) := by
  have hnone : workEvents db marker = [] := by
    unfold readWorkQuarantineCheckpoint at h
    split at h
    · assumption
    · split at h
      · split_ifs at h
        cases h
      · cases h
    · cases h
  have hone : workEvents (quarantineWork db recoveryId receipt now) marker' =
      [⟨workEventType, "system:recovery", recoveryId, .work receipt⟩] := by
    unfold workEvents at hnone ⊢
    rw [hid] at hnone
    rw [hid']
    change (db.events ++ _).filter _ = _
    rw [List.filter_append, hnone]
    simp
  unfold readWorkQuarantineCheckpoint
  rw [hone]
  exact if_pos (Bool.and_eq_true_iff.2
    ⟨hvalid, isStopped_iff.2 (stopped_quarantineWork db recoveryId receipt now)⟩)

end U2os.Server.Backup
