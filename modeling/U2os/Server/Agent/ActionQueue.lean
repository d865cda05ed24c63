import Mathlib.Algebra.GroupWithZero.Nat
import Mathlib.Data.List.Sort
import U2os.Lib.Json
import U2os.Lib.Table

/-!
# The action queue

The rows of `agent_actions`, `action_queue` and `action_attempts`, and the statements of
`agent/action-queue-store.js` and `policy/policy-engine.js` on them.

`action_id` is unique in `action_queue`, so a queue item is named by its action here, and an
attempt refers to the action.  Times are milliseconds; ISO timestamps of the years 0 to 9999 are
ordered as their instants.  Left out are the columns no statement or check reads.
-/

namespace U2os.Server.Agent

/-- The column `status` of `agent_actions`. -/
inductive ActionStatus where
  | pending
  | approved
  | executed
  | rejected
  | blocked
  | cancelled
  | failed
  deriving DecidableEq, Repr

/-- `ACTION_QUEUE_STATUSES`. -/
inductive QueueStatus where
  | queued
  | leased
  | executing
  | retryWait
  | completed
  | failed
  | deadLetter
  | cancelled
  deriving DecidableEq, Repr

/-- `ACTION_ERROR_CLASSES`. -/
inductive ErrorClass where
  | retryable
  | nonRetryable
  | authenticationRequired
  | ownerAttentionRequired
  | recoveryReviewRequired
  | outcomeUncertain
  deriving DecidableEq, Repr

/-- The column `status` of `action_attempts`. -/
inductive AttemptStatus where
  | executing
  | completed
  | failed
  deriving DecidableEq, Repr

/-- A row of `agent_actions`. -/
structure AgentAction where
  id : String
  requestedBy : String
  tool : String
  arguments : Json
  policyRule : Option String := none
  status : ActionStatus := .pending
  approvedBy : Option String := none
  approvedAt : Option ℕ := none
  rejectedBy : Option String := none
  rejectedAt : Option ℕ := none
  result : Option Json := none
  correlationId : Option String := none
  accountBinding : Option Json := none
  /-- `packageContext.package`, where the action has a package context. -/
  packageContext : Option String := none
  createdAt : ℕ
  deriving DecidableEq

/-- A row of `action_queue`. -/
structure QueueItem where
  actionId : String
  correlationId : Option String := none
  tool : String
  arguments : Json
  idempotencyKey : String
  status : QueueStatus := .queued
  attemptCount : ℕ := 0
  nextAttemptAt : ℕ
  leaseOwner : Option String := none
  leaseExpiresAt : Option ℕ := none
  lastError : Option String := none
  errorClass : Option ErrorClass := none
  approvalReference : Option String := none
  policyDecisionReference : Option String := none
  createdAt : ℕ
  deriving DecidableEq

/-- A row of `action_attempts`. -/
structure Attempt where
  id : String
  /-- The action of `queue_id`. -/
  actionId : String
  attemptNumber : ℕ
  leaseOwner : String
  status : AttemptStatus := .executing
  startedAt : ℕ
  finishedAt : Option ℕ := none
  error : Option String := none
  errorClass : Option ErrorClass := none
  deriving DecidableEq

/-- The table `agent_actions`. -/
abbrev Actions := Table AgentAction AgentAction.id

/-- The table `action_queue`. -/
abbrev Queue := Table QueueItem QueueItem.actionId

/-- The table `action_attempts`. -/
abbrev Attempts := Table Attempt Attempt.id

/-- The three tables. -/
structure ActionDb where
  actions : Actions
  queue : Queue
  attempts : Attempts

structure ActionPatch where
  status : Option ActionStatus := none
  approvedBy : Option String := none
  approvedAt : Option ℕ := none
  rejectedBy : Option String := none
  rejectedAt : Option ℕ := none
  result : Option Json := none

/-- The row with a patch applied. -/
def ActionPatch.apply (patch : ActionPatch) (a : AgentAction) : AgentAction :=
  { a with
    status := patch.status.getD a.status
    approvedBy := patch.approvedBy <|> a.approvedBy
    approvedAt := patch.approvedAt <|> a.approvedAt
    rejectedBy := patch.rejectedBy <|> a.rejectedBy
    rejectedAt := patch.rejectedAt <|> a.rejectedAt
    result := patch.result <|> a.result }

def updateAgentAction (actions : Actions) (id : String) (patch : ActionPatch) : Actions :=
  actions.updateWhere (fun a => a.id = id) patch.apply fun _ => rfl

/-- `{ error: message }`. -/
def errorResult (message : String) : Json := .obj [("error", .str message)]

/-- `{ status, result: { error: message } }`. -/
def ActionPatch.failure (status : ActionStatus) (message : String) : ActionPatch where
  status := some status
  result := some (errorResult message)

/-! ### The queue -/

def actionIdempotencyKey (tool : String) (correlationId : Option String) (actionId : String) :
    String :=
  tool ++ ":" ++ ((correlationId.filter (· ≠ "")).getD actionId) ++ ":" ++ actionId

/-- What `enqueueAction` is given. -/
structure Enqueue where
  actionId : String
  correlationId : Option String
  tool : String
  arguments : Json
  approvalReference : String
  policyDecisionReference : String

/-- The row of a new item. -/
def Enqueue.row (x : Enqueue) (now : ℕ) : QueueItem where
  actionId := x.actionId
  correlationId := x.correlationId
  tool := x.tool
  arguments := x.arguments
  idempotencyKey := actionIdempotencyKey x.tool x.correlationId x.actionId
  nextAttemptAt := now
  approvalReference := some x.approvalReference
  policyDecisionReference := some x.policyDecisionReference
  createdAt := now

/-- `enqueueAction`: the item of an action is never reset.  The statement fails where another
item has the idempotency key. -/
def enqueueAction (queue : Queue) (x : Enqueue) (now : ℕ) : Option Queue :=
  match queue.find x.actionId with
  | some _ => some queue
  | none =>
    if queue.rows.any fun q => q.idempotencyKey = (x.row now).idempotencyKey then none
    else queue.insert? (x.row now)

/-- The item waits for a worker. -/
def QueueStatus.waits : QueueStatus → Bool
  | .queued | .retryWait => true
  | _ => false

/-- A worker has the item. -/
def QueueStatus.isHeld : QueueStatus → Bool
  | .leased | .executing => true
  | _ => false

/-- The item as `cancelUnstartedAction` leaves it. -/
def QueueItem.unstarted (q : QueueItem) : QueueItem :=
  { q with
    status := .cancelled, lastError := some "Run cancelled before attempt",
    errorClass := some .nonRetryable }

/-- `cancelUnstartedAction`: cancellation wins only before a worker leases the action. -/
def cancelUnstartedAction (db : ActionDb) (actionId : String) : ActionDb :=
  match db.queue.find actionId, db.actions.find actionId with
  | some q, some a =>
    if q.status.waits ∧ a.status ≠ .executed then
      { db with
        queue := db.queue.put q.unstarted
        actions := updateAgentAction db.actions actionId { status := some .cancelled } }
    else db
  | _, _ => db

/-- The statuses `stopLeasedAction` takes. -/
inductive StopStatus where
  | failed
  | cancelled
  deriving DecidableEq, Repr

/-- The status of a stopped item. -/
def StopStatus.queueStatus : StopStatus → QueueStatus
  | .failed => .failed
  | .cancelled => .cancelled

/-- The item as `stopLeasedAction` leaves it. -/
def QueueItem.stopped (status : StopStatus) (error : String) (errorClass : ErrorClass)
    (q : QueueItem) : QueueItem :=
  { q with
    status := status.queueStatus, leaseOwner := none, leaseExpiresAt := none,
    lastError := some error, errorClass := some errorClass }

/-- `stopLeasedAction`: the item has to be leased to the caller. -/
def stopLeasedAction (queue : Queue) (actionId leaseOwner : String) (status : StopStatus)
    (error : String) (errorClass : ErrorClass) : Option Queue :=
  match queue.find actionId with
  | some q =>
    if q.status = .leased ∧ q.leaseOwner = some leaseOwner then
      some (queue.put (q.stopped status error errorClass))
    else none
  | none => none

/-- The item as `requeueAction` leaves it. -/
def QueueItem.requeued (approvalReference policyDecisionReference : String) (now : ℕ)
    (q : QueueItem) : QueueItem :=
  { q with
    status := .queued, nextAttemptAt := now, leaseOwner := none, leaseExpiresAt := none,
    lastError := none, errorClass := none, approvalReference := some approvalReference,
    policyDecisionReference := some policyDecisionReference }

/-- The classes `requeueAction` refuses. -/
def ErrorClass.isFinal : ErrorClass → Bool
  | .recoveryReviewRequired | .outcomeUncertain => true
  | _ => false

def requeueAction (queue : Queue) (actionId approvalReference policyDecisionReference : String)
    (now : ℕ) : Option Queue :=
  match queue.find actionId with
  | some q =>
    if q.errorClass.any ErrorClass.isFinal then none
    else if q.status = .failed ∨ q.status = .cancelled then
      some (queue.put (q.requeued approvalReference policyDecisionReference now))
    else none
  | none => none

/-- The item can be leased: it waits and is due, or its lease ran out. -/
def QueueItem.due (now : ℕ) (q : QueueItem) : Prop :=
  q.status.waits ∧ q.nextAttemptAt ≤ now ∨
    q.status.isHeld ∧ q.leaseExpiresAt.any (· ≤ now)

instance (now : ℕ) : DecidablePred (QueueItem.due now) :=
  fun _ => inferInstanceAs (Decidable (_ ∨ _))

/-- The item as a lease leaves it. -/
def QueueItem.leased (leaseOwner : String) (leaseMs now : ℕ) (q : QueueItem) : QueueItem :=
  { q with
    status := .leased, leaseOwner := some leaseOwner, leaseExpiresAt := some (now + leaseMs) }

/-- `ORDER BY next_attempt_at, created_at`. -/
def QueueItem.before (q q' : QueueItem) : Prop :=
  q.nextAttemptAt < q'.nextAttemptAt ∨
    q.nextAttemptAt = q'.nextAttemptAt ∧ q.createdAt ≤ q'.createdAt

instance : DecidableRel QueueItem.before := fun _ _ => inferInstanceAs (Decidable (_ ∨ _))

/-- The item a tick takes. -/
def nextDue (queue : Queue) (now : ℕ) : Option QueueItem :=
  ((queue.rows.filter fun q => QueueItem.due now q).insertionSort QueueItem.before).head?

/-- The first statement of `leaseNextAction`. -/
def leaseNextAction (queue : Queue) (leaseOwner : String) (leaseMs now : ℕ) :
    Option (Queue × QueueItem) :=
  (nextDue queue now).map fun q =>
    (queue.put (q.leased leaseOwner leaseMs now), q.leased leaseOwner leaseMs now)

/-- The first statement of `leaseActionByActionId`. -/
def leaseActionByActionId (queue : Queue) (actionId leaseOwner : String) (leaseMs now : ℕ) :
    Option (Queue × QueueItem) :=
  match queue.find actionId with
  | some q =>
    if q.due now then
      some (queue.put (q.leased leaseOwner leaseMs now), q.leased leaseOwner leaseMs now)
    else none
  | none => none

/-- The text that marks an attempt whose worker was lost. -/
def leaseExpired : String := "lease expired"

/-- The attempt as the second statement of a lease leaves it. -/
def Attempt.expired (now : ℕ) (x : Attempt) : Attempt :=
  { x with
    status := .failed, finishedAt := some now, error := some leaseExpired,
    errorClass := some .retryable }

/-- The second statement of both leases: the attempts a lost worker left are closed. -/
def expireAttempts (attempts : Attempts) (actionId : String) (now : ℕ) : Attempts :=
  attempts.updateWhere (fun x => x.actionId = actionId ∧ x.status = .executing)
    (Attempt.expired now) fun _ => rfl

def renewActionLease (queue : Queue) (actionId leaseOwner : String) (leaseMs now : ℕ) : Queue :=
  queue.updateWhere
    (fun q => q.actionId = actionId ∧ q.status.isHeld ∧ q.leaseOwner = some leaseOwner)
    (fun q => { q with leaseExpiresAt := some (now + leaseMs) }) fun _ => rfl

/-- A new attempt. -/
def QueueItem.attempt (q : QueueItem) (id leaseOwner : String) (now : ℕ) : Attempt where
  id := id
  actionId := q.actionId
  attemptNumber := q.attemptCount + 1
  leaseOwner := leaseOwner
  startedAt := now

/-- The item as `beginActionAttempt` leaves it. -/
def QueueItem.begun (q : QueueItem) : QueueItem :=
  { q with status := .executing, attemptCount := q.attemptCount + 1 }

/-- `beginActionAttempt`; the number of an attempt is unique in its item. -/
def beginActionAttempt (db : ActionDb) (actionId leaseOwner id : String) (now : ℕ) :
    Option (ActionDb × Attempt) := do
  let q ← db.queue.find actionId
  guard (q.status = .leased ∧ q.leaseOwner = some leaseOwner ∧ q.leaseExpiresAt.all (now < ·))
  let x := q.attempt id leaseOwner now
  guard !(db.attempts.rows.any fun y =>
    y.actionId = actionId && y.attemptNumber = x.attemptNumber)
  let attempts ← db.attempts.insert? x
  return ({ db with attempts := attempts, queue := db.queue.put q.begun }, x)

/-- What an attempt is settled with. -/
structure Settlement where
  queueStatus : QueueStatus
  attemptStatus : AttemptStatus
  error : Option String := none
  errorClass : Option ErrorClass := none
  nextAttemptAt : Option ℕ := none

/-- The item as `settleAttempt` leaves it. -/
def QueueItem.settled (x : Settlement) (q : QueueItem) : QueueItem :=
  { q with
    status := x.queueStatus, nextAttemptAt := x.nextAttemptAt.getD q.nextAttemptAt,
    leaseOwner := none, leaseExpiresAt := none, lastError := x.error, errorClass := x.errorClass }

/-- The attempt as `settleAttempt` leaves it. -/
def Attempt.settled (x : Settlement) (now : ℕ) (y : Attempt) : Attempt :=
  { y with
    status := x.attemptStatus, finishedAt := some now, error := x.error,
    errorClass := x.errorClass }

/-- `settleAttempt`: the attempt and the item have to be executing for the caller. -/
def settleAttempt (db : ActionDb) (id leaseOwner : String) (x : Settlement) (now : ℕ) :
    Option (ActionDb × QueueItem) := do
  let y ← db.attempts.find id
  guard (y.status = .executing ∧ y.leaseOwner = leaseOwner)
  let q ← db.queue.find y.actionId
  guard (q.status = .executing ∧ q.leaseOwner = some leaseOwner)
  return ({ db with
    queue := db.queue.put (q.settled x)
    attempts := db.attempts.put (y.settled x now) }, q.settled x)

def completeActionAttempt (db : ActionDb) (id leaseOwner : String) (now : ℕ) :
    Option (ActionDb × QueueItem) :=
  settleAttempt db id leaseOwner { queueStatus := .completed, attemptStatus := .completed } now

/-- The default of `maxAttempts`. -/
def maxAttempts : ℕ := 5

def retryDelayMs (attemptNumber : ℕ) : ℕ := min 60_000 (1_000 * 2 ^ (attemptNumber - 1))

/-- What `failActionAttempt` settles an attempt with. -/
def failure (attemptNumber : ℕ) (error : String) (errorClass : ErrorClass) (now : ℕ) :
    Settlement :=
  let retry := errorClass = .retryable ∧ attemptNumber < maxAttempts
  { queueStatus :=
      if retry then .retryWait else if errorClass = .retryable then .deadLetter else .failed
    attemptStatus := .failed
    error := some error
    errorClass := some errorClass
    nextAttemptAt := some (if retry then now + retryDelayMs attemptNumber else now) }

def failActionAttempt (db : ActionDb) (id leaseOwner error : String) (errorClass : ErrorClass)
    (now : ℕ) : Option (ActionDb × QueueItem) := do
  let y ← db.attempts.find id
  settleAttempt db id leaseOwner (failure y.attemptNumber error errorClass now) now

def listActionAttempts (attempts : Attempts) (actionId : String) : List Attempt :=
  (attempts.rows.filter fun x => x.actionId = actionId).insertionSort
    fun x y => x.attemptNumber ≤ y.attemptNumber

/-! ### What the statements do -/

variable {id w : String}

theorem find_updateAgentAction {actions : Actions} {patch : ActionPatch} {k : String} :
    (updateAgentAction actions id patch).find k =
      (actions.find k).map fun a => if k = id then patch.apply a else a := by
  refine (Table.find_updateWhere (t := actions)).trans (Option.map_congr fun a ha => ?_)
  have hid : a.id = k := Table.key_of_find ha
  rw [hid]

theorem find_updateAgentAction_of_ne {actions : Actions} {patch : ActionPatch} {k : String}
    (hk : k ≠ id) : (updateAgentAction actions id patch).find k = actions.find k := by
  rw [find_updateAgentAction]
  simp [hk]

variable {queue queue' : Queue} {now : ℕ}

/-- Enqueueing an action adds one item, if there is none yet. -/
theorem find_enqueueAction {x : Enqueue}
    (h : enqueueAction queue x now = some queue') (k : String) :
    queue'.find k =
      if k = x.actionId ∧ queue.find k = none then some (x.row now) else queue.find k := by
  unfold enqueueAction at h
  split at h
  · rename_i q hq
    cases h
    rw [if_neg]
    rintro ⟨rfl, hn⟩
    rw [hq] at hn
    cases hn
  · rename_i hq
    split_ifs at h
    rw [Table.find_insert? h]
    by_cases hk : k = x.actionId
    · subst hk
      exact (if_pos rfl).trans (if_pos ⟨rfl, hq⟩).symm
    · exact (if_neg hk).trans (if_neg fun e => hk e.1).symm

/-- Cancelling an action that has not started stops its item, and does nothing otherwise. -/
theorem cancelUnstartedAction_cases (db : ActionDb) (id : String) :
    cancelUnstartedAction db id = db ∨
      ∃ q a, db.queue.find id = some q ∧ db.actions.find id = some a ∧ q.status.waits = true ∧
        a.status ≠ .executed ∧ cancelUnstartedAction db id =
          { db with queue := db.queue.put q.unstarted
                    actions := updateAgentAction db.actions id { status := some .cancelled } } := by
  unfold cancelUnstartedAction
  split
  · rename_i q a hq ha
    split_ifs with h
    · exact .inr ⟨q, a, hq, ha, h.1, h.2, rfl⟩
    · exact .inl rfl
  · exact .inl rfl

theorem stopLeasedAction_eq_some {error : String} {st : StopStatus} {c : ErrorClass}
    (h : stopLeasedAction queue id w st error c = some queue') :
    ∃ q, queue.find id = some q ∧ q.status = .leased ∧ q.leaseOwner = some w ∧
      queue' = queue.put (q.stopped st error c) := by
  unfold stopLeasedAction at h
  split at h
  · rename_i q hq
    split_ifs at h with hs
    cases h
    exact ⟨q, hq, hs.1, hs.2, rfl⟩
  · cases h

theorem requeueAction_eq_some {ref decision : String}
    (h : requeueAction queue id ref decision now = some queue') :
    ∃ q, queue.find id = some q ∧ (q.status = .failed ∨ q.status = .cancelled) ∧
      q.errorClass.any ErrorClass.isFinal = false ∧
      queue' = queue.put (q.requeued ref decision now) := by
  unfold requeueAction at h
  split at h
  · rename_i q hq
    split_ifs at h with hc hs
    cases h
    exact ⟨q, hq, hs, by simpa using hc, rfl⟩
  · cases h

theorem leaseActionByActionId_eq_some {leaseMs : ℕ} {r : Queue × QueueItem}
    (h : leaseActionByActionId queue id w leaseMs now = some r) :
    ∃ q, queue.find id = some q ∧ q.due now ∧
      r = (queue.put (q.leased w leaseMs now), q.leased w leaseMs now) := by
  unfold leaseActionByActionId at h
  split at h
  · rename_i q hq
    split_ifs at h with hd
    cases h
    exact ⟨q, hq, hd, rfl⟩
  · cases h

theorem nextDue_eq_some {q : QueueItem}
    (h : nextDue queue now = some q) : queue.find q.actionId = some q ∧ q.due now := by
  have hmem := List.mem_of_mem_head? h
  rw [List.mem_insertionSort, List.mem_filter] at hmem
  exact ⟨Table.find_key hmem.1, of_decide_eq_true hmem.2⟩

theorem leaseNextAction_eq_some {leaseMs : ℕ} {r : Queue × QueueItem}
    (h : leaseNextAction queue w leaseMs now = some r) :
    ∃ q, nextDue queue now = some q ∧ queue.find q.actionId = some q ∧ q.due now ∧
      r = (queue.put (q.leased w leaseMs now), q.leased w leaseMs now) := by
  obtain ⟨q, hq, rfl⟩ := Option.map_eq_some_iff.1 h
  exact ⟨q, hq, (nextDue_eq_some hq).1, (nextDue_eq_some hq).2, rfl⟩

variable {db : ActionDb}

theorem beginActionAttempt_eq_some {a : String} {r : ActionDb × Attempt}
    (h : beginActionAttempt db a w id now = some r) :
    ∃ q attempts, db.queue.find a = some q ∧ q.status = .leased ∧ q.leaseOwner = some w ∧
      q.leaseExpiresAt.all (now < ·) ∧
      (∀ y ∈ db.attempts, y.actionId = a → y.attemptNumber ≠ q.attemptCount + 1) ∧
      db.attempts.insert? (q.attempt id w now) = some attempts ∧
      r = ({ db with attempts := attempts, queue := db.queue.put q.begun },
        q.attempt id w now) := by
  simp only [beginActionAttempt, Option.bind_eq_bind, Option.bind_eq_some_iff, Option.guard_eq_some',
    exists_const_iff] at h
  obtain ⟨q, hq, _, ⟨hs, hw, he⟩, _, hn, attempts, hi, hr⟩ := h
  refine ⟨q, attempts, hq, hs, hw, he, ?_, hi, ?_⟩
  · intro y hy hya
    have hany := hn
    simp only [Bool.not_eq_true', List.any_eq_false, Bool.and_eq_true, decide_eq_true_eq,
      not_and] at hany
    exact hany y hy hya
  · simpa using hr.symm

theorem settleAttempt_eq_some {x : Settlement} {r : ActionDb × QueueItem}
    (h : settleAttempt db id w x now = some r) :
    ∃ y q, db.attempts.find id = some y ∧ y.status = .executing ∧ y.leaseOwner = w ∧
      db.queue.find y.actionId = some q ∧ q.status = .executing ∧ q.leaseOwner = some w ∧
      r = ({ db with queue := db.queue.put (q.settled x)
                     attempts := db.attempts.put (y.settled x now) }, q.settled x) := by
  simp only [settleAttempt, Option.bind_eq_bind, Option.bind_eq_some_iff] at h
  obtain ⟨y, hy, _, hys, q, hq, _, hqs, hr⟩ := h
  simp only [Option.guard_eq_some'] at hys hqs
  exact ⟨y, q, hy, hys.1, hys.2, hq, hqs.1, hqs.2, by simpa using hr.symm⟩

theorem failActionAttempt_eq_some {error : String} {c : ErrorClass} {r : ActionDb × QueueItem}
    (h : failActionAttempt db id w error c now = some r) :
    ∃ y, db.attempts.find id = some y ∧
      settleAttempt db id w (failure y.attemptNumber error c now) now = some r := by
  simpa [failActionAttempt, Option.bind_eq_some_iff] using h

theorem failure_queueStatus (n : ℕ) (error : String) (c : ErrorClass) (now : ℕ) :
    (failure n error c now).queueStatus = .retryWait ∨
      (failure n error c now).queueStatus = .deadLetter ∨
      (failure n error c now).queueStatus = .failed := by
  simp only [failure]
  split_ifs <;> simp

end U2os.Server.Agent
