import U2os.Server.Agent.RunStore
import U2os.Server.Policy.PolicyEngine

/-!
# The action queue worker

`agent/action-queue-worker.js` with what it calls (`agent/action-executor.js`) and what calls it:
the end of `Agent.evaluateAndMaybeExecute`, and `ApprovalManager.approve`.  A *turn* is one call
of such a function.  It is cut at every statement on the database, at the call of the tool, and
at every point where an exception of the event bus or of `JSON.stringify` is caught; between two
pieces of a turn anything else may happen, and a turn may stop for good at every cut.

What the checks of a worker read besides the rows of the action (the run, the policy, the goal,
the package and the account) is a `View`, and is left open here.

## Main results

* `Work`, `Move`, `move_of_advance` : all a piece can do.
-/

namespace U2os.Server.Agent

open Policy

/-! ### The checks of a worker -/

structure WorkerConfig where
  /-- `tool.supportsIdempotency === true`, by the name of the tool. -/
  idempotent : String → Bool
  maxActionAgeMs : ℕ := 86_400_000

/-- What the checks read besides the rows of the action. -/
structure View where
  now : ℕ
  /-- `runId && isCancellationRequested(runId)`. -/
  runCancelled : Bool := false
  /-- `runId && isRunDeadlineExpired(runId)`. -/
  deadlineExpired : Bool := false
  /-- The decision of the policy engine, or why the tool or its decision is not to be had. -/
  evaluation : Except String Evaluation
  /-- The run has a goal, and the goal does not cover the tool. -/
  goalBlocked : Bool := false
  /-- What `packageAuthority(action)` answers. -/
  packageProblem : Option String := none
  /-- What the checks of the bound account throw. -/
  accountError : Option String := none

/-- What `_stop` is given. -/
structure Stop where
  status : StopStatus
  error : String
  errorClass : ErrorClass
  deriving DecidableEq, Repr

/-- The statuses a worker notes together with an error. -/
inductive NotedStatus where
  | failed
  | blocked
  | cancelled
  deriving DecidableEq, Repr

/-- The status of the action. -/
def NotedStatus.status : NotedStatus → ActionStatus
  | .failed => .failed
  | .blocked => .blocked
  | .cancelled => .cancelled

/-- What a worker notes on the action of an item it is about to stop. -/
inductive Note where
  | pending
  | error (status : NotedStatus) (message : String)
  deriving DecidableEq, Repr

def Note.patch : Note → ActionPatch
  | .pending => { status := some .pending }
  | .error status message => .failure status.status message

/-- What the checks come to. -/
inductive Decision where
  /-- The item is stopped, after the note on the action, if there is one. -/
  | stop (note : Option Note) (x : Stop)
  /-- The action is executed already; only the item is to be completed. -/
  | settle
  | attempt

/-- The item is stopped with the error that is noted on the action. -/
def Decision.note (noted : NotedStatus) (status : StopStatus) (error : String)
    (errorClass : ErrorClass) : Decision :=
  .stop (some (.error noted error)) { status, error, errorClass }

/-- The item is stopped, and the action is left as it is. -/
def Decision.halt (status : StopStatus) (error : String) (errorClass : ErrorClass) : Decision :=
  .stop none { status, error, errorClass }

def staleActionError : String := "Action is stale and requires owner review"

/-- The text of an outcome that is not known. -/
def uncertainOutcome : String :=
  "Prior external outcome is uncertain; check the originally bound provider/account before any " ++
    "fresh proposal; no automatic retry"

/-- The checks of `_executeLeased` on the action, once the policy has decided. -/
def checkAction (C : WorkerConfig) (a : AgentAction) (item : QueueItem) (attempts : List Attempt)
    (v : View) (e : Evaluation) : Decision :=
  match (if a.packageContext.isSome then v.packageProblem else none) with
  | some problem => .note .blocked .cancelled problem .nonRetryable
  | none =>
    if C.maxActionAgeMs < v.now - a.createdAt then
      .note .failed .failed staleActionError .ownerAttentionRequired
    else if e.requiresApproval ∧ a.approvedAt = none then
      .stop (some .pending)
        { status := .failed, error := "Current policy requires owner approval"
          errorClass := .ownerAttentionRequired }
    else
      match v.accountError with
      | some message => .note .failed .failed message .ownerAttentionRequired
      | none =>
        if item.arguments ≠ a.arguments then
          .note .failed .failed "Queued payload differs from the approved proposal"
            .ownerAttentionRequired
        else if (attempts.getLast?.bind Attempt.error) = some leaseExpired ∧
            C.idempotent item.tool = false then
          .note .failed .failed uncertainOutcome .outcomeUncertain
        else .attempt

/-- The checks of `_executeLeased`.  Where the deadline of the run has passed,
`markBudgetExhausted` is called too; it writes the tables of the runs only. -/
def executeLeased (C : WorkerConfig) (action : Option AgentAction) (item : QueueItem)
    (attempts : List Attempt) (v : View) : Decision :=
  match action with
  | none => .halt .cancelled "Authoritative action record is missing" .nonRetryable
  | some a =>
    if a.status = .rejected ∨ a.rejectedAt.isSome then
      .halt .cancelled "Owner approval was rejected or revoked" .ownerAttentionRequired
    else if a.status = .executed then .settle
    else if v.runCancelled then
      if 0 < item.attemptCount then
        .halt .failed "Run cancelled after a prior attempt; outcome needs owner review"
          .ownerAttentionRequired
      else .note .cancelled .cancelled "Run cancelled before attempt" .nonRetryable
    else if v.deadlineExpired then
      if 0 < item.attemptCount then
        .halt .failed "Run deadline expired after a prior attempt; outcome needs owner review"
          .ownerAttentionRequired
      else .note .blocked .cancelled "Run deadline expired before attempt" .nonRetryable
    else
      match v.evaluation with
      | .error message => .halt .failed message .nonRetryable
      | .ok e =>
        if v.goalBlocked then
          .note .blocked .cancelled "Goal scope is no longer valid" .ownerAttentionRequired
        else if e.blocked then .note .blocked .cancelled e.reason .nonRetryable
        else checkAction C a item attempts v e

/-- What an action has passed before its attempt. -/
structure Cleared (C : WorkerConfig) (a : AgentAction) (item : QueueItem) (attempts : List Attempt)
    (v : View) : Prop where
  unrejected : a.status ≠ .rejected ∧ a.rejectedAt = none
  unexecuted : a.status ≠ .executed
  running : v.runCancelled = false
  inTime : v.deadlineExpired = false
  goal : v.goalBlocked = false
  policy : ∃ e, v.evaluation = .ok e ∧ e.blocked = false ∧
    (e.requiresApproval = true → a.approvedAt.isSome = true)
  package : a.packageContext.isSome = true → v.packageProblem = none
  fresh : v.now - a.createdAt ≤ C.maxActionAgeMs
  account : v.accountError = none
  payload : item.arguments = a.arguments
  certain : attempts.getLast?.bind Attempt.error = some leaseExpired →
    C.idempotent item.tool = true

@[simp] theorem Decision.note_ne_attempt {noted : NotedStatus} {status : StopStatus}
    {error : String} {c : ErrorClass} : Decision.note noted status error c ≠ .attempt := by
  simp [Decision.note]

@[simp] theorem Decision.halt_ne_attempt {status : StopStatus} {error : String} {c : ErrorClass} :
    Decision.halt status error c ≠ .attempt := by
  simp [Decision.halt]

theorem passed {p : Prop} [Decidable p] {d d' d'' : Decision} (h : (if p then d else d') = d'')
    (hd : d ≠ d'') : ¬p ∧ d' = d'' := by
  split_ifs at h with hp
  · exact absurd h hd
  · exact ⟨hp, h⟩

variable {C : WorkerConfig} {item : QueueItem}

theorem checkAction_eq_attempt {a : AgentAction} {attempts : List Attempt} {v : View}
    {e : Evaluation} (h : checkAction C a item attempts v e = .attempt) :
    (a.packageContext.isSome = true → v.packageProblem = none) ∧
      v.now - a.createdAt ≤ C.maxActionAgeMs ∧
      (e.requiresApproval = true → a.approvedAt.isSome = true) ∧ v.accountError = none ∧
      item.arguments = a.arguments ∧
      (attempts.getLast?.bind Attempt.error = some leaseExpired →
        C.idempotent item.tool = true) := by
  unfold checkAction at h
  split at h
  · exact absurd h Decision.note_ne_attempt
  · rename_i hp
    obtain ⟨hage, h⟩ := passed h (by simp)
    obtain ⟨happ, h⟩ := passed h (by simp)
    split at h
    · exact absurd h Decision.note_ne_attempt
    · rename_i hacc
      obtain ⟨hargs, h⟩ := passed h (by simp)
      obtain ⟨hunc, -⟩ := passed h (by simp)
      refine ⟨fun hs => by simpa [hs] using hp, not_lt.1 hage, fun hr => ?_, hacc,
        not_not.1 hargs, fun he => ?_⟩
      · exact Option.isSome_iff_ne_none.2 fun hn => happ ⟨hr, hn⟩
      · by_contra hi
        exact hunc ⟨he, Bool.eq_false_of_not_eq_true hi⟩

/-- A worker goes on to an attempt only if all its checks have passed. -/
theorem cleared_of_attempt {action : Option AgentAction} {attempts : List Attempt} {v : View}
    (h : executeLeased C action item attempts v = .attempt) :
    ∃ a, action = some a ∧ Cleared C a item attempts v := by
  unfold executeLeased at h
  split at h
  · exact absurd h Decision.halt_ne_attempt
  · rename_i a
    obtain ⟨hrej, h⟩ := passed h (by simp)
    obtain ⟨hexe, h⟩ := passed h (by simp)
    obtain ⟨hcan, h⟩ := passed h (by split_ifs <;> simp)
    obtain ⟨hdead, h⟩ := passed h (by split_ifs <;> simp)
    split at h
    · exact absurd h Decision.halt_ne_attempt
    · rename_i e he
      obtain ⟨hgoal, h⟩ := passed h (by simp)
      obtain ⟨hblocked, h⟩ := passed h (by simp)
      obtain ⟨hpack, hage, happ, hacc, hargs, hcert⟩ := checkAction_eq_attempt h
      obtain ⟨hs, hat⟩ := not_or.1 hrej
      exact ⟨a, rfl, ⟨hs, by simpa using hat⟩, hexe, by simpa using hcan, by simpa using hdead,
        by simpa using hgoal, ⟨e, he, by simpa using hblocked, happ⟩, hpack, hage, hacc, hargs,
        hcert⟩

/-! ### Turns -/

/-- An exception, as `classifyActionError` sees it. -/
structure ToolError where
  message : String
  errorClass : ErrorClass
  safeToRetry : Bool := false
  deriving DecidableEq, Repr

/-- The class a worker records: an error may be retried only where a second call does no harm. -/
def ToolError.recordedClass (e : ToolError) (idempotent : Bool) : ErrorClass :=
  if e.errorClass = .retryable ∧ idempotent = false ∧ e.safeToRetry = false then
    .ownerAttentionRequired
  else e.errorClass

/-- What a turn answers. -/
structure Outcome where
  id : String
  status : StepStatus
  result : Option Json := none
  /-- `error` or `reason`. -/
  error : Option String := none
  deriving DecidableEq

def currentOutcome (db : ActionDb) (actionId : String) : Option Outcome :=
  (db.actions.find actionId).map fun a =>
    { id := a.id
      status :=
        match (db.queue.find actionId).map QueueItem.status with
        | some .completed => .executed
        | some status => status.toStep
        | none => a.status.toStep
      result := a.result }

/-- What `recordDecision` is given. -/
structure Proposal where
  id : String
  requestedBy : String
  tool : String
  arguments : Json
  evaluation : Evaluation
  correlationId : Option String := none
  accountBinding : Option Json := none
  packageContext : Option String := none

/-- The status of a new action. -/
def Proposal.status (p : Proposal) : ActionStatus :=
  if p.evaluation.blocked then .blocked
  else if p.evaluation.requiresApproval then .pending
  else .approved

/-- The audit row. -/
def Proposal.row (p : Proposal) (now : ℕ) : AgentAction where
  id := p.id
  requestedBy := p.requestedBy
  tool := p.tool
  arguments := p.arguments
  policyRule := some p.evaluation.rule
  status := p.status
  correlationId := p.correlationId
  accountBinding := p.accountBinding
  packageContext := p.packageContext
  createdAt := now

/-- What the gate enqueues. -/
def Proposal.enqueue (p : Proposal) : Enqueue where
  actionId := p.id
  correlationId := p.correlationId
  tool := p.tool
  arguments := p.arguments
  approvalReference := "autonomous"
  policyDecisionReference := p.evaluation.rule

/-- What `approve` enqueues. -/
def AgentAction.enqueue (a : AgentAction) (rule : String) (now : ℕ) : Enqueue where
  actionId := a.id
  correlationId := a.correlationId
  tool := a.tool
  arguments := a.arguments
  approvalReference := a.id ++ ":" ++ toString now
  policyDecisionReference := rule

/-- How far a worker is with the item it leased. -/
inductive Phase where
  /-- Before the second statement of the lease. -/
  | recovering
  | checking
  /-- Before the note on the action. -/
  | noting (note : Note) (x : Stop)
  /-- Before `stopLeasedAction`. -/
  | stopping (x : Stop)
  /-- Before `beginActionAttempt`, for an action that is executed. -/
  | settling
  /-- Before `completeActionAttempt`, for an action that was executed before. -/
  | settled (attemptId : String)
  /-- Before `beginActionAttempt`. -/
  | beginning
  /-- Before `tool.execute`. -/
  | calling (attemptId : String)
  /-- The tool is at work. -/
  | inFlight (attemptId : String)
  /-- The tool returned; before the update of the action. -/
  | returned (attemptId : String) (result : Json)
  /-- Before `agent.action.completed` is published. -/
  | recorded (attemptId : String) (result : Json)
  /-- Before `completeActionAttempt`. -/
  | published (attemptId : String) (result : Json)
  /-- In the `catch` of the executor, before the update of the action. -/
  | threw (attemptId : String) (e : ToolError)
  /-- Before `agent.action.failed` is published. -/
  | failing (attemptId : String) (e : ToolError)
  /-- In the `catch` of the worker, before `failActionAttempt`. -/
  | failed (attemptId : String) (e : ToolError)

/-- Up to its call a worker awaits nothing: no other turn of the same worker runs. -/
def Phase.isSync : Phase → Bool
  | .recovering | .checking | .noting .. | .stopping _ | .settling | .settled _ | .beginning
  | .calling _ => true
  | _ => false

/-- The attempt a call of the tool belongs to, before, during and after the call. -/
def Phase.attempt? : Phase → Option String
  | .calling i | .inFlight i | .returned i _ | .recorded i _ | .published i _ | .threw i _
  | .failing i _ | .failed i _ => some i
  | _ => none

/-- A call of one of the functions, between two pieces. -/
inductive Turn where
  | idle
  /-- The audit row is written. -/
  | proposed (p : Proposal)
  /-- The owner's approval is written. -/
  | approved (x : Enqueue)
  /-- `processAction`. -/
  | entering (actionId : String)
  /-- Before `_currentOutcome`. -/
  | reading (actionId : String)
  | work (worker : String) (item : QueueItem) (phase : Phase)
  | answered (o : Outcome)

/-- The pieces of a turn, with what they read from the outside. -/
inductive Act where
  /-- `recordDecision`. -/
  | propose (p : Proposal) (now : ℕ)
  /-- The run was cancelled before the action reached the queue. -/
  | withdraw
  /-- `evaluateAndMaybeExecute`, after `recordDecision`. -/
  | enqueue (now : ℕ)
  /-- `approve`, where neither the account nor the policy stops it. -/
  | approve (actionId approvedBy rule : String) (now : ℕ)
  /-- `requeueAction` or `enqueueAction` in `approve`. -/
  | dispatch (now : ℕ)
  /-- `processAction`: the first statement of `leaseActionByActionId`. -/
  | lease (worker : String) (leaseMs now : ℕ)
  /-- `processNext`: the first statement of `leaseNextAction`. -/
  | tick (worker : String) (leaseMs now : ℕ)
  /-- `_currentOutcome`. -/
  | read
  /-- The second statement of a lease. -/
  | expire (now : ℕ)
  | check (v : View)
  /-- `updateAgentAction`. -/
  | note
  /-- `stopLeasedAction`. -/
  | stop
  /-- `beginActionAttempt`. -/
  | begin (attemptId : String) (now : ℕ)
  /-- `tool.execute` is called. -/
  | call
  /-- `tool.execute` returns. -/
  | return_ (result : Json)
  /-- `tool.execute` throws. -/
  | throw_ (e : ToolError)
  /-- The result is recorded, or `JSON.stringify` throws. -/
  | record (thrown : Option ToolError)
  /-- An event of the executor is published, or `publish` throws. -/
  | publish (thrown : Option ToolError)
  /-- `completeActionAttempt`. -/
  | complete (now : ℕ)
  /-- `failActionAttempt`. -/
  | fail (now : ℕ)
  /-- `renewActionLease`, while the tool is at work. -/
  | renew (leaseMs now : ℕ)
  /-- The process stops, or an exception ends the turn. -/
  | quit

/-- `requeueAction` or `enqueueAction` in `approve`. -/
def dispatch (queue : Queue) (x : Enqueue) (now : ℕ) : Option Queue :=
  if (queue.find x.actionId).any fun q => q.status = .failed ∨ q.status = .cancelled then
    requeueAction queue x.actionId x.approvalReference x.policyDecisionReference now
  else enqueueAction queue x now

/-- The patch of an approval. -/
def approval (approvedBy : String) (now : ℕ) : ActionPatch where
  status := some .approved
  approvedBy := some approvedBy
  approvedAt := some now

/-- The tables with an action patched. -/
def ActionDb.patch (db : ActionDb) (actionId : String) (patch : ActionPatch) : ActionDb :=
  { db with actions := updateAgentAction db.actions actionId patch }

/-- The phase a decision leads to. -/
def Decision.phase : Decision → Phase
  | .stop (some note) x => .noting note x
  | .stop none x => .stopping x
  | .settle => .settling
  | .attempt => .beginning

/-- What a turn answers after the audit row. -/
def Proposal.outcome (p : Proposal) : Option Outcome :=
  match p.status with
  | .blocked => some { id := p.id, status := .blocked, error := some p.evaluation.reason }
  | .pending => some { id := p.id, status := .pending, error := some p.evaluation.reason }
  | _ => none

/-- One piece of a worker. -/
def work (C : WorkerConfig) (db : ActionDb) (w : String) (item : QueueItem) :
    Phase → Act → Option (ActionDb × Turn)
  | .recovering, .expire now =>
    some ({ db with attempts := expireAttempts db.attempts item.actionId now },
      .work w item .checking)
  | .checking, .check v =>
    let d := executeLeased C (db.actions.find item.actionId) item
      (listActionAttempts db.attempts item.actionId) v
    some (db, .work w item d.phase)
  | .noting note x, .note => some (db.patch item.actionId note.patch, .work w item (.stopping x))
  | .stopping x, .stop =>
    (stopLeasedAction db.queue item.actionId w x.status x.error x.errorClass).map fun queue =>
      ({ db with queue := queue },
        .answered { id := item.actionId, status := x.status.queueStatus.toStep
                    error := some x.error })
  | .settling, .begin id now =>
    (beginActionAttempt db item.actionId w id now).map fun r =>
      (r.1, .work w item (.settled id))
  | .settled id, .complete now =>
    (completeActionAttempt db id w now).map fun r => (r.1, .reading item.actionId)
  | .beginning, .begin id now =>
    (beginActionAttempt db item.actionId w id now).map fun r =>
      (r.1, .work w item (.calling id))
  | .calling id, .call => some (db, .work w item (.inFlight id))
  | .inFlight id, .return_ result => some (db, .work w item (.returned id result))
  | .inFlight id, .throw_ e => some (db, .work w item (.threw id e))
  | .inFlight id, .renew leaseMs now =>
    some ({ db with queue := renewActionLease db.queue item.actionId w leaseMs now },
      .work w item (.inFlight id))
  | .returned id result, .record none =>
    some (db.patch item.actionId { status := some .executed, result := some result },
      .work w item (.recorded id result))
  | .returned id _, .record (some e) => some (db, .work w item (.threw id e))
  | .recorded id result, .publish none => some (db, .work w item (.published id result))
  -- the event of a recorded result is published inside the `try` of the executor
  | .recorded id _, .publish (some e) => some (db, .work w item (.threw id e))
  | .published id result, .complete now =>
    (completeActionAttempt db id w now).map fun r =>
      (r.1, .answered { id := item.actionId, status := .executed, result := some result })
  | .threw id e, .note =>
    some (db.patch item.actionId (.failure .failed e.message), .work w item (.failing id e))
  | .failing id e, .publish none => some (db, .work w item (.failed id e))
  | .failing id _, .publish (some e) => some (db, .work w item (.failed id e))
  | .failed id e, .fail now =>
    (failActionAttempt db id w e.message (e.recordedClass (C.idempotent item.tool)) now).map
      fun r => (r.1, .answered { id := item.actionId, status := r.2.status.toStep
                                 error := some e.message })
  | _, _ => none

/-- One piece of a turn; none where the piece is not the next one, or throws. -/
def advance (C : WorkerConfig) (db : ActionDb) : Turn → Act → Option (ActionDb × Turn)
  | _, .quit => some (db, .idle)
  | .idle, .propose p now =>
    (db.actions.insert? (p.row now)).map fun actions => ({ db with actions := actions }, .proposed p)
  | .proposed p, .withdraw =>
    some (db.patch p.id (.failure .cancelled "Run cancelled before execution"),
      .answered { id := p.id, status := .cancelled, error := some "Run cancelled before execution" })
  | .proposed p, .enqueue now =>
    match p.outcome with
    | some o => some (db, .answered o)
    | none =>
      (enqueueAction db.queue p.enqueue now).map fun queue =>
        ({ db with queue := queue }, .entering p.id)
  | .idle, .approve actionId approvedBy rule now =>
    match db.actions.find actionId with
    | some a =>
      if a.status = .pending then
        some (db.patch actionId (approval approvedBy now), .approved (a.enqueue rule now))
      else none
    | none => none
  | .approved x, .dispatch now =>
    (dispatch db.queue x now).map fun queue => ({ db with queue := queue }, .entering x.actionId)
  | .entering actionId, .lease w leaseMs now =>
    match leaseActionByActionId db.queue actionId w leaseMs now with
    | some (queue, item) => some ({ db with queue := queue }, .work w item .recovering)
    | none => some (db, .reading actionId)
  | .idle, .tick w leaseMs now =>
    (leaseNextAction db.queue w leaseMs now).map fun r =>
      ({ db with queue := r.1 }, .work w r.2 .recovering)
  | .reading actionId, .read => (currentOutcome db actionId).map fun o => (db, .answered o)
  | .work w item phase, act => work C db w item phase act
  | _, _ => none

/-! ### What a piece can do -/

/-- All a piece of a worker can do. -/
inductive Work (C : WorkerConfig) (db : ActionDb) (w : String) (item : QueueItem) :
    Phase → Act → ActionDb → Turn → Prop
  | expire (now : ℕ) :
    Work C db w item .recovering (.expire now)
      { db with attempts := expireAttempts db.attempts item.actionId now } (.work w item .checking)
  | check (v : View) :
    Work C db w item .checking (.check v) db (.work w item (executeLeased C
      (db.actions.find item.actionId) item (listActionAttempts db.attempts item.actionId) v).phase)
  | note (note : Note) (x : Stop) :
    Work C db w item (.noting note x) .note (db.patch item.actionId note.patch)
      (.work w item (.stopping x))
  | stop {x : Stop} {queue : Queue}
      (h : stopLeasedAction db.queue item.actionId w x.status x.error x.errorClass = some queue) :
    Work C db w item (.stopping x) .stop { db with queue := queue }
      (.answered { id := item.actionId, status := x.status.queueStatus.toStep
                   error := some x.error })
  | settle {id : String} {now : ℕ} {r : ActionDb × Attempt}
      (h : beginActionAttempt db item.actionId w id now = some r) :
    Work C db w item .settling (.begin id now) r.1 (.work w item (.settled id))
  | settled {id : String} {now : ℕ} {r : ActionDb × QueueItem}
      (h : completeActionAttempt db id w now = some r) :
    Work C db w item (.settled id) (.complete now) r.1 (.reading item.actionId)
  | begin {id : String} {now : ℕ} {r : ActionDb × Attempt}
      (h : beginActionAttempt db item.actionId w id now = some r) :
    Work C db w item .beginning (.begin id now) r.1 (.work w item (.calling id))
  | call (id : String) : Work C db w item (.calling id) .call db (.work w item (.inFlight id))
  | return_ (id : String) (result : Json) :
    Work C db w item (.inFlight id) (.return_ result) db (.work w item (.returned id result))
  | throw_ (id : String) (e : ToolError) :
    Work C db w item (.inFlight id) (.throw_ e) db (.work w item (.threw id e))
  | renew (id : String) (leaseMs now : ℕ) :
    Work C db w item (.inFlight id) (.renew leaseMs now)
      { db with queue := renewActionLease db.queue item.actionId w leaseMs now }
      (.work w item (.inFlight id))
  | record (id : String) (result : Json) :
    Work C db w item (.returned id result) (.record none)
      (db.patch item.actionId { status := some .executed, result := some result })
      (.work w item (.recorded id result))
  | recordThrows (id : String) (result : Json) (e : ToolError) :
    Work C db w item (.returned id result) (.record (some e)) db (.work w item (.threw id e))
  | publish (id : String) (result : Json) :
    Work C db w item (.recorded id result) (.publish none) db (.work w item (.published id result))
  | publishThrows (id : String) (result : Json) (e : ToolError) :
    Work C db w item (.recorded id result) (.publish (some e)) db (.work w item (.threw id e))
  | complete {id : String} {result : Json} {now : ℕ} {r : ActionDb × QueueItem}
      (h : completeActionAttempt db id w now = some r) :
    Work C db w item (.published id result) (.complete now) r.1
      (.answered { id := item.actionId, status := .executed, result := some result })
  | noteFailure (id : String) (e : ToolError) :
    Work C db w item (.threw id e) .note (db.patch item.actionId (.failure .failed e.message))
      (.work w item (.failing id e))
  | publishFailure (id : String) (e : ToolError) (thrown : Option ToolError) :
    Work C db w item (.failing id e) (.publish thrown) db
      (.work w item (.failed id (thrown.getD e)))
  | fail {id : String} {e : ToolError} {now : ℕ} {r : ActionDb × QueueItem}
      (h : failActionAttempt db id w e.message (e.recordedClass (C.idempotent item.tool)) now =
        some r) :
    Work C db w item (.failed id e) (.fail now) r.1
      (.answered { id := item.actionId, status := r.2.status.toStep, error := some e.message })

/-- All a piece of a turn can do. -/
inductive Move (C : WorkerConfig) (db : ActionDb) : Turn → Act → ActionDb → Turn → Prop
  | quit (u : Turn) : Move C db u .quit db .idle
  | propose {p : Proposal} {now : ℕ} {actions : Actions}
      (h : db.actions.insert? (p.row now) = some actions) :
    Move C db .idle (.propose p now) { db with actions := actions } (.proposed p)
  | withdraw (p : Proposal) :
    Move C db (.proposed p) .withdraw
      (db.patch p.id (.failure .cancelled "Run cancelled before execution"))
      (.answered { id := p.id, status := .cancelled
                   error := some "Run cancelled before execution" })
  | refuse {p : Proposal} {now : ℕ} {o : Outcome} (h : p.outcome = some o) :
    Move C db (.proposed p) (.enqueue now) db (.answered o)
  | enqueue {p : Proposal} {now : ℕ} {queue : Queue} (hp : p.outcome = none)
      (h : enqueueAction db.queue p.enqueue now = some queue) :
    Move C db (.proposed p) (.enqueue now) { db with queue := queue } (.entering p.id)
  | approve {actionId approvedBy rule : String} {now : ℕ} {a : AgentAction}
      (ha : db.actions.find actionId = some a) (hs : a.status = .pending) :
    Move C db .idle (.approve actionId approvedBy rule now)
      (db.patch actionId (approval approvedBy now)) (.approved (a.enqueue rule now))
  | dispatch {x : Enqueue} {now : ℕ} {queue : Queue} (h : dispatch db.queue x now = some queue) :
    Move C db (.approved x) (.dispatch now) { db with queue := queue } (.entering x.actionId)
  | lease {actionId w : String} {leaseMs now : ℕ} {r : Queue × QueueItem}
      (h : leaseActionByActionId db.queue actionId w leaseMs now = some r) :
    Move C db (.entering actionId) (.lease w leaseMs now) { db with queue := r.1 }
      (.work w r.2 .recovering)
  | miss {actionId w : String} {leaseMs now : ℕ}
      (h : leaseActionByActionId db.queue actionId w leaseMs now = none) :
    Move C db (.entering actionId) (.lease w leaseMs now) db (.reading actionId)
  | tick {w : String} {leaseMs now : ℕ} {r : Queue × QueueItem}
      (h : leaseNextAction db.queue w leaseMs now = some r) :
    Move C db .idle (.tick w leaseMs now) { db with queue := r.1 } (.work w r.2 .recovering)
  | read {actionId : String} {o : Outcome} (h : currentOutcome db actionId = some o) :
    Move C db (.reading actionId) .read db (.answered o)
  | work {w : String} {item : QueueItem} {phase : Phase} {act : Act} {db' : ActionDb} {u : Turn}
      (h : Work C db w item phase act db' u) : Move C db (.work w item phase) act db' u

theorem work_of_work {db db' : ActionDb} {w : String} {phase : Phase} {act : Act} {u : Turn}
    (h : work C db w item phase act = some (db', u)) :
    Work C db w item phase act db' u := by
  unfold Agent.work at h
  split at h
  all_goals simp only [Option.map_eq_some_iff, Option.some.injEq, Prod.mk.injEq, reduceCtorEq] at h
  · obtain ⟨rfl, rfl⟩ := h; exact .expire _
  · obtain ⟨rfl, rfl⟩ := h; exact .check _
  · obtain ⟨rfl, rfl⟩ := h; exact .note _ _
  · obtain ⟨_, h, rfl, rfl⟩ := h; exact .stop h
  · obtain ⟨_, h, rfl, rfl⟩ := h; exact .settle h
  · obtain ⟨_, h, rfl, rfl⟩ := h; exact .settled h
  · obtain ⟨_, h, rfl, rfl⟩ := h; exact .begin h
  · obtain ⟨rfl, rfl⟩ := h; exact .call _
  · obtain ⟨rfl, rfl⟩ := h; exact .return_ _ _
  · obtain ⟨rfl, rfl⟩ := h; exact .throw_ _ _
  · obtain ⟨rfl, rfl⟩ := h; exact .renew _ _ _
  · obtain ⟨rfl, rfl⟩ := h; exact .record _ _
  · obtain ⟨rfl, rfl⟩ := h; exact .recordThrows _ _ _
  · obtain ⟨rfl, rfl⟩ := h; exact .publish _ _
  · obtain ⟨rfl, rfl⟩ := h; exact .publishThrows _ _ _
  · obtain ⟨_, h, rfl, rfl⟩ := h; exact .complete h
  · obtain ⟨rfl, rfl⟩ := h; exact .noteFailure _ _
  · obtain ⟨rfl, rfl⟩ := h; exact .publishFailure _ _ none
  · obtain ⟨rfl, rfl⟩ := h; exact .publishFailure _ _ (some _)
  · obtain ⟨_, h, rfl, rfl⟩ := h; exact .fail h

theorem move_of_advance {db db' : ActionDb} {u u' : Turn} {act : Act}
    (h : advance C db u act = some (db', u')) : Move C db u act db' u' := by
  unfold advance at h
  split at h
  · cases h; exact .quit _
  · obtain ⟨_, hx, he⟩ := Option.map_eq_some_iff.1 h
    cases he; exact .propose hx
  · cases h; exact .withdraw _
  · split at h
    · rename_i ho; cases h; exact .refuse ho
    · rename_i ho
      obtain ⟨_, hx, he⟩ := Option.map_eq_some_iff.1 h
      cases he; exact .enqueue ho hx
  · split at h
    · rename_i ha
      split_ifs at h with hs
      cases h; exact .approve ha hs
    · cases h
  · obtain ⟨_, hx, he⟩ := Option.map_eq_some_iff.1 h
    cases he; exact .dispatch hx
  · split at h
    · rename_i hl; cases h; exact .lease hl
    · rename_i hl; cases h; exact .miss hl
  · obtain ⟨_, hx, he⟩ := Option.map_eq_some_iff.1 h
    cases he; exact .tick hx
  · obtain ⟨_, hx, he⟩ := Option.map_eq_some_iff.1 h
    cases he; exact .read hx
  · exact .work (work_of_work h)
  · cases h

end U2os.Server.Agent
