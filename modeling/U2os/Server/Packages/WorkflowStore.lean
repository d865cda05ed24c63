import Mathlib.Data.List.Sort
import U2os.Lib.Json
import U2os.Lib.Table

/-!
# The workflow store

The rows of `workflow_runs`, `automation_instances` and `agent_actions` and the statements of
`packages/workflow-store.js` on them.  A workflow is represented as `validateWorkflow` leaves it:
the `use:` of a step is parsed and carries the inputs of its kind.

Times are milliseconds; step records (`workflow_steps`), which the engine only writes, are left
out, and so are the columns no statement of the engine reads.
-/

namespace U2os.Server.Packages

/-- What a `sleep` step waits for. -/
inductive SleepInput where
  | duration (value : Json)
  | until_ (value : Json)

/-- `parseUse(step.use)` with the `with:` of the step. -/
inductive Use where
  | capability (target : String) (input : Json)
  | skill (target : String) (input : Json)
  | transform (value : Json)
  | filter (source : Json) (where_ : String)
  | emit (type : String) (data : Json) (subject : Option Json)
  | state (set : Json)
  | sleep (input : SleepInput)
  | wait (event : String) (where_ : Option String) (timeout : Option Json)

structure Retry where
  attempts : ℕ
  backoff : Option Json := none

/-- A step of a workflow. -/
structure Step where
  id : String
  use : Use
  when_ : Option String := none
  foreach : Option Json := none
  retry : Option Retry := none
  timeout : Option Json := none
  policy : Option String := none
  /-- `onError: continue`. -/
  continueOnError : Bool := false

/-- What a run executes: a module, or steps. -/
inductive Workflow where
  | code (implementation : String)
  | steps (steps : List Step) (output : Option Json)

/-- `workflow.steps`. -/
def Workflow.stepList : Workflow → List Step
  | .code _ => []
  | .steps list _ => list

/-- The column `status` of `workflow_runs`. -/
inductive RunStatus where
  | pending
  | running
  | waiting
  | completed
  | failed
  | cancelled
  | skipped
  | throttled
  deriving DecidableEq, Repr

/-- `TERMINAL_RUN_STATUSES`. -/
def RunStatus.isTerminal : RunStatus → Bool
  | .completed | .failed | .cancelled | .skipped | .throttled => true
  | .pending | .running | .waiting => false

/-- `ACTIVE_RUN_STATUSES`. -/
def RunStatus.isActive : RunStatus → Bool
  | .pending | .running | .waiting => true
  | .completed | .failed | .cancelled | .skipped | .throttled => false

/-- The entry of a step in the context. -/
structure StepEntry where
  status : RunStatus
  output : Json

/-- `run.context`: the entries of the steps by their ids. -/
abbrev Context := List (String × StepEntry)

/-- `context[id] = entry`. -/
def Context.set : Context → String → StepEntry → Context
  | [], id, entry => [(id, entry)]
  | p :: rest, id, entry =>
    if p.1 = id then (id, entry) :: rest else p :: Context.set rest id entry

/-- `position.handle`: what a unit must remember to be resumed. -/
structure Handle where
  attempt : Option ℕ := none
  actionId : Option String := none
  policy : Option Json := none
  childRunId : Option String := none
  until_ : Option Int := none
  waiting : Bool := false
  since : Option Int := none
  deadline : Option Int := none
  event : Option Json := none
  timedOut : Bool := false

structure Position where
  step : ℕ := 0
  iteration : ℕ := 0
  items : Option (List Json) := none
  results : List Json := []
  handle : Option Handle := none

/-- `position.handle || {}`. -/
def Position.handleOrEmpty (p : Position) : Handle := p.handle.getD {}

def Position.actionId (p : Position) : Option String := p.handle.bind Handle.actionId

inductive Wait where
  | action (actionId capability : String)
  | child (runId : String)
  | timer (until_ : Int)
  | retry (attempt : ℕ) (until_ : Int)
  | event (event : String) (where_ : Option String) (since deadline : Option Int)
  deriving DecidableEq

inductive RunKind where
  | automation
  | skill
  deriving DecidableEq, Repr

/-- A row of `workflow_runs`. -/
structure WorkflowRun where
  id : String
  kind : RunKind
  definitionId : String
  packageId : String
  principalPackageId : String
  instanceId : Option String := none
  rootRunId : String
  parentRunId : Option String := none
  depth : ℕ := 0
  trigger : Json := .null
  dedupeKey : Option String := none
  status : RunStatus := .pending
  workflow : Workflow
  inputs : Json := .obj []
  outputs : Option Json := none
  context : Context := []
  position : Position := {}
  wait : Option Wait := none
  wakeAt : Option Int := none
  error : Option String := none
  leaseOwner : Option String := none
  leaseExpiresAt : Option Int := none
  createdAt : Int
  startedAt : Option Int := none

/-- A row of `automation_instances`. -/
structure Instance where
  id : String
  automationId : String
  state : Json := .obj []
  stateVersion : ℕ := 0
  lastRunId : Option String := none
  lastStatus : Option RunStatus := none
  lastError : Option String := none

/-- The column `status` of `agent_actions`. -/
inductive ActionStatus where
  | pending
  | approved
  | executed
  | rejected
  | blocked
  | cancelled
  | failed
  | deadLetter
  deriving DecidableEq, Repr

/-- A row of `agent_actions`. -/
structure AgentAction where
  id : String
  status : ActionStatus := .pending
  policyRule : Option String := none
  /-- `result`. -/
  result : Option Json := none
  /-- `result?.error`. -/
  error : Option String := none

/-- The table `workflow_runs`. -/
abbrev Runs := Table WorkflowRun WorkflowRun.id

/-- The table `automation_instances`. -/
abbrev Instances := Table Instance Instance.id

/-- The table `agent_actions`. -/
abbrev Actions := Table AgentAction AgentAction.id

/-- The values of a run to be inserted. -/
structure NewRun where
  kind : RunKind
  definitionId : String
  packageId : String
  principalPackageId : Option String := none
  instanceId : Option String := none
  rootRunId : Option String := none
  parentRunId : Option String := none
  depth : ℕ := 0
  trigger : Json := .null
  dedupeKey : Option String := none
  status : RunStatus := .pending
  workflow : Workflow
  inputs : Json := .obj []
  error : Option String := none

def NewRun.row (n : NewRun) (id : String) (now : Int) : WorkflowRun where
  id := id
  kind := n.kind
  definitionId := n.definitionId
  packageId := n.packageId
  principalPackageId := n.principalPackageId.getD n.packageId
  instanceId := n.instanceId
  rootRunId := n.rootRunId.getD id
  parentRunId := n.parentRunId
  depth := n.depth
  trigger := n.trigger
  dedupeKey := n.dedupeKey
  status := n.status
  workflow := n.workflow
  inputs := n.inputs
  error := n.error
  createdAt := now

/-- `INSERT OR IGNORE`: nothing happens when the dedupe key or the id is taken. -/
def insertRun (runs : Runs) (n : NewRun) (id : String) (now : Int) : Option Runs :=
  if n.dedupeKey.isSome && runs.rows.any fun r => r.dedupeKey = n.dedupeKey then none
  else runs.insert? (n.row id now)

def getRunByDedupe (runs : Runs) (key : String) : Option WorkflowRun :=
  runs.rows.find? fun r => r.dedupeKey = some key

/-- The columns `leaseRun` sets. -/
def WorkflowRun.leased (owner : String) (leaseMs now : Int) (r : WorkflowRun) : WorkflowRun :=
  { r with
    status := .running, leaseOwner := some owner, leaseExpiresAt := some (now + leaseMs),
    startedAt := some (r.startedAt.getD now) }

/-- `UPDATE … SET status = 'running' … WHERE id = ? AND status = 'pending'`, and the row. -/
def leaseRun (runs : Runs) (id owner : String) (leaseMs now : Int) : Option (Runs × WorkflowRun) :=
  match runs.find id with
  | some r =>
    if r.status = .pending then
      some (runs.put (r.leased owner leaseMs now), r.leased owner leaseMs now)
    else none
  | none => none

/-- The guard of `renewRunLease`, `checkpointRun` and `suspendRun`. -/
def WorkflowRun.heldBy (id owner : String) (r : WorkflowRun) : Prop :=
  r.id = id ∧ r.leaseOwner = some owner ∧ r.status = .running

instance (id owner : String) : DecidablePred (WorkflowRun.heldBy id owner) :=
  fun _ => inferInstanceAs (Decidable (_ ∧ _ ∧ _))

def renewRunLease (runs : Runs) (id owner : String) (leaseMs now : Int) : Runs :=
  runs.updateWhere (WorkflowRun.heldBy id owner)
    (fun r => { r with leaseExpiresAt := some (now + leaseMs) }) fun _ => rfl

/-- `checkpointRun`: nothing is written to a run the worker does not hold. -/
def checkpointRun (runs : Runs) (id owner : String) (context : Context) (position : Position) :
    Runs :=
  runs.updateWhere (WorkflowRun.heldBy id owner)
    (fun r => { r with context := context, position := position }) fun _ => rfl

def suspendRun (runs : Runs) (id owner : String) (context : Context) (position : Position)
    (wait : Wait) (wakeAt : Option Int) : Runs :=
  runs.updateWhere (WorkflowRun.heldBy id owner)
    (fun r => { r with
      status := .waiting, context := context, position := position, wait := some wait,
      wakeAt := wakeAt, leaseOwner := none, leaseExpiresAt := none }) fun _ => rfl

/-- The columns `finishRun` sets; context and position stay unless they are given. -/
def WorkflowRun.finished (status : RunStatus) (outputs : Option Json) (error : Option String)
    (context : Option Context) (position : Option Position) (r : WorkflowRun) : WorkflowRun :=
  { r with
    status := status, outputs := outputs, error := error, context := context.getD r.context,
    position := position.getD r.position, wait := none, wakeAt := none, leaseOwner := none,
    leaseExpiresAt := none }

/-- `finishRun`: `UPDATE … WHERE id = ?`, whatever the status of the run is. -/
def finishRun (runs : Runs) (id : String) (status : RunStatus) (outputs : Option Json)
    (error : Option String) (context : Option Context) (position : Option Position) : Runs :=
  runs.updateWhere (fun r => r.id = id)
    (WorkflowRun.finished status outputs error context position) fun _ => rfl

/-- The columns `wakeRun` sets. -/
def WorkflowRun.woken (position : Option Position) (r : WorkflowRun) : WorkflowRun :=
  { r with
    status := .pending, position := position.getD r.position, wait := none, wakeAt := none }

/-- `wakeRun`: only a waiting run is made runnable. -/
def wakeRun (runs : Runs) (id : String) (position : Option Position) : Runs :=
  runs.updateWhere (fun r => r.id = id ∧ r.status = .waiting) (WorkflowRun.woken position)
    fun _ => rfl

/-- The rows `recoverInterruptedRuns` resets. -/
def WorkflowRun.interrupted (expiredOnly : Bool) (now : Int) (r : WorkflowRun) : Prop :=
  r.status = .running ∧ (expiredOnly = true → r.leaseExpiresAt.all fun t => t ≤ now)

instance (expiredOnly : Bool) (now : Int) :
    DecidablePred (WorkflowRun.interrupted expiredOnly now) :=
  fun _ => inferInstanceAs (Decidable (_ ∧ _))

/-- `recoverInterruptedRuns`: running runs return to pending. -/
def recoverInterruptedRuns (runs : Runs) (expiredOnly : Bool) (now : Int) : Runs :=
  runs.updateWhere (WorkflowRun.interrupted expiredOnly now)
    (fun r => { r with status := .pending, leaseOwner := none, leaseExpiresAt := none })
    fun _ => rfl

/-- `listWaitingRuns`, in the order of insertion. -/
def listWaitingRuns (runs : Runs) : List WorkflowRun :=
  runs.rows.filter fun r => r.status = .waiting

/-- `ORDER BY created_at DESC, id DESC`. -/
def WorkflowRun.newer (r r' : WorkflowRun) : Prop :=
  r'.createdAt < r.createdAt ∨ r'.createdAt = r.createdAt ∧ ¬r.id < r'.id

instance : DecidableRel WorkflowRun.newer := fun _ _ => inferInstanceAs (Decidable (_ ∨ _))

/-- `listRuns({ parentRunId, status: ACTIVE_RUN_STATUSES })`: at most 50, newest first. -/
def listActiveChildren (runs : Runs) (parentId : String) : List WorkflowRun :=
  ((runs.rows.filter fun (r : WorkflowRun) =>
    r.parentRunId = some parentId && r.status.isActive).insertionSort WorkflowRun.newer).take 50

/-- What `updateInstance` may patch. -/
structure InstancePatch where
  lastRunId : Option String := none
  lastStatus : Option RunStatus := none
  /-- `lastError`, where it is given at all. -/
  lastError : Option (Option String) := none
  state : Option Json := none

def updateInstance (instances : Instances) (id : String) (patch : InstancePatch) : Instances :=
  instances.updateWhere (fun x => x.id = id)
    (fun x => { x with
      lastRunId := patch.lastRunId <|> x.lastRunId
      lastStatus := patch.lastStatus <|> x.lastStatus
      lastError := patch.lastError.getD x.lastError
      state := patch.state.getD x.state
      stateVersion := if patch.state.isSome then x.stateVersion + 1 else x.stateVersion })
    fun _ => rfl

end U2os.Server.Packages
