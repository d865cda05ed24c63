import U2os.Server.Agent.ActionQueue

/-!
# The run store

The rows of `agent_runs`, `agent_run_steps` and of the goal tables, and the functions of
`agent/run-store.js` on them.  Every function is one transaction, or a few statements with no
`await` between them, and is represented as one function on the store; a function that throws
leaves the store as it was.

Left out are the texts of a run (objective, response, provenance) and the columns that only the
presentation of a run reads.
-/

namespace U2os.Server.Agent

/-! ### Rows -/

/-- The column `status` of `agent_runs`. -/
inductive RunStatus where
  | planning
  | running
  | interrupted
  | needsAttention
  | waitingForApproval
  | waitingForDependency
  | waitingForAction
  | readyToContinue
  | cancelling
  | completed
  | failed
  | cancelled
  | budgetExhausted
  deriving DecidableEq, Repr

/-- The run is over: `completed`, `failed`, `cancelled` or `budget_exhausted`. -/
def RunStatus.isFinished : RunStatus → Bool
  | .completed | .failed | .cancelled | .budgetExhausted => true
  | _ => false

/-- The column `status` of `agent_run_steps`: what a turn plans and skips, what a worker answers,
and what the rows of the action say. -/
inductive StepStatus where
  | planned
  | running
  | waitingDependency
  | interrupted
  | needsAttention
  | outcomeUncertain
  | waitingForAction
  | waitingForApproval
  | planning
  | retrying
  | pending
  | approved
  | queued
  | leased
  | executing
  | retryWait
  | completed
  | executed
  | blocked
  | failed
  | deadLetter
  | cancelled
  | rejected
  | skipped
  | budgetExhausted
  deriving DecidableEq, Repr

/-- Why a budget stops a run. -/
inductive BudgetReason where
  | runUnavailable
  | elapsedLimit
  | stepLimit
  | tokenLimit
  | goalUnavailable
  | goalTokenLimit
  | goalModelCallLimit
  deriving DecidableEq, Repr

/-- A row of `agent_runs`. -/
structure AgentRun where
  id : String
  actorId : String
  goalId : Option String := none
  goalRevision : Option ℕ := none
  status : RunStatus := .planning
  modelCallCount : ℕ := 0
  meteredModelCalls : ℕ := 0
  inputTokens : ℕ := 0
  outputTokens : ℕ := 0
  tokenLimit : ℕ := 20000
  stepCount : ℕ := 0
  stepLimit : ℕ := 16
  deadlineAt : ℕ
  continuationAfterStep : Option ℕ := none
  continuationClaimed : Bool := false
  cancelRequestedAt : Option ℕ := none
  cancelledBy : Option String := none
  budgetStopReason : Option BudgetReason := none
  deriving DecidableEq

/-- A row of `agent_run_steps`. -/
structure RunStep where
  runId : String
  index : ℕ
  tool : String
  arguments : Json
  dependsOn : List ℕ := []
  status : StepStatus := .planned
  actionId : Option String := none
  deriving DecidableEq

/-- The primary key of a step. -/
def RunStep.key (x : RunStep) : String × ℕ := (x.runId, x.index)

/-- The column `status` of `goals`. -/
inductive GoalStatus where
  | draft
  | active
  | paused
  | cancelled
  deriving DecidableEq, Repr

/-- A goal may start runs. -/
def GoalStatus.canRun : GoalStatus → Bool
  | .draft | .active => true
  | .paused | .cancelled => false

/-- The column `budgets` of `goals`. -/
structure GoalBudgets where
  maxRuns : ℕ
  maxModelCalls : ℕ
  maxTokens : ℕ
  deriving DecidableEq

/-- A row of `goals`. -/
structure Goal where
  id : String
  ownerId : String
  /-- `permittedScope.domains`. -/
  domains : List String
  budgets : GoalBudgets
  status : GoalStatus := .draft
  revision : ℕ := 1
  deriving DecidableEq

/-- The column `status` of `goal_wakes`. -/
inductive WakeStatus where
  | pending
  | started
  | cancelled
  | blocked
  deriving DecidableEq, Repr

/-- A row of `goal_wakes`. -/
structure GoalWake where
  id : String
  goalId : String
  goalRevision : ℕ
  triggerId : String
  fireAt : ℕ
  status : WakeStatus := .pending
  runId : Option String := none
  blocker : Option String := none
  createdAt : ℕ
  deriving DecidableEq

/-- The column `status` of `goal_research_schedules`. -/
inductive ScheduleStatus where
  | active
  | completed
  | blocked
  | cancelled
  deriving DecidableEq, Repr

/-- A row of `goal_research_schedules`. -/
structure ResearchSchedule where
  id : String
  goalId : String
  goalRevision : ℕ
  intervalHours : ℕ
  maxPasses : ℕ
  scheduledPasses : ℕ := 1
  successfulPasses : ℕ := 0
  wakeId : String
  status : ScheduleStatus := .active
  blocker : Option String := none
  checkedAt : ℕ
  deriving DecidableEq

/-- A row of `triggers`, as far as goal wakes use it. -/
structure Trigger where
  id : String
  /-- `config.action.wakeId` of a `goal_run` action. -/
  wakeId : Option String := none
  enabled : Bool := true
  nextCheckAt : Option ℕ := none
  deriving DecidableEq

/-- The table `agent_runs`. -/
abbrev AgentRuns := Table AgentRun AgentRun.id

/-- The table `agent_run_steps`. -/
abbrev RunSteps := Table RunStep RunStep.key

/-- The table `goals`. -/
abbrev Goals := Table Goal Goal.id

/-- The table `goal_wakes`. -/
abbrev GoalWakes := Table GoalWake GoalWake.id

/-- The table `goal_research_schedules`. -/
abbrev ResearchSchedules := Table ResearchSchedule ResearchSchedule.id

/-- The table `triggers`. -/
abbrev Triggers := Table Trigger Trigger.id

/-- The tables of the agent. -/
structure Store extends ActionDb where
  runs : AgentRuns
  steps : RunSteps
  goals : Goals
  wakes : GoalWakes
  schedules : ResearchSchedules
  triggers : Triggers

/-- The rows of a run are rewritten. -/
def Store.updateRun (s : Store) (runId : String) (f : AgentRun → AgentRun)
    (hf : ∀ r, (f r).id = r.id := by intro r; rfl) : Store :=
  { s with runs := s.runs.updateWhere (fun r => r.id = runId) f hf }

/-- The steps of a run, in their order. -/
def Store.stepsOf (s : Store) (runId : String) : List RunStep :=
  (s.steps.rows.filter fun (x : RunStep) => x.runId = runId).insertionSort
    fun x y => x.index ≤ y.index

/-! ### What the rows say -/

def ActionStatus.toStep : ActionStatus → StepStatus
  | .pending => .pending
  | .approved => .approved
  | .executed => .executed
  | .rejected => .rejected
  | .blocked => .blocked
  | .cancelled => .cancelled
  | .failed => .failed

/-- The status of a queue item, as the status of a step. -/
def QueueStatus.toStep : QueueStatus → StepStatus
  | .queued => .queued
  | .leased => .leased
  | .executing => .executing
  | .retryWait => .retryWait
  | .completed => .completed
  | .failed => .failed
  | .deadLetter => .deadLetter
  | .cancelled => .cancelled

/-- An attempt of the action lost its worker. -/
def ActionDb.hasExpired (db : ActionDb) (actionId : String) : Bool :=
  db.attempts.rows.any fun x => x.actionId = actionId && x.error = some leaseExpired

/-- The item was stopped for good, or recovery rejected the action. -/
def isUncertain (action : AgentAction) (item : Option QueueItem) : Bool :=
  (item.bind QueueItem.errorClass).any ErrorClass.isFinal ||
    action.rejectedBy = some "system:recovery"

/-- The end of `currentStepStatus`: what the queue says about an action that is neither decided
nor executed. -/
def queueStepStatus (action : AgentAction) (item : Option QueueItem) (expired : Bool) :
    StepStatus :=
  match item.map QueueItem.status with
  | none => if action.status = .approved then .needsAttention else action.status.toStep
  | some .queued | some .leased | some .executing | some .retryWait => .waitingForAction
  | some .failed | some .cancelled => if expired then .outcomeUncertain else .needsAttention
  | some .completed | some .deadLetter => action.status.toStep

/-- `currentStepStatus`, for a step with an action id. -/
def actionStepStatus (action : AgentAction) (item : Option QueueItem) (expired : Bool) :
    StepStatus :=
  if action.status = .rejected then .rejected
  else if action.status = .blocked then .blocked
  else if action.status = .executed then .executed
  else if item.map QueueItem.status = some .completed then .executed
  else if isUncertain action item then .outcomeUncertain
  else if action.status = .cancelled ∧ expired then .outcomeUncertain
  else if action.status = .cancelled ∧ item.all fun q => q.status = .cancelled then .cancelled
  else queueStepStatus action item expired

def currentStepStatus (db : ActionDb) (x : RunStep) : StepStatus :=
  match x.actionId with
  | none => if x.status = .running then .interrupted else x.status
  | some id =>
    match db.actions.find id with
    | none => .interrupted
    | some action => actionStepStatus action (db.queue.find id) (db.hasExpired id)

/-- `TERMINAL`, without `executed`. -/
def StepStatus.isUnsuccessful : StepStatus → Bool
  | .blocked | .failed | .cancelled | .rejected | .skipped => true
  | _ => false

/-- The statuses that say that an action is on its way. -/
def StepStatus.isUnderway : StepStatus → Bool
  | .waitingForAction | .approved | .queued | .running | .retrying => true
  | _ => false

/-- The statuses that need the owner, for a run that is to be cancelled. -/
def StepStatus.isUnclear : StepStatus → Bool
  | .outcomeUncertain | .needsAttention | .interrupted => true
  | _ => false

def classifyRun (statuses : List StepStatus)
    (hasContinuation cancellationRequested budgetStopped : Bool) : RunStatus :=
  if cancellationRequested then
    if statuses.any StepStatus.isUnclear then .needsAttention
    else if statuses.any fun x => x.isUnderway || x = .pending then .cancelling
    else .cancelled
  else if .planning ∈ statuses ∨ .planned ∈ statuses then .running
  else if .interrupted ∈ statuses then .interrupted
  else if .needsAttention ∈ statuses then .needsAttention
  else if .outcomeUncertain ∈ statuses then .needsAttention
  else if budgetStopped ∧ statuses.any StepStatus.isUnderway = false then .budgetExhausted
  else if .waitingForApproval ∈ statuses ∨ .pending ∈ statuses then .waitingForApproval
  else if .waitingDependency ∈ statuses then .waitingForDependency
  else if statuses.any StepStatus.isUnderway then .waitingForAction
  else if statuses.any StepStatus.isUnsuccessful then .failed
  else if hasContinuation then .readyToContinue
  else .completed

/-- The steps of a run, with the statuses the rows of their actions give. -/
def Store.currentSteps (s : Store) (runId : String) : List RunStep :=
  (s.stepsOf runId).map fun x => { x with status := currentStepStatus s.toActionDb x }

/-- The status `getRun` computes. -/
def currentRunStatus (run : AgentRun) (steps : List RunStep) : RunStatus :=
  let cancelled := run.cancelRequestedAt.isSome
  if cancelled = false ∧ (run.status = .planning ∨ run.status = .running ∨ run.status = .failed) ∨
      steps.isEmpty ∧ cancelled = false then run.status
  else
    classifyRun (steps.map RunStep.status) run.continuationAfterStep.isSome cancelled
      run.budgetStopReason.isSome

/-- What `getRun` returns: the run and its steps as they now stand. -/
structure RunView where
  run : AgentRun
  steps : List RunStep

/-- `getRun`: the statuses of the run and of its steps are brought up to date. -/
def getRun (s : Store) (runId : String) : Option (Store × RunView) :=
  (s.runs.find runId).map fun run =>
    let steps := s.currentSteps runId
    let run' := { run with status := currentRunStatus run steps }
    let db := s.toActionDb
    ({ s with
        runs := s.runs.put run'
        steps := s.steps.updateWhere (fun x => x.runId = runId)
          (fun x => { x with status := currentStepStatus db x }) fun _ => rfl },
      { run := run', steps := steps })

/-- `getRun` for its effect. -/
def touchRun (s : Store) (runId : String) : Store :=
  match getRun s runId with
  | some (s', _) => s'
  | none => s

structure GoalUsage where
  runs : ℕ
  modelCalls : ℕ
  tokens : ℕ
  unfinished : ℕ

def AgentRuns.ofGoal (runs : AgentRuns) (goalId : String) : List AgentRun :=
  runs.rows.filter fun (r : AgentRun) => r.goalId = some goalId

/-- `input_tokens + output_tokens`. -/
def AgentRun.tokens (r : AgentRun) : ℕ := r.inputTokens + r.outputTokens

def goalUsage (runs : AgentRuns) (goalId : String) : GoalUsage where
  runs := (AgentRuns.ofGoal runs goalId).length
  modelCalls := ((AgentRuns.ofGoal runs goalId).map AgentRun.modelCallCount).sum
  tokens := ((AgentRuns.ofGoal runs goalId).map AgentRun.tokens).sum
  unfinished :=
    ((AgentRuns.ofGoal runs goalId).filter fun (r : AgentRun) => !r.status.isFinished).length

/-- The goal of a run is the active one the run was started for. -/
def Goal.serves (goal : Goal) (run : AgentRun) : Prop :=
  goal.status = .active ∧ run.goalRevision = some goal.revision

instance (goal : Goal) (run : AgentRun) : Decidable (goal.serves run) :=
  inferInstanceAs (Decidable (_ ∧ _))

/-- The goal part of `getBudgetStopReason`. -/
def goalStopReason (s : Store) (run : AgentRun) (goalId : String) : Option BudgetReason :=
  match s.goals.find goalId with
  | none => some .goalUnavailable
  | some goal =>
    if ¬goal.serves run then some .goalUnavailable
    else if goal.budgets.maxTokens ≤ (goalUsage s.runs goalId).tokens then some .goalTokenLimit
    else none

def getBudgetStopReason (s : Store) (runId : String) (now : ℕ) : Option BudgetReason :=
  match s.runs.find runId with
  | none => some .runUnavailable
  | some run =>
    if run.deadlineAt ≤ now then some .elapsedLimit
    else if run.stepLimit ≤ run.stepCount then some .stepLimit
    else if run.tokenLimit ≤ run.tokens then some .tokenLimit
    else run.goalId.bind (goalStopReason s run)

def getGoalModelCallStopReason (s : Store) (runId : String) : Option BudgetReason := do
  let run ← s.runs.find runId
  let goalId ← run.goalId
  match s.goals.find goalId with
  | none => some .goalUnavailable
  | some goal =>
    if ¬goal.serves run then some .goalUnavailable
    else if goal.budgets.maxModelCalls ≤ (goalUsage s.runs goalId).modelCalls then
      some .goalModelCallLimit
    else none

/-! ### Writing -/

def defaultRunElapsedMs : ℕ := 86_400_000

/-- What `createRun` is given. -/
structure NewRun where
  id : String
  actorId : String
  goalId : Option String := none
  goalWakeId : Option String := none

/-- The goal part of `createRun`: the goal becomes active; its revision is that of the run. -/
def startGoal (s : Store) (actorId goalId : String) : Except String (Store × ℕ) :=
  match s.goals.find goalId with
  | none => .error "Goal not found"
  | some goal =>
    let spent := goalUsage s.runs goalId
    if goal.ownerId ≠ actorId then .error "Goal not found"
    else if goal.status.canRun = false then
      .error "Goal cannot start a run in its current state"
    else if goal.domains = [] then
      .error "Select at least one intended domain before running this goal"
    else if spent.unfinished ≠ 0 then
      .error "A goal run is still unfinished; inspect or resolve it before starting another"
    else if goal.budgets.maxRuns ≤ spent.runs ∨ goal.budgets.maxModelCalls ≤ spent.modelCalls ∨
        goal.budgets.maxTokens ≤ spent.tokens then
      .error "Goal budget exhausted; revise or review the goal before another run"
    else .ok ({ s with goals := s.goals.put { goal with status := .active } }, goal.revision)

/-- The wake as its run leaves it. -/
def GoalWake.started (runId : String) (w : GoalWake) : GoalWake :=
  { w with status := .started, runId := some runId }

/-- The wake can be consumed by a run of the goal. -/
def GoalWake.ready (goalId : Option String) (goalRevision : Option ℕ) (now : ℕ) (w : GoalWake) :
    Prop :=
  some w.goalId = goalId ∧ some w.goalRevision = goalRevision ∧ w.status = .pending ∧
    w.fireAt ≤ now

instance (goalId : Option String) (goalRevision : Option ℕ) (now : ℕ) :
    DecidablePred (GoalWake.ready goalId goalRevision now) :=
  fun _ => inferInstanceAs (Decidable (_ ∧ _))

/-- The wake part of `createRun`. -/
def consumeWake (s : Store) (n : NewRun) (goalRevision : Option ℕ) (now : ℕ) :
    Except String Store :=
  match n.goalWakeId with
  | none => .ok s
  | some wakeId =>
    match s.wakes.find wakeId with
    | none => .error "Goal wake is not due or has already been consumed"
    | some w =>
      if w.ready n.goalId goalRevision now then
        .ok { s with wakes := s.wakes.put (w.started n.id) }
      else .error "Goal wake is not due or has already been consumed"

def NewRun.row (n : NewRun) (goalRevision : Option ℕ) (now : ℕ) : AgentRun where
  id := n.id
  actorId := n.actorId
  goalId := n.goalId
  goalRevision := goalRevision
  deadlineAt := now + defaultRunElapsedMs

def createRun (s : Store) (n : NewRun) (now : ℕ) : Except String Store := do
  let (s, goalRevision) ← match n.goalId with
    | none => pure (s, none)
    | some goalId => do
      let (s, revision) ← startGoal s n.actorId goalId
      pure (s, some revision)
  let s ← consumeWake s n goalRevision now
  match s.runs.insert? (n.row goalRevision now) with
  | some runs => pure { s with runs := runs }
  | none => throw "UNIQUE constraint failed: agent_runs.id"

/-- A run is created with its goal active and its wake consumed. -/
theorem createRun_eq_ok {s t : Store} {n : NewRun} {now : ℕ} (h : createRun s n now = .ok t) :
    ∃ s₁ revision s₂ runs,
      (n.goalId = none ∧ s₁ = s ∧ revision = none ∨
        ∃ goalId number, n.goalId = some goalId ∧
          startGoal s n.actorId goalId = .ok (s₁, number) ∧ revision = some number) ∧
      consumeWake s₁ n revision now = .ok s₂ ∧
      s₂.runs.insert? (n.row revision now) = some runs ∧ t = { s₂ with runs := runs } := by
  unfold createRun at h
  have hrow : ∀ {s₁ : Store} {revision : Option ℕ},
      (do
        let s ← consumeWake s₁ n revision now
        match s.runs.insert? (n.row revision now) with
        | some runs => pure { s with runs := runs }
        | none => throw "UNIQUE constraint failed: agent_runs.id" : Except String Store) = .ok t →
      ∃ s₂ runs, consumeWake s₁ n revision now = .ok s₂ ∧
        s₂.runs.insert? (n.row revision now) = some runs ∧ t = { s₂ with runs := runs } := by
    intro s₁ revision hdo
    cases hw : consumeWake s₁ n revision now with
    | error message => rw [hw] at hdo; cases hdo
    | ok s₂ =>
      rw [hw] at hdo
      simp only [bind, Except.bind] at hdo
      split at hdo
      · rename_i runs hins
        cases hdo
        exact ⟨s₂, runs, rfl, hins, rfl⟩
      · cases hdo
  cases hgoal : n.goalId with
  | none =>
    rw [hgoal] at h
    obtain ⟨s₂, runs, hw, hins, ht⟩ := hrow h
    exact ⟨s, none, s₂, runs, .inl ⟨rfl, rfl, rfl⟩, hw, hins, ht⟩
  | some goalId =>
    rw [hgoal] at h
    cases hs : startGoal s n.actorId goalId with
    | error message => simp only [hs] at h; cases h
    | ok p =>
      simp only [hs] at h
      obtain ⟨s₂, runs, hw, hins, ht⟩ := hrow h
      exact ⟨p.1, some p.2, s₂, runs, .inr ⟨goalId, p.2, rfl, hs, rfl⟩, hw, hins, ht⟩

structure PlannedAction where
  tool : String
  arguments : Json
  dependsOn : List ℕ := []

/-- A validated plan. -/
structure Plan where
  actions : List PlannedAction
  /-- `plan.continue === true`. -/
  continue_ : Bool := false

/-- The index after the last step of a run. -/
def nextIndex (s : Store) (runId : String) : ℕ :=
  ((s.steps.rows.filter fun (x : RunStep) => x.runId = runId).map fun x => x.index + 1).foldl max 0

def PlannedAction.row (a : PlannedAction) (runId : String) (base index : ℕ) : RunStep where
  runId := runId
  index := base + index
  tool := a.tool
  arguments := a.arguments
  dependsOn := a.dependsOn.map (base + ·)

/-- The inserts of `recordRunPlan`. -/
def insertPlan (steps : RunSteps) (runId : String) (base : ℕ) (actions : List PlannedAction) :
    Option RunSteps :=
  actions.zipIdx.foldlM (fun steps p => steps.insert? (p.1.row runId base p.2)) steps

def recordRunPlan (s : Store) (runId : String) (plan : Plan) : Option Store :=
  let base := nextIndex s runId
  (insertPlan s.steps runId base plan.actions).map fun steps =>
    { s with steps := steps }.updateRun runId fun r =>
      { r with
        status := .running
        continuationAfterStep :=
          if plan.continue_ ∧ plan.actions ≠ [] then some (base + plan.actions.length - 1)
          else none
        continuationClaimed := false }

/-- The guard of the update in `beginModelCall`. -/
def AgentRun.mayCall (r : AgentRun) (limit now : ℕ) : Prop :=
  r.modelCallCount < limit ∧ (r.status = .planning ∨ r.status = .running) ∧
    r.cancelRequestedAt = none ∧ r.stepCount < r.stepLimit ∧ r.tokens < r.tokenLimit ∧
    now < r.deadlineAt

instance (r : AgentRun) (limit now : ℕ) : Decidable (r.mayCall limit now) :=
  inferInstanceAs (Decidable (_ ∧ _))

/-- Why a run may not go on. -/
inductive RunError where
  | budget (reason : BudgetReason)
  | modelCallLimit
  | usageInvalid
  | usageUnavailable
  | stepUnavailable
  deriving DecidableEq, Repr

/-- `MAX_MODEL_CALLS_PER_MESSAGE`. -/
def maxModelCalls : ℕ := 3

def beginModelCall (s : Store) (runId : String) (now : ℕ) : Except RunError Store :=
  match getBudgetStopReason s runId now, getGoalModelCallStopReason s runId, s.runs.find runId with
  | some reason, _, _ => .error (.budget reason)
  | none, some reason, _ => .error (.budget reason)
  | none, none, some r =>
    if r.mayCall maxModelCalls now then
      .ok { s with runs := s.runs.put { r with modelCallCount := r.modelCallCount + 1 } }
    else .error .modelCallLimit
  | none, none, none => .error .modelCallLimit

/-- The largest usage of one call. -/
def maxUsage : ℕ := 10_000_000

/-- The run as a metered call leaves it. -/
def AgentRun.metered (inputTokens outputTokens : ℕ) (r : AgentRun) : AgentRun :=
  { r with
    inputTokens := r.inputTokens + inputTokens, outputTokens := r.outputTokens + outputTokens,
    meteredModelCalls := r.meteredModelCalls + 1 }

/-- `recordModelUsage`: the usage is recorded also where it exhausts the budget, unless the error
is thrown in the transaction. -/
def recordModelUsage (s : Store) (runId : String) (inputTokens outputTokens now : ℕ) :
    Store × Except RunError Unit :=
  if maxUsage < inputTokens ∨ maxUsage < outputTokens then (s, .error .usageInvalid)
  else
    match s.runs.find runId with
    | none => (s, .error .usageUnavailable)
    | some r =>
      if (r.status = .planning ∨ r.status = .running) ∧ r.meteredModelCalls < r.modelCallCount then
        let s' := { s with runs := s.runs.put (r.metered inputTokens outputTokens) }
        match getBudgetStopReason s' runId now with
        | some reason => (s', .error (.budget reason))
        | none => (s', .ok ())
      else (s, .error .usageUnavailable)

/-- The guard of the reservation in `beginRunStep`. -/
def AgentRun.mayStep (r : AgentRun) (now : ℕ) : Prop :=
  r.stepCount < r.stepLimit ∧ r.tokens < r.tokenLimit ∧ now < r.deadlineAt ∧
    r.cancelRequestedAt = none

instance (r : AgentRun) (now : ℕ) : Decidable (r.mayStep now) :=
  inferInstanceAs (Decidable (_ ∧ _))

/-- The step can be begun. -/
def StepStatus.isOpen : StepStatus → Bool
  | .planned | .waitingDependency => true
  | _ => false

/-- `beginRunStep`, with the new action id, which is unique among the steps. -/
def beginRunStep (s : Store) (runId : String) (index : ℕ) (actionId : String) (now : ℕ) :
    Except RunError Store :=
  match getBudgetStopReason s runId now, s.runs.find runId, s.steps.find (runId, index) with
  | some reason, _, _ => .error (.budget reason)
  | none, none, _ => .error (.budget .runUnavailable)
  | none, some r, x =>
    if ¬r.mayStep now then .error (.budget .runUnavailable)
    else
      match x with
      | none => .error .stepUnavailable
      | some x =>
        if x.status.isOpen = false then .error .stepUnavailable
        else if s.steps.rows.any fun (y : RunStep) => y.actionId = some actionId then
          .error .stepUnavailable
        else .ok { s with
          runs := s.runs.put { r with stepCount := r.stepCount + 1 }
          steps := s.steps.put { x with status := .running, actionId := some actionId } }

/-- The step waits and has no action. -/
def RunStep.unstarted (runId : String) (x : RunStep) : Prop :=
  x.runId = runId ∧ x.actionId = none ∧ x.status.isOpen = true

instance (runId : String) : DecidablePred (RunStep.unstarted runId) :=
  fun _ => inferInstanceAs (Decidable (_ ∧ _))

/-- The steps of a run that wait without an action get a status. -/
def Store.closeUnstarted (s : Store) (runId : String) (status : StepStatus) : Store :=
  { s with
    steps := s.steps.updateWhere (RunStep.unstarted runId) (fun x => { x with status := status })
      fun _ => rfl }

/-- The run as `markBudgetExhausted` leaves it; a cancelled run stays as it is. -/
def AgentRun.exhausted (reason : BudgetReason) (r : AgentRun) : AgentRun :=
  if r.cancelRequestedAt = none then
    { r with
      budgetStopReason := r.budgetStopReason <|> some reason
      continuationAfterStep := none
      continuationClaimed := false
      status := .budgetExhausted }
  else r

theorem AgentRun.exhausted_id (reason : BudgetReason) (r : AgentRun) :
    (r.exhausted reason).id = r.id := by
  unfold AgentRun.exhausted
  split_ifs <;> rfl

/-- `markBudgetExhausted`, with the `getRun` at its end. -/
def markBudgetExhausted (s : Store) (runId : String) (reason : BudgetReason) : Store :=
  touchRun ((s.updateRun runId (AgentRun.exhausted reason)
    (AgentRun.exhausted_id reason)).closeUnstarted runId .budgetExhausted) runId

def AgentRun.withoutContinuation (r : AgentRun) : AgentRun :=
  { r with continuationAfterStep := none, continuationClaimed := false }

def clearContinuation (s : Store) (runId : String) : Store :=
  s.updateRun runId AgentRun.withoutContinuation

/-- The run can be claimed for another plan. -/
def AgentRun.claimable (r : AgentRun) : Prop :=
  r.status = .readyToContinue ∧ r.continuationClaimed = false ∧
    r.continuationAfterStep.isSome = true ∧ r.cancelRequestedAt = none

instance (r : AgentRun) : Decidable r.claimable := inferInstanceAs (Decidable (_ ∧ _))

/-- `claimContinuation`, with the `getRun` at its start. -/
def claimContinuation (s : Store) (runId : String) : Store × Bool :=
  match getRun s runId with
  | none => (s, false)
  | some (s, view) =>
    if view.run.claimable then
      ({ s with
        runs := s.runs.put { view.run with status := .planning, continuationClaimed := true } },
        true)
    else (s, false)

/-- The run as `requestRunCancellation` leaves it. -/
def AgentRun.cancelRequested (cancelledBy : String) (now : ℕ) (r : AgentRun) : AgentRun :=
  { r with
    cancelRequestedAt := r.cancelRequestedAt <|> some now
    cancelledBy := r.cancelledBy <|> some cancelledBy
    continuationAfterStep := none
    continuationClaimed := false }

/-- `requestRunCancellation`, with the `getRun` before and after. -/
def requestRunCancellation (s : Store) (runId cancelledBy : String) (now : ℕ) : Store :=
  match getRun s runId with
  | none => s
  | some (s, view) =>
    if view.run.status = .completed ∨ view.run.status = .failed then s
    else touchRun ((s.updateRun runId (AgentRun.cancelRequested cancelledBy now)).closeUnstarted
      runId .cancelled) runId

def recordRunStepOutcome (s : Store) (runId : String) (index : ℕ) (status : StepStatus) : Store :=
  { s with
    steps := s.steps.updateWhere (fun x => x.runId = runId ∧ x.index = index)
      (fun x => { x with status := status }) fun _ => rfl }

/-- The status `finishRun` computes: it reads the rows of the steps as they are. -/
def finishedStatus (s : Store) (run : AgentRun) : RunStatus :=
  classifyRun ((s.stepsOf run.id).map RunStep.status) run.continuationAfterStep.isSome
    run.cancelRequestedAt.isSome run.budgetStopReason.isSome

def finishRun (s : Store) (runId : String) : Store :=
  match s.runs.find runId with
  | none => s
  | some r => { s with runs := s.runs.put { r with status := finishedStatus s r } }

def failRun (s : Store) (runId : String) : Store :=
  s.updateRun runId fun r => { r with status := .failed }

/-- A step that was planned or running without an action, after a restart. -/
def RunStep.stranded (x : RunStep) : Prop :=
  x.actionId = none ∧ (x.status = .planned ∨ x.status = .running)

instance : DecidablePred RunStep.stranded := fun _ => inferInstanceAs (Decidable (_ ∧ _))

/-- The run as a restart leaves it. -/
def AgentRun.restarted (r : AgentRun) : AgentRun :=
  let r :=
    if r.status = .planning ∨ r.status = .running then { r with status := .interrupted } else r
  if r.status = .interrupted ∧ r.continuationAfterStep.isSome then
    { r with continuationClaimed := false }
  else r

theorem AgentRun.restarted_id (r : AgentRun) : r.restarted.id = r.id := by
  unfold AgentRun.restarted
  dsimp only
  split_ifs <;> rfl

/-- The runs a restart reads. -/
def RunStatus.isRead : RunStatus → Bool
  | .interrupted | .waitingForAction | .waitingForApproval => true
  | _ => false

def reconcileInterruptedRuns (s : Store) : Store :=
  let s := { s with
    steps := s.steps.updateWhere RunStep.stranded (fun x => { x with status := .interrupted })
      fun _ => rfl
    runs := s.runs.updateWhere (fun _ => True) AgentRun.restarted AgentRun.restarted_id }
  ((s.runs.rows.filter fun (r : AgentRun) => r.status.isRead).map AgentRun.id).foldl touchRun s

end U2os.Server.Agent
