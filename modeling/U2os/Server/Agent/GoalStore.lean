import U2os.Lib.Run
import U2os.Server.Agent.RunStore

/-!
# Goals, wakes and research schedules

The functions of `agent/goal-store.js` and `agent/goal-wakes.js` on the goal tables, and the
machine they form together with the runs that wakes and the owner start.

A function is one transaction, or a sequence of statements with no `await` between them, and is one
step; a function that throws leaves the store as it was.  A delivery of a wake has an `await`, the
turn of the agent, and is two steps.  What the turns of the agent, the queue and the trigger engine
do to the other tables is left open.
-/

namespace U2os.Server.Agent

/-! ### Goals -/

/-- `DOMAINS`. -/
def goalDomains : List String := ["web", "email", "calendar", "contacts", "tasks"]

/-- A draft, as far as its scope and its budgets go. -/
structure GoalDraft where
  domains : List String
  budgets : GoalBudgets

/-- `validateDraft`. -/
def GoalDraft.isValid (d : GoalDraft) : Bool :=
  d.domains.length ≤ 5 && d.domains.all goalDomains.contains && d.domains.Nodup &&
    (1 ≤ d.budgets.maxRuns && d.budgets.maxRuns ≤ 100) &&
    (1 ≤ d.budgets.maxModelCalls && d.budgets.maxModelCalls ≤ 300) &&
    (1000 ≤ d.budgets.maxTokens && d.budgets.maxTokens ≤ 1_000_000)

/-- A goal with what `present` says about it. -/
structure GoalView where
  goal : Goal
  usage : GoalUsage
  /-- `nextWakeAt !== null`. -/
  hasPendingWake : Bool
  /-- `researchSchedule?.status === 'active'`. -/
  hasActiveResearch : Bool

def GoalView.manualRunAvailable (v : GoalView) : Bool :=
  v.goal.status.canRun && !v.goal.domains.isEmpty && v.usage.unfinished == 0 &&
    v.usage.runs < v.goal.budgets.maxRuns && v.usage.modelCalls < v.goal.budgets.maxModelCalls &&
    v.usage.tokens < v.goal.budgets.maxTokens

def GoalWakes.hasPending (wakes : GoalWakes) (goalId : String) : Bool :=
  wakes.rows.any fun (w : GoalWake) => w.goalId = goalId && w.status = .pending

/-- The goal has an active schedule. -/
def ResearchSchedules.hasActive (schedules : ResearchSchedules) (goalId : String) : Bool :=
  schedules.rows.any fun (x : ResearchSchedule) => x.goalId = goalId && x.status = .active

def present (s : Store) (goal : Goal) : GoalView where
  goal := goal
  usage := goalUsage s.runs goal.id
  hasPendingWake := GoalWakes.hasPending s.wakes goal.id
  hasActiveResearch := ResearchSchedules.hasActive s.schedules goal.id

def getGoalDraft (s : Store) (id ownerId : String) : Option GoalView :=
  ((s.goals.find id).filter fun g => g.ownerId = ownerId).map (present s)

def createGoalDraft (s : Store) (id ownerId : String) (draft : GoalDraft) : Option Store :=
  if draft.isValid then
    (s.goals.insert? { id := id, ownerId := ownerId, domains := draft.domains,
                       budgets := draft.budgets }).map fun goals => { s with goals := goals }
  else none

/-- The schedule as `invalidateGoalWakes` leaves it. -/
def ResearchSchedule.invalidated (reason : String) (x : ResearchSchedule) : ResearchSchedule :=
  { x with status := .cancelled, blocker := some reason }

/-- The wake as `invalidateGoalWakes` leaves it. -/
def GoalWake.invalidated (reason : String) (w : GoalWake) : GoalWake :=
  { w with status := .cancelled, blocker := some reason }

/-- `invalidateGoalWakes`: the active schedule and the pending wake are cancelled, and the trigger
of the wake is disabled. -/
def invalidateGoalWakes (s : Store) (goalId reason : String) : Store :=
  let wakes := s.wakes.rows
  { s with
    schedules := s.schedules.updateWhere (fun x => x.goalId = goalId ∧ x.status = .active)
      (ResearchSchedule.invalidated reason) fun _ => rfl
    triggers := s.triggers.updateWhere
      (fun t => (wakes.any fun (w : GoalWake) =>
        w.triggerId = t.id && w.goalId = goalId && w.status = .pending) = true)
      (fun t => { t with enabled := false, nextCheckAt := none }) fun _ => rfl
    wakes := s.wakes.updateWhere (fun w => w.goalId = goalId ∧ w.status = .pending)
      (GoalWake.invalidated reason) fun _ => rfl }

/-- The goal gets a new revision, and what was scheduled for the old one is cancelled. -/
def reviseGoal (s : Store) (goal : Goal) (reason : String) : Store :=
  invalidateGoalWakes
    { s with goals := s.goals.put { goal with revision := goal.revision + 1 } } goal.id reason

def updateGoalDraft (s : Store) (id ownerId : String) (expectedRevision : ℕ) (draft : GoalDraft) :
    Option Store := do
  guard (1 ≤ expectedRevision ∧ draft.isValid)
  let current ← getGoalDraft s id ownerId
  guard (current.goal.status = .draft ∨ current.goal.status = .paused)
  guard (current.goal.revision = expectedRevision)
  return reviseGoal s
    { current.goal with domains := draft.domains, budgets := draft.budgets } "goal_revised"

/-- The operations of `controlGoal`. -/
inductive GoalOperation where
  | pause
  | resume
  | cancel
  deriving DecidableEq, Repr

/-- The status an operation leads to. -/
def GoalOperation.target (op : GoalOperation) (current : GoalView) : GoalStatus :=
  match op with
  | .pause => .paused
  | .cancel => .cancelled
  | .resume => if current.usage.runs ≠ 0 then .active else .draft

def controlGoal (s : Store) (id ownerId : String) (op : GoalOperation) (expectedRevision : ℕ) :
    Option Store := do
  guard (1 ≤ expectedRevision)
  let current ← getGoalDraft s id ownerId
  if current.goal.status = op.target current then return s
  guard (current.goal.status ≠ .cancelled)
  guard (current.goal.revision = expectedRevision)
  guard (op = .resume → current.goal.status = .paused)
  return reviseGoal s { current.goal with status := op.target current } "goal_stopped"

/-- The ids of a new wake. -/
structure WakeIds where
  wake : String
  trigger : String

/-- The row of a new wake. -/
def WakeIds.row (ids : WakeIds) (goal : Goal) (fireAt now : ℕ) : GoalWake where
  id := ids.wake
  goalId := goal.id
  goalRevision := goal.revision
  triggerId := ids.trigger
  fireAt := fireAt
  createdAt := now

/-- `createWake`.  `trigger_id` is unique, and so is the pending wake of a goal. -/
def createWake (s : Store) (goal : Goal) (fireAt now : ℕ) (ids : WakeIds) : Option Store := do
  let triggers ← s.triggers.insert?
    { id := ids.trigger, wakeId := some ids.wake, nextCheckAt := some fireAt }
  guard !(s.wakes.rows.any fun (w : GoalWake) => w.triggerId = ids.trigger)
  guard !(GoalWakes.hasPending s.wakes goal.id)
  let wakes ← s.wakes.insert? (ids.row goal fireAt now)
  return { s with triggers := triggers, wakes := wakes }

/-- `fireAt` lies ahead, within 30 days. -/
def isFutureWake (fireAt now : ℕ) : Bool := now < fireAt && fireAt ≤ now + 30 * 86_400_000

def scheduleGoalWake (s : Store) (goalId ownerId : String) (fireAt expectedRevision now : ℕ)
    (ids : WakeIds) : Option Store := do
  guard (1 ≤ expectedRevision ∧ isFutureWake fireAt now)
  let view ← getGoalDraft s goalId ownerId
  guard (view.goal.revision = expectedRevision)
  guard view.manualRunAvailable
  guard (view.hasPendingWake = false ∧ view.hasActiveResearch = false)
  createWake s view.goal fireAt now ids

/-- What `scheduleGoalResearch` is given. -/
structure ResearchInput where
  fireAt : ℕ
  expectedRevision : ℕ
  intervalHours : ℕ
  maxPasses : ℕ

/-- The checks of the input. -/
def ResearchInput.isValid (x : ResearchInput) (now : ℕ) : Bool :=
  1 ≤ x.expectedRevision && (24 ≤ x.intervalHours && x.intervalHours ≤ 720) &&
    (2 ≤ x.maxPasses && x.maxPasses ≤ 10) && isFutureWake x.fireAt now

/-- The row of a new schedule. -/
def ResearchInput.row (x : ResearchInput) (goal : Goal) (id wakeId : String) (now : ℕ) :
    ResearchSchedule where
  id := id
  goalId := goal.id
  goalRevision := goal.revision
  intervalHours := x.intervalHours
  maxPasses := x.maxPasses
  wakeId := wakeId
  checkedAt := now

def scheduleGoalResearch (s : Store) (goalId ownerId : String) (x : ResearchInput) (now : ℕ)
    (ids : WakeIds) (researchId : String) : Option Store := do
  guard (x.isValid now)
  let view ← getGoalDraft s goalId ownerId
  guard (view.goal.revision = x.expectedRevision)
  guard (view.goal.domains = ["web"])
  guard (view.manualRunAvailable ∧ view.hasPendingWake = false ∧ view.hasActiveResearch = false)
  guard (view.usage.runs + x.maxPasses ≤ view.goal.budgets.maxRuns ∧
    view.usage.modelCalls + x.maxPasses ≤ view.goal.budgets.maxModelCalls)
  let s ← createWake s view.goal x.fireAt now ids
  let schedules ← s.schedules.insert? (x.row view.goal researchId ids.wake now)
  return { s with schedules := schedules }

/-! ### Schedules -/

/-- The schedule is stopped for the owner. -/
def ResearchSchedule.stopped (blocker : String) (x : ResearchSchedule) : ResearchSchedule :=
  { x with status := .blocked, blocker := some blocker }

/-- The pass of the current wake is credited. -/
def ResearchSchedule.credited (x : ResearchSchedule) : ResearchSchedule :=
  { x with successfulPasses := x.successfulPasses + 1, blocker := none }

/-- The next pass is scheduled. -/
def ResearchSchedule.next (x : ResearchSchedule) (wakeId : String) : ResearchSchedule :=
  { x with wakeId := wakeId, scheduledPasses := x.scheduledPasses + 1 }

/-- The run statuses after which a schedule stops. -/
def RunStatus.stopsResearch : RunStatus → Bool
  | .failed | .cancelled | .budgetExhausted | .needsAttention => true
  | _ => false

/-- The step statuses after which a schedule stops. -/
def StepStatus.stopsResearch : StepStatus → Bool
  | .failed | .blocked | .rejected | .cancelled | .skipped | .outcomeUncertain
  | .needsAttention => true
  | _ => false

/-- Every step was executed, and one of them was a search. -/
def confirmedResearch (s : Store) (runId : String) : Bool :=
  let steps := s.stepsOf runId
  steps.all (fun x => x.status = .executed &&
    ((x.actionId.bind s.actions.find).map AgentAction.status) == some .executed) &&
    steps.any fun x => x.tool = "web.search"

/-- What becomes of a schedule. -/
inductive Reconciled where
  /-- Nothing can be said yet. -/
  | wait
  | stop (blocker : String)
  /-- The pass of `wake` was successful. -/
  | credit (wake : GoalWake)

/-- What is said of the run of a pass, as `getRun` leaves it. -/
def judgeRun (s : Store) (wake : GoalWake) (view : RunView) : Reconciled :=
  if view.run.status.stopsResearch ∨ view.steps.any (fun x => x.status.stopsResearch) then
    .stop "inspect_run_outcome"
  else if view.run.status ≠ .completed then .wait
  else if confirmedResearch s view.run.id then .credit wake
  else .stop "no_confirmed_research"

def GoalWake.startedRun (w : GoalWake) : Option String :=
  if w.status = .started then w.runId else none

/-- The checks of `advanceGoalResearchSchedules` for one schedule, with the store `getRun`
leaves. -/
def judgeSchedule (s : Store) (series : ResearchSchedule) (goal : Goal) : Store × Reconciled :=
  if goal.revision ≠ series.goalRevision ∨ goal.status.canRun = false ∨ goal.domains ≠ ["web"] then
    (s, .stop "goal_unavailable")
  else
    match (s.wakes.find series.wakeId).filter fun w =>
      w.goalId = goal.id ∧ w.goalRevision = series.goalRevision with
    | none => (s, .stop "inspect_wake")
    | some wake =>
      if wake.status = .pending then (s, .wait)
      else
        match wake.startedRun with
        | none => (s, .stop "inspect_wake")
        | some runId =>
          match (s.runs.find runId).filter fun r => r.goalId = some goal.id ∧
            r.actorId = goal.ownerId ∧ r.goalRevision = some series.goalRevision with
          | none => (s, .stop "inspect_run")
          | some _ =>
            match getRun s runId with
            | none => (s, .stop "inspect_run")
            | some (s, view) => (s, judgeRun s wake view)

/-- Milliseconds of an hour. -/
def hourMs : ℕ := 3_600_000

/-- A successful pass is credited, and the next one is scheduled: its wake skips the intervals
that were missed. -/
def creditPass (s : Store) (series : ResearchSchedule) (goal : Goal) (available : Bool)
    (wake : GoalWake) (now : ℕ) (ids : WakeIds) : Option Store :=
  let x := series.credited
  if x.maxPasses ≤ x.scheduledPasses then
    some { s with schedules := s.schedules.put { x with status := .completed } }
  else if available = false then
    some { s with schedules := s.schedules.put (x.stopped "review_goal_budget_or_run") }
  else
    (createWake s goal (max now wake.fireAt + series.intervalHours * hourMs) now ids).map
      fun s => { s with schedules := s.schedules.put (x.next ids.wake) }

/-- The transaction of one schedule, and the wake of the pass it credited; none where it throws. -/
def reconcileSchedule (s : Store) (id : String) (now : ℕ) (ids : WakeIds) :
    Option (Store × Option String) :=
  match (s.schedules.find id).filter fun x => x.status = .active with
  | none => some (s, none)
  | some x =>
    let series := { x with checkedAt := now }
    let put (s : Store) (x : ResearchSchedule) : Store := { s with schedules := s.schedules.put x }
    match s.goals.find series.goalId with
    | none => some (put s (series.stopped "goal_unavailable"), none)
    | some goal =>
      -- the view of the goal is taken before the run is read
      let available := (present s goal).manualRunAvailable
      match judgeSchedule s series goal with
      | (s, .wait) => some (put s series, none)
      | (s, .stop blocker) => some (put s (series.stopped blocker), none)
      | (s, .credit wake) =>
        (creditPass s series goal available wake now ids).map fun s => (s, some wake.id)

/-- The note on a schedule whose transaction threw. -/
def markUnavailable (s : Store) (id : String) (now : ℕ) : Store :=
  { s with
    schedules := s.schedules.updateWhere (fun x => x.id = id ∧ x.status = .active)
      (fun x => { x with blocker := some "checkpoint_unavailable", checkedAt := now })
      fun _ => rfl }

/-- `ORDER BY checked_at, id`. -/
def ResearchSchedule.before (x y : ResearchSchedule) : Prop :=
  x.checkedAt < y.checkedAt ∨ x.checkedAt = y.checkedAt ∧ ¬y.id < x.id

instance : DecidableRel ResearchSchedule.before := fun _ _ => inferInstanceAs (Decidable (_ ∨ _))

/-- The schedules `advanceGoalResearchSchedules` looks at. -/
def schedulesToCheck (s : Store) : List String :=
  (((s.schedules.rows.filter fun (x : ResearchSchedule) => x.status = .active).insertionSort
    ResearchSchedule.before).take 20).map ResearchSchedule.id

/-- One iteration of `advanceGoalResearchSchedules`; `fails` is a failure of the database. -/
def checkSchedule (s : Store) (id : String) (now : ℕ) (ids : WakeIds) (fails : Bool) :
    Store × Option String :=
  match if fails then none else reconcileSchedule s id now ids with
  | some r => r
  | none => (markUnavailable s id now, none)

/-- The wake as a delivery that started nothing leaves it. -/
def GoalWake.refused (blocker : String) (w : GoalWake) : GoalWake :=
  { w with status := .blocked, blocker := some blocker }

/-- The `catch` of `runScheduledGoalWake`. -/
def failDelivery (s : Store) (wakeId blocker : String) : Store :=
  { s with
    wakes := (s.wakes.updateWhere (fun w => w.id = wakeId ∧ w.status = .pending)
      (GoalWake.refused blocker) fun _ => rfl).updateWhere
        (fun w => w.id = wakeId ∧ w.status = .started)
        (fun w => { w with blocker := some "inspect_run_failure" }) fun _ => rfl }

/-- `runScheduledGoalWake` up to its `await`, and whether a run was started: `handleMessage` begins
with `createRun`. -/
def deliverWake (s : Store) (wakeId triggerId runId : String) (now : ℕ) : Store × Bool :=
  match (s.wakes.find wakeId).filter fun w => w.triggerId = triggerId with
  | none => (s, false)
  | some wake =>
    if wake.status ≠ .pending then (s, false)
    else
      match s.goals.find wake.goalId with
      | none => (failDelivery s wakeId "run_not_started", false)
      | some goal =>
        if goal.revision ≠ wake.goalRevision ∨ goal.status.canRun = false then
          (failDelivery s wakeId "goal_unavailable", false)
        else if (present s goal).manualRunAvailable = false then
          (failDelivery s wakeId "review_goal_budget_or_run", false)
        else
          match createRun s { id := runId, actorId := goal.ownerId, goalId := some goal.id,
                              goalWakeId := some wakeId } now with
          | .ok s => (s, true)
          | .error _ => (failDelivery s wakeId "run_not_started", false)

/-- `runScheduledGoalWake` after its `await`. -/
def settleDelivery (s : Store) (wakeId runId : String) (failed : Bool) : Store :=
  if failed then failDelivery s wakeId "run_not_started"
  else
    match getRun s runId with
    | none => failDelivery s wakeId "run_not_started"
    | some (s, view) =>
      if view.run.status = .completed then s
      else { s with
        wakes := s.wakes.updateWhere (fun w => w.id = wakeId)
          (fun w => { w with blocker := some "inspect_run_status" }) fun _ => rfl }

/-! ### The machine -/

/-- The deliveries that await their turn, by the wake and the run. -/
structure GoalSystem where
  store : Store
  deliveries : List (String × String)

/-- What can happen. -/
inductive GoalInput where
  | create (id ownerId : String) (draft : GoalDraft)
  | update (id ownerId : String) (expectedRevision : ℕ) (draft : GoalDraft)
  | control (id ownerId : String) (op : GoalOperation) (expectedRevision : ℕ)
  | scheduleWake (goalId ownerId : String) (fireAt expectedRevision now : ℕ) (ids : WakeIds)
  | scheduleResearch (goalId ownerId : String) (x : ResearchInput) (now : ℕ) (ids : WakeIds)
      (researchId : String)
  /-- One iteration of `advanceGoalResearchSchedules`. -/
  | check (scheduleId : String) (now : ℕ) (ids : WakeIds) (fails : Bool)
  /-- A run that no wake starts. -/
  | run (n : NewRun) (now : ℕ)
  | deliver (wakeId triggerId runId : String) (now : ℕ)
  | settle (wakeId runId : String) (failed : Bool)
  /-- The process stops: the turns of the agent are lost. -/
  | crash

/-- What is to be seen of a step. -/
inductive GoalEvent where
  /-- The wake started the run. -/
  | started (wakeId runId : String)
  /-- The pass of the wake was credited to the schedule. -/
  | credited (scheduleId wakeId : String)
  /-- The goal was paused, cancelled or revised. -/
  | stopped (goalId : String)
  deriving DecidableEq, Repr

/-- A function that may throw. -/
def GoalSystem.attempt (x : GoalSystem) (s : Option Store) (event : Option GoalEvent) :
    GoalSystem × Option GoalEvent :=
  match s with
  | some s => ({ x with store := s }, event)
  | none => (x, none)

/-- What a step does and shows. -/
def performGoal (x : GoalSystem) : GoalInput → GoalSystem × Option GoalEvent
  | .create id ownerId draft => x.attempt (createGoalDraft x.store id ownerId draft) none
  | .update id ownerId expectedRevision draft =>
    x.attempt (updateGoalDraft x.store id ownerId expectedRevision draft) (some (.stopped id))
  | .control id ownerId op expectedRevision =>
    x.attempt (controlGoal x.store id ownerId op expectedRevision)
      (if op = .resume then none else some (.stopped id))
  | .scheduleWake goalId ownerId fireAt expectedRevision now ids =>
    x.attempt (scheduleGoalWake x.store goalId ownerId fireAt expectedRevision now ids) none
  | .scheduleResearch goalId ownerId input now ids researchId =>
    x.attempt (scheduleGoalResearch x.store goalId ownerId input now ids researchId) none
  | .check scheduleId now ids fails =>
    let (s, wakeId) := checkSchedule x.store scheduleId now ids fails
    ({ x with store := s }, wakeId.map (.credited scheduleId))
  | .run n now =>
    x.attempt (createRun x.store { n with goalWakeId := none } now).toOption none
  | .deliver wakeId triggerId runId now =>
    match deliverWake x.store wakeId triggerId runId now with
    | (s, true) =>
      ({ store := s, deliveries := (wakeId, runId) :: x.deliveries }, some (.started wakeId runId))
    | (s, false) => ({ x with store := s }, none)
  | .settle wakeId runId failed =>
    if (wakeId, runId) ∈ x.deliveries then
      ({ store := settleDelivery x.store wakeId runId failed
         deliveries := x.deliveries.erase (wakeId, runId) }, none)
    else (x, none)
  | .crash => ({ x with deliveries := [] }, none)

/-- Steps of the functions of this file, and steps of the rest of the server. -/
inductive GoalLabel where
  | goal (input : GoalInput) (event : Option GoalEvent)
  | other

def GoalLabel.event : GoalLabel → Option GoalEvent
  | .goal _ event => event
  | .other => none

/-- The rest of the server writes no goal, no wake and no schedule. -/
def OtherTables (s t : Store) : Prop :=
  t.goals = s.goals ∧ t.wakes = s.wakes ∧ t.schedules = s.schedules

/-- The store of a new installation. -/
def Store.empty : Store where
  actions := .empty
  queue := .empty
  attempts := .empty
  runs := .empty
  steps := .empty
  goals := .empty
  wakes := .empty
  schedules := .empty
  triggers := .empty

/-- Goals, wakes and schedules. -/
def goalMachine : Machine GoalSystem GoalLabel where
  init := { store := Store.empty, deliveries := [] }
  step x l y :=
    match l with
    | .goal input event => performGoal x input = (y, event)
    | .other => OtherTables x.store y.store ∧ y.deliveries = x.deliveries

/-- The wake that was started. -/
def GoalEvent.startedWake : GoalEvent → Option String
  | .started wakeId _ => some wakeId
  | _ => none

/-- The schedule and the wake of the pass that was credited. -/
def GoalEvent.creditedPass : GoalEvent → Option (String × String)
  | .credited scheduleId wakeId => some (scheduleId, wakeId)
  | _ => none

/-- The wakes that were started. -/
def startedWakes (h : List GoalLabel) : List String :=
  h.filterMap fun l => l.event.bind GoalEvent.startedWake

/-- The passes that were credited, by schedule and wake. -/
def creditedPasses (h : List GoalLabel) : List (String × String) :=
  h.filterMap fun l => l.event.bind GoalEvent.creditedPass

/-- `advanceGoalResearchSchedules`, with the ids and the failures of its iterations. -/
def advanceGoalResearchSchedules (s : Store) (now : ℕ) (oracle : String → WakeIds × Bool) : Store :=
  (schedulesToCheck s).foldl
    (fun s id => (checkSchedule s id now (oracle id).1 (oracle id).2).1) s

/-- Steps of the functions of this file, one after another. -/
def driveGoals (x : GoalSystem) : List GoalInput → List GoalLabel × GoalSystem
  | [] => ([], x)
  | i :: is =>
    let (y, event) := performGoal x i
    let (h, z) := driveGoals y is
    (.goal i event :: h, z)

/-- The steps of `driveGoals` are steps of the machine. -/
theorem steps_driveGoals (x : GoalSystem) (inputs : List GoalInput) :
    goalMachine.Steps x (driveGoals x inputs).1 (driveGoals x inputs).2 := by
  induction inputs generalizing x with
  | nil => exact Machine.Steps.nil
  | cons i is ih => exact Machine.Steps.cons (t := (performGoal x i).1) rfl (ih _)

end U2os.Server.Agent
