import U2os.Server.Packages.WorkflowStore

/-!
# Frames of the workflow engine

A call of `advance` (`packages/workflow-engine.js`) that holds a run is a *frame*: it keeps the
context and the position of the run in memory and has a program counter, which names the next
piece of code it runs.  This module has the pieces that concern only the run of the frame; what
such a piece does is a `Turn`.

Expressions, JSON schemas, package policies and the registries are parameters (`Host`).
-/

namespace U2os.Server.Packages

def maxForeachItems : ℕ := 500

def maxSkillDepth : ℕ := 8

def maxErrorLength : ℕ := 500

def boundedError (message : String) : String :=
  if maxErrorLength < message.length then
    String.ofList (message.toList.take maxErrorLength) ++ "…"
  else message

/-- `effect` of a capability contract. -/
inductive CapabilityEffect where
  | read
  | write
  deriving DecidableEq, Repr

/-- A capability contract. -/
structure Contract where
  id : String
  effect : CapabilityEffect

/-- A skill of the registry. -/
structure Skill where
  id : String
  packageId : String
  workflow : Workflow

/-- An installed package, as `registries.packages` has it. -/
structure PackageRecord where
  enabled : Bool := true
  /-- `manifest.events.emits`. -/
  emits : List String := []
  /-- `effectiveSettings(manifest)`. -/
  settings : Json := .obj []

/-- The scope expressions are evaluated in. -/
structure Scope where
  inputs : Json
  steps : Context
  settings : Json
  state : Json
  trigger : Json
  runId : String
  startedAt : Option Int
  item : Option Json := none
  index : Option ℕ := none

/-- A published event, as `deliverEvent` reads it. -/
structure Event where
  type : String
  timestamp : Option Int := none
  /-- `metadata.workflowRunId`. -/
  workflowRunId : Option String := none
  /-- `publicEvent(event)`. -/
  content : Json := .null

/-- The functions of other modules the engine calls, and its own configuration. -/
structure Host where
  leaseMs : Int
  /-- `registries.capabilities`. -/
  contract : String → Option Contract
  /-- `registries.skills.find`. -/
  skill : String → Option Skill
  resolveTemplate : Json → Scope → Int → Except String Json
  /-- `truthy(evaluate(conditionSource(text), scope))`. -/
  condition : String → Scope → Int → Except String Bool
  /-- The `where` of a wait for an event, on the event and the inputs of the run. -/
  eventMatches : String → Event → Json → Int → Bool
  /-- `evaluatePackagePolicy` under the stored approval override of the package. -/
  evaluatePackagePolicy : PackageRecord → String → Scope → Json → Int → Except String Json
  prepareSkillInput : Skill → Json → Json
  /-- `validate(skill.inputSchema, …)`. -/
  skillInputErrors : Skill → Json → List String
  /-- `validate(skill.outputSchema, …)`. -/
  skillOutputErrors : String → Json → List String
  /-- `validate(contract.outputSchema, …)`. -/
  outputErrors : Contract → Json → List String
  /-- `validate(definition.state.schema, …)`. -/
  stateErrors : String → Json → List String
  /-- The spread of the old and the new entries of a state. -/
  mergeState : Json → Json → Json
  emitProblem : String → List String → Option String
  parseDuration : Json → Option ℕ
  /-- `Date.parse`. -/
  parseDate : Json → Option Int

/-- A list of errors in one text. -/
def joinErrors (errors : List String) : String := "; ".intercalate errors

/-- What `CapabilityInvoker.invoke` answers. -/
inductive InvokeOutcome where
  | completed (output : Json)
  | waiting
  | denied (reason code : String)
  | failed (reason code : String)

/-- What `_runUnit` answers. -/
inductive UnitOutcome where
  | completed (output : Json)
  | waiting (wait : Wait) (wakeAt : Option Int)
  | skipped (reason : String)
  /-- `retryable` is false only where the code says so. -/
  | failed (reason : String) (retryable : Bool)
  | denied (reason : String)

/-- An error that `_runUnit` caught. -/
def UnitOutcome.thrown (message : String) : UnitOutcome := .failed (boundedError message) true

/-- `CapabilityInvoker.actionOutcome` on the row it reads. -/
def actionOutcome (H : Host) (contract : Option Contract) (action : AgentAction) :
    InvokeOutcome :=
  match action.status with
  | .executed =>
    let output := action.result.getD .null
    match contract.elim [] fun c => H.outputErrors c output with
    | [] => .completed output
    | errors =>
      .failed ("Invalid output from " ++ contract.elim "" Contract.id ++ ": " ++ joinErrors errors)
        "invalid_output"
  | .rejected => .denied "The owner rejected this action" "rejected"
  | .blocked | .cancelled => .denied (action.error.getD "Blocked by policy") "blocked"
  | .failed | .deadLetter => .failed (action.error.getD "Action failed") "action_failed"
  | .pending | .approved => .waiting

/-- Whether a capability is consequential: it is not known to be a `read`. -/
def Host.consequential (H : Host) (capability : String) : Bool :=
  ((H.contract capability).map Contract.effect) ≠ some .read

/-- `_mapCapabilityOutcome`; `rule` is the policy rule of the action, if it is recorded. -/
def mapCapabilityOutcome (H : Host) (capability actionId : String) (rule : Option String) :
    InvokeOutcome → UnitOutcome
  | .completed output => .completed output
  | .waiting => .waiting (.action actionId ((H.contract capability).elim "" Contract.id)) none
  | .denied reason code =>
    if "package-policy:".toList.isPrefixOf (rule.getD "").toList || code = "rejected" then
      .skipped reason
    else .denied reason
  | .failed reason code =>
    .failed reason (!H.consequential capability &&
      !(["invalid_input", "unknown_capability", "no_provider"].contains code))

/-- A unit of a run: a step, or one item of a `foreach` step. -/
structure UnitId where
  runId : String
  step : ℕ
  iteration : ℕ
  deriving DecidableEq, Repr

/-- The context a capability is invoked in. -/
structure InvokeContext where
  packageId : String
  automationId : Option String
  skillId : Option String
  workflowRunId : String
  rootRunId : String
  stepId : String
  actionId : String
  policy : Option Json

/-- What the engine does to the world outside its own tables. -/
inductive Effect where
  /-- `invoker.invoke`, by a capability step. -/
  | invoke (unit : UnitId) (capability : String) (input : Json) (ctx : InvokeContext)
  /-- `invoke`, by the module of a skill. -/
  | moduleInvoke (runId capability : String)
  /-- `eventBus.publish`, by an `emit` step. -/
  | emit (runId stepId type : String) (data : Json) (subject : Option Json)
  /-- `updateInstance`, by a `state` step. -/
  | state (runId instanceId : String) (state : Json)
  /-- `_publish`: an event about the run. -/
  | lifecycle (runId type : String)

/-! ### Frames -/

/-- The next piece of code a frame runs. -/
inductive Pc where
  /-- In `advance`, after the lease. -/
  | started
  /-- At the start of `_execute`. -/
  | execute
  /-- At `while (position.step < workflow.steps.length)`. -/
  | loop
  /-- At the start of `_executeStep`. -/
  | enter
  /-- At `while (position.iteration < iterations)`. -/
  | units
  /-- In `_runUnit`. -/
  | unit
  /-- In `_capabilityUnit`, after the checkpoint. -/
  | propose (input : Json)
  /-- At `await this.invoker.invoke`. -/
  | invoking (actionId : String)
  /-- In `_skillUnit`, with the child. -/
  | child (run : WorkflowRun)
  /-- At `await this.advance(child.id)`; the call is the frame `fid`. -/
  | awaiting (fid : ℕ)
  /-- In `_skillUnit`, after the call. -/
  | childDone (run : Option WorkflowRun)
  /-- At `await execute(…)` in `_executeCodeSkill`. -/
  | module
  /-- In `_executeStep`, after `_runUnit`. -/
  | outcome (o : UnitOutcome)
  /-- In `_execute`, after a step. -/
  | next
  /-- In `_execute`, before `suspendRun`. -/
  | suspend (wait : Wait) (wakeAt : Option Int)
  /-- After `suspendRun`, with the row it returned. -/
  | suspended (run : Option WorkflowRun)
  /-- In `_execute`, after the loop. -/
  | output
  /-- At the start of `_finish`. -/
  | finish (status : RunStatus) (outputs : Option Json) (error : Option String)
    (context : Option Context) (position : Option Position)
  /-- In `_finish`, after `finishRun`, with the row it returned. -/
  | finished (status : RunStatus) (error : Option String) (run : Option WorkflowRun)

/-- A call of `advance` that holds a run. -/
structure Frame where
  /-- The run as it was leased. -/
  run : WorkflowRun
  owner : String
  context : Context
  position : Position
  record : PackageRecord := {}
  /-- The id of `env.instance`. -/
  instanceId : Option String := none
  /-- `scope.state`. -/
  state : Json := .obj []
  pc : Pc

/-- The frame of a run just leased. -/
def Frame.start (run : WorkflowRun) (owner : String) : Frame :=
  { run := run, owner := owner, context := run.context, position := run.position, pc := .started }

/-- `workflow.steps[position.step]`. -/
def Frame.step? (f : Frame) : Option Step := f.run.workflow.stepList[f.position.step]?

def Frame.unit (f : Frame) : UnitId := ⟨f.run.id, f.position.step, f.position.iteration⟩

def Frame.scope (f : Frame) : Scope where
  inputs := f.run.inputs
  steps := f.context
  settings := f.record.settings
  state := f.state
  trigger := f.run.trigger
  runId := f.run.id
  startedAt := f.run.startedAt

def Frame.unitScope (f : Frame) (step : Step) : Scope :=
  if step.foreach.isSome then
    { f.scope with
      item := (f.position.items.getD [])[f.position.iteration]?,
      index := some f.position.iteration }
  else f.scope

/-- The label of the unit in records and keys: `-1` outside `foreach`. -/
def Frame.iteration (f : Frame) (step : Step) : Int :=
  if step.foreach.isSome then f.position.iteration else -1

/-- What a frame does in a piece of code that concerns only its own run. -/
structure Turn where
  frame : Frame
  /-- Whether the piece ends with `checkpointRun`. -/
  checkpoint : Bool := false
  effects : List Effect := []
  /-- `updateInstance`. -/
  update : Option (String × InstancePatch) := none
  /-- An id drawn by `newId('act')`. -/
  issued : Option String := none

/-- Go on at `pc`. -/
def Frame.goto (f : Frame) (pc : Pc) : Turn := { frame := { f with pc := pc } }

/-- `_finish(run, 'failed', { error, context, position })`. -/
def Frame.fail (f : Frame) (error : String) : Turn :=
  f.goto (.finish .failed none (some error) (some f.context) (some f.position))

/-- Replace the handle, checkpoint and go on at `pc`. -/
def Frame.remember (f : Frame) (handle : Handle) (pc : Pc) : Turn where
  frame := { f with position := { f.position with handle := some handle }, pc := pc }
  checkpoint := true

/-- How a unit ended. -/
inductive UnitEnd where
  | output (value : Json)
  | skipped
  | failed

/-- The entry of a step that is one unit. -/
def UnitEnd.entry : UnitEnd → StepEntry
  | output value => ⟨.completed, value⟩
  | skipped => ⟨.skipped, .null⟩
  | failed => ⟨.failed, .null⟩

/-- What is pushed onto the results of a `foreach` step: skipped items are left out, failed items
are null. -/
def UnitEnd.results : UnitEnd → List Json
  | output value => [value]
  | skipped => []
  | failed => [.null]

def Frame.advanceIteration (f : Frame) (step : Step) (e : UnitEnd) : Turn where
  frame := { f with
    context := if step.foreach.isSome then f.context else f.context.set step.id e.entry
    position := { f.position with
      results := if step.foreach.isSome then f.position.results ++ e.results
        else f.position.results
      iteration := f.position.iteration + 1
      handle := none }
    pc := .units }
  checkpoint := true

/-- What the environment chooses for a piece of code. -/
structure Tick where
  now : Int := 0
  /-- The next id of the generator. -/
  id : String := ""
  /-- The number of the frame of a call that starts. -/
  child : ℕ := 0
  /-- `registries.packages.get(run.packageId)`. -/
  record : Option PackageRecord := none

/-- `_execute` up to its loop. -/
def Frame.execute (instances : Instances) (f : Frame) (record : Option PackageRecord) : Turn :=
  match record with
  | none => f.goto (.finish .failed none
      (some ("Package " ++ f.run.packageId ++ " is not installed")) none none)
  | some r =>
    if r.enabled = false then
      f.goto (.finish .failed none (some ("Package " ++ f.run.packageId ++ " is disabled"))
        none none)
    else
      let inst := f.run.instanceId.bind instances.find
      let pc := match f.run.workflow with
        | .code _ => .module
        | .steps .. => .loop
      { frame := { f with
          record := r, instanceId := inst.map Instance.id,
          state := inst.elim (.obj []) Instance.state, pc := pc } }

def lastOutput (steps : List Step) (context : Context) : Json :=
  (steps.reverse.findSome? fun step =>
    (context.find? fun p => p.1 = step.id).bind fun p =>
      if p.2.status = .completed then some p.2.output else none).getD .null

/-- The end of `_execute`, after the loop. -/
def Frame.finishSteps (H : Host) (f : Frame) (now : Int) : Turn :=
  let output : Except String Json :=
    match f.run.workflow with
    | .steps _ (some template) => H.resolveTemplate template f.scope now
    | w => .ok (lastOutput w.stepList f.context)
  match output with
  | .error e => f.fail ("output: " ++ boundedError e)
  | .ok output =>
    match if f.run.kind = .skill then H.skillOutputErrors f.run.definitionId output else [] with
    | [] => f.goto (.finish .completed (some output) none (some f.context) (some f.position))
    | errors =>
      f.fail ("Skill " ++ f.run.definitionId ++ " returned invalid output: " ++ joinErrors errors)

/-- The end of `_executeCodeSkill`. -/
def Frame.finishModule (H : Host) (f : Frame) : Except String Json → Turn
  | .error e => f.goto (.finish .failed none (some (boundedError e)) none none)
  | .ok output =>
    match H.skillOutputErrors f.run.definitionId output with
    | [] => f.goto (.finish .completed (some output) none none (some f.position))
    | errors => f.goto (.finish .failed none
        (some ("Skill " ++ f.run.definitionId ++ " returned invalid output: " ++ joinErrors errors))
        none none)

/-- `_execute`, after a step: the position moves to the next one. -/
def Frame.nextStep (f : Frame) : Turn where
  frame := { f with position := { step := f.position.step + 1 }, pc := .loop }
  checkpoint := true

/-- `_executeStep` up to its loop: the items of a `foreach` step are resolved once. -/
def Frame.enter (H : Host) (f : Frame) (step : Step) (now : Int) : Turn :=
  match step.foreach, f.position.items with
  | some template, none =>
    let start (items : List Json) : Turn :=
      if maxForeachItems < items.length then
        f.fail (step.id ++ ".foreach has more than 500 items")
      else
        { frame := { f with
            position := { f.position with items := some items, results := [], iteration := 0 }
            pc := .units }
          checkpoint := true }
    match H.resolveTemplate template f.scope now with
    | .error e => f.fail (step.id ++ ".foreach: " ++ boundedError e)
    | .ok .null => start []
    | .ok (.arr items) => start items
    | .ok _ => f.fail (step.id ++ ".foreach must resolve to a list")
  | _, _ => f.goto .units

def Frame.iterations (f : Frame) (step : Step) : ℕ :=
  if step.foreach.isSome then (f.position.items.getD []).length else 1

/-- The head of the loop over the units: the `when:` of a unit that did not start yet. -/
def Frame.nextUnit (H : Host) (f : Frame) (step : Step) (now : Int) : Turn :=
  if f.position.iteration < f.iterations step then
    match step.when_, f.position.handle with
    | some source, none =>
      match H.condition source (f.unitScope step) now with
      | .error e => f.fail (step.id ++ ".when: " ++ boundedError e)
      | .ok true => f.goto .unit
      | .ok false => f.advanceIteration step .skipped
    | _, _ => f.goto .unit
  else if step.foreach.isSome then
    { frame := { f with
        context := f.context.set step.id ⟨.completed, .arr f.position.results⟩, pc := .next } }
  else f.goto .next

/-- Whether a failed unit is run again. -/
def Step.retries (step : Step) (retryable : Bool) (attempt : ℕ) : Bool :=
  match step.retry with
  | some r => retryable && attempt < r.attempts
  | none => false

/-- `attempt` after a failure. -/
def Frame.attempt (f : Frame) : ℕ := (f.position.handleOrEmpty.attempt.getD 0) + 1

/-- A failed or denied unit: it is run again, passed over, or fails the run. -/
def Frame.unitFailed (H : Host) (f : Frame) (step : Step) (reason : String) (verb : String)
    (retryable : Bool) (now : Int) : Turn :=
  if step.retries retryable f.attempt then
    -- the new handle keeps nothing of the old one but the number of the attempt
    let handle : Handle := { attempt := some f.attempt }
    match ((step.retry.bind Retry.backoff).bind H.parseDuration).getD 0 with
    | 0 => f.remember handle .units
    | backoff =>
      let wakeAt := now + backoff
      { frame := { f with
          position := { f.position with handle := some handle }
          pc := .suspend (.retry f.attempt wakeAt) (some wakeAt) } }
  else if step.continueOnError then f.advanceIteration step .failed
  else
    let item := if step.foreach.isSome then "[" ++ toString f.position.iteration ++ "]" else ""
    f.fail ("Step " ++ step.id ++ item ++ " " ++ verb ++ ": " ++
      (if reason = "" then "unknown error" else reason))

/-- `_executeStep`, after `_runUnit`. -/
def Frame.unitEnded (H : Host) (f : Frame) (step : Step) (now : Int) : UnitOutcome → Turn
  | .waiting wait wakeAt => f.goto (.suspend wait wakeAt)
  | .completed output => f.advanceIteration step (.output output)
  | .skipped _ => f.advanceIteration step .skipped
  | .failed reason retryable => f.unitFailed H step reason "failed" retryable now
  | .denied reason => f.unitFailed H step reason "was denied" false now

/-! ### The units -/

/-- `_capabilityUnit` up to the checkpoint: the recorded action of the unit is read again, and
only a unit without one is about to propose. -/
def Frame.capabilityUnit (H : Host) (actions : Actions) (f : Frame) (step : Step)
    (target : String) (input : Json) (tick : Tick) : Turn :=
  let handle := f.position.handleOrEmpty
  match handle.actionId.bind actions.find with
  | some action =>
    f.goto (.outcome (mapCapabilityOutcome H target action.id action.policyRule
      (actionOutcome H (H.contract target) action)))
  | none =>
    let scope := f.unitScope step
    let prepared : Except String (Json × Option Json) := do
      let value ← H.resolveTemplate input scope tick.now
      match step.policy with
      | none => pure (value, none)
      | some name =>
        let policy ← H.evaluatePackagePolicy f.record name scope value tick.now
        pure (value, some policy)
    match prepared with
    | .error e => f.goto (.outcome (.thrown e))
    | .ok (value, policy) =>
      let actionId := handle.actionId.getD tick.id
      { f.remember { handle with actionId := some actionId, policy := policy } (.propose value) with
        issued := if handle.actionId.isSome then none else some tick.id }

/-- The context of a proposal: the audit names the automation that initiated the work. -/
def Frame.invokeContext (runs : Runs) (f : Frame) (step : Step) (actionId : String) :
    InvokeContext :=
  let root := if f.run.rootRunId = f.run.id then some f.run else runs.find f.run.rootRunId
  { packageId := f.run.principalPackageId
    automationId := root.bind fun r =>
      if r.kind = .automation then some r.definitionId else none
    skillId := if f.run.kind = .skill then some f.run.definitionId else none
    workflowRunId := f.run.id
    rootRunId := root.elim f.run.id WorkflowRun.id
    stepId := step.id
    actionId := actionId
    policy := f.position.handleOrEmpty.policy }

/-- `invoker.invoke` is called. -/
def Frame.propose (runs : Runs) (f : Frame) (step : Step) (target : String) (input : Json)
    (actionId : String) : Turn where
  frame := { f with pc := .invoking actionId }
  effects := [.invoke f.unit target input (f.invokeContext runs step actionId)]

/-- `_skillUnit`, after the child stopped. -/
def skillOutcome (skillId : String) : Option WorkflowRun → UnitOutcome
  | none => .thrown "the child run is missing"
  | some child =>
    match child.status with
    | .completed => .completed (child.outputs.getD .null)
    | .failed => .failed ("skill " ++ skillId ++ ": " ++ child.error.getD "failed") true
    | .cancelled => .failed ("skill " ++ skillId ++ ": " ++ child.error.getD "cancelled") true
    | _ => .waiting (.child child.id) none

/-- `source.filter((item) => …)`. -/
def filterItems (H : Host) (where_ : String) (scope : Scope) (now : Int) (items : List Json) :
    Except String (List Json) :=
  items.filterM fun item => H.condition where_ { scope with item := some item } now

def Frame.filterUnit (H : Host) (f : Frame) (step : Step) (source : Json) (where_ : String)
    (now : Int) : UnitOutcome :=
  match H.resolveTemplate source (f.unitScope step) now with
  | .error e => .thrown e
  | .ok (.arr items) =>
    match filterItems H where_ (f.unitScope step) now items with
    | .error e => .thrown e
    | .ok kept => .completed (.arr kept)
  | .ok _ => .failed "filter source must be a list" false

/-- `{ type, id }`, both strings. -/
def isSubject (subject : Json) : Bool :=
  ((subject.get? "type").bind Json.asStr?).isSome && ((subject.get? "id").bind Json.asStr?).isSome

/-- The data and the subject of an event to be emitted. -/
def Frame.emitInput (H : Host) (f : Frame) (step : Step) (data : Json) (subject : Option Json)
    (now : Int) : Except String (Json × Option Json) := do
  let data ← H.resolveTemplate data (f.unitScope step) now
  match subject with
  | none => pure (data, none)
  | some s =>
    match ← H.resolveTemplate s (f.unitScope step) now with
    | .null => pure (data, none)
    | s => pure (data, some s)

/-- Data that is no object is wrapped. -/
def eventData : Json → Json
  | .obj fields => .obj fields
  | .arr items => .arr items
  | value => .obj [("value", value)]

def Frame.emitUnit (H : Host) (f : Frame) (step : Step) (type : String) (data : Json)
    (subject : Option Json) (tick : Tick) : Turn :=
  match H.emitProblem type f.record.emits with
  | some problem => f.goto (.outcome (.failed problem false))
  | none =>
    match f.emitInput H step data subject tick.now with
    | .error e => f.goto (.outcome (.thrown e))
    | .ok (data, subject) =>
      if subject.any fun s => !isSubject s then
        f.goto (.outcome (.failed "emit subject must be an object with type and id" false))
      else
        let output : Json := .obj [("eventId", .str tick.id), ("type", .str type)]
        { f.goto (.outcome (.completed output)) with
          effects := [.emit f.run.id step.id type (eventData data) subject] }

/-- `_stateUnit`.  Inside `foreach` the new state is assigned to the scope of the item only. -/
def Frame.stateUnit (H : Host) (f : Frame) (step : Step) (set : Json) (now : Int) : Turn :=
  match f.instanceId with
  | none => f.goto (.outcome (.failed "state steps need an automation instance" false))
  | some instanceId =>
    match H.resolveTemplate set (f.unitScope step) now with
    | .error e => f.goto (.outcome (.thrown e))
    | .ok updates =>
      let next := H.mergeState f.state updates
      match H.stateErrors f.run.definitionId next with
      | [] =>
        { frame := { f with
            state := if step.foreach.isSome then f.state else next
            pc := .outcome (.completed next) }
          effects := [.state f.run.id instanceId next]
          update := some (instanceId, { state := some next }) }
      | errors =>
        f.goto (.outcome (.failed ("Invalid automation state: " ++ joinErrors errors) false))

/-- When a `sleep` unit is over, or how it fails. -/
def Frame.sleepUntil (H : Host) (f : Frame) (step : Step) (now : Int) :
    SleepInput → Except UnitOutcome Int
  | .until_ value =>
    match H.resolveTemplate value (f.unitScope step) now with
    | .error e => .error (.thrown e)
    | .ok date =>
      match H.parseDate date with
      | some time => .ok time
      | none => .error (.failed "sleep.until must be a date" false)
  | .duration value =>
    match H.resolveTemplate value (f.unitScope step) now with
    | .error e => .error (.thrown e)
    | .ok duration =>
      match H.parseDuration duration with
      | some ms => .ok (now + ms)
      | none => .error (.failed "sleep.duration must be a duration such as 10m" false)

/-- The outcome of a `sleep` unit that is to end at `time`. -/
def sleepOutcome (time now : Int) : UnitOutcome :=
  if time ≤ now then .completed (.obj [("sleptUntil", .ofInt time)])
  else .waiting (.timer time) (some time)

def Frame.sleepUnit (H : Host) (f : Frame) (step : Step) (input : SleepInput) (now : Int) : Turn :=
  let handle := f.position.handleOrEmpty
  match handle.until_ with
  | some time => f.goto (.outcome (sleepOutcome time now))
  | none =>
    match f.sleepUntil H step now input with
    | .error o => f.goto (.outcome o)
    | .ok time => f.remember { handle with until_ := some time } (.outcome (sleepOutcome time now))

def Frame.waitUnit (H : Host) (f : Frame) (event : String) (where_ : Option String)
    (timeout : Option Json) (now : Int) : Turn :=
  let handle := f.position.handleOrEmpty
  let waiting (since deadline : Option Int) : Pc :=
    .outcome (.waiting (.event event where_ since deadline) deadline)
  match handle.event with
  | some e => f.goto (.outcome (.completed e))
  | none =>
    if handle.timedOut then f.goto (.outcome (.completed (.obj [("timedOut", .bool true)])))
    else if handle.waiting then f.goto (waiting handle.since handle.deadline)
    else
      let deadline := match timeout.bind H.parseDuration with
        | some 0 | none => none
        | some ms => some (now + ms)
      f.remember { handle with waiting := true, since := some now, deadline := deadline }
        (waiting (some now) deadline)

/-- `_runUnit`, but for skills. -/
def Frame.runUnit (H : Host) (actions : Actions) (f : Frame) (step : Step) (tick : Tick) :
    Option Turn :=
  match step.use with
  | .capability target input => some (f.capabilityUnit H actions step target input tick)
  | .skill .. => none
  | .transform value =>
    match H.resolveTemplate value (f.unitScope step) tick.now with
    | .error e => some (f.goto (.outcome (.thrown e)))
    | .ok value => some (f.goto (.outcome (.completed value)))
  | .filter source where_ => some (f.goto (.outcome (f.filterUnit H step source where_ tick.now)))
  | .emit type data subject => some (f.emitUnit H step type data subject tick)
  | .state set => some (f.stateUnit H step set tick.now)
  | .sleep input => some (f.sleepUnit H step input tick.now)
  | .wait event where_ timeout => some (f.waitUnit H event where_ timeout tick.now)

/-- `automation.started` is published when nothing of the run was executed yet. -/
def Frame.begin_ (f : Frame) : Turn :=
  let first := f.run.kind = .automation && f.run.position.step = 0 &&
    f.run.position.handle.isNone && f.run.context.isEmpty
  { f.goto .execute with
    effects := if first then [.lifecycle f.run.id "automation.started"] else [] }

/-- The next piece of a frame, where it concerns only the run of the frame. -/
def Frame.turn (H : Host) (runs : Runs) (instances : Instances) (actions : Actions) (f : Frame)
    (tick : Tick) : Option Turn :=
  match f.pc with
  | .started => some f.begin_
  | .execute => some (f.execute instances tick.record)
  | .loop =>
    some (f.goto (if f.position.step < f.run.workflow.stepList.length then .enter else .output))
  | .enter => f.step?.map fun step => f.enter H step tick.now
  | .units => f.step?.map fun step => f.nextUnit H step tick.now
  | .unit => f.step?.bind fun step => f.runUnit H actions step tick
  | .propose input => f.step?.bind fun step =>
    match step.use, f.position.actionId with
    | .capability target _, some actionId => some (f.propose runs step target input actionId)
    | _, _ => none
  | .childDone child => f.step?.bind fun step =>
    match step.use with
    | .skill target _ => some (f.goto (.outcome (skillOutcome target child)))
    | _ => none
  | .outcome o => f.step?.map fun step => f.unitEnded H step tick.now o
  | .next => some f.nextStep
  | .output => some (f.finishSteps H tick.now)
  | .invoking _ | .child _ | .awaiting _ | .module | .suspend .. | .suspended _ | .finish ..
  | .finished .. => none

/-- The answer of `invoke`, or the error it threw. -/
def Frame.invoked (H : Host) (actions : Actions) (f : Frame) (target actionId : String)
    (result : Except String InvokeOutcome) : Turn :=
  f.goto (.outcome (match result with
    | .error e => .thrown e
    | .ok o => mapCapabilityOutcome H target actionId
        ((actions.find actionId).bind AgentAction.policyRule) o))

end U2os.Server.Packages
