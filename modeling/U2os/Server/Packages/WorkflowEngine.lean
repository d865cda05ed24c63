import U2os.Lib.Run
import U2os.Server.Packages.WorkflowFrame

/-!
# The workflow engine

`packages/workflow-engine.js` as a machine over the store and the frames.  A piece of a frame makes
at most one change of the store, and any frame may run its next piece at any time; this covers what
other work does at an `await` and what the subscribers of a published event do before `publish`
returns.  `cancelRun` and the wake-ups run to their end at once, as they await nothing and publish
nothing before their last write.  A crash takes all frames.

Statements of the store do not fail; what a capability or a module answers is chosen freely.
-/

namespace U2os.Server.Packages

/-- The tables, the calls of `advance` in flight and what was done so far. -/
structure State where
  runs : Runs
  instances : Instances
  actions : Actions
  frames : ℕ → Option Frame
  /-- The effects of the engine, oldest first. -/
  effects : List Effect
  /-- The action ids drawn so far. -/
  issued : List String
  /-- The action ids of calls of `invoke` that go on after a time limit. -/
  abandoned : List String

/-- Before the first run. -/
def State.empty : State := ⟨.empty, .empty, .empty, fun _ => none, [], [], []⟩

/-- The store and the frame after a turn. -/
def State.apply (s : State) (fid : ℕ) (u : Turn) : State where
  runs := if u.checkpoint then
      checkpointRun s.runs u.frame.run.id u.frame.owner u.frame.context u.frame.position
    else s.runs
  instances := u.update.elim s.instances fun p => updateInstance s.instances p.1 p.2
  actions := s.actions
  frames := Function.update s.frames fid (some u.frame)
  effects := s.effects ++ u.effects
  issued := u.issued.toList ++ s.issued
  abandoned := s.abandoned

/-- A turn is played; `newId` never repeats an id. -/
def State.play (s : State) (fid : ℕ) (u : Turn) : Option State :=
  if u.issued.all fun id => id ∉ s.issued then some (s.apply fid u) else none

/-- The key of the child run of a unit. -/
def Frame.childKey (f : Frame) (step : Step) : String :=
  "child:" ++ f.run.id ++ ":" ++ step.id ++ ":" ++ toString (f.iteration step) ++ ":" ++
    toString (f.position.handleOrEmpty.attempt.getD 0)

/-- The child run of a unit. -/
def Frame.childRun (f : Frame) (step : Step) (skill : Skill) (inputs : Json) : NewRun where
  kind := .skill
  definitionId := skill.id
  packageId := skill.packageId
  principalPackageId := some f.run.principalPackageId
  rootRunId := some f.run.rootRunId
  parentRunId := some f.run.id
  depth := f.run.depth + 1
  trigger := .obj [("type", .str "skill"), ("parentRunId", .str f.run.id)]
  dedupeKey := some (f.childKey step)
  workflow := skill.workflow
  inputs := inputs

/-- The skill of a unit and the inputs of its child run, or how the unit fails. -/
def Frame.childInput (H : Host) (f : Frame) (step : Step) (target : String) (input : Json)
    (now : Int) : Except UnitOutcome (Skill × Json) :=
  match H.skill target with
  | none => .error (.failed ("Unknown skill " ++ target) false)
  | some skill =>
    if maxSkillDepth < f.run.depth + 1 then
      .error (.failed "Skills are nested more than 8 levels deep" false)
    else
      match H.resolveTemplate input (f.unitScope step) now with
      | .error e => .error (.thrown e)
      | .ok value =>
        let inputs := H.prepareSkillInput skill value
        match H.skillInputErrors skill inputs with
        | [] => .ok (skill, inputs)
        | errors => .error (.failed
            ("Invalid input for skill " ++ target ++ ": " ++ joinErrors errors) false)

/-- `_skillUnit` up to the call of `advance`: a unit without a child inserts one. -/
def State.skillUnit (H : Host) (s : State) (fid : ℕ) (f : Frame) (step : Step) (target : String)
    (input : Json) (tick : Tick) : State :=
  match f.position.handleOrEmpty.childRunId.bind s.runs.find with
  | some child => s.apply fid (f.goto (.child child))
  | none =>
    match f.childInput H step target input tick.now with
    | .error o => s.apply fid (f.goto (.outcome o))
    | .ok (skill, inputs) =>
      let n := f.childRun step skill inputs
      let runs := (insertRun s.runs n tick.id tick.now).getD s.runs
      match (if (insertRun s.runs n tick.id tick.now).isSome then runs.find tick.id
        else getRunByDedupe s.runs (f.childKey step)) with
      | none => s.apply fid (f.goto (.outcome (.thrown "the child run is missing")))
      | some child =>
        { s with runs := runs }.apply fid
          (f.remember { f.position.handleOrEmpty with childRunId := some child.id } (.child child))

/-- `if (child.status === 'pending') child = await this.advance(child.id)`. -/
def State.callChild (H : Host) (s : State) (fid : ℕ) (f : Frame) (child : WorkflowRun)
    (tick : Tick) : Option State :=
  if child.status = .pending then
    match leaseRun s.runs child.id f.owner H.leaseMs tick.now with
    | some (runs, leased) =>
      if (s.frames tick.child).isNone then
        some { s with
          runs := runs
          frames := Function.update
            (Function.update s.frames fid (some { f with pc := .awaiting tick.child }))
            tick.child (some (Frame.start leased f.owner)) }
      else none
    | none => some (s.apply fid (f.goto (.childDone (s.runs.find child.id))))
  else some (s.apply fid (f.goto (.childDone (some child))))

/-- A frame that awaits the frame `fid` goes on with the run it returned. -/
def Frame.resume (fid : ℕ) (run : Option WorkflowRun) (g : Frame) : Frame :=
  match g.pc with
  | .awaiting i => if i = fid then { g with pc := .childDone run } else g
  | _ => g

/-- `advance` returns. -/
def State.return_ (s : State) (fid : ℕ) (run : Option WorkflowRun) : State :=
  { s with
    frames := fun i => if i = fid then none else (s.frames i).map (Frame.resume fid run) }

def State.publish (s : State) (runId type : String) : State :=
  { s with effects := s.effects ++ [.lifecycle runId type] }

/-- `updateInstance`, for a run with an instance. -/
def State.updateInstance (s : State) (id : Option String) (patch : InstancePatch) : State :=
  { s with
    instances := id.elim s.instances fun id => Packages.updateInstance s.instances id patch }

/-- `suspendRun`. -/
def State.suspend (s : State) (fid : ℕ) (f : Frame) (wait : Wait) (wakeAt : Option Int) : State :=
  let runs := suspendRun s.runs f.run.id f.owner f.context f.position wait wakeAt
  { s with
    runs := runs
    frames := Function.update s.frames fid
      (some { f with pc := .suspended (runs.find f.run.id) }) }

/-- After `suspendRun`. -/
def State.suspended (s : State) (fid : ℕ) (f : Frame) (run : Option WorkflowRun) : State :=
  let s := if f.run.kind = .automation then
      (s.publish f.run.id "automation.waiting").updateInstance f.run.instanceId
        { lastStatus := some .waiting }
    else s
  s.return_ fid run

/-- The parent waits for the child. -/
def WorkflowRun.waitsFor (childId : String) (parent : WorkflowRun) : Bool :=
  parent.status = .waiting && parent.wait = some (.child childId)

def wakeParent (runs : Runs) (parentId childId : String) : Runs :=
  match runs.find parentId with
  | some parent => if parent.waitsFor childId then wakeRun runs parentId none else runs
  | none => runs

/-- `_finish`, after `finishRun`. -/
def State.settle (s : State) (run : WorkflowRun) (status : RunStatus) (error : Option String) :
    State :=
  let s := if run.kind = .automation then
      (s.updateInstance run.instanceId
        { lastRunId := some run.id, lastStatus := some status, lastError := some error }).publish
        run.id (if status = .completed then "automation.completed" else "automation.failed")
    else s
  { s with runs := run.parentRunId.elim s.runs fun parentId => wakeParent s.runs parentId run.id }

/-- `finishRun`. -/
def State.finish (s : State) (fid : ℕ) (f : Frame) (status : RunStatus) (outputs : Option Json)
    (error : Option String) (context : Option Context) (position : Option Position) : State :=
  let runs := finishRun s.runs f.run.id status outputs error context position
  { s with
    runs := runs
    frames := Function.update s.frames fid
      (some { f with pc := .finished status error (runs.find f.run.id) }) }

/-- The skill unit a frame is about to run. -/
def Frame.skill? (f : Frame) : Option (Step × String × Json) :=
  f.step?.bind fun step =>
    match step.use with
    | .skill target input => some (step, target, input)
    | _ => none

/-- The next piece of a frame. -/
def State.proceed (H : Host) (s : State) (fid : ℕ) (f : Frame) (tick : Tick) : Option State :=
  match f.pc with
  | .child run => s.callChild H fid f run tick
  | .suspend wait wakeAt => some (s.suspend fid f wait wakeAt)
  | .suspended run => some (s.suspended fid f run)
  | .finish status outputs error context position =>
    some (s.finish fid f status outputs error context position)
  | .finished status error run => some ((s.settle f.run status error).return_ fid run)
  | .unit =>
    match f.skill? with
    | some (step, target, input) => some (s.skillUnit H fid f step target input tick)
    | none => (f.turn H s.runs s.instances s.actions tick).bind (s.play fid)
  | _ => (f.turn H s.runs s.instances s.actions tick).bind (s.play fid)

/-- The loop of a wake-up over the waiting runs: each run that `wakes` accepts is woken with the
position it names. -/
def wakeEach (wakes : Runs → WorkflowRun → Option (Option Position)) (listed : List WorkflowRun)
    (runs : Runs) : Runs :=
  listed.foldl (fun runs run =>
    match wakes runs run with
    | some position => wakeRun runs run.id position
    | none => runs) runs

/-- The position with a patched handle. -/
def Position.patch (p : Position) (g : Handle → Handle) : Position :=
  { p with handle := some (g p.handleOrEmpty) }

/-- `wakeDueRuns`: timers, retries and the deadlines of event waits. -/
def wakeDueRuns (runs : Runs) (now : Int) : Runs :=
  wakeEach (fun _ run =>
    match run.wait with
    | some (.event ..) => some (some (run.position.patch fun h => { h with timedOut := true }))
    | some (.timer _) | some (.retry ..) => some none
    | _ => none)
    ((listWaitingRuns runs).filter fun run => run.wakeAt.any fun t => t ≤ now) runs

/-- `wakeActionWaits`: runs that wait for an action whose outcome is known. -/
def wakeActionWaits (H : Host) (actions : Actions) (runs : Runs) : Runs :=
  wakeEach (fun _ run =>
    match run.wait with
    | some (.action actionId capability) =>
      match (actions.find actionId).map (actionOutcome H (H.contract capability)) with
      | some .waiting => none
      | _ => some none
    | _ => none) (listWaitingRuns runs) runs

/-- `wakeChildWaits`: runs that wait for a child that is over or runnable. -/
def wakeChildWaits (runs : Runs) : Runs :=
  wakeEach (fun runs run =>
    match run.wait with
    | some (.child runId) =>
      if (runs.find runId).all fun child =>
        child.status.isTerminal || child.status = .pending then some none else none
    | _ => none) (listWaitingRuns runs) runs

/-- Whether a waiting run waits for the event. -/
def WorkflowRun.awaits (H : Host) (event : Event) (now : Int) (run : WorkflowRun) : Bool :=
  match run.wait with
  | some (.event type where_ since _) =>
    type = event.type && event.workflowRunId ≠ some run.id &&
      !(since.any fun since => event.timestamp.any fun t => t < since) &&
      where_.all fun where_ => H.eventMatches where_ event run.inputs now
  | _ => false

def deliverEvent (H : Host) (event : Event) (now : Int) (runs : Runs) : Runs :=
  wakeEach (fun _ run =>
    if run.awaits H event now then
      some (some (run.position.patch fun h => { h with event := some event.content }))
    else none) (listWaitingRuns runs) runs

/-- A pending approval that a cancelled run waits for is withdrawn. -/
def withdraw (actions : Actions) (wait : Option Wait) : Actions :=
  match wait with
  | some (.action actionId _) =>
    actions.updateWhere (fun a => a.id = actionId ∧ a.status = .pending)
      (fun a => { a with status := .cancelled, error := some "Workflow run cancelled" })
      fun _ => rfl
  | _ => actions

/-- `cancelRun`.  The first argument bounds the depth of the recursion; a chain of children is
no longer than the table. -/
def cancelRun : ℕ → State → String → String → State
  | 0, s, _, _ => s
  | n + 1, s, runId, reason =>
    match s.runs.find runId with
    | none => s
    | some run =>
      if run.status.isTerminal then s
      else
        let s := (listActiveChildren s.runs runId).foldl
          (fun s child => cancelRun n s child.id reason) s
        { s with
          actions := withdraw s.actions run.wait
          runs := finishRun s.runs run.id .cancelled none (some reason) none none }.settle
          run .cancelled (some reason)

/-- What happens next, with everything the environment decides. -/
inductive Act where
  /-- `createAutomationRun`, or the insertion of `runSkill`. -/
  | create (n : NewRun) (id : String) (now : Int)
  /-- A call of `advance` by the runtime or by an owner. -/
  | advance (fid : ℕ) (runId owner : String) (now : Int)
  | proceed (fid : ℕ) (tick : Tick)
  /-- The heartbeat of a call of `advance`. -/
  | renew (fid : ℕ) (now : Int)
  /-- `invoke` answers, or throws. -/
  | returns (fid : ℕ) (result : Except String InvokeOutcome)
  /-- The timeout of a step with a `read` capability. -/
  | timeout (fid : ℕ)
  /-- The module of a skill invokes a capability. -/
  | moduleInvoke (fid : ℕ) (capability : String)
  | moduleReturns (fid : ℕ) (result : Except String Json)
  /-- An error outside a unit, for `advance` to catch. -/
  | throws (fid : ℕ) (message : String)
  | cancelRun (runId reason : String)
  | wakeDueRuns (now : Int)
  | wakeActionWaits
  | wakeChildWaits
  | deliverEvent (event : Event) (now : Int)
  | recoverInterruptedRuns (expiredOnly : Bool) (now : Int)
  /-- In a call of `invoke`, the gate records the action. -/
  | record (fid : ℕ) (action : AgentAction)
  /-- The same, in a call that goes on after a time limit. -/
  | recordLate (action : AgentAction)
  /-- A recorded action changes: it is approved, executed, rejected. -/
  | amend (action : AgentAction)
  /-- Another user of the gate records an action under an id of its own. -/
  | recordOther (action : AgentAction)
  | crash

/-- What a run's creation does to its instance. -/
def NewRun.patch (n : NewRun) (id : String) : InstancePatch :=
  { lastRunId := some id, lastStatus := some n.status,
    lastError := if n.status.isActive then none else some n.error }

/-- The capability step a frame is at. -/
def Frame.target? (f : Frame) : Option String :=
  f.step?.bind fun step =>
    match step.use with
    | .capability target _ => some target
    | _ => none

/-- Whether the step of the frame is a read with a time limit. -/
def Frame.limited (H : Host) (f : Frame) (target : String) : Bool :=
  !H.consequential target &&
    (((f.step?.bind Step.timeout).bind H.parseDuration).any fun ms => 0 < ms)

/-- The end of `await this.invoker.invoke`. -/
def State.returns (H : Host) (s : State) (fid : ℕ) (f : Frame)
    (result : Except String InvokeOutcome) : Option State :=
  match f.pc, f.target? with
  | .invoking actionId, some target =>
    some (s.apply fid (f.invoked H s.actions target actionId result))
  | _, _ => none

/-- The time limit of a step passes; the call of `invoke` goes on. -/
def State.timeout (H : Host) (s : State) (fid : ℕ) (f : Frame) : Option State :=
  match f.pc, f.target? with
  | .invoking actionId, some target =>
    if f.limited H target then
      some { s.apply fid (f.invoked H s.actions target actionId
          (.ok (.failed (target ++ " timed out") "timeout"))) with
        abandoned := actionId :: s.abandoned }
    else none
  | _, _ => none

/-- `recordAudit`: a row is inserted, unless its id is taken. -/
def State.recordAction (s : State) (action : AgentAction) : Option State :=
  (s.actions.insert? action).map fun actions => { s with actions := actions }

/-- The step an act makes. -/
def step? (H : Host) (s : State) : Act → Option State
  | .create n id now =>
    match insertRun s.runs n id now with
    | some runs =>
      let s := { s with runs := runs }
      some (if n.kind = .automation then s.updateInstance n.instanceId (n.patch id) else s)
    | none => some s
  | .advance fid runId owner now =>
    match leaseRun s.runs runId owner H.leaseMs now with
    | some (runs, leased) =>
      if (s.frames fid).isNone then
        some { s with
          runs := runs, frames := Function.update s.frames fid (some (Frame.start leased owner)) }
      else none
    | none => some s
  | .proceed fid tick => (s.frames fid).bind fun f => s.proceed H fid f tick
  | .renew fid now =>
    (s.frames fid).map fun f =>
      { s with runs := renewRunLease s.runs f.run.id f.owner H.leaseMs now }
  | .returns fid result => (s.frames fid).bind fun f => s.returns H fid f result
  | .timeout fid => (s.frames fid).bind fun f => s.timeout H fid f
  | .moduleInvoke fid capability =>
    (s.frames fid).bind fun f =>
      match f.pc with
      | .module => some { s with effects := s.effects ++ [.moduleInvoke f.run.id capability] }
      | _ => none
  | .moduleReturns fid result =>
    (s.frames fid).bind fun f =>
      match f.pc with
      | .module => some (s.apply fid (f.finishModule H result))
      | _ => none
  | .throws fid message =>
    (s.frames fid).bind fun f =>
      match f.pc with
      | .execute | .output => some (s.apply fid
          (f.goto (.finish .failed none (some (boundedError message)) none none)))
      | _ => none
  | .cancelRun runId reason => some (cancelRun (s.runs.rows.length + 1) s runId reason)
  | .wakeDueRuns now => some { s with runs := wakeDueRuns s.runs now }
  | .wakeActionWaits => some { s with runs := wakeActionWaits H s.actions s.runs }
  | .wakeChildWaits => some { s with runs := wakeChildWaits s.runs }
  | .deliverEvent event now => some { s with runs := deliverEvent H event now s.runs }
  | .recoverInterruptedRuns expiredOnly now =>
    some { s with runs := recoverInterruptedRuns s.runs expiredOnly now }
  | .record fid action =>
    (s.frames fid).bind fun f =>
      match f.pc with
      | .invoking actionId => if action.id = actionId then s.recordAction action else none
      | _ => none
  | .recordLate action => if action.id ∈ s.abandoned then s.recordAction action else none
  | .amend action => some { s with actions := s.actions.put action }
  | .recordOther action =>
    if action.id ∈ s.issued then none
    else { s with issued := action.id :: s.issued }.recordAction action
  | .crash => some { s with frames := fun _ => none, abandoned := [] }

end U2os.Server.Packages
