import U2os.Server.Packages.WorkflowRuns

/-!
# The automation runtime

`packages/automation-runtime.js` as a machine over the workflow engine: triggers start runs, and
passes of `drain` advance them.

What is decided in one synchronous stretch is one step: the firing of one automation with its
guards and the insertion of its run, the reading of a page of runnable runs and the call of
`advance` for the first of them.  Between two steps
the engine, the owner and other triggers may do anything, and the process may stop; after a slot
was fired it may also stop before the automation is rescheduled.  The clock does not run back
within a firing.

The registries do not change; the package of an automation may be enabled and disabled at any
time.
-/

namespace U2os.Server.Packages

/-- `type` of a trigger; `watch` triggers are refused. -/
inductive TriggerType where
  | schedule
  | event
  | manual
deriving DecidableEq

/-- A trigger of an automation. -/
structure Trigger where
  type : TriggerType
  cron : Option String := none
  every : Option Json := none
  event : String := ""
  where_ : Option String := none
  with_ : Option Json := none

/-- `concurrency` of an automation. -/
inductive Concurrency where
  | single
  | parallel
deriving DecidableEq

/-- The definition of an automation. -/
structure Automation where
  id : String
  packageId : String
  triggers : List Trigger
  concurrency : Concurrency := .single
  workflow : Workflow

/-- A published event with what `_processEvent` reads. -/
structure TriggerEvent extends Event where
  id : String
  source : Json := .null
  subject : Json := .null
  data : Json := .obj []
  /-- `metadata.automationInstanceId`. -/
  automationInstanceId : Option String := none

/-- The engine, the registry of automations and what the runtime calls. -/
structure Runtime where
  host : Host
  /-- `registries.automations.list()`. -/
  automations : List Automation
  maxRunsPerHour : ℕ := 60
  /-- `new Date(time).toISOString()`. -/
  toISOString : Int → String
  nextCronTime : String → Int → Option Int
  /-- `truthy(evaluate(conditionSource(text), { settings, event }))`; false where it throws. -/
  eventCondition : String → Json → TriggerEvent → Bool
  /-- `resolveTemplate(trigger.with, { trigger, event, settings }, { now })`. -/
  triggerInputs : Json → Json → Json → Int → Except String Json
  /-- `{ ...inputs, ...extraInputs }`. -/
  spread : Json → Json → Json
  /-- `_prepareInputs`. -/
  prepareInputs : Workflow → Json → Json

/-- `registries.automations.get`. -/
def Runtime.automation (R : Runtime) (id : String) : Option Automation :=
  R.automations.find? fun d => d.id = id

/-- The triggers of one type. -/
def Automation.triggersOf (d : Automation) (type : TriggerType) : List Trigger :=
  d.triggers.filter fun t => t.type = type

/-- `nextRun` of the schedule trigger; every trigger has passed `validate`. -/
def Runtime.nextRun (R : Runtime) (t : Trigger) (start : Int) : Option Int :=
  match t.cron with
  | some cron => R.nextCronTime cron start
  | none => (t.every.bind R.host.parseDuration).map fun ms => (start / ms + 1) * ms

/-- `matches` of the event trigger. -/
def Runtime.matchesEvent (R : Runtime) (t : Trigger) (e : TriggerEvent) (settings : Json) : Bool :=
  e.type = t.event && t.where_.all fun text => R.eventCondition text settings e

def scheduleGraceMs : Int := 3600000

/-- The rolling hour of the run limit. -/
def hourMs : Int := 3600000

/-- The columns of `automation_instances` the runtime owns. -/
structure Switches where
  enabled : Bool := false
  paused : Bool := false
  nextRunAt : Option Int := none
deriving DecidableEq

/-- A pass of `drain`. -/
structure Pass where
  /-- `guard`, after the page was read. -/
  guard : ℕ := 0
  /-- `runnable`, from the next run on. -/
  page : List WorkflowRun := []
  /-- The call of `advance` the pass awaits. -/
  awaiting : Option ℕ := none

/-- A call of `advance` by a pass. -/
structure DrainAdvance where
  runId : String
  /-- Whether the instance of the root run was paused at the call. -/
  paused : Bool
deriving DecidableEq

/-- The engine, the instances and the passes, with what was started and advanced so far. -/
structure RuntimeState where
  engine : State
  /-- By the ids of the instances. -/
  switches : String → Switches
  /-- `_stopped`. -/
  stopped : Bool := false
  /-- The passes in the order in which they began; none for one that is over. -/
  passes : List (Option Pass) := []
  /-- The automation runs that were created as pending, oldest first. -/
  started : List WorkflowRun := []
  /-- The calls of `advance` by passes, oldest first. -/
  advanced : List DrainAdvance := []

/-- What the environment decides for a firing. -/
structure Firing where
  /-- `this.clock()`. -/
  clock : Int
  /-- The time and the id `insertRun` draws. -/
  createdAt : Int
  id : String
  /-- `registries.packages.get(definition.packageId)`. -/
  record : Option PackageRecord

def Firing.packageEnabled (c : Firing) : Bool := c.record.any PackageRecord.enabled

def Firing.settings (c : Firing) : Json := c.record.elim (.obj []) PackageRecord.settings

def getInstanceByAutomation (instances : Instances) (automationId : String) : Option Instance :=
  instances.rows.find? fun x => x.automationId = automationId

namespace RuntimeState

variable (R : Runtime) (s : RuntimeState)

/-- The instance of an automation. -/
def instanceOf (automationId : String) : Option Instance :=
  getInstanceByAutomation s.engine.instances automationId

/-- `UPDATE automation_instances`. -/
def setSwitches (instanceId : String) (f : Switches → Switches) : RuntimeState :=
  { s with switches := Function.update s.switches instanceId (f (s.switches instanceId)) }

/-! ### Starting runs -/

/-- The row `createAutomationRun` inserts. -/
def newRun (d : Automation) (trigger : Json) (dedupeKey : Option String) (inputs : Json)
    (status : RunStatus) (error : Option String) : NewRun where
  kind := .automation
  definitionId := d.id
  packageId := d.packageId
  instanceId := (s.instanceOf d.id).map Instance.id
  trigger := trigger
  dedupeKey := dedupeKey
  status := status
  workflow := d.workflow
  inputs := R.prepareInputs d.workflow inputs
  error := error

/-- `createAutomationRun`: a duplicate leaves everything as it is. -/
def create (n : NewRun) (c : Firing) : RuntimeState :=
  match insertRun s.engine.runs n c.id c.createdAt with
  | none => s
  | some runs =>
    { s with
      engine := { s.engine with runs := runs }.updateInstance n.instanceId (n.patch c.id)
      started :=
        if n.status = .pending then s.started ++ [n.row c.id c.createdAt] else s.started }

/-- `SELECT COUNT(*) … WHERE automation_instance_id = ? AND parent_run_id IS NULL AND created_at > ?
AND status NOT IN ('skipped','throttled')`. -/
def recent (instanceId : String) (clock : Int) : ℕ :=
  (s.engine.runs.rows.filter fun (r : WorkflowRun) =>
    r.instanceId = some instanceId && r.parentRunId.isNone && clock - hourMs < r.createdAt &&
      !r.status.isRefused).length

/-- `listRuns({ instanceId, status: ACTIVE_RUN_STATUSES, limit: 1 })`. -/
def newestActive (instanceId : String) : List WorkflowRun :=
  ((s.engine.runs.rows.filter fun (r : WorkflowRun) =>
    r.instanceId = some instanceId && r.status.isActive).insertionSort WorkflowRun.newer).take 1

/-- The inputs of a firing: `with` of the trigger, and the extra inputs over it. -/
def firingInputs (trigger : Option Trigger) (data extra : Json) (c : Firing) :
    Except String Json :=
  match trigger.bind Trigger.with_ with
  | none => .ok extra
  | some template =>
    (R.triggerInputs template data c.settings c.clock).map fun inputs => R.spread inputs extra

def fire (d : Automation) (inst : Instance) (trigger : Option Trigger) (data : Json)
    (dedupeKey : Option String) (extra : Json) (c : Firing) : RuntimeState :=
  match firingInputs R trigger data extra c with
  | .error e =>
    s.create (s.newRun R d data dedupeKey (.obj []) .failed (some ("trigger inputs: " ++ e))) c
  | .ok inputs =>
    if R.maxRunsPerHour ≤ s.recent inst.id c.clock then
      s.create (s.newRun R d data dedupeKey inputs .throttled (some "hourly_run_limit")) c
    else if d.concurrency ≠ .parallel ∧ (s.newestActive inst.id).any fun r => r.parentRunId.isNone
    then
      s.create (s.newRun R d data dedupeKey inputs .skipped (some "already_running")) c
    else s.create (s.newRun R d data dedupeKey inputs .pending none) c

/-- The instance of an automation that may react to its triggers. -/
def ready (d : Automation) (c : Firing) : Option Instance :=
  (s.instanceOf d.id).filter fun inst =>
    (s.switches inst.id).enabled && !(s.switches inst.id).paused && c.packageEnabled

def reschedule (d : Automation) (start : Int) : RuntimeState :=
  match s.instanceOf d.id with
  | none => s
  | some inst =>
    s.setSwitches inst.id fun x =>
      { x with nextRunAt := ((d.triggersOf .schedule).filterMap fun t => R.nextRun t start).min? }

def slotKey (automationId slot : String) : String := "schedule:" ++ automationId ++ ":" ++ slot

/-- `trigger` of a run for a slot that was missed. -/
def missedTrigger (slot : String) : Json :=
  .obj [("type", .str "schedule"), ("slot", .str slot), ("missed", .bool true)]

/-- `trigger` of a run for a slot. -/
def slotTrigger (slot : String) (t : Option Trigger) : Json :=
  .obj [("type", .str "schedule"), ("slot", .str slot),
    ("cron", .ofOptionStr (t.bind Trigger.cron)), ("every", (t.bind Trigger.every).getD .null)]

/-- `fireDueSchedules` for a slot that is due, up to `_reschedule`. -/
def fireSlot (d : Automation) (inst : Instance) (due now : Int) (c : Firing) : RuntimeState :=
  let slot := R.toISOString due
  let schedules := d.triggersOf .schedule
  -- the schedule whose next time from just before the slot is the slot
  let trigger := (schedules.find? fun t =>
    (R.nextRun t (due - 60000)).map R.toISOString = some slot) <|> schedules.head?
  if scheduleGraceMs < now - due then
    s.create (s.newRun R d (missedTrigger slot) (some (slotKey d.id slot)) (.obj []) .skipped
      (some "missed_schedule")) c
  else s.fire R d inst trigger (slotTrigger slot trigger) (some (slotKey d.id slot)) (.obj []) c

/-- The passes and frames of a process that stops. -/
def crash : RuntimeState :=
  { s with
    engine := { s.engine with frames := fun _ => none, abandoned := [] }
    stopped := false
    passes := [] }

/-- `fireDueSchedules` for one automation.  The process may stop before `_reschedule`. -/
def fireDue (d : Automation) (now : Int) (c : Firing) (crashes : Bool) : RuntimeState :=
  if d.triggersOf .schedule = [] then s
  else
    match s.ready d c with
    | none => s
    | some inst =>
      match (s.switches inst.id).nextRunAt with
      | none => s.reschedule R d now
      | some due =>
        if now < due then s
        else if crashes then (s.fireSlot R d inst due now c).crash
        else (s.fireSlot R d inst due now c).reschedule R d now

def eventKey (automationId eventId : String) : String :=
  "event:" ++ automationId ++ ":" ++ eventId

/-- `trigger` of a run for an event. -/
def eventTrigger (e : TriggerEvent) : Json :=
  .obj [("type", .str "event"), ("event", .obj [("id", .str e.id), ("type", .str e.type),
    ("source", e.source), ("subject", e.subject), ("data", e.data)])]

/-- `_processEvent` for one automation. -/
def processEvent (d : Automation) (e : TriggerEvent) (c : Firing) : RuntimeState :=
  match s.ready d c with
  | none => s
  | some inst =>
    -- an automation never reacts to events of its own runs
    if e.automationInstanceId = some inst.id then s
    else
      match (d.triggersOf .event).find? fun t => R.matchesEvent t e c.settings with
      | none => s
      | some t =>
        s.fire R d inst (some t) (eventTrigger e) (some (eventKey d.id e.id)) (.obj []) c

/-- `trigger` of a run the owner asks for. -/
def manualTrigger (requestedAt : String) : Json :=
  .obj [("type", .str "manual"), ("requestedAt", .str requestedAt)]

/-- `runNow` up to `drain`. -/
def runNow (d : Automation) (inputs : Json) (c : Firing) : RuntimeState :=
  match s.instanceOf d.id with
  | none => s
  | some inst =>
    if (s.switches inst.id).paused || !c.packageEnabled then s
    else
      s.fire R d inst (d.triggers.find? fun t => t.type = .manual)
        (manualTrigger (R.toISOString c.clock)) none inputs c

/-- The run `runSkill` inserts. -/
def skillRun (skill : Skill) (packageId : Option String) (inputs : Json) (errors : List String) :
    NewRun where
  kind := .skill
  definitionId := skill.id
  packageId := packageId.getD skill.packageId
  trigger := .obj [("type", .str "manual")]
  status := if errors = [] then .pending else .failed
  workflow := skill.workflow
  inputs := inputs
  error := if errors = [] then none
    else some ("Invalid input for skill " ++ skill.id ++ ": " ++ joinErrors errors)

/-- `runSkill` up to `advance`. -/
def runSkill (skill : Skill) (packageId : Option String) (input : Json) (id : String) (now : Int) :
    RuntimeState :=
  let inputs := R.host.prepareSkillInput skill input
  let n := skillRun skill packageId inputs (R.host.skillInputErrors skill inputs)
  { s with engine := { s.engine with
      runs := (insertRun s.engine.runs n id now).getD s.engine.runs } }

/-- `SELECT paused FROM automation_instances WHERE id = ?`. -/
def instancePaused (instanceId : String) : Bool :=
  (s.engine.instances.find instanceId).any fun _ => (s.switches instanceId).paused

/-- `_mayExecute`: a run with no instance of its own is never held back. -/
def mayExecute (run : WorkflowRun) : Bool :=
  match run.instanceId with
  | none => true
  | some _ =>
    let root := if run.rootRunId ≠ run.id then s.engine.runs.find run.rootRunId else some run
    !((root.bind WorkflowRun.instanceId).any s.instancePaused)

/-- The instance the root of a run belongs to. -/
def rootInstance (run : WorkflowRun) : Option String :=
  (s.engine.runs.find run.rootRunId).bind WorkflowRun.instanceId

/-- Whether the automation of the root of a run is paused. -/
def rootPaused (run : WorkflowRun) : Bool := (s.rootInstance run).any s.instancePaused

end RuntimeState

/-- `ORDER BY created_at, id`. -/
def WorkflowRun.older (r r' : WorkflowRun) : Prop :=
  r.createdAt < r'.createdAt ∨ r.createdAt = r'.createdAt ∧ ¬r'.id < r.id

instance : DecidableRel WorkflowRun.older := fun _ _ => inferInstanceAs (Decidable (_ ∨ _))

/-- `SELECT * FROM workflow_runs WHERE status = 'pending' ORDER BY created_at, id`. -/
def pendingRuns (runs : Runs) : List WorkflowRun :=
  (runs.rows.filter fun (r : WorkflowRun) => r.status = .pending).insertionSort WorkflowRun.older

def listRunnableRuns (runs : Runs) (limit : ℕ) : List WorkflowRun :=
  (pendingRuns runs).take limit

/-- The size of a page of a pass. -/
def pageSize : ℕ := 25

/-- The bound on `guard`. -/
def maxPages : ℕ := 100

namespace RuntimeState

variable (R : Runtime) (s : RuntimeState)

/-- The runs of the next page that may execute. -/
def runnable : List WorkflowRun := (listRunnableRuns s.engine.runs pageSize).filter s.mayExecute

/-- The call of `advance` that a pass awaits has returned. -/
def returned (pass : Pass) : Bool := pass.awaiting.all fun fid => (s.engine.frames fid).isNone

/-- The pass `p` goes on as `x`, or returns. -/
def setPass (p : ℕ) (x : Option Pass) : RuntimeState :=
  { s with passes := s.passes.set p x }

/-- `await this.engine.advance(run.id)`, for the run `run` of a page. -/
def advance (p fid : ℕ) (owner : String) (now : Int) (guard : ℕ) (run : WorkflowRun)
    (rest : List WorkflowRun) : Option RuntimeState :=
  (step? R.host s.engine (.advance fid run.id owner now)).map fun engine =>
    { s.setPass p (some { guard := guard, page := rest, awaiting := some fid }) with
      engine := engine
      advanced := s.advanced ++ [⟨run.id, s.rootPaused run⟩] }

/-- The top of the loop of `_drainPass`: the next page up to its first call, or the return. -/
def turnPage (p fid : ℕ) (owner : String) (now : Int) (pass : Pass) : Option RuntimeState :=
  if maxPages ≤ pass.guard ∨ s.stopped then some (s.setPass p none)
  else
    match s.runnable with
    | [] => some (s.setPass p none)
    | run :: rest => s.advance R p fid owner now (pass.guard + 1) run rest

/-- The next run of the page. -/
def advanceNext (p fid : ℕ) (owner : String) (now : Int) (pass : Pass) : Option RuntimeState :=
  match pass.page with
  | [] => none
  | run :: rest =>
    if s.stopped then some (s.setPass p none)
    else s.advance R p fid owner now pass.guard run rest

end RuntimeState

/-- What happens next, with everything the environment decides. -/
inductive RuntimeLabel where
  /-- The engine goes on, or is called by others. -/
  | engine (a : Act)
  | runSkill (skill : Skill) (packageId : Option String) (input : Json) (id : String) (now : Int)
  /-- `fireDueSchedules`, for one automation. -/
  | fireDue (automationId : String) (now : Int) (c : Firing) (crashes : Bool)
  /-- `_processEvent`, for one automation. -/
  | processEvent (automationId : String) (e : TriggerEvent) (c : Firing)
  | runNow (automationId : String) (inputs : Json) (c : Firing)
  /-- `enable`, after its checks. -/
  | enable (automationId : String) (now : Int)
  | disable (automationId : String)
  | pause (automationId : String)
  | resume (automationId : String)
  | stop
  | start
  /-- A pass begins. -/
  | begin
  /-- A pass is at the top of its loop. -/
  | turnPage (p fid : ℕ) (owner : String) (now : Int)
  /-- A pass goes on with the next run of its page. -/
  | advanceNext (p fid : ℕ) (owner : String) (now : Int)
  | crash

/-- The acts of the engine that are not steps of the runtime. -/
def Act.isOwn : Act → Bool
  | .create .. | .crash => false
  | _ => true

/-- The switches of the instance of an automation are set. -/
def RuntimeState.switch (s : RuntimeState) (automationId : String) (f : Switches → Switches) :
    RuntimeState :=
  (s.instanceOf automationId).elim s fun inst => s.setSwitches inst.id f

/-- A firing of an automation of the registry. -/
def RuntimeState.firing (R : Runtime) (s : RuntimeState) (automationId : String)
    (c : Firing) (f : Automation → RuntimeState) : Option RuntimeState :=
  if c.clock ≤ c.createdAt then some ((R.automation automationId).elim s f) else none

/-- A step of the machine. -/
def performRuntime (R : Runtime) (s : RuntimeState) : RuntimeLabel → Option RuntimeState
  | .engine a =>
    if a.isOwn then (step? R.host s.engine a).map fun engine => { s with engine := engine }
    else none
  | .runSkill skill packageId input id now => some (s.runSkill R skill packageId input id now)
  | .fireDue id now c crashes => s.firing R id c fun d => s.fireDue R d now c crashes
  | .processEvent id e c => s.firing R id c fun d => s.processEvent R d e c
  | .runNow id inputs c => s.firing R id c fun d => s.runNow R d inputs c
  | .enable id now =>
    some ((R.automation id).elim s fun d =>
      (s.switch id fun x => { x with enabled := true, paused := false }).reschedule R d now)
  | .disable id => some (s.switch id fun x => { x with enabled := false, nextRunAt := none })
  | .pause id => some (s.switch id fun x => { x with paused := true })
  | .resume id => some (s.switch id fun x => { x with paused := false })
  | .stop => some { s with stopped := true }
  | .start => some { s with stopped := false }
  | .begin => some { s with passes := s.passes ++ [some {}] }
  | .turnPage p fid owner now =>
    s.passes[p]?.join.bind fun pass =>
      if pass.page = [] ∧ s.returned pass then s.turnPage R p fid owner now pass else none
  | .advanceNext p fid owner now =>
    s.passes[p]?.join.bind fun pass =>
      if s.returned pass then s.advanceNext R p fid owner now pass else none
  | .crash => some s.crash

/-- The runtime of a home whose automations are installed and have not run yet. -/
def runtimeMachine (R : Runtime) (instances : Instances) : Machine RuntimeState RuntimeLabel :=
  .ofPerform
    { engine := { State.empty with instances := instances }, switches := fun _ => {} }
    (performRuntime R)

/-- A skill that sends a letter, which the owner has to approve. -/
def letterSkill : Skill where
  id := "home.letter"
  packageId := "home"
  workflow := .steps [{ id := "send", use := .capability "email.send" (.obj []) }] none

/-- An automation that calls the skill every hour, and when mail arrives. -/
def homeAutomation : Automation where
  id := "home.digest"
  packageId := "home"
  triggers :=
    [{ type := .schedule, every := some (.str "1h") }, { type := .event, event := "mail.received" }]
  workflow := .steps [{ id := "letter", use := .skill "home.letter" (.obj []) }] none

/-- The host of the home: templates without expressions, and no schemas. -/
def homeHost : Host where
  leaseMs := 60000
  contract id := if id = "email.send" then some ⟨id, .write⟩ else none
  skill id := if id = "home.letter" then some letterSkill else none
  resolveTemplate template _ _ := .ok template
  condition _ _ _ := .ok true
  eventMatches _ _ _ _ := false
  evaluatePackagePolicy _ _ _ _ _ := .ok .null
  prepareSkillInput _ input := input
  skillInputErrors _ _ := []
  skillOutputErrors _ _ := []
  outputErrors _ _ := []
  stateErrors _ _ := []
  mergeState _ state := state
  emitProblem _ _ := none
  parseDuration
    | .str "1h" => some 3600000
    | _ => none
  parseDate _ := none

/-- The home, in the first hours of its clock. -/
def homeRuntime : Runtime where
  host := homeHost
  automations := [homeAutomation]
  toISOString t := "1970-01-01T0" ++ toString (t / 3600000) ++ ":00:00.000Z"
  nextCronTime _ _ := none
  eventCondition _ _ _ := true
  triggerInputs template _ _ _ := .ok template
  spread inputs _ := inputs
  prepareInputs _ inputs := inputs

def homeInstances : Instances := ⟨[{ id := "ain_1", automationId := "home.digest" }], by decide⟩

/-- A firing at one moment. -/
def homeFiring (time : Int) (id : String) : Firing := ⟨time, time, id, some {}⟩

end U2os.Server.Packages
