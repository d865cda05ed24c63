import Mathlib.Data.Int.Init
import U2os.Lib.Json
import U2os.Lib.Script
import U2os.Lib.Table

/-!
# The trigger engine

What fires triggers (`triggers/trigger-engine.js`).  A tick claims each due timer and schedule by a
lease and fires it, and then claims and runs each condition watch; a published event runs the
action of each event rule that it matches.  An action that throws is published as failed and
thrown again.

A tick begins with the table that `advanceGoalResearchSchedules` leaves.  What the agent answers
and what a check finds are parameters, given for the tick: no action changes what another trigger
meets, and none writes a trigger.  The heartbeat of a lease changes nothing that outlasts the work.
-/

namespace U2os.Server.Triggers

/-- The kind of a trigger. -/
inductive Kind where
  | timer
  | schedule
  | eventRule
  | conditionWatch
  deriving DecidableEq

def Kind.text : Kind → String
  | timer => "timer"
  | schedule => "schedule"
  | eventRule => "event_rule"
  | conditionWatch => "condition_watch"

/-- The action of a trigger. -/
structure Action where
  kind : String
  title : Option String := none
  body : Option String := none
  priority : Option String := none
  dueAt : Option String := none
  relatedEntityId : Option String := none

/-- The `when` clause of an event rule. -/
structure When where
  path : Option String := none
  equals : Option Json := none
  matches_ : Option String := none

/-- The configuration of a trigger. -/
structure Config where
  action : Option Action := none
  check : Option String := none
  leadMinutes : Option ℤ := none
  leadDays : Option ℤ := none
  eventType : Option String := none
  when_ : Option When := none
  /-- Where it is truthy. -/
  everyMinutes : Option Json := none
  dailyAt : Option String := none

/-- A row of `triggers`; times are in milliseconds. -/
structure Trigger where
  id : String
  name : String
  kind : Kind
  enabled : Bool
  config : Config
  lastFiredAt : Option ℤ
  nextCheckAt : Option ℤ
  leaseOwner : Option String
  leaseExpiresAt : Option ℤ
  updatedAt : ℤ

/-- An event, as a trigger meets it. -/
structure Event where
  type : String
  /-- The type and the id of the subject. -/
  subject : Option (String × String)
  data : List (String × Json)

/-- An event that the engine publishes: the actor is the trigger. -/
structure Published where
  trigger : String
  event : Event

/-- What the agent is asked to do. -/
inductive AgentCall where
  | goalRun
  /-- A proposal to a tool, through the policy. -/
  | execute (tool : String) (arguments : List (String × Json)) (requestText reasoningSummary : String)
  | evaluate

structure CalendarEvent where
  id : String
  status : String
  startAt : ℤ

/-- An open task: the text of its due date, and the time where it is one. -/
structure Task where
  id : String
  title : String
  dueAt : Option String
  dueTime : Option ℤ

/-- The next birthday of a person. -/
structure Birthday where
  personId : String
  year : ℤ
  value : String
  daysUntil : ℤ

/-- What is outside the engine. -/
structure Host where
  /-- The agent, asked by a trigger on an event. -/
  perform : Trigger → Event → AgentCall → Except String Json
  /-- The calendar provider: the events from a time to another. -/
  listEvents : ℤ → ℤ → Except String (List CalendarEvent)
  openTasks : List Task
  birthdays : ℤ → List Birthday
  /-- A time so many minutes later; a number that is none throws. -/
  plusMinutes : Json → ℤ → Except String ℤ
  /-- The next time of day after a time. -/
  nextDaily : String → ℤ → Except String ℤ
  getPath : Event → String → Option Json
  /-- `new RegExp(pattern, 'i').test(value)`, of a value of bounded length. -/
  regexTest : String → String → Except String Bool
  clock : ℤ

/-- A finding of a check: the object, and the event that is published. -/
structure Finding where
  objectId : String
  event : Event

/-- What is kept, with the calls of the agent and the claims that were made. -/
structure State where
  triggers : Table Trigger Trigger.id
  firedLog : List (String × String)
  events : List Published
  calls : List (String × AgentCall)
  claims : List String

/-- One tick: the time, and the leases it takes. -/
structure Tick where
  now : ℤ
  leaseOwner : String
  leaseMs : ℤ

namespace State

variable (s : State)

/-- `UPDATE triggers SET … WHERE id = ? AND …`. -/
def update (id : String) (p : Trigger → Bool) (f : Trigger → Trigger)
    (hf : ∀ t, (f t).id = t.id) : State :=
  { s with triggers := s.triggers.updateWhere (fun t => t.id = id ∧ p t = true) f hf }

def publish (e : Published) : State := { s with events := s.events ++ [e] }

def alreadyFired (triggerId objectId : String) : Bool :=
  s.firedLog.any fun e => e.1 = triggerId && e.2 = objectId

def markFiredObject (triggerId objectId : String) : State :=
  if s.alreadyFired triggerId objectId = true then s
  else { s with firedLog := s.firedLog ++ [(triggerId, objectId)] }

/-- The rows that satisfy a condition. -/
def select (p : Trigger → Bool) : List Trigger := s.triggers.rows.filter p

end State

def touchLastFired (host : Host) (id : String) : Script State Unit :=
  .modify fun s => s.update id (fun _ => true)
    (fun t => { t with lastFiredAt := some host.clock, updatedAt := host.clock }) fun _ => rfl

/-- `text || other`. -/
def orElse (text : Option String) (other : String) : String :=
  match text with
  | none | some "" => other
  | some s => s

/-- The entries that are defined. -/
def defined (entries : List (String × Option String)) : List (String × Json) :=
  entries.filterMap fun e => e.2.map fun s => (e.1, .str s)

/-- What an action asks of the agent. -/
def Action.call (action : Action) (trigger : Trigger) (event : Event) : AgentCall :=
  let requestText := "trigger:" ++ trigger.id
  let summary := "Trigger \"" ++ trigger.name ++ "\" (" ++ trigger.kind.text ++ ") matched " ++
    event.type ++ "."
  match action.kind with
  | "goal_run" => .goalRun
  | "notify" => .execute "notifications.send"
      ([("title", .str (orElse action.title ("Trigger: " ++ trigger.name))),
        ("body", .str (orElse action.body
          ("Trigger \"" ++ trigger.name ++ "\" fired on " ++ event.type ++ ".")))] ++
        defined [("priority", action.priority)]) requestText summary
  | "create_task" => .execute "tasks.create"
      ([("title", .str (orElse action.title ("Follow up: " ++ trigger.name)))] ++
        defined [("dueAt", action.dueAt)] ++
        [("relatedEntityId", Json.ofOptionStr ((action.relatedEntityId.filter (· ≠ "")) <|>
          ((event.subject.map Prod.snd).filter (· ≠ ""))))]) requestText summary
  | _ => .evaluate

/-- The action of a trigger; without one, an event is evaluated. -/
def Trigger.action (t : Trigger) : Action := t.config.action.getD { kind := "evaluate" }

/-- What is published about an action. -/
def actionEvent (type : String) (trigger : Trigger) (event : Event) (outcome : String × Json) :
    Published where
  trigger := trigger.id
  event :=
    { type := type
      subject := some ("trigger", trigger.id)
      data := [("trigger", .str trigger.name), ("triggerId", .str trigger.id),
        ("eventType", .str event.type), ("actionKind", .str trigger.action.kind), outcome] }

/-- `runAction`: a failed action is published and thrown again. -/
def runAction (host : Host) (trigger : Trigger) (event : Event) : Script State Unit := do
  let call := trigger.action.call trigger event
  .modify fun s => { s with calls := s.calls ++ [(trigger.id, call)] }
  match host.perform trigger event call with
  | .error message => do
    .modify fun s =>
      s.publish (actionEvent "agent.action.failed" trigger event ("error", .str message))
    .refuse
  | .ok result => do
    .modify fun s =>
      s.publish (actionEvent "agent.action.completed" trigger event ("result", result))
    touchLastFired host trigger.id

/-- The loop of every check: what has not fired is published, marked, and acted on. -/
def fireEach (host : Host) (trigger : Trigger) (findings : List Finding) : Script State Unit :=
  Script.forEach findings fun f => do
    let s ← Script.get
    if s.alreadyFired trigger.id f.objectId = true then .ret ()
    else do
      .modify fun s => s.publish ⟨trigger.id, f.event⟩
      .modify fun s => s.markFiredObject trigger.id f.objectId
      runAction host trigger f.event

/-- `Math.round` of milliseconds in minutes. -/
def roundMinutes (ms : ℤ) : ℤ := (ms + 30000) / 60000

def checkCalendarApproaching (host : Host) (trigger : Trigger) (now : ℤ) : Script State Unit :=
  let windowEnd := now + trigger.config.leadMinutes.getD 60 * 60000
  match host.listEvents now windowEnd with
  | .error _ => .refuse
  | .ok events => fireEach host trigger
      ((events.filter fun e => e.status ≠ "cancelled").map fun e =>
        { objectId := e.id
          event :=
            { type := "calendar.event_approaching"
              subject := some ("calendar_event", e.id)
              data := [("eventId", .str e.id),
                ("minutesUntil", .ofInt (roundMinutes (e.startAt - now)))] } })

/-- `checkTaskOverdue`: a due date that is no time counts as past. -/
def checkTaskOverdue (host : Host) (trigger : Trigger) (now : ℤ) : Script State Unit :=
  fireEach host trigger
    ((host.openTasks.filter fun t =>
        (t.dueAt.any fun text => text ≠ "") && t.dueTime.all fun time => time < now).map fun t =>
      { objectId := t.id
        event :=
          { type := "task.overdue"
            subject := some ("task", t.id)
            data := [("taskId", .str t.id), ("title", .str t.title),
              ("dueAt", Json.ofOptionStr t.dueAt)] } })

/-- `checkBirthdayApproaching`: the object has the year in it. -/
def checkBirthdayApproaching (host : Host) (trigger : Trigger) (now : ℤ) : Script State Unit :=
  fireEach host trigger
    (((host.birthdays now).filter fun b =>
        0 ≤ b.daysUntil && b.daysUntil ≤ trigger.config.leadDays.getD 7).map fun b =>
      { objectId := b.personId ++ ":" ++ toString b.year
        event :=
          { type := "contact.birthday_approaching"
            subject := some ("entity", b.personId)
            data := [("entityId", .str b.personId), ("birthday", .str b.value),
              ("daysUntil", .ofInt b.daysUntil)] } })

/-- `runConditionWatch`: an unknown check does nothing. -/
def runConditionWatch (host : Host) (trigger : Trigger) (now : ℤ) : Script State Unit :=
  match trigger.config.check with
  | some "calendar_approaching" => checkCalendarApproaching host trigger now
  | some "task_overdue" => checkTaskOverdue host trigger now
  | some "birthday_approaching" => checkBirthdayApproaching host trigger now
  | _ => .ret ()

def computeNextForSchedule (host : Host) (config : Config) (start : ℤ) : Except String ℤ :=
  match config.everyMinutes, config.dailyAt with
  | some minutes, _ => host.plusMinutes minutes start
  | none, some text => if text = "" then .ok (start + 60 * 60000) else host.nextDaily text start
  | none, none => .ok (start + 60 * 60000)

/-- A trigger whose lease is given up. -/
def Trigger.unleased (t : Trigger) : Trigger := { t with leaseOwner := none, leaseExpiresAt := none }

/-- The event of a timer or a schedule; it is not published. -/
def firedEvent (trigger : Trigger) : Event where
  type := "trigger.fired"
  subject := some ("trigger", trigger.id)
  data := [("triggerId", .str trigger.id), ("kind", .str trigger.kind.text)]

def fireTimerOrSchedule (host : Host) (tick : Tick) (trigger : Trigger) : Script State Unit := do
  runAction host trigger (firedEvent trigger)
  match trigger.kind with
  | .timer =>
    .modify fun s => s.update trigger.id (fun t => t.leaseOwner = some tick.leaseOwner)
      (fun t => { t.unleased with enabled := false, nextCheckAt := none, updatedAt := host.clock })
      fun _ => rfl
  | .schedule =>
    match computeNextForSchedule host trigger.config tick.now with
    | .error _ => .refuse
    | .ok next =>
      .modify fun s => s.update trigger.id (fun t => t.leaseOwner = some tick.leaseOwner)
        (fun t => { t.unleased with nextCheckAt := some next, updatedAt := host.clock })
        fun _ => rfl
  | .eventRule | .conditionWatch => .ret ()

def Trigger.isDue (t : Trigger) (now : ℤ) : Bool := t.nextCheckAt.any fun time => time ≤ now

/-- The trigger can be claimed: it is enabled, no lease is in force, and it is due if it has to be. -/
def Trigger.claimable (t : Trigger) (requireDue : Bool) (now : ℤ) : Bool :=
  t.enabled && (t.leaseOwner.isNone || t.leaseExpiresAt.all fun time => time ≤ now) &&
    (!requireDue || t.isDue now)

/-- The trigger with the lease of a tick. -/
def Trigger.leased (t : Trigger) (tick : Tick) : Trigger :=
  { t with
    leaseOwner := some tick.leaseOwner
    leaseExpiresAt := some (tick.now + tick.leaseMs)
    updatedAt := tick.now }

/-- The row that a claim takes. -/
def State.claimRow (s : State) (tick : Tick) (id : String) (requireDue : Bool) : Option Trigger :=
  (s.triggers.find id).filter fun t => t.claimable requireDue tick.now

/-- The conditional update of a claim. -/
def State.claim (s : State) (tick : Tick) (id : String) (requireDue : Bool) : State :=
  { s.update id (fun t => t.claimable requireDue tick.now) (fun t => t.leased tick) fun _ => rfl with
    claims := s.claims ++ ((s.claimRow tick id requireDue).map Trigger.id).toList }

/-- `claimTrigger`: one conditional update, and the row afterwards. -/
def claimTrigger (tick : Tick) (id : String) (requireDue : Bool) : Script State (Option Trigger) :=
  .act (fun s => s.claim tick id requireDue) fun s =>
    .ret ((s.claimRow tick id requireDue).map fun t => t.leased tick)

def releaseTriggerLease (tick : Tick) (id : String) : Script State Unit :=
  .modify fun s => s.update id (fun t => t.leaseOwner = some tick.leaseOwner) Trigger.unleased
    fun _ => rfl

/-- `withLeaseHeartbeat`: the lease is released on every end. -/
def withLeaseHeartbeat (tick : Tick) (id : String) (work : Script State Unit) : Script State Unit :=
  work.cleanup (releaseTriggerLease tick id)

/-- The step of a tick for a timer or a schedule. -/
def visitDue (host : Host) (tick : Tick) (id : String) : Script State Unit := do
  match ← claimTrigger tick id true with
  | none => .ret ()
  | some trigger =>
    withLeaseHeartbeat tick trigger.id (fireTimerOrSchedule host tick trigger)

/-- The step of a tick for a condition watch. -/
def visitWatch (host : Host) (tick : Tick) (id : String) : Script State Unit := do
  match ← claimTrigger tick id false with
  | none => .ret ()
  | some trigger =>
    withLeaseHeartbeat tick trigger.id (runConditionWatch host trigger tick.now)

/-- A row of the first query of a tick. -/
def Trigger.isDueRow (now : ℤ) (t : Trigger) : Bool :=
  t.enabled && (t.kind = .timer || t.kind = .schedule) && t.isDue now

/-- A row of the second query of a tick. -/
def Trigger.isWatchRow (t : Trigger) : Bool := t.enabled && t.kind = .conditionWatch

def runTick (host : Host) (tick : Tick) : Script State Unit := do
  let s ← Script.get
  Script.forEach ((s.select (Trigger.isDueRow tick.now)).map Trigger.id) (visitDue host tick)
  let s ← Script.get
  Script.forEach ((s.select Trigger.isWatchRow).map Trigger.id) (visitWatch host tick)

/-- `value === other`: two objects are never the same. -/
def strictEqual : Json → Json → Bool
  | .obj _, _ | _, .obj _ | .arr _, _ | _, .arr _ => false
  | a, b => a = b

/-- `matchesWhen`; it throws where the pattern is none. -/
def matchesWhen (host : Host) (when_ : Option When) (event : Event) : Except String Bool :=
  match when_ with
  | none => .ok true
  | some w =>
    let value := (w.path.filter (· ≠ "")).bind (host.getPath event)
    match w.equals, w.matches_ with
    | some other, _ => .ok (value.any fun v => strictEqual v other)
    | none, some pattern =>
      match value with
      | some (.str text) => host.regexTest pattern text
      | _ => .ok false
    | none, none => .ok false

/-- The event rule matches the event; a clause that throws is skipped. -/
def Trigger.matchesEvent (host : Host) (event : Event) (t : Trigger) : Bool :=
  t.config.eventType = some event.type &&
    match matchesWhen host t.config.when_ event with
    | .ok matched => matched
    | .error _ => false

/-- A row of the query for an event. -/
def Trigger.isRuleRow (t : Trigger) : Bool := t.kind = .eventRule && t.enabled

def handleEventDriven (host : Host) (event : Event) : Script State Unit := do
  let s ← Script.get
  Script.forEach ((s.select Trigger.isRuleRow).filter fun t => t.matchesEvent host event)
    fun t => runAction host t event

end U2os.Server.Triggers
