import U2os.Majordomo.Actions.Machine

/-!
# The scheduler

Routines are fired in two steps (`scheduler/mod.rs`): a claim inserts the row of a
`(routine, slot)` pair, and an enqueue submits the action of the claim and marks the row.  What
a crash leaves between the two is repaired by `recover`, which enqueues every row that is still
`started`.

Any number of threads, each working for some scheduler instance, call the entry points over one
database.  A claim, a submission, the marking of a row, the reading of the started rows and the
taking of the tick lease are one step each, and a thread may stop between any two of them.
Other users of the action store (workers, owners, other clients) take steps in between.  The
evaluation of triggers (`due_slot`, `event_matches`) is a parameter of an instance, and live
delivery after a claim is left to the bus.
-/

namespace U2os.Majordomo.Scheduler

def maxRunsPerHour : ℕ := 30

def hourMs : Int := 3600000

def throttleReason : String := "hourly_routine_limit"

def routineTool : String := "routine.run"

def maxField : ℕ := 120

inductive SchedulerError where
  | invalid (message : String)
  | unknownRoutine (routine : String)
  | store (e : StoreError)
  | event (e : EventError)
  | action (e : ActionError)
  deriving DecidableEq, Repr

/-- A body over a connection with the errors of the scheduler. -/
abbrev SchedulerTx (α : Type) := Tx Session SchedulerError α

/-- `check_field` of the scheduler. -/
def checkField (what v : String) : Except SchedulerError Unit :=
  if Printable maxField v then .ok ()
  else .error (.invalid (what ++ " must be 1 to 120 printable characters"))

/-- The idempotency key of the action a `(routine, slot)` produces. -/
def actionKey (routine slot : String) : String := "routine:" ++ routine ++ ":" ++ slot

/-- What is to be claimed. -/
structure Request where
  routine : String
  slot : String
  triggerKind : String
  eventId : Option String := none
  deriving DecidableEq, Repr

/-- A claimed slot. -/
structure Claim where
  runId : String
  routine : String
  slot : String
  triggerKind : String
  eventId : Option String
  throttled : Bool
  deriving DecidableEq, Repr

/-- What a fire ended with. -/
structure FireOutcome where
  runId : String
  routine : String
  slot : String
  /-- `enqueued` or `throttled`. -/
  status : RunStatus
  actionId : Option String
  deriving DecidableEq, Repr

/-- The row a claim inserts. -/
def startedRow (q : Request) (runId : String) (now : Int) : SchedulerRun where
  id := runId
  routine := q.routine
  slot := q.slot
  triggerKind := q.triggerKind
  eventId := q.eventId
  status := .started
  createdAtMs := now
  updatedAtMs := now

/-- The table `scheduler_runs`. -/
abbrev Runs := Table SchedulerRun SchedulerRun.id

/-- The row is about the pair. -/
def isFor (routine slot : String) (x : SchedulerRun) : Bool :=
  x.routine = routine && x.slot = slot

/-- `INSERT OR IGNORE`: nothing happens when the id or the pair is taken. -/
def insertOrIgnore (runs : Runs) (row : SchedulerRun) : Option Runs :=
  if runs.rows.any (isFor row.routine row.slot) then none else runs.insert? row

/-- The runs of the last hour that count for the cap. -/
def recentRuns (runs : Runs) (runId : String) (now : Int) : ℕ :=
  runs.count fun x => now - hourMs < x.createdAtMs ∧ x.status ≠ .throttled ∧ x.id ≠ runId

/-- The column values of a throttled claim. -/
def throttleRow (now : Int) (x : SchedulerRun) : SchedulerRun :=
  { x with status := .throttled, reason := some throttleReason, updatedAtMs := now }

theorem throttleRow_id (now : Int) (x : SchedulerRun) : (throttleRow now x).id = x.id := rfl

/-- The event `routine.failed` of a throttled claim. -/
def failedEvent (q : Request) (runId : String) : NewEvent where
  eventType := "routine.failed"
  source := "routine"
  actor := some ⟨"routine", q.routine⟩
  data := .obj [("routine", .str q.routine), ("routineRunId", .str runId),
    ("reason", .str throttleReason)]
  correlationId := some runId

/-- The event `routine.fired` of a claim. -/
def firedEvent (q : Request) (runId : String) : NewEvent where
  eventType := "routine.fired"
  source := "routine"
  actor := some ⟨"routine", q.routine⟩
  data := .obj [("routine", .str q.routine), ("routineRunId", .str runId),
    ("trigger", .str q.triggerKind), ("slot", .str q.slot), ("eventId", Json.ofOptionStr q.eventId)]
  correlationId := some runId

/-- Manual runs are never throttled. -/
def isThrottled (q : Request) (runs : Runs) (runId : String) (now : Int) : Bool :=
  q.triggerKind ≠ "manual" && maxRunsPerHour ≤ recentRuns runs runId now

/-- The transaction of a claim under the id `runId`. -/
def insertClaim (q : Request) (runId : String) (now : Int) : SchedulerTx (Option Claim) := do
  let s ← get
  match insertOrIgnore s.db.runs (startedRow q runId now) with
  | none => pure none
  | some runs =>
    let throttled := isThrottled q runs runId now
    let stored := if throttled then
      runs.updateWhere (fun x => x.id = runId) (throttleRow now) (throttleRow_id now) else runs
    set { s with db := { s.db with runs := stored } }
    let _ ← (append (if throttled then failedEvent q runId else firedEvent q runId) now).mapError
      .event
    pure (some ⟨runId, q.routine, q.slot, q.triggerKind, q.eventId, throttled⟩)

/-- `claim`: nothing is returned when the slot was claimed before, by anyone. -/
def claim (q : Request) (now : Int) : SchedulerTx (Option Claim) := do
  Tx.ofExcept (checkField "routine" q.routine)
  Tx.ofExcept (checkField "slot" q.slot)
  let runId ← (newId "srun").mapError .store
  insertClaim q runId now

/-- The row of a claim, as it is stored. -/
def claimedRow (q : Request) (runId : String) (now : Int) (throttled : Bool) : SchedulerRun :=
  if throttled then throttleRow now (startedRow q runId now) else startedRow q runId now

theorem insertOrIgnore_eq_some {runs runs' : Runs} {row : SchedulerRun}
    (h : insertOrIgnore runs row = some runs') :
    (∀ y ∈ runs, ¬(y.routine = row.routine ∧ y.slot = row.slot)) ∧ (∀ y ∈ runs, y.id ≠ row.id) ∧
      runs'.rows = runs.rows ++ [row] := by
  unfold insertOrIgnore at h
  split_ifs at h with hpair
  obtain ⟨hid, hrows⟩ := Table.insert?_eq_some.1 h
  refine ⟨fun y hy hq => hpair (List.any_eq_true.2 ⟨y, hy, ?_⟩), hid, hrows⟩
  simp only [isFor, hq, decide_true, Bool.and_self]

/-- A claim adds one row, throttled or not. -/
theorem throttled_rows {runs runs' : Runs} {q : Request} {runId : String} {now : Int}
    (hid : ∀ y ∈ runs, y.id ≠ runId) (hrows : runs'.rows = runs.rows ++ [startedRow q runId now])
    (throttled : Bool) :
    (if throttled then
      runs'.updateWhere (fun x => x.id = runId) (throttleRow now) (throttleRow_id now)
      else runs').rows = runs.rows ++ [claimedRow q runId now throttled] := by
  cases throttled with
  | false => exact hrows
  | true =>
    show runs'.rows.map (fun x => if x.id = runId then throttleRow now x else x) = _
    rw [hrows, List.map_append]
    have hold : runs.rows.map (fun x => if x.id = runId then throttleRow now x else x) =
        runs.rows := by
      conv_rhs => rw [← List.map_id runs.rows]
      exact List.map_congr_left fun x hx => if_neg (hid x hx)
    rw [hold, List.map_singleton, if_pos (show (startedRow q runId now).id = runId from rfl)]
    rfl

/-- **A claim changes nothing, or adds one row, for a pair that had none, and one event.** -/
theorem claim_spec {q : Request} {now : Int} {r : Option Claim} {s s' : Session}
    (h : (claim q now).Ok s r s') : (r = none ∧ s'.db = s.db) ∨
      ∃ (runId : String) (throttled : Bool) (runs : Runs) (ev : Event) (log : EventLog),
        r = some ⟨runId, q.routine, q.slot, q.triggerKind, q.eventId, throttled⟩ ∧
        (throttled = true ↔
          q.triggerKind ≠ "manual" ∧ maxRunsPerHour ≤ recentRuns s.db.runs runId now) ∧
        (∀ y ∈ s.db.runs, ¬(y.routine = q.routine ∧ y.slot = q.slot)) ∧
        (∀ y ∈ s.db.runs, y.id ≠ runId) ∧
        runs.rows = s.db.runs.rows ++ [claimedRow q runId now throttled] ∧
        ev.toNewEvent = (if throttled then failedEvent q runId else firedEvent q runId) ∧
        ev.tsMs = now ∧ log.events = s.db.events.events ++ [ev] ∧
        s'.db = { s.db with events := log, runs := runs } := by
  simp only [claim, Tx.ok_bind, Tx.ok_ofExcept, Tx.ok_mapError] at h
  obtain ⟨_, s₁, ⟨-, h₁⟩, _, s₂, ⟨-, h₂⟩, runId, t, hid, h⟩ := h
  have ht : t.db = s.db := by rw [(newId_ok hid).1, h₂, h₁]
  simp only [insertClaim, Tx.ok_bind, Tx.ok_get] at h
  obtain ⟨_, _, ⟨rfl, rfl⟩, h⟩ := h
  split at h
  · obtain ⟨rfl, rfl⟩ := Tx.ok_pure.1 h
    exact .inl ⟨rfl, ht⟩
  · next runs hins =>
    simp only [Tx.ok_bind, Tx.ok_set, Tx.ok_pure, Tx.ok_mapError] at h
    obtain ⟨_, _, rfl, ev, u, hev, rfl, rfl⟩ := h
    obtain ⟨he, hts, log, hl, hu⟩ := append_ok hev
    rw [ht] at hins
    obtain ⟨hpair, hfresh, hrows⟩ := insertOrIgnore_eq_some hins
    have hrecent : recentRuns runs runId now = recentRuns s.db.runs runId now := by
      unfold recentRuns Table.count
      rw [hrows, List.filter_append, List.filter_cons_of_neg, List.filter_nil, List.append_nil]
      simp [startedRow]
    refine .inr ⟨runId, isThrottled q runs runId now, _, ev, log, rfl, ?_, hpair, hfresh,
      throttled_rows hfresh hrows _, he, hts, ?_, ?_⟩
    · unfold isThrottled
      rw [hrecent, Bool.and_eq_true, decide_eq_true_eq, decide_eq_true_eq]
    · rw [hl, ← ht]
    · rw [hu, ← ht]
      rfl

/-- The action of a claim.  Only identifiers: event content is never copied. -/
def Claim.action (c : Claim) : NewAction where
  tool := routineTool
  arguments := .obj [("routine", .str c.routine), ("slot", .str c.slot),
    ("trigger", .str c.triggerKind), ("eventId", Json.ofOptionStr c.eventId)]
  idempotencyKey := some (actionKey c.routine c.slot)
  correlationId := some c.runId

/-- The column values of an enqueued run. -/
def enqueueRow (actionId : String) (now : Int) (x : SchedulerRun) : SchedulerRun :=
  { x with status := .enqueued, actionId := some actionId, updatedAtMs := now }

theorem enqueueRow_id (actionId : String) (now : Int) (x : SchedulerRun) :
    (enqueueRow actionId now x).id = x.id := rfl

/-- `UPDATE scheduler_runs SET status = 'enqueued' … WHERE id = ?1 AND status = 'started'`. -/
def markEnqueued (runs : Runs) (runId actionId : String) (now : Int) : Runs :=
  runs.updateWhere (fun x => x.id = runId ∧ x.status = .started) (enqueueRow actionId now)
    (enqueueRow_id actionId now)

theorem mem_markEnqueued {runs : Runs} {runId actionId : String} {now : Int} {x : SchedulerRun} :
    x ∈ markEnqueued runs runId actionId now ↔ ∃ y ∈ runs,
      x = if y.id = runId ∧ y.status = .started then enqueueRow actionId now y else y :=
  Table.mem_updateWhere

/-- The outcome of an enqueue: a throttled claim gets no action. -/
def Claim.outcome (c : Claim) (actionId : Option String) : FireOutcome :=
  ⟨c.runId, c.routine, c.slot, if c.throttled then .throttled else .enqueued, actionId⟩

/-- The claims that `recover` reads, oldest first. -/
def startedClaims (runs : Runs) : List Claim :=
  ((runs.rows.filter fun x => x.status = .started).insertionSort fun x y =>
      x.createdAtMs ≤ y.createdAtMs).map
    fun x => ⟨x.id, x.routine, x.slot, x.triggerKind, x.eventId, false⟩

/-- A routine; its trigger is behind the two functions of its instance. -/
structure Routine where
  path : String
  triggerKind : String
  enabled : Bool
  deriving DecidableEq, Repr

/-- A scheduler instance. -/
structure Instance where
  owner : String
  leaseMs : Int
  routines : List Routine
  /-- `due_slot` of a routine's trigger. -/
  dueSlot : Routine → Int → Option String
  /-- `event_matches` of a routine's trigger. -/
  eventMatches : Routine → Json → Bool

/-- `acquire_lease`: an unexpired lease of another owner is respected. -/
def acquireLease (sc : Instance) (now : Int) : SchedulerTx Bool := do
  let s ← get
  if s.db.tickLease.any fun l => l.1 ≠ sc.owner && now < l.2 then pure false
  else
    set { s with db := { s.db with tickLease := some (sc.owner, now + sc.leaseMs) } }
    pure true

def releaseLease (sc : Instance) (db : Db) : Db :=
  if db.tickLease.any fun l => l.1 = sc.owner then { db with tickLease := none } else db

/-- The requests of a tick: the slot that is due now for each enabled routine. -/
def Instance.due (sc : Instance) (now : Int) : List Request :=
  (sc.routines.filter Routine.enabled).filterMap fun r =>
    (sc.dueSlot r now).map fun slot => ⟨r.path, slot, r.triggerKind, none⟩

/-- The requests of an event, none for an event of the routines themselves. -/
def Instance.matching (sc : Instance) (eventId : String) (event : Json) : List Request :=
  match event.get? "type" with
  | some (.str type) =>
    if "routine.".toList.isPrefixOf type.toList then []
    else (sc.routines.filter fun r => r.enabled && sc.eventMatches r event).map fun r =>
      ⟨r.path, "event:" ++ eventId, "event", some eventId⟩
  | _ => []

/-- What a thread is in the middle of. -/
inductive Task where
  | idle
  /-- About to claim, and to return the claim. -/
  | claiming (q : Request)
  /-- About to claim the first of the requests of a tick, an event or a fire. -/
  | firing (q : Request) (rest : List Request)
  /-- About to read the started runs. -/
  | recovering (fires : List Request)
  /-- In `enqueue`, about to submit the action. -/
  | enqueueing (c : Claim) (pending : List Claim) (fires : List Request)
  /-- In `enqueue`, about to mark the run. -/
  | marking (c : Claim) (actionId : String) (pending : List Claim) (fires : List Request)

/-- The claims still to be repaired come first, then the requests. -/
def Task.next : List Claim → List Request → Task
  | c :: pending, fires => .enqueueing c pending fires
  | [], q :: rest => .firing q rest
  | [], [] => .idle

/-- What a step does. -/
inductive Label where
  /-- A call was accepted, or the lease or the started runs were read or written. -/
  | quiet (t : ℕ)
  | claimed (t : ℕ) (q : Request) (c : Option Claim)
  | submitted (t : ℕ) (c : Claim) (actionId : String)
  /-- An enqueue of the claim ended. -/
  | enqueued (t : ℕ) (c : Claim) (o : FireOutcome)
  | failed (t : ℕ) (e : SchedulerError)
  /-- The thread stopped. -/
  | crash (t : ℕ)
  /-- Another user of the action store. -/
  | external (c : Call)

/-- The next step of a thread. -/
def Task.step (sha256 : String → String) (t : ℕ) (now : Int) (s : Session) :
    Task → Option (Label × Task × Session)
  | .idle => none
  | .claiming q =>
    match (claim q now).atomically s with
    | (.ok c, s') => some (.claimed t q c, .idle, s')
    | (.error e, s') => some (.failed t e, .idle, s')
  | .firing q rest =>
    match (claim q now).atomically s with
    | (.ok none, s') => some (.claimed t q none, Task.next [] rest, s')
    | (.ok (some c), s') => some (.claimed t q (some c), .enqueueing c [] rest, s')
    | (.error e, s') => some (.failed t e, .idle, s')
  | .recovering fires => some (.quiet t, Task.next (startedClaims s.db.runs) fires, s)
  | .enqueueing c pending fires =>
    if c.throttled then some (.enqueued t c (c.outcome none), Task.next pending fires, s)
    else match (submit sha256 c.action now).atomically s with
    | (.ok r, s') =>
      some (.submitted t c r.action.id, .marking c r.action.id pending fires, s')
    | (.error e, s') => some (.failed t (.action e), .idle, s')
  | .marking c actionId pending fires =>
    some (.enqueued t c (c.outcome (some actionId)), Task.next pending fires,
      { s with db := { s.db with runs := markEnqueued s.db.runs c.runId actionId now } })

/-- The entry points. -/
inductive Entry where
  /-- A tick; the slots are those due at the second reading of the clock. -/
  | tick (dueNow : Int)
  | recover
  | onEvent (eventId : String) (event : Json)
  | runNow (routine : String)
  | fire (q : Request)
  | claim (q : Request)
  | enqueue (c : Claim)
  | releaseLease

/-- The first step of a call.  Only a claim that some call returned can be enqueued. -/
def Entry.start (sc : Instance) (returned : List Claim) (t : ℕ) (now : Int) (s : Session) :
    Entry → Option (Label × Task × Session)
  | .tick dueNow =>
    match (acquireLease sc now).atomically s with
    | (.ok true, s') => some (.quiet t, .recovering (sc.due dueNow), s')
    | (.ok false, s') => some (.quiet t, .idle, s')
    | (.error e, s') => some (.failed t e, .idle, s')
  | .recover => some (.quiet t, .recovering [], s)
  | .onEvent eventId event => some (.quiet t, Task.next [] (sc.matching eventId event), s)
  | .runNow routine =>
    if sc.routines.any fun r => r.path = routine then
      match (newId "slot").atomically s with
      | (.ok id, s') => some (.quiet t, .firing ⟨routine, "manual:" ++ id, "manual", none⟩ [], s')
      | (.error e, s') => some (.failed t (.store e), .idle, s')
    else some (.failed t (.unknownRoutine routine), .idle, s)
  | .fire q => some (.quiet t, .firing q [], s)
  | .claim q => some (.quiet t, .claiming q, s)
  | .enqueue c => if c ∈ returned then some (.quiet t, .enqueueing c [] [], s) else none
  | .releaseLease => some (.quiet t, .idle, { s with db := Scheduler.releaseLease sc s.db })

/-- The database, the threads and the claims returned so far. -/
structure Sched where
  db : Db
  task : ℕ → Task
  returned : List Claim

/-- The claim a step returned. -/
def Label.claim : Label → Option Claim
  | .claimed _ _ c => c
  | _ => none

/-- A thread goes on with a task. -/
def Sched.goto (s : Sched) (t : ℕ) (r : Label × Task × Session) : Label × Sched :=
  (r.1, ⟨r.2.2.db, Function.update s.task t r.2.1, r.1.claim.toList ++ s.returned⟩)

/-- A choice of the environment. -/
inductive Input where
  | start (t : ℕ) (e : Entry) (now : Int) (random : List Word)
  | proceed (t : ℕ) (now : Int) (random : List Word)
  | crash (t : ℕ)
  | external (op : Op) (now : Int) (random : List Word)

/-- The step an input makes; thread `t` works for the instance `sc t`. -/
def step? (sha256 : String → String) (sc : ℕ → Instance) (s : Sched) :
    Input → Option (Label × Sched)
  | .start t e now random =>
    match s.task t with
    | .idle => (e.start (sc t) s.returned t now ⟨s.db, random⟩).map (s.goto t)
    | _ => none
  | .proceed t now random => ((s.task t).step sha256 t now ⟨s.db, random⟩).map (s.goto t)
  | .crash t => some (s.goto t (.crash t, .idle, ⟨s.db, []⟩))
  | .external op now random =>
    let r := op.exec sha256 now ⟨s.db, random⟩
    some (.external ⟨op, now, random, r.1⟩, { s with db := r.2.db })

/-- The scheduler instances over one database. -/
def scheduler (sha256 : String → String) (sc : ℕ → Instance) : Machine Sched Label where
  init := ⟨Db.empty, fun _ => .idle, []⟩
  step s l t := ∃ i, step? sha256 sc s i = some (l, t)

/-- The labels and the last state of a list of inputs. -/
def drive (sha256 : String → String) (sc : ℕ → Instance) (s : Sched) :
    List Input → Option (List Label × Sched)
  | [] => some ([], s)
  | i :: is => do
    let r ← step? sha256 sc s i
    let tail ← drive sha256 sc r.2 is
    pure (r.1 :: tail.1, tail.2)

theorem steps_drive {sha256 : String → String} {sc : ℕ → Instance} {s t : Sched}
    {inputs : List Input} {h : List Label} (hd : drive sha256 sc s inputs = some (h, t)) :
    (scheduler sha256 sc).Steps s h t := by
  induction inputs generalizing s h with
  | nil =>
    cases hd
    exact Machine.Steps.nil
  | cons i is ih =>
    simp only [drive, Option.bind_eq_bind, Option.bind_eq_some_iff] at hd
    obtain ⟨⟨l, u⟩, hi, ⟨k, v⟩, htail, heq⟩ := hd
    cases heq
    exact Machine.Steps.cons ⟨i, hi⟩ (ih htail)

end U2os.Majordomo.Scheduler
