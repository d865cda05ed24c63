import U2os.Lib.Table
import U2os.Lib.Tx
import U2os.Majordomo.Actions.Classify
import U2os.Majordomo.Actions.State
import U2os.Majordomo.Events.Log

/-!
# The operational store

The tables of `majordomo.sqlite` (the migrations of `store.rs`) and what every transaction on
them uses: fresh ids and the append of an event.
-/

namespace U2os.Majordomo

/-- Errors of the action store. -/
inductive ActionError where
  | notFound (id : String)
  | illegal (id : String) (source : IllegalTransition)
  | leaseNotHeld (id : String)
  | attemptNotExecuting (id : String)
  | reviewRequired (id : String) (message : String)
  | approvalRequired (id : String)
  | invalid (message : String)
  | store (e : StoreError)
  | event (e : EventError)
  deriving DecidableEq, Repr

/-- A row of `actions`. -/
structure Action where
  id : String
  idempotencyKey : String
  tool : String
  arguments : Json
  argumentsSha256 : String
  consequential : Bool
  correlationId : Option String
  actor : Option Json
  status : Status
  attemptCount : ℕ
  nextAttemptAtMs : Int
  leaseOwner : Option String
  leaseExpiresAtMs : Option Int
  lastError : Option String
  errorClass : Option ErrorClass
  approvedBy : Option String
  approvedAtMs : Option Int
  lastEventId : Option String
  createdAtMs : Int
  updatedAtMs : Int

inductive AttemptStatus where
  | executing
  | completed
  | failed
  | uncertain
  deriving DecidableEq, Repr

/-- A row of `action_attempts`. -/
structure Attempt where
  id : String
  actionId : String
  attemptNumber : ℕ
  leaseOwner : String
  status : AttemptStatus
  startedAtMs : Int
  finishedAtMs : Option Int := none
  error : Option String := none
  errorClass : Option ErrorClass := none
  deriving DecidableEq, Repr

/-- The status of a claimed slot. -/
inductive RunStatus where
  | started
  | enqueued
  | throttled
  deriving DecidableEq, Repr

/-- A row of `scheduler_runs`. -/
structure SchedulerRun where
  id : String
  routine : String
  slot : String
  triggerKind : String
  eventId : Option String
  status : RunStatus
  actionId : Option String := none
  reason : Option String := none
  createdAtMs : Int
  updatedAtMs : Int
  deriving DecidableEq, Repr

/-- The database. -/
structure Db where
  events : EventLog
  actions : Table Action Action.id
  attempts : Table Attempt Attempt.id
  runs : Table SchedulerRun SchedulerRun.id
  /-- Owner and expiry of the one row of `scheduler_lease`. -/
  tickLease : Option (String × Int)

/-- The database after the migrations. -/
def Db.empty : Db := ⟨.empty, .empty, .empty, .empty, none⟩

/-- A random word of eight bytes. -/
abbrev Word := Fin 18446744073709551616

/-- The words with the given values. -/
def words (values : List ℕ) : List Word :=
  values.map fun n => ⟨n % 18446744073709551616, Nat.mod_lt _ (by decide)⟩

/-- A connection: the database and the random words the operating system will return.  When
they are used up, reading one fails. -/
structure Session where
  db : Db
  random : List Word

/-- The sixteen hexadecimal digits of a word. -/
def Word.hex (w : Word) : String :=
  String.ofList ((List.range 16).map fun i => Json.hexDigit (w.val >>> (4 * (15 - i)) % 16))

/-- A random identifier such as `act_3f9a…`. -/
def newId (start : String) : Tx Session StoreError String := do
  let s ← get
  match s.random with
  | [] => throw (.io "read random bytes")
  | w :: ws =>
    set { s with random := ws }
    pure (start ++ "_" ++ w.hex)

variable {s s' : Session}

theorem newId_ok {start id : String} (h : (newId start).Ok s id s') :
    s'.db = s.db ∧ id ≠ "" := by
  simp only [newId, Tx.ok_bind, Tx.ok_get] at h
  obtain ⟨_, _, ⟨rfl, rfl⟩, h⟩ := h
  split at h
  · simp at h
  · simp only [Tx.ok_bind, Tx.ok_set, Tx.ok_pure] at h
    obtain ⟨_, _, rfl, rfl, rfl⟩ := h
    refine ⟨rfl, fun he => ?_⟩
    have hlen := congrArg String.length he
    simp only [String.length_append, String.length_empty] at hlen
    exact absurd hlen (by simp)

def insertEvent (e : Event) : Tx Session EventError Event := do
  let s ← get
  match s.db.events.insert? e with
  | none => throw (.store (.sqlite "UNIQUE constraint failed: events.id"))
  | some log =>
    set { s with db := { s.db with events := log } }
    pure { e with seq := s.db.events.maxSeq + 1 }

/-- Append inside the caller's transaction. -/
def append (e : NewEvent) (tsMs : Int) : Tx Session EventError Event := do
  let _ ← Tx.ofExcept (validate e)
  let id ← (newId "evt").mapError .store
  insertEvent { e with seq := 0, id := id, tsMs := tsMs }

theorem insertEvent_ok {e ev : Event} (h : (insertEvent e).Ok s ev s') :
    ev.toNewEvent = e.toNewEvent ∧ ev.tsMs = e.tsMs ∧ ∃ log : EventLog,
      log.events = s.db.events.events ++ [ev] ∧ s'.db = { s.db with events := log } := by
  simp only [insertEvent, Tx.ok_bind, Tx.ok_get] at h
  obtain ⟨_, _, ⟨rfl, rfl⟩, h⟩ := h
  split at h
  · simp at h
  · next log hlog =>
    simp only [Tx.ok_bind, Tx.ok_set, Tx.ok_pure] at h
    obtain ⟨_, _, rfl, rfl, rfl⟩ := h
    exact ⟨rfl, rfl, log, (EventLog.insert?_eq_some.1 hlog).2, rfl⟩

theorem append_ok {e : NewEvent} {tsMs : Int} {ev : Event}
    (h : (append e tsMs).Ok s ev s') : ev.toNewEvent = e ∧ ev.tsMs = tsMs ∧ ∃ log : EventLog,
      log.events = s.db.events.events ++ [ev] ∧ s'.db = { s.db with events := log } := by
  simp only [append, Tx.ok_bind, Tx.ok_ofExcept, Tx.ok_mapError] at h
  obtain ⟨_, _, ⟨-, rfl⟩, id, t, hid, h⟩ := h
  have ht := (newId_ok hid).1
  simpa [ht] using insertEvent_ok h

/-- `char::chars().take(n)`. -/
def takeChars (n : ℕ) (s : String) : String := String.ofList (s.toList.take n)

end U2os.Majordomo
