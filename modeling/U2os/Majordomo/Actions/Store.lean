import Mathlib.Data.List.Sort
import U2os.Majordomo.Store

/-!
# The action store

The operations of `actions/store.rs`.  Each of them is the body of one immediate transaction:
`ActionStore.write` commits a body that succeeds and rolls back one that fails.  The checks the
source makes before it opens the transaction are the first steps of the body.
-/

namespace U2os.Majordomo

def maxArgumentBytes : ℕ := 256 * 1024

def maxErrorChars : ℕ := 1000

def maxNameChars : ℕ := 256

def eventSource : String := "action-queue"

def eventType : String := "action.transition"

/-- A body over a connection with the errors of the action store. -/
abbrev ActionTx (α : Type) := Tx Session ActionError α

/-- A request for an action. -/
structure NewAction where
  actionId : Option String := none
  tool : String
  arguments : Json
  idempotencyKey : Option String := none
  consequential : Bool := false
  correlationId : Option String := none
  actor : Option Json := none

/-- The stored action and whether this request created it. -/
structure Submission where
  action : Action
  created : Bool

/-- What a recovery did. -/
structure RecoveryReport where
  requeued : List String := []
  uncertain : List String := []
  deriving DecidableEq, Repr

/-- What the owner found out about an uncertain action. -/
inductive Resolution where
  | confirmedDone
  | confirmedNotDone
  deriving DecidableEq, Repr

/-- How a leased action is ended without an attempt. -/
inductive StopStatus where
  | failed
  | cancelled
  | deadLetter
  deriving DecidableEq, Repr

/-- `idempotency_key`: tool, correlation id or action id, action id. -/
def idempotencyKey (tool : String) (correlationId : Option String) (actionId : String) :
    Except ActionError String :=
  if tool = "" ∨ actionId = "" then
    .error (.invalid "tool and action id are required for an idempotency key")
  else
    let middle := (correlationId.filter (· ≠ "")).getD actionId
    .ok (tool ++ ":" ++ middle ++ ":" ++ actionId)

def boundedError (error : String) : String := takeChars maxErrorChars error

/-- `arguments_sha256`, over the digest of the text. -/
def argumentsSha256 (sha256 : String → String) (arguments : Json) : String :=
  sha256 arguments.render

def checkName (what value : String) : Except ActionError Unit :=
  if Printable maxNameChars value then .ok ()
  else .error (.invalid (what ++ " must be 1 to 256 printable characters"))

theorem checkName_eq_ok {what value : String} {u : Unit} :
    checkName what value = .ok u ↔ Printable maxNameChars value := by
  unfold checkName
  split_ifs with h
  · exact iff_of_true rfl h
  · exact iff_of_false (by simp) h

/-- The nesting up to which `serde_json` reads a text. -/
def maxJsonDepth : ℕ := 127

/-- `corrupt`: the error of a stored text that is not read back. -/
def corrupt (column : String) : StoreError :=
  .sqlite ("Invalid column type Text at index: " ++ column ++ ", name: stored value")

/-- `row_to_action`: the texts of the arguments and of the actor are read back. -/
def rowToAction (a : Action) : Except StoreError Action :=
  if maxJsonDepth < a.arguments.depth then .error (corrupt "3")
  else if a.actor.any (maxJsonDepth < ·.depth) then .error (corrupt "7")
  else .ok a

/-- A row is read back where its values are not nested too deeply. -/
theorem rowToAction_eq_ok {a b : Action} :
    rowToAction a = .ok b ↔ (a.arguments.depth ≤ maxJsonDepth ∧
      ∀ v ∈ a.actor, v.depth ≤ maxJsonDepth) ∧ b = a := by
  unfold rowToAction
  split_ifs with h₁ h₂
  · exact iff_of_false nofun fun h => absurd h.1.1 (not_le.2 h₁)
  · obtain ⟨v, hv, hd⟩ := (Option.any_eq_true _ _).1 h₂
    exact iff_of_false nofun fun h => absurd (h.1.2 v hv) (not_le.2 (of_decide_eq_true hd))
  · refine ⟨fun h => ⟨⟨not_lt.1 h₁, fun v hv => not_lt.1 fun hd => h₂ ?_⟩, ?_⟩, fun h => ?_⟩
    · exact (Option.any_eq_true _ _).2 ⟨v, hv, decide_eq_true hd⟩
    · cases h
      rfl
    · rw [h.2]

def load (id : String) : ActionTx Action := do
  let s ← get
  let a ← Tx.ofOption (s.db.actions.find id) (.notFound id)
  (Tx.ofExcept (rowToAction a)).mapError .store

def loadAttempt (id : String) : ActionTx Attempt := do
  let s ← get
  Tx.ofOption (s.db.attempts.find id) (.notFound id)

/-- The insertion of an action: the id and the idempotency key are unique. -/
def insertAction (a : Action) : ActionTx Unit := do
  let s ← get
  Tx.ensure (∀ x ∈ s.db.actions.rows, x.idempotencyKey ≠ a.idempotencyKey)
    (.store (.sqlite "UNIQUE constraint failed: actions.idempotency_key"))
  let actions ← Tx.ofOption (s.db.actions.insert? a)
    (.store (.sqlite "UNIQUE constraint failed: actions.id"))
  set { s with db := { s.db with actions := actions } }

/-- The insertion of an attempt: the id and the number within the action are unique. -/
def insertAttempt (a : Attempt) : ActionTx Unit := do
  let s ← get
  Tx.ensure (∀ x ∈ s.db.attempts.rows, ¬(x.actionId = a.actionId ∧
      x.attemptNumber = a.attemptNumber))
    (.store (.sqlite ("UNIQUE constraint failed: action_attempts.action_id, " ++
      "action_attempts.attempt_number")))
  let attempts ← Tx.ofOption (s.db.attempts.insert? a)
    (.store (.sqlite "UNIQUE constraint failed: action_attempts.id"))
  set { s with db := { s.db with attempts := attempts } }

/-- `UPDATE action_attempts … WHERE p`. -/
def updateAttempts (p : Attempt → Prop) [DecidablePred p] (f : Attempt → Attempt)
    (hf : ∀ r, (f r).id = r.id) : ActionTx Unit :=
  modify fun s => { s with db := { s.db with attempts := s.db.attempts.updateWhere p f hf } }

/-- The columns `persist` writes, taken from `a`. -/
def writeColumns (a r : Action) : Action :=
  { r with
    status := a.status
    attemptCount := a.attemptCount
    nextAttemptAtMs := a.nextAttemptAtMs
    leaseOwner := a.leaseOwner
    leaseExpiresAtMs := a.leaseExpiresAtMs
    lastError := a.lastError
    errorClass := a.errorClass
    approvedBy := a.approvedBy
    approvedAtMs := a.approvedAtMs
    lastEventId := a.lastEventId
    updatedAtMs := a.updatedAtMs }

theorem writeColumns_id (a r : Action) : (writeColumns a r).id = r.id := rfl

/-- `persist`: write the row back if its status is still `expected`. -/
def persist (a : Action) (expected : Status) : ActionTx Unit := do
  let s ← get
  set { s with db := { s.db with
    actions := s.db.actions.updateWhere (fun r => r.id = a.id ∧ r.status = expected)
      (writeColumns a) (writeColumns_id a) } }
  Tx.ensure (s.db.actions.count (fun r => r.id = a.id ∧ r.status = expected) = 1)
    (.invalid ("action " ++ a.id ++ " changed concurrently"))

/-- The payload of a transition event. -/
def transitionData (a : Action) (from_ : Option Status) (trigger : String)
    (extra : List (String × Json)) : Json :=
  .obj (Json.extend
    [("from", Json.ofOptionStr (from_.map Status.asStr)),
     ("to", .str a.status.asStr),
     ("trigger", .str trigger),
     ("attemptCount", Json.ofInt a.attemptCount),
     ("errorClass", Json.ofOptionStr (a.errorClass.map ErrorClass.asStr))]
    extra)

def transitionEvent (a : Action) (from_ : Option Status) (trigger : String)
    (extra : List (String × Json)) : NewEvent :=
  { eventType := eventType
    source := eventSource
    subject := some ⟨"action", a.id⟩
    data := transitionData a from_ trigger extra
    correlationId := a.correlationId
    causationId := a.lastEventId }

/-- `record_event`: append the event and remember its id in the row. -/
def recordEvent (a : Action) (from_ : Option Status) (trigger : String)
    (extra : List (String × Json)) (now : Int) : ActionTx Action := do
  let ev ← (append (transitionEvent a from_ trigger extra) now).mapError .event
  pure { a with lastEventId := some ev.id }

/-- `transition`: check the table, let `mutate` set the new field values (it may refuse),
append the event, write the row. -/
def transition (id : String) (trigger : Trigger) (now : Int) (extra : List (String × Json))
    (mutate : Action → Except ActionError Action) : ActionTx Action := do
  let a ← load id
  let to_ ← Tx.ofExcept ((next a.status trigger).mapError (.illegal id))
  let a₁ ← Tx.ofExcept (mutate a)
  let a₂ ← recordEvent { a₁ with status := to_, updatedAtMs := now } (some a.status)
    trigger.asStr extra now
  persist a₂ a.status
  pure a₂

def clearLease (a : Action) : Action := { a with leaseOwner := none, leaseExpiresAtMs := none }

def requireOwner (a : Action) (owner : String) : Except ActionError Unit :=
  if a.leaseOwner = some owner then .ok () else .error (.leaseNotHeld a.id)

/-! ### Submitting and the owner's commands -/

/-- The idempotency key of a request. -/
def submitKey (new : NewAction) : Except ActionError String :=
  match new.idempotencyKey, new.actionId with
  | some k, _ => do
    checkName "idempotency key" k
    pure k
  | none, some id => idempotencyKey new.tool new.correlationId id
  | none, none => .error (.invalid "an idempotency key or an action id is required")

/-- `SELECT … WHERE idempotency_key = ?1 OR id = ?2`.  The transaction that inserted the row has
read it back. -/
def existing (db : Db) (key id : String) : Option Action :=
  db.actions.rows.find? (fun r => r.idempotencyKey = key) <|>
    db.actions.rows.find? (fun r => r.id = id)

/-- The id of a new action. -/
def submitId : Option String → ActionTx String
  | some id => pure id
  | none => (newId "act").mapError .store

/-- The row a request inserts. -/
def newRow (sha256 : String → String) (new : NewAction) (id key : String) (now : Int) : Action :=
  { id := id
    idempotencyKey := key
    tool := new.tool
    arguments := new.arguments
    argumentsSha256 := argumentsSha256 sha256 new.arguments
    consequential := new.consequential
    correlationId := new.correlationId
    actor := new.actor
    status := if new.consequential then .awaitingApproval else .queued
    attemptCount := 0
    nextAttemptAtMs := now
    leaseOwner := none
    leaseExpiresAtMs := none
    lastError := none
    errorClass := none
    approvedBy := none
    approvedAtMs := none
    lastEventId := none
    createdAtMs := now
    updatedAtMs := now }

/-- The insertion of `submit`, once no row has the key or the id. -/
def create (sha256 : String → String) (new : NewAction) (key : String) (now : Int) :
    ActionTx Submission := do
  let id ← submitId new.actionId
  insertAction (newRow sha256 new id key now)
  let action ← load id
  let recorded ← recordEvent action none "submit"
    [("tool", .str action.tool), ("consequential", .bool action.consequential)] now
  persist recorded action.status
  pure ⟨recorded, true⟩

/-- `submit`: persist an action exactly once. -/
def submit (sha256 : String → String) (new : NewAction) (now : Int) : ActionTx Submission := do
  Tx.ofExcept (checkName "tool" new.tool)
  Tx.ensure (new.arguments.render.utf8ByteSize ≤ maxArgumentBytes)
    (.invalid ("arguments are " ++ toString new.arguments.render.utf8ByteSize ++
      " bytes, over the 262144-byte limit"))
  Tx.ofExcept (new.actionId.elim (.ok ()) (checkName "action id"))
  let key ← Tx.ofExcept (submitKey new)
  let s ← get
  match existing s.db key (new.actionId.getD "") with
  | some action => pure ⟨action, false⟩
  | none => create sha256 new key now

def approve (id by_ : String) (now : Int) : ActionTx Action := do
  Tx.ofExcept (checkName "approver" by_)
  transition id .approve now [("by", .str by_)] fun a =>
    .ok { a with approvedBy := some by_, approvedAtMs := some now, nextAttemptAtMs := now }

def reject (id by_ : String) (now : Int) : ActionTx Action := do
  Tx.ofExcept (checkName "rejecter" by_)
  transition id .reject now [("by", .str by_)] fun a =>
    .ok { a with
      lastError := some "Rejected by owner", errorClass := some .ownerAttentionRequired }

def cancel (id : String) (now : Int) : ActionTx Action :=
  transition id .cancel now [] fun a =>
    .ok { a with lastError := some "Cancelled before attempt", errorClass := some .nonRetryable }

/-- `requeue`: put a failed or cancelled action back in the queue. -/
def requeue (id : String) (now : Int) : ActionTx Action := do
  let current ← load id
  Tx.ensure (current.errorClass ≠ some .recoveryReviewRequired)
    (.reviewRequired id "restored action requires a fresh proposal")
  Tx.ensure (current.errorClass ≠ some .outcomeUncertain)
    (.reviewRequired id "delivery outcome is uncertain; resolve it instead")
  transition id .requeue now [] fun a =>
    if a.consequential ∧ a.approvedAtMs = none then .error (.approvalRequired a.id)
    else .ok (clearLease
      { a with nextAttemptAtMs := now, lastError := none, errorClass := none })

/-- The trigger and the label of a resolution. -/
def Resolution.trigger : Resolution → Trigger × String
  | confirmedDone => (.resolveDone, "confirmed_done")
  | confirmedNotDone => (.resolveNotDone, "confirmed_not_done")

/-- `resolve_uncertain`: the owner says what happened. -/
def resolveUncertain (id : String) (resolution : Resolution) (by_ : String) (now : Int) :
    ActionTx Action := do
  Tx.ofExcept (checkName "resolver" by_)
  transition id resolution.trigger.1 now
    [("resolution", .str resolution.trigger.2), ("by", .str by_)] fun a =>
      .ok { a with
        lastError := none
        errorClass := none
        nextAttemptAtMs := if resolution = .confirmedNotDone then now else a.nextAttemptAtMs }

/-! ### Leases -/

/-- The new field values of an expired lease. -/
def expireRow (now : Int) (a : Action) : Action :=
  if a.status = .executing then
    clearLease { a with
      lastError := some "lease expired during execution; the outcome is unknown"
      errorClass := some .outcomeUncertain }
  else clearLease { a with nextAttemptAtMs := now }

/-- An attempt closed by an expired lease. -/
def closeUncertain (now : Int) (t : Attempt) : Attempt :=
  { t with
    status := .uncertain
    finishedAtMs := some now
    error := some "lease expired during execution"
    errorClass := some .outcomeUncertain }

theorem closeUncertain_id (now : Int) (t : Attempt) : (closeUncertain now t).id = t.id := rfl

/-- One expired lease: whether the action was executing. -/
def expireLease (now : Int) (id : String) : ActionTx Bool := do
  let a ← transition id .expireLease now [] fun a => .ok (expireRow now a)
  if a.status = .outcomeUncertain then
    updateAttempts (fun t => t.actionId = id ∧ t.status = .executing) (closeUncertain now)
      (closeUncertain_id now)
    pure true
  else pure false

/-- The loop of `recover`. -/
def recoverLoop (now : Int) : List String → RecoveryReport → ActionTx RecoveryReport
  | [], report => pure report
  | id :: ids, report => do
    let wasExecuting ← expireLease now id
    recoverLoop now ids
      (if wasExecuting then { report with uncertain := report.uncertain ++ [id] }
       else { report with requeued := report.requeued ++ [id] })

/-- `ORDER BY created_at_ms, id`. -/
def createdBefore (a b : Action) : Bool :=
  a.createdAtMs < b.createdAtMs || (a.createdAtMs = b.createdAtMs && !(b.id < a.id))

/-- The actions whose lease has run out. -/
def expired (db : Db) (now : Int) : List Action :=
  (db.actions.rows.filter fun a =>
    a.status.Held ∧ a.leaseExpiresAtMs.any (· ≤ now)).insertionSort (createdBefore · ·)

/-- `recover`: handle every expired lease. -/
def recover (now : Int) : ActionTx RecoveryReport := do
  let s ← get
  recoverLoop now ((expired s.db now).map Action.id) {}

/-- `ORDER BY next_attempt_at_ms, created_at_ms, id`. -/
def dueBefore (a b : Action) : Bool :=
  a.nextAttemptAtMs < b.nextAttemptAtMs ||
    (a.nextAttemptAtMs = b.nextAttemptAtMs && createdBefore a b)

/-- The actions a lease query picks from, the first due first. -/
def due (db : Db) (id : Option String) (now : Int) : List Action :=
  (db.actions.rows.filter fun a =>
    a.status.Waiting ∧ a.nextAttemptAtMs ≤ now ∧
      (a.consequential = false ∨ a.approvedAtMs ≠ none) ∧
      id.all (a.id = ·)).insertionSort (dueBefore · ·)

/-- The second transaction of `lease`. -/
def leaseBody (id : Option String) (owner : String) (leaseMs now : Int) :
    ActionTx (Option Action) := do
  let s ← get
  match (due s.db id now).head? with
  | none => pure none
  | some candidate =>
    let a ← transition candidate.id .lease now [("leaseOwner", .str owner)] fun a =>
      .ok { a with leaseOwner := some owner, leaseExpiresAtMs := some (satAdd now leaseMs) }
    pure (some a)

/-- The checks of `lease` and its first transaction. -/
def leaseRecover (owner : String) (leaseMs now : Int) : ActionTx RecoveryReport := do
  Tx.ofExcept (checkName "lease owner" owner)
  Tx.ensure (0 < leaseMs) (.invalid "lease_ms must be positive")
  recover now

/-- `lease`: expired leases are recovered first, in a transaction of their own. -/
def lease (id : Option String) (owner : String) (leaseMs now : Int) (s : Session) :
    Except ActionError (Option Action) × Session :=
  match (leaseRecover owner leaseMs now).atomically s with
  | (.error e, s') => (.error e, s')
  | (.ok _, s') => (leaseBody id owner leaseMs now).atomically s'

/-- The new field values of a prolonged lease. -/
def renewRow (leaseMs now : Int) (a : Action) : Action :=
  { a with leaseExpiresAtMs := some (satAdd now leaseMs), updatedAtMs := now }

theorem renewRow_id (leaseMs now : Int) (a : Action) : (renewRow leaseMs now a).id = a.id := rfl

/-- `renew_lease`: extend a live lease.  Not a state change, so no event. -/
def renewLease (id owner : String) (leaseMs now : Int) : ActionTx Bool := do
  Tx.ensure (0 < leaseMs) (.invalid "lease_ms must be positive")
  let s ← get
  set { s with db := { s.db with
    actions := s.db.actions.updateWhere
      (fun a => a.id = id ∧ a.status.Held ∧ a.leaseOwner = some owner ∧
        a.leaseExpiresAtMs.any (now < ·))
      (renewRow leaseMs now) (renewRow_id leaseMs now) } }
  pure (s.db.actions.count (fun a => a.id = id ∧ a.status.Held ∧ a.leaseOwner = some owner ∧
    a.leaseExpiresAtMs.any (now < ·)) = 1)

/-! ### Attempts -/

def u32Max : ℕ := 4294967295

/-- The new field values of a beginning attempt.  The increment is checked: an overflow
unwinds through the transaction. -/
def beginRow (owner : String) (now : Int) (a : Action) : Except ActionError Action := do
  requireOwner a owner
  if a.leaseExpiresAtMs.all (· ≤ now) then .error (.leaseNotHeld a.id)
  else if u32Max ≤ a.attemptCount then .error (.invalid "attempt to add with overflow")
  else .ok { a with attemptCount := a.attemptCount + 1 }

/-- `begin_attempt`: after this commits the action is executing. -/
def beginAttempt (id owner : String) (now : Int) : ActionTx Attempt := do
  let action ← transition id .beginAttempt now [] (beginRow owner now)
  let attemptId ← (newId "att").mapError .store
  insertAttempt
    { id := attemptId, actionId := id, attemptNumber := action.attemptCount, leaseOwner := owner,
      status := .executing, startedAtMs := now }
  loadAttempt attemptId

/-- How an attempt is settled. -/
structure Settlement where
  trigger : Trigger
  attemptStatus : AttemptStatus
  failure : Option (String × ErrorClass)
  /-- The time of the next attempt; zero leaves it as it is. -/
  nextAttempt : Int

/-- The error a settlement stores. -/
def Settlement.message (c : Settlement) : Option String := c.failure.map fun f => boundedError f.1

/-- The error class a settlement stores. -/
def Settlement.class_ (c : Settlement) : Option ErrorClass := c.failure.map Prod.snd

/-- The new field values of a settled action. -/
def settleRow (owner : String) (c : Settlement) (a : Action) : Except ActionError Action := do
  requireOwner a owner
  .ok (clearLease { a with
    lastError := c.message
    errorClass := c.class_
    nextAttemptAtMs := if 0 < c.nextAttempt then c.nextAttempt else a.nextAttemptAtMs })

/-- An attempt closed by its owner. -/
def closeAttempt (now : Int) (c : Settlement) (t : Attempt) : Attempt :=
  { t with
    status := c.attemptStatus
    finishedAtMs := some now
    error := c.message
    errorClass := c.class_ }

theorem closeAttempt_id (now : Int) (c : Settlement) (t : Attempt) :
    (closeAttempt now c t).id = t.id := rfl

def settle (attemptId owner : String) (now : Int) (choose : Attempt → Settlement) :
    ActionTx Action := do
  let attempt ← loadAttempt attemptId
  Tx.ensure (attempt.status = .executing ∧ attempt.leaseOwner = owner)
    (.attemptNotExecuting attemptId)
  let action ← transition attempt.actionId (choose attempt).trigger now []
    (settleRow owner (choose attempt))
  updateAttempts (fun t => t.id = attemptId ∧ t.status = .executing)
    (closeAttempt now (choose attempt)) (closeAttempt_id now (choose attempt))
  pure action

def completeAttempt (attemptId owner : String) (now : Int) : ActionTx Action :=
  settle attemptId owner now fun _ => ⟨.complete, .completed, none, 0⟩

/-- How a failed attempt is settled. -/
def failSettlement (error : String) (class_ : ErrorClass) (policy : RetryPolicy) (now : Int)
    (attempt : Attempt) : Settlement :=
  match failureOutcome class_ attempt.attemptNumber policy.maxAttempts with
  | .retry =>
    ⟨.failRetry, .failed, some (error, class_),
      satAdd now ((retryDelayMs attempt.attemptNumber policy.baseDelayMs
        policy.maxDelayMs).getD policy.maxDelayMs)⟩
  | .deadLetter => ⟨.failDeadLetter, .failed, some (error, class_), now⟩
  | .terminal => ⟨.failTerminal, .failed, some (error, class_), now⟩
  | .uncertain => ⟨.markUncertain, .uncertain, some (error, class_), now⟩

def failAttempt (attemptId owner error : String) (class_ : ErrorClass) (policy : RetryPolicy)
    (now : Int) : ActionTx Action := do
  Tx.ensure (1 ≤ policy.maxAttempts) (.invalid "max_attempts must be at least 1")
  Tx.ensure (retryDelayMs 1 policy.baseDelayMs policy.maxDelayMs ≠ none)
    (.invalid "retry delays must be positive")
  settle attemptId owner now (failSettlement error class_ policy now)

def StopStatus.trigger : StopStatus → Trigger
  | failed => .stopFailed
  | cancelled => .stopCancelled
  | deadLetter => .stopDeadLetter

/-- The new field values of a stopped action. -/
def stopRow (owner error : String) (class_ : ErrorClass) (a : Action) :
    Except ActionError Action := do
  requireOwner a owner
  .ok (clearLease { a with lastError := some (boundedError error), errorClass := some class_ })

/-- `stop_leased`: end a leased action without attempting it. -/
def stopLeased (id owner : String) (status : StopStatus) (error : String) (class_ : ErrorClass)
    (now : Int) : ActionTx Action :=
  transition id status.trigger now [] (stopRow owner error class_)

end U2os.Majordomo
