import U2os.Server.Events.Log

/-!
# The event bus

`publish` logs an event and hands it to the subscribers, one after the other, before it returns.
A handler may publish again: the inner event is logged and dispatched whole before the outer
event goes on to the next subscriber.  So what the bus is doing is a *stack* of dispatches, the
innermost first.
-/

namespace U2os.Server.Events

/-- The argument of `publish`. -/
structure Partial where
  type : Option String
  timestamp : Option String
  source : Option String
  actor : Option Ref
  subject : Option Ref
  data : Option (List (String × Json))
  metadata : Option (List (String × Json))
  correlationId : Option String
  causationId : Option String
deriving DecidableEq

/-- An event of a type. -/
def Partial.ofType (type : String) : Partial where
  type := some type
  timestamp := none
  source := none
  actor := none
  subject := none
  data := none
  metadata := none
  correlationId := none
  causationId := none

/-- `s || d` on strings. -/
def orString (s : Option String) (d : String) : String :=
  match s with
  | none | some "" => d
  | some t => t

/-- `fields || {}`. -/
def orObject (fields : Option (List (String × Json))) : Json := .obj (fields.getD [])

/-- The event of an argument; without a type there is none. -/
def Partial.toEvent (p : Partial) (id now createdAt : String) : Option Event :=
  match p.type with
  | none | some "" => none
  | some type =>
    let metadata := orObject p.metadata
    some
      { id := id
        type := type
        timestamp := orString p.timestamp now
        source := orString p.source "system"
        actor := p.actor
        subject := p.subject
        data := orObject p.data
        metadata := metadata
        correlationId := p.correlationId <|> (metadata.get? "correlationId").bind Json.asStr?
        causationId := p.causationId <|> (metadata.get? "causationId").bind Json.asStr?
        createdAt := createdAt }

/-- An exact type, a domain with `.*`, or `*`. -/
def matchesPattern (pattern type : String) : Bool :=
  if pattern = "*" then true
  else if ['.', '*'].isSuffixOf pattern.toList then pattern.toList.dropLast.isPrefixOf type.toList
  else pattern = type

@[simp] theorem matchesPattern_star (type : String) : matchesPattern "*" type = true := rfl

variable {η : Type*}

/-- An entry of the list of subscribers. -/
structure Subscriber (η : Type*) where
  pattern : String
  handler : η
deriving DecidableEq

/-- A dispatch on the stack: the subscribers still to be called, of the list as it was when the
event was published. -/
structure Dispatch (η : Type*) where
  event : Event
  rest : List (Subscriber η)
  /-- A handler is running. -/
  handling : Bool

/-- The log, the subscribers and the dispatches, the innermost first. -/
structure Bus (η : Type*) where
  log : Log
  subscribers : List (Subscriber η)
  stack : List (Dispatch η)

namespace Bus

/-- A bus over a log. -/
def new (log : Log) : Bus η := { log := log, subscribers := [], stack := [] }

/-- Code other than the bus is running: a handler, or no dispatch is. -/
def isFree (b : Bus η) : Bool := b.stack.head?.all Dispatch.handling

def subscribe (b : Bus η) (pattern : String) (handler : η) : Bus η :=
  { b with subscribers := b.subscribers ++ [{ pattern := pattern, handler := handler }] }

/-- The function `subscribe` returned, for the entry at a place of the list. -/
def unsubscribe (b : Bus η) (i : ℕ) : Bus η :=
  { b with subscribers := b.subscribers.eraseIdx i }

/-- The subscribers an event goes to, in order. -/
def audience (b : Bus η) (e : Event) : List (Subscriber η) :=
  b.subscribers.filter fun x => matchesPattern x.pattern e.type

/-- `publish`, up to the first call of a handler; it throws without a type, and when the id is
in the log. -/
def publish (b : Bus η) (p : Partial) (id now createdAt : String) : Option (Bus η) :=
  match p.toEvent id now createdAt with
  | none => none
  | some e =>
    (b.log.insert e).map fun log =>
      { b with log := log
               stack := { event := e, rest := b.audience e, handling := false } :: b.stack }

/-- The next handler of the innermost dispatch is called. -/
def enter (b : Bus η) : Option (Event × η × Bus η) :=
  match b.stack with
  | { event := e, rest := x :: rest, handling := false } :: stack =>
    some (e, x.handler, { b with stack := ⟨e, rest, true⟩ :: stack })
  | _ => none

/-- The running handler returns, or throws. -/
def leave (b : Bus η) : Option (Bus η) :=
  match b.stack with
  | { event := e, rest := rest, handling := true } :: stack =>
    some { b with stack := ⟨e, rest, false⟩ :: stack }
  | _ => none

/-- The innermost dispatch is done. -/
def finish (b : Bus η) : Option (Bus η) :=
  match b.stack with
  | { event := _, rest := [], handling := false } :: stack => some { b with stack := stack }
  | _ => none

variable {b b' : Bus η} {p : Partial} {id now createdAt : String} {e : Event} {x : η}

theorem publish_eq (h : b.publish p id now createdAt = some b') :
    ∃ e log, p.toEvent id now createdAt = some e ∧ b.log.insert e = some log ∧
      b' = { log := log, subscribers := b.subscribers,
             stack := ⟨e, b.audience e, false⟩ :: b.stack } := by
  unfold publish at h
  cases he : p.toEvent id now createdAt with
  | none => simp [he] at h
  | some e =>
    simp only [he, Option.map_eq_some_iff] at h
    obtain ⟨log, hlog, rfl⟩ := h
    exact ⟨e, log, rfl, hlog, rfl⟩

/-- A handler is entered from the dispatch on top. -/
theorem enter_eq (h : b.enter = some (e, x, b')) : ∃ pattern rest stack,
    b.stack = ⟨e, ⟨pattern, x⟩ :: rest, false⟩ :: stack ∧
      b' = { b with stack := ⟨e, rest, true⟩ :: stack } := by
  unfold enter at h
  split at h
  · rename_i hs
    cases h
    exact ⟨_, _, _, hs, rfl⟩
  · cases h

theorem leave_eq (h : b.leave = some b') : ∃ e rest stack,
    b.stack = ⟨e, rest, true⟩ :: stack ∧ b' = { b with stack := ⟨e, rest, false⟩ :: stack } := by
  unfold leave at h
  split at h
  · rename_i hs
    cases h
    exact ⟨_, _, _, hs, rfl⟩
  · cases h

theorem finish_eq (h : b.finish = some b') : ∃ e stack,
    b.stack = ⟨e, [], false⟩ :: stack ∧ b' = { b with stack := stack } := by
  unfold finish at h
  split at h
  · rename_i hs
    cases h
    exact ⟨_, _, hs, rfl⟩
  · cases h

end Bus

end U2os.Server.Events
