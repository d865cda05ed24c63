import Mathlib.Data.List.Pairwise
import Mathlib.Data.List.Nodup
import U2os.Lib.Json

/-!
# The event log

The append-only table `events` of `majordomo.sqlite` and its readers (`events.rs`).  The
numbering (`seq`, never reused) and the uniqueness of ids are fields of `EventLog`.

## Main results

* `EventLog.mem_readAfter` : the readers return stored events past the cursor.
-/

namespace U2os.Majordomo

open List

inductive StoreError where
  /-- A constraint or another error of SQLite. -/
  | sqlite (message : String)
  /-- An input or output error. -/
  | io (message : String)
  deriving DecidableEq, Repr

/-- Errors of the event log and the bus. -/
inductive EventError where
  | payloadTooLarge (size max : ℕ)
  | invalid (message : String)
  | tooManySubscribers (limit : ℕ)
  | store (e : StoreError)
  deriving DecidableEq, Repr

def maxPayloadBytes : ℕ := 64 * 1024

def maxFieldChars : ℕ := 128

/-- Who did it, or what it was about. -/
structure Party where
  /-- The type of the party. -/
  kind : String
  /-- Its id. -/
  id : String
  deriving DecidableEq, Repr

/-- An event to be stored. -/
structure NewEvent where
  eventType : String
  source : String
  actor : Option Party := none
  subject : Option Party := none
  data : Json := .obj []
  correlationId : Option String := none
  causationId : Option String := none

/-- A stored event. -/
structure Event extends NewEvent where
  seq : ℕ
  id : String
  tsMs : Int

/-- `char::is_control`. -/
def isControl (c : Char) : Bool := c.toNat ≤ 0x1f || (0x7f ≤ c.toNat && c.toNat ≤ 0x9f)

/-- A text of 1 to `bound` characters, none of them a control character. -/
def Printable (bound : ℕ) (v : String) : Prop :=
  v ≠ "" ∧ v.length ≤ bound ∧ v.toList.any isControl = false

instance (bound : ℕ) (v : String) : Decidable (Printable bound v) :=
  inferInstanceAs (Decidable (_ ∧ _ ∧ _))

/-- `check_field` of the event log. -/
def checkField (name value : String) : Except EventError Unit :=
  if value = "" ∨ maxFieldChars < value.length then
    .error (.invalid (name ++ " must be 1 to 128 characters"))
  else if value.toList.any isControl then
    .error (.invalid (name ++ " must not contain control characters"))
  else .ok ()

/-- The characters of an event type. -/
def isTypeChar (c : Char) : Bool :=
  ('a' ≤ c && c ≤ 'z') || ('A' ≤ c && c ≤ 'Z') || ('0' ≤ c && c ≤ '9') ||
    c = '_' || c = '.' || c = ':' || c = '-'

/-- `check_field` of both names of a party. -/
def checkParty : Option Party → Except EventError Unit
  | none => .ok ()
  | some p => do
    checkField "party kind" p.kind
    checkField "party id" p.id

/-- `check_field` of an optional field. -/
def checkOptional (name : String) : Option String → Except EventError Unit
  | none => .ok ()
  | some v => checkField name v

/-- What an event must satisfy to be stored; returns the text of its payload. -/
def validate (e : NewEvent) : Except EventError String := do
  checkField "type" e.eventType
  if e.eventType.toList.all isTypeChar then
    checkField "source" e.source
    checkParty e.actor
    checkParty e.subject
    checkOptional "correlation_id" e.correlationId
    checkOptional "causation_id" e.causationId
    let data := e.data.render
    if data.utf8ByteSize > maxPayloadBytes then
      .error (.payloadTooLarge data.utf8ByteSize maxPayloadBytes)
    else .ok data
  else .error (.invalid "type may contain only letters, digits and _ . : -")

theorem checkField_eq_ok {name value : String} :
    checkField name value = .ok () ↔ Printable maxFieldChars value := by
  unfold checkField Printable
  split_ifs with h₁ h₂
  · refine iff_of_false (by simp) ?_
    rintro ⟨hne, hle, -⟩
    rcases h₁ with h | h
    · exact hne h
    · omega
  · refine iff_of_false (by simp) ?_
    rintro ⟨-, -, hc⟩
    rw [hc] at h₂
    cases h₂
  · exact iff_of_true rfl ⟨fun h => h₁ (.inl h), by omega, Bool.not_eq_true _ ▸ h₂⟩

/-- The table `events`: triggers abort every update and deletion, so only insertions happen. -/
structure EventLog where
  /-- The rows in `seq` order. -/
  events : List Event
  /-- `seq INTEGER PRIMARY KEY AUTOINCREMENT`. -/
  increasing : events.Pairwise fun a b => a.seq < b.seq
  /-- `id TEXT NOT NULL UNIQUE`. -/
  nodup : (events.map Event.id).Nodup

variable {log : EventLog}

namespace EventLog

/-- The empty table. -/
def empty : EventLog := ⟨[], List.Pairwise.nil, by simp⟩

@[ext] theorem ext {l m : EventLog} (h : l.events = m.events) : l = m := by
  cases l; cases m; congr

/-- `SELECT COALESCE(MAX(seq), 0)`. -/
def maxSeq (log : EventLog) : ℕ := (log.events.map Event.seq).foldr max 0

theorem le_maxSeq {e : Event} (h : e ∈ log.events) : e.seq ≤ log.maxSeq := by
  unfold maxSeq
  generalize log.events = events at h ⊢
  induction events with
  | nil => simp at h
  | cons x xs ih =>
    rw [map_cons, foldr_cons]
    rcases mem_cons.1 h with rfl | h
    · exact Nat.le_max_left _ _
    · exact Nat.le_trans (ih h) (Nat.le_max_right _ _)

/-- `INSERT`: the next number, refused when the id is taken. -/
def insert? (log : EventLog) (e : Event) : Option EventLog :=
  if h : ∀ x ∈ log.events, x.id ≠ e.id then
    some
      { events := log.events ++ [{ e with seq := log.maxSeq + 1 }]
        increasing := by
          refine pairwise_append.2 ⟨log.increasing, pairwise_singleton _ _, ?_⟩
          intro x hx y hy
          obtain rfl := mem_singleton.1 hy
          exact Nat.lt_succ_of_le (le_maxSeq hx)
        nodup := by
          rw [map_append, map_cons, map_nil]
          refine nodup_append.2 ⟨log.nodup, by simp, ?_⟩
          intro a ha b hb
          obtain ⟨x, hx, rfl⟩ := mem_map.1 ha
          obtain rfl := mem_singleton.1 hb
          exact h x hx }
  else none

/-- What is appended has the next number, and its id is a new one. -/
theorem insert?_eq_some {log' : EventLog} {e : Event} :
    log.insert? e = some log' ↔ (∀ x ∈ log.events, x.id ≠ e.id) ∧
      log'.events = log.events ++ [{ e with seq := log.maxSeq + 1 }] := by
  unfold insert?
  split_ifs with h
  · rw [Option.some_inj]
    exact ⟨fun e' => ⟨h, by rw [← e']⟩, fun e' => EventLog.ext e'.2.symm⟩
  · exact ⟨fun e' => by simp at e', fun e' => absurd e'.1 h⟩

/-- Events with `seq > after`, oldest first. -/
def readAfter (log : EventLog) (after limit : ℕ) : List Event :=
  (log.events.filter fun e => after < e.seq).take (max 1 (min limit 2000))

theorem mem_readAfter {after limit : ℕ} {e : Event}
    (h : e ∈ log.readAfter after limit) : e ∈ log.events ∧ after < e.seq := by
  simpa using mem_filter.1 (mem_of_mem_take h)

theorem readAfter_eq_nil {after limit : ℕ} :
    log.readAfter after limit = [] ↔ ∀ e ∈ log.events, e.seq ≤ after := by
  unfold readAfter
  rw [take_eq_nil_iff]
  simp only [show max 1 (min limit 2000) ≠ 0 by omega, false_or, filter_eq_nil_iff,
    decide_eq_true_eq, Nat.not_lt]

end EventLog

/-- The characters before a suffix. -/
def stripSuffix (s suffix : List Char) : Option (List Char) :=
  if suffix.isSuffixOf s then some (s.take (s.length - suffix.length)) else none

/-- The characters after a prefix. -/
def stripPrefix (s : List Char) (start : List Char) : Option (List Char) :=
  if start.isPrefixOf s then some (s.drop start.length) else none

/-- `*`, a domain prefix such as `action.*`, or an exact type. -/
def matchesPattern (pattern eventType : String) : Bool :=
  if pattern = "*" then true
  else match stripSuffix pattern.toList ['.', '*'] with
    | some start =>
      match stripPrefix eventType.toList start with
      | some rest => rest.head? = some '.'
      | none => false
    | none => pattern = eventType

end U2os.Majordomo
