import Mathlib.Data.List.Nodup
import U2os.Lib.Cursor
import U2os.Lib.Json

/-!
# The event log

The table `events`, append-only, in the order of its rowids: the n-th event published has the
n-th rowid.  A client of the live stream that comes back reads the rows past the last event it
has, a page at a time.

## Main results

* `page_prefix`, `page_all` : a page is a piece of the log right after the cursor, and all of
  it when it is not full.
-/

namespace U2os.Server.Events

/-- Who acted, or what an event is about. -/
structure Ref where
  type : Option String
  id : Option String
deriving DecidableEq

/-- An event, as it is dispatched. -/
structure Event where
  id : String
  type : String
  timestamp : String
  source : String
  actor : Option Ref
  subject : Option Ref
  data : Json
  metadata : Json
  correlationId : Option String
  causationId : Option String
  createdAt : String
deriving DecidableEq

/-- A row of the table `events`. -/
structure EventRow where
  rowid : ℕ
  id : String
  type : String
  timestamp : String
  source : String
  actorType : Option String
  actorId : Option String
  subjectType : Option String
  subjectId : Option String
  data : Json
  metadata : Json
  correlationId : Option String
  causationId : Option String
  createdAt : String
deriving DecidableEq

/-- The row `publish` inserts. -/
def EventRow.ofEvent (rowid : ℕ) (e : Event) : EventRow where
  rowid := rowid
  id := e.id
  type := e.type
  timestamp := e.timestamp
  source := e.source
  actorType := e.actor.bind Ref.type
  actorId := e.actor.bind Ref.id
  subjectType := e.subject.bind Ref.type
  subjectId := e.subject.bind Ref.id
  data := e.data
  metadata := e.metadata
  correlationId := e.correlationId
  causationId := e.causationId
  createdAt := e.createdAt

/-- A pair of columns read back: an empty type reads as no reference. -/
def refOfColumns (type id : Option String) : Option Ref :=
  match type with
  | none | some "" => none
  | some t => some { type := some t, id := id }

/-- An event, as it is read back. -/
def rowToEvent (row : EventRow) : Event where
  id := row.id
  type := row.type
  timestamp := row.timestamp
  source := row.source
  actor := refOfColumns row.actorType row.actorId
  subject := refOfColumns row.subjectType row.subjectId
  data := row.data
  metadata := row.metadata
  correlationId := row.correlationId
  causationId := row.causationId
  createdAt := row.createdAt

@[simp] theorem rowToEvent_id (row : EventRow) : (rowToEvent row).id = row.id := rfl

/-- The table `events` in the order of its rowids. -/
structure Log where
  rows : List EventRow
  sorted : rows.Pairwise fun a b => a.rowid < b.rowid
  unique : (rows.map EventRow.id).Nodup

namespace Log

/-- The empty table. -/
def empty : Log := ⟨[], .nil, .nil⟩

/-- The rowid of the next row: one past the largest. -/
def nextRowid (log : Log) : ℕ := (log.rows.map EventRow.rowid).foldr max 0 + 1

/-- The next row of the log comes after all that are there. -/
theorem rowid_lt_nextRowid {log : Log} {r : EventRow} (hr : r ∈ log.rows) :
    r.rowid < log.nextRowid := by
  have h : ∀ l : List ℕ, ∀ n ∈ l, n ≤ l.foldr max 0 := by
    intro l
    induction l with
    | nil => simp
    | cons m l ih =>
      intro n hn
      rcases List.mem_cons.1 hn with rfl | hn
      · exact le_max_left ..
      · exact (ih n hn).trans (le_max_right ..)
  exact Nat.lt_succ_of_le (h _ _ (List.mem_map_of_mem hr))

/-- `INSERT INTO events`; the primary key refuses an id it has. -/
def insert (log : Log) (e : Event) : Option Log :=
  if h : e.id ∈ log.rows.map EventRow.id then none
  else some
    { rows := log.rows ++ [.ofEvent log.nextRowid e]
      sorted := by
        refine List.pairwise_append.2 ⟨log.sorted, List.pairwise_singleton .., ?_⟩
        intro a ha b hb
        obtain rfl := List.mem_singleton.1 hb
        exact rowid_lt_nextRowid ha
      unique := by
        rw [List.map_append]
        refine log.unique.append (List.nodup_singleton _) ?_
        simpa [EventRow.ofEvent] using h }

/-- `SELECT ... FROM events WHERE id = ?`. -/
def find (log : Log) (id : String) : Option EventRow := log.rows.find? fun r => r.id = id

variable {log log' : Log} {e : Event} {id : String} {r q : EventRow}

theorem insert_eq (h : log.insert e = some log') :
    log'.rows = log.rows ++ [.ofEvent log.nextRowid e] ∧ e.id ∉ log.rows.map EventRow.id := by
  unfold insert at h
  by_cases hid : e.id ∈ log.rows.map EventRow.id
  · rw [dif_pos hid] at h; cases h
  · rw [dif_neg hid] at h
    cases h
    exact ⟨rfl, hid⟩

theorem eq_of_id_eq (hr : r ∈ log.rows) (hq : q ∈ log.rows) (h : r.id = q.id) : r = q :=
  List.inj_on_of_nodup_map log.unique hr hq h

theorem eq_of_rowid_eq (hr : r ∈ log.rows) (hq : q ∈ log.rows) (h : r.rowid = q.rowid) : r = q := by
  have hs := List.pairwise_iff_getElem.1 log.sorted
  obtain ⟨i, hi, rfl⟩ := List.mem_iff_getElem.1 hr
  obtain ⟨j, hj, rfl⟩ := List.mem_iff_getElem.1 hq
  rcases lt_trichotomy i j with hij | rfl | hij
  · exact absurd h (hs i j hi hj hij).ne
  · rfl
  · exact absurd h (hs j i hj hi hij).ne'

theorem find_eq_some : log.find id = some r ↔ r ∈ log.rows ∧ r.id = id := by
  constructor
  · intro h
    exact ⟨List.mem_of_find?_eq_some h, by simpa using List.find?_some h⟩
  · rintro ⟨hr, rfl⟩
    cases hf : log.find r.id with
    | none => simpa using List.find?_eq_none.1 hf r hr
    | some q =>
      have hq : q.id = r.id := by simpa using List.find?_some hf
      rw [eq_of_id_eq (List.mem_of_find?_eq_some hf) hr hq]

/-- The rowid of an id. -/
def position (log : Log) (id : String) : ℕ := (log.find id).elim 0 EventRow.rowid

theorem position_of_mem (hr : r ∈ log.rows) : log.position r.id = r.rowid := by
  simp only [position, find_eq_some.2 ⟨hr, rfl⟩, Option.elim_some]

theorem position_insert (h : log.insert e = some log') (hr : r ∈ log.rows) :
    log'.position r.id = log.position r.id := by
  have hr' : r ∈ log'.rows := by rw [(insert_eq h).1]; exact List.mem_append_left _ hr
  rw [position_of_mem hr, position_of_mem hr']

/-- The rows past a row, a page of them. -/
def page (log : Log) (rowid limit : ℕ) : List EventRow :=
  (after EventRow.rowid rowid log.rows).take limit

end Log

/-- The size of a page: `limit` between one and 2000, 500 for none. -/
def pageSize (limit : ℕ) : ℕ := max 1 (min (if limit = 0 then 500 else limit) 2000)

/-- The events logged after the event `id`, oldest first. -/
def listEventsAfterId (log : Log) (id : String) (limit : ℕ) : List Event :=
  match log.find id with
  | none => []
  | some cursor => (log.page cursor.rowid (pageSize limit)).map rowToEvent

variable {log : Log} {n m : ℕ}

theorem page_prefix : log.page n m <+: after EventRow.rowid n log.rows := List.take_prefix ..

theorem page_all (h : (after EventRow.rowid n log.rows).length ≤ m) :
    log.page n m = after EventRow.rowid n log.rows :=
  List.take_of_length_le h

end U2os.Server.Events
