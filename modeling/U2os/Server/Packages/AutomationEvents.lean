import U2os.Lib.Run
import U2os.Server.Events.EventBus

/-!
# The events of the automation runtime

The runtime subscribes to every event of the bus and keeps a durable cursor, the rowid of the
last event it is through with.  At its start it reads a page of the log past the cursor; after
that every event handed to it moves the cursor to that event.

A live event moves the cursor over all that lies between, so no event is lost as long as live
events are handed over without a gap: right after the cursor, or not past it.

## Main results

* `AutomationStep`, `automationStep_of_perform` : all a step can do.
-/

namespace U2os.Server.Packages

open Events List Option

/-- Who subscribes to the bus. -/
inductive Listener where
  /-- The runtime, at its n-th start. -/
  | runtime (n : ℕ)
  | other (k : ℕ)
deriving DecidableEq

/-- The runtime's own subscription. -/
def Listener.isRuntime : Listener → Bool
  | .runtime _ => true
  | .other _ => false

/-- The bus, the runtime and the durable cursor. -/
structure AutomationState where
  bus : Bus Listener
  /-- `automation_event_cursor.last_rowid`. -/
  cursor : Option ℕ
  /-- `_unsubscribe`: the start whose subscription `stop` ends; none while stopped. -/
  subscription : Option ℕ
  starts : ℕ
  /-- What is left of the page `catchUpEvents` reads. -/
  catching : List EventRow
  /-- The rowid `setEventCursor` is called with next. -/
  due : Option ℕ
  /-- The ids of the events `_processEvent` was called with. -/
  processed : List String
  /-- The value the cursor was first set to. -/
  since : ℕ

/-- What can happen. -/
inductive AutomationLabel where
  | subscribe (pattern : String) (k : ℕ)
  | unsubscribe (i : ℕ)
  | publish (p : Partial) (id now createdAt : String)
  | start
  | stop
  /-- `handleEvent` up to `_processEvent`. -/
  | handleEvent
  /-- `catchUpEvents` up to the next `_processEvent`. -/
  | catchUp
  | setEventCursor
  /-- Any other handler is called, or `handleEvent` of a runtime that is stopped. -/
  | enter
  | leave
  | finish
  /-- The process stops, at any point. -/
  | crash
deriving DecidableEq

def catchUpLimit : ℕ := 500

/-- The largest rowid, or 0. -/
def maxEventRowid (log : Log) : ℕ := log.nextRowid - 1

/-- `setEventCursor`: the cursor never moves back. -/
def setEventCursor (cursor : Option ℕ) (rowid : ℕ) : Option ℕ :=
  some (cursor.elim rowid fun n => max n rowid)

/-- Code runs that may call the bus and the runtime: no event is between its processing and the
cursor, and no page is being worked through. -/
def AutomationState.isFree (s : AutomationState) : Bool :=
  s.bus.isFree && s.catching.isEmpty && s.due.isNone

/-- `start`: the cursor is set if it never was, and a page past it is read. -/
def AutomationState.start (s : AutomationState) : AutomationState :=
  let cursor := s.cursor.getD (maxEventRowid s.bus.log)
  { s with
    cursor := some cursor
    since := if s.cursor = none then cursor else s.since
    bus := s.bus.subscribe "*" (.runtime s.starts)
    subscription := some s.starts
    starts := s.starts + 1
    catching := s.bus.log.page cursor catchUpLimit }

/-- `stop`: the subscription of the last start ends. -/
def AutomationState.stop (s : AutomationState) : AutomationState :=
  { s with
    bus := { s.bus with
      subscribers := s.bus.subscribers.eraseP fun x =>
        s.subscription.any fun n => x.handler = .runtime n }
    subscription := none }

/-- A step of the machine. -/
def performAutomation (s : AutomationState) : AutomationLabel → Option AutomationState
  | .subscribe pattern k =>
    if s.isFree then some { s with bus := s.bus.subscribe pattern (.other k) } else none
  | .unsubscribe i =>
    if s.isFree ∧ (s.bus.subscribers[i]?.any fun x => !x.handler.isRuntime) then
      some { s with bus := s.bus.unsubscribe i }
    else none
  | .publish p id now createdAt =>
    if s.isFree then (s.bus.publish p id now createdAt).map fun bus => { s with bus := bus }
    else none
  | .start => if s.isFree then some s.start else none
  | .stop => if s.isFree then some s.stop else none
  | .handleEvent =>
    match s.bus.enter with
    | some (e, .runtime _, bus) =>
      if s.subscription.isSome then
        some { s with
          bus := bus
          due := (s.bus.log.find e.id).map EventRow.rowid
          processed := s.processed ++ [e.id] }
      else none
    | _ => none
  | .catchUp =>
    match s.catching, s.due with
    | row :: rest, none =>
      some { s with
        catching := rest, due := some row.rowid, processed := s.processed ++ [row.id] }
    | _, _ => none
  | .setEventCursor =>
    s.due.map fun rowid => { s with cursor := setEventCursor s.cursor rowid, due := none }
  | .enter =>
    match s.bus.enter with
    | some (_, .other _, bus) => some { s with bus := bus }
    | some (_, .runtime _, bus) =>
      if s.subscription.isSome then none else some { s with bus := bus }
    | none => none
  | .leave =>
    if s.isFree then s.bus.leave.map fun bus => { s with bus := bus } else none
  | .finish => s.bus.finish.map fun bus => { s with bus := bus }
  | .crash =>
    some { s with bus := .new s.bus.log, subscription := none, catching := [], due := none }

/-- The runtime of one home. -/
def automationMachine : Machine AutomationState AutomationLabel :=
  .ofPerform
    { bus := .new .empty, cursor := none, subscription := none, starts := 0, catching := [],
      due := none, processed := [], since := 0 }
    performAutomation

/-- Every event logged since the cursor was first set and not past it was handed over. -/
def AutomationState.Kept (s : AutomationState) : Prop :=
  ∀ n, s.cursor = some n → ∀ r ∈ s.bus.log.rows, s.since < r.rowid → r.rowid ≤ n →
    r.id ∈ s.processed

/-- The condition on a step: a live event is handed to the runtime only when no other event lies
between the cursor and it in the log. -/
def InTurn (s : AutomationState) : AutomationLabel → Prop
  | .handleEvent => ∀ d ∈ s.bus.stack.head?, ∀ n, s.cursor = some n → ∀ r ∈ s.bus.log.rows,
      n < r.rowid → s.bus.log.position d.event.id ≤ r.rowid
  | _ => True

/-! ### All a step can do -/

/-- All a step can do. -/
inductive AutomationStep (s : AutomationState) : AutomationLabel → AutomationState → Prop
  | subscribe {pattern : String} {k : ℕ} (h : s.isFree = true) :
    AutomationStep s (.subscribe pattern k) { s with bus := s.bus.subscribe pattern (.other k) }
  | unsubscribe {i : ℕ} (h : s.isFree = true) :
    AutomationStep s (.unsubscribe i) { s with bus := s.bus.unsubscribe i }
  | publish {p : Partial} {id now createdAt : String} {e : Event} {log : Log}
      (h : s.isFree = true) (hlog : s.bus.log.insert e = some log) :
    AutomationStep s (.publish p id now createdAt)
      { s with bus := { log := log, subscribers := s.bus.subscribers,
                        stack := ⟨e, s.bus.audience e, false⟩ :: s.bus.stack } }
  | start (h : s.isFree = true) : AutomationStep s .start s.start
  | stop (h : s.isFree = true) : AutomationStep s .stop s.stop
  | handleEvent {e : Event} {pattern : String} {k : ℕ} {rest : List (Subscriber Listener)}
      {stack : List (Dispatch Listener)} (hsub : s.subscription.isSome = true)
      (hs : s.bus.stack = ⟨e, ⟨pattern, .runtime k⟩ :: rest, false⟩ :: stack) :
    AutomationStep s .handleEvent
      { s with
        bus := { s.bus with stack := ⟨e, rest, true⟩ :: stack }
        due := (s.bus.log.find e.id).map EventRow.rowid
        processed := s.processed ++ [e.id] }
  | catchUp {row : EventRow} {rest : List EventRow} (hc : s.catching = row :: rest)
      (hd : s.due = none) :
    AutomationStep s .catchUp
      { s with catching := rest, due := some row.rowid, processed := s.processed ++ [row.id] }
  | setEventCursor {rowid : ℕ} (hd : s.due = some rowid) :
    AutomationStep s .setEventCursor
      { s with cursor := Packages.setEventCursor s.cursor rowid, due := none }
  | enter {e : Event} {x : Subscriber Listener} {rest : List (Subscriber Listener)}
      {stack : List (Dispatch Listener)} (hs : s.bus.stack = ⟨e, x :: rest, false⟩ :: stack) :
    AutomationStep s .enter { s with bus := { s.bus with stack := ⟨e, rest, true⟩ :: stack } }
  | leave {e : Event} {rest : List (Subscriber Listener)} {stack : List (Dispatch Listener)}
      (h : s.isFree = true) (hs : s.bus.stack = ⟨e, rest, true⟩ :: stack) :
    AutomationStep s .leave { s with bus := { s.bus with stack := ⟨e, rest, false⟩ :: stack } }
  | finish {e : Event} {stack : List (Dispatch Listener)}
      (hs : s.bus.stack = ⟨e, [], false⟩ :: stack) :
    AutomationStep s .finish { s with bus := { s.bus with stack := stack } }
  | crash :
    AutomationStep s .crash
      { s with bus := .new s.bus.log, subscription := none, catching := [], due := none }

/-- All a step of the automations can do. -/
theorem automationStep_of_perform {s t : AutomationState} {l : AutomationLabel}
    (h : performAutomation s l = some t) : AutomationStep s l t := by
  cases l with
  | subscribe pattern k =>
    simp only [performAutomation, ite_none_right_eq_some] at h
    obtain ⟨hf, h⟩ := h
    cases h
    exact .subscribe hf
  | unsubscribe i =>
    simp only [performAutomation, ite_none_right_eq_some] at h
    obtain ⟨⟨hf, _⟩, h⟩ := h
    cases h
    exact .unsubscribe hf
  | publish p id now createdAt =>
    simp only [performAutomation, ite_none_right_eq_some] at h
    obtain ⟨hf, h⟩ := h
    obtain ⟨bus, hb, rfl⟩ := map_eq_some_iff.1 h
    obtain ⟨e, log, _, hlog, rfl⟩ := Bus.publish_eq hb
    exact .publish hf hlog
  | start =>
    simp only [performAutomation, ite_none_right_eq_some] at h
    obtain ⟨hf, h⟩ := h
    cases h
    exact .start hf
  | stop =>
    simp only [performAutomation, ite_none_right_eq_some] at h
    obtain ⟨hf, h⟩ := h
    cases h
    exact .stop hf
  | handleEvent =>
    simp only [performAutomation] at h
    split at h
    · rename_i he
      simp only [ite_none_right_eq_some] at h
      obtain ⟨hsub, h⟩ := h
      obtain ⟨pattern, rest, stack, hs, rfl⟩ := Bus.enter_eq he
      cases h
      exact .handleEvent hsub hs
    · cases h
  | catchUp =>
    simp only [performAutomation] at h
    split at h
    · rename_i hc hd
      cases h
      exact .catchUp hc hd
    · cases h
  | setEventCursor =>
    obtain ⟨rowid, hd, rfl⟩ := map_eq_some_iff.1 h
    exact .setEventCursor hd
  | enter =>
    simp only [performAutomation] at h
    split at h
    · rename_i he
      cases h
      obtain ⟨pattern, rest, stack, hs, rfl⟩ := Bus.enter_eq he
      exact .enter hs
    · rename_i he
      simp only [ite_none_left_eq_some] at h
      obtain ⟨_, h⟩ := h
      cases h
      obtain ⟨pattern, rest, stack, hs, rfl⟩ := Bus.enter_eq he
      exact .enter hs
    · cases h
  | leave =>
    simp only [performAutomation, ite_none_right_eq_some] at h
    obtain ⟨hf, h⟩ := h
    obtain ⟨bus, hb, rfl⟩ := map_eq_some_iff.1 h
    obtain ⟨e, rest, stack, hs, rfl⟩ := Bus.leave_eq hb
    exact .leave hf hs
  | finish =>
    obtain ⟨bus, hb, rfl⟩ := map_eq_some_iff.1 h
    obtain ⟨e, stack, hs, rfl⟩ := Bus.finish_eq hb
    exact .finish hs
  | crash =>
    cases h
    exact .crash

/-! ### The invariant -/

/-- The cursor, the event between its processing and the cursor, and the rest of the page, one
right after the other. -/
structure AutomationState.Sound (s : AutomationState) : Prop where
  logged : ∀ d ∈ s.bus.stack, ∃ r ∈ s.bus.log.rows, r.id = d.event.id
  /-- Nothing else runs while the runtime is at work. -/
  busy : s.catching ≠ [] ∨ s.due ≠ none → s.bus.isFree = true
  set : s.subscription.isSome = true ∨ s.catching ≠ [] ∨ s.due ≠ none → s.cursor ≠ none
  bounded : ∀ n, s.cursor = some n → n < s.bus.log.nextRowid
  kept : s.Kept
  due : ∀ d, s.due = some d → d < s.bus.log.nextRowid ∧ ∀ n, s.cursor = some n →
    ∀ r ∈ s.bus.log.rows, n < r.rowid → r.rowid ≤ d → r.id ∈ s.processed
  page : ∀ n, s.cursor = some n →
    s.catching <+: after EventRow.rowid (max n (s.due.getD 0)) s.bus.log.rows

namespace AutomationState.Sound

variable {s t : AutomationState} {l : AutomationLabel}

theorem of_isFree (h : s.isFree = true) : s.catching = [] ∧ s.due = none := by
  simp only [AutomationState.isFree, Bool.and_eq_true, List.isEmpty_iff, isNone_iff_eq_none]
    at h
  exact ⟨h.1.2, h.2⟩

theorem of_not_isFree (h : s.Sound) (hf : s.bus.isFree = false) :
    s.catching = [] ∧ s.due = none := by
  constructor
  · by_contra hc
    simp [h.busy (.inl hc)] at hf
  · by_contra hd
    simp [h.busy (.inr hd)] at hf

/-- Only subscribers and dispatches changed, of logged events, while the runtime is not at
work. -/
theorem bus (h : s.Sound) (hidle : s.catching = [] ∧ s.due = none) {bus : Bus Listener}
    (hlog : bus.log = s.bus.log)
    (hstack : ∀ d ∈ bus.stack, ∃ r ∈ s.bus.log.rows, r.id = d.event.id) :
    Sound { s with bus := bus } := by
  refine ⟨?_, ?_, h.set, ?_, ?_, ?_, ?_⟩
  · simpa only [hlog] using hstack
  · rintro (hc | hd)
    · exact absurd hidle.1 hc
    · exact absurd hidle.2 hd
  · simpa only [hlog] using h.bounded
  · simpa only [AutomationState.Kept, hlog] using h.kept
  · simpa only [hlog] using h.due
  · simpa only [hlog] using h.page

theorem top (h : s.Sound) {e : Event} {x rest : List (Subscriber Listener)} {f f' : Bool}
    {stack : List (Dispatch Listener)} (hs : s.bus.stack = ⟨e, x, f⟩ :: stack) :
    ∀ d ∈ (⟨e, rest, f'⟩ :: stack : List (Dispatch Listener)),
      ∃ r ∈ s.bus.log.rows, r.id = d.event.id := by
  have hl := h.logged
  rw [hs] at hl
  intro d hd
  rcases mem_cons.1 hd with rfl | hd
  · obtain ⟨r, hr, hid⟩ := hl _ mem_cons_self
    exact ⟨r, hr, hid⟩
  · exact hl d (mem_cons_of_mem _ hd)

theorem publish (h : s.Sound) (hidle : s.catching = [] ∧ s.due = none) {e : Event} {log : Log}
    (hlog : s.bus.log.insert e = some log) :
    Sound { s with bus := { log := log, subscribers := s.bus.subscribers,
                            stack := ⟨e, s.bus.audience e, false⟩ :: s.bus.stack } } := by
  obtain ⟨hrows, _⟩ := Log.insert_eq hlog
  have hnew : EventRow.ofEvent s.bus.log.nextRowid e ∈ log.rows := by rw [hrows]; simp
  have hnext : s.bus.log.nextRowid < log.nextRowid := Log.rowid_lt_nextRowid hnew
  refine ⟨?_, ?_, h.set, fun n hn => (h.bounded n hn).trans hnext, ?_, ?_, ?_⟩
  · intro d hd
    rcases mem_cons.1 hd with rfl | hd
    · exact ⟨_, hnew, rfl⟩
    · obtain ⟨r, hr, hid⟩ := h.logged d hd
      exact ⟨r, by rw [hrows]; exact mem_append_left _ hr, hid⟩
  · rintro (hc | hd)
    · exact absurd hidle.1 hc
    · exact absurd hidle.2 hd
  · intro n hn r hr hlt hle
    simp only [hrows, List.mem_append, mem_singleton] at hr
    rcases hr with hr | rfl
    · exact h.kept n hn r hr hlt hle
    · exact absurd (hle.trans_lt (h.bounded n hn)) (lt_irrefl _)
  · intro d hd
    rw [hidle.2] at hd
    cases hd
  · intro n _
    rw [hidle.1]
    exact nil_prefix

/-- The runtime starts: it reads a page past the cursor, which is set. -/
theorem start (h : s.Sound) (hf : s.isFree = true) : s.start.Sound := by
  obtain ⟨hcatching, hdue⟩ := of_isFree hf
  have hlast : maxEventRowid s.bus.log < s.bus.log.nextRowid :=
    Nat.sub_lt (Nat.succ_pos _) Nat.one_pos
  have hbus : s.bus.isFree = true := by
    simp only [AutomationState.isFree, Bool.and_eq_true] at hf
    exact hf.1.1
  refine ⟨h.logged, fun _ => hbus, fun _ => nofun, ?_, ?_, ?_, ?_⟩
  · intro n hn
    cases hc : s.cursor with
    | none =>
      obtain rfl : maxEventRowid s.bus.log = n := by simpa [AutomationState.start, hc] using hn
      exact hlast
    | some m =>
      obtain rfl : m = n := by simpa [AutomationState.start, hc] using hn
      exact h.bounded m hc
  · intro n hn r hr hlt hle
    cases hc : s.cursor with
    | none =>
      obtain rfl : maxEventRowid s.bus.log = n := by simpa [AutomationState.start, hc] using hn
      simp only [AutomationState.start, hc, if_pos, getD_none] at hlt
      omega
    | some m =>
      obtain rfl : m = n := by simpa [AutomationState.start, hc] using hn
      simp only [AutomationState.start, hc, reduceCtorEq, if_false] at hlt
      exact h.kept m hc r hr hlt hle
  · intro d hd
    rw [show s.start.due = s.due from rfl, hdue] at hd
    cases hd
  · intro n hn
    obtain rfl : s.cursor.getD (maxEventRowid s.bus.log) = n := by
      simpa [AutomationState.start] using hn
    rw [show s.start.due = s.due from rfl, hdue, getD_none, Nat.max_zero]
    exact page_prefix

theorem handleEvent (h : s.Sound) (ho : InTurn s .handleEvent) {e : Event} {pattern : String}
    {k : ℕ} {rest : List (Subscriber Listener)} {stack : List (Dispatch Listener)}
    (hsub : s.subscription.isSome = true)
    (hs : s.bus.stack = ⟨e, ⟨pattern, .runtime k⟩ :: rest, false⟩ :: stack) :
    Sound { s with
      bus := { s.bus with stack := ⟨e, rest, true⟩ :: stack }
      due := (s.bus.log.find e.id).map EventRow.rowid
      processed := s.processed ++ [e.id] } := by
  obtain ⟨hcatching, _⟩ := h.of_not_isFree (by simp [Bus.isFree, hs])
  obtain ⟨q, hq, hid⟩ := h.logged _ (by rw [hs]; exact mem_cons_self)
  have hfind : s.bus.log.find e.id = some q := Log.find_eq_some.2 ⟨hq, hid⟩
  refine ⟨h.top hs, fun _ => rfl, fun _ => h.set (.inl hsub), h.bounded, ?_, ?_, ?_⟩
  · intro n hn r hr hlt hle
    exact mem_append_left _ (h.kept n hn r hr hlt hle)
  · intro d hd
    simp only [hfind, map_some, Option.some.injEq] at hd
    subst hd
    refine ⟨Log.rowid_lt_nextRowid hq, fun n hn r hr hlt hle => ?_⟩
    -- No other event lies between the cursor and this one.
    have hge : q.rowid ≤ r.rowid := by
      have := ho _ (by rw [hs]; exact rfl) n hn r hr hlt
      rwa [← hid, Log.position_of_mem hq] at this
    obtain rfl := Log.eq_of_rowid_eq hr hq (hle.antisymm hge)
    exact mem_append_right _ (by simp [hid])
  · intro n _
    rw [show s.catching = [] from hcatching]
    exact nil_prefix

theorem catchUp (h : s.Sound) {row : EventRow} {rest : List EventRow}
    (hc : s.catching = row :: rest) (hd : s.due = none) :
    Sound { s with
      catching := rest, due := some row.rowid, processed := s.processed ++ [row.id] } := by
  have hne : s.catching ≠ [] := by simp [hc]
  obtain ⟨m, hm⟩ := ne_none_iff_exists'.1 (h.set (.inr (.inl hne)))
  have hpage := h.page m hm
  rw [hc, hd, getD_none, Nat.max_zero] at hpage
  have hrow := mem_after.1 (hpage.subset mem_cons_self)
  refine ⟨h.logged, fun _ => h.busy (.inl hne), fun _ => h.set (.inr (.inl hne)), h.bounded, ?_, ?_,
    ?_⟩
  · intro n hn r hr hlt hle
    exact mem_append_left _ (h.kept n hn r hr hlt hle)
  · intro d hd'
    obtain rfl : row.rowid = d := by simpa using hd'
    refine ⟨Log.rowid_lt_nextRowid hrow.1, fun n hn r hr hlt hle => ?_⟩
    obtain rfl : m = n := by simpa [hm] using hn
    have hone : [row] <+: after EventRow.rowid m s.bus.log.rows :=
      (prefix_append [row] rest).trans hpage
    have := mem_of_prefix_after s.bus.log.sorted hone mem_cons_self hr hlt hle
    obtain rfl := mem_singleton.1 this
    exact mem_append_right _ mem_cons_self
  · intro n hn
    obtain rfl : m = n := by simpa [hm] using hn
    rw [getD_some, max_eq_right hrow.2.le]
    exact prefix_after_of_cons s.bus.log.sorted hpage

theorem moveCursor (h : s.Sound) {rowid : ℕ} (hd : s.due = some rowid) :
    Sound { s with cursor := setEventCursor s.cursor rowid, due := none } := by
  have hne : s.due ≠ none := by simp [hd]
  obtain ⟨m, hm⟩ := ne_none_iff_exists'.1 (h.set (.inr (.inr hne)))
  obtain ⟨hlt, hdue⟩ := h.due rowid hd
  have hcursor : setEventCursor s.cursor rowid = some (max m rowid) := by rw [hm]; rfl
  rw [hcursor]
  refine ⟨h.logged, ?_, fun _ => nofun, ?_, ?_, nofun, ?_⟩
  · rintro (hc | hd')
    · exact h.busy (.inl hc)
    · exact absurd rfl hd'
  · intro n hn
    obtain rfl : max m rowid = n := by simpa using hn
    exact max_lt (h.bounded m hm) hlt
  · intro n hn r hr hsince hle
    obtain rfl : max m rowid = n := by simpa using hn
    rcases le_or_gt r.rowid m with hrm | hrm
    · exact h.kept m hm r hr hsince hrm
    · exact hdue m hm r hr hrm (by omega)
  · intro n hn
    obtain rfl : max m rowid = n := by simpa using hn
    have := h.page m hm
    rw [hd, getD_some] at this
    simpa using this

/-- Every step in turn keeps the state sound. -/
theorem step (h : s.Sound) (hst : AutomationStep s l t) (ho : InTurn s l) : t.Sound := by
  cases hst with
  | subscribe hf => exact h.bus (of_isFree hf) rfl h.logged
  | unsubscribe hf => exact h.bus (of_isFree hf) rfl h.logged
  | publish hf hlog => exact h.publish (of_isFree hf) hlog
  | start hf => exact h.start hf
  | stop hf =>
    obtain ⟨hcatching, hdue⟩ := of_isFree hf
    have hlog : s.stop.bus.log = s.bus.log := rfl
    have hbus := h.bus ⟨hcatching, hdue⟩ hlog h.logged
    refine ⟨hbus.logged, hbus.busy, ?_, hbus.bounded, hbus.kept, hbus.due, hbus.page⟩
    rintro (hsub | hc | hd)
    · cases hsub
    · exact absurd hcatching hc
    · exact absurd hdue hd
  | handleEvent hsub hs => exact h.handleEvent ho hsub hs
  | catchUp hc hd => exact h.catchUp hc hd
  | setEventCursor hd => exact h.moveCursor hd
  | enter hs => exact h.bus (h.of_not_isFree (by simp [Bus.isFree, hs])) rfl (h.top hs)
  | leave hf hs => exact h.bus (of_isFree hf) rfl (h.top hs)
  | finish hs =>
    refine h.bus (h.of_not_isFree (by simp [Bus.isFree, hs])) rfl fun d hd => h.logged d ?_
    rw [hs]
    exact mem_cons_of_mem _ hd
  | crash =>
    refine ⟨by simp [Bus.new], by simp, by simp, h.bounded, h.kept, nofun, fun n _ => ?_⟩
    exact nil_prefix

theorem init : automationMachine.init.Sound := by
  refine ⟨?_, ?_, ?_, ?_, ?_, ?_, ?_⟩ <;>
    simp [automationMachine, Machine.ofPerform, Bus.new, AutomationState.Kept]

end AutomationState.Sound

/-- A handler subscribed before the runtime publishes while it is handed an event. -/
def innerFirstRun : List AutomationLabel :=
  [.subscribe "*" 1, .start, .publish (.ofType "goal.changed") "outer" "t" "t", .enter,
    .publish (.ofType "memory.changed") "inner" "t" "t", .enter, .leave, .handleEvent,
    .setEventCursor]

/-- What a state says of its events. -/
structure CursorView where
  cursor : Option ℕ
  since : ℕ
  processed : List String
  logged : List String
  rowids : List ℕ
deriving DecidableEq

/-- The cursor beside the log. -/
def AutomationState.view (s : AutomationState) : CursorView where
  cursor := s.cursor
  since := s.since
  processed := s.processed
  logged := s.bus.log.rows.map EventRow.id
  rowids := s.bus.log.rows.map EventRow.rowid

/-- The cursor is past the outer event, which was not handed over: a crash now loses it. -/
theorem inner_event_moves_cursor : ∃ s, automationMachine.Run innerFirstRun s ∧ ¬ s.Kept := by
  have hview : (Machine.drive performAutomation (fun _ _ => true) automationMachine.init
      innerFirstRun).map AutomationState.view =
      some ⟨some 2, 0, ["inner"], ["outer", "inner"], [1, 2]⟩ := by decide +kernel
  obtain ⟨s, hs, hv⟩ := map_eq_some_iff.1 hview
  simp only [AutomationState.view, CursorView.mk.injEq] at hv
  obtain ⟨hcursor, hsince, hprocessed, hlog, hrowids⟩ := hv
  refine ⟨s, Machine.run_drive hs, fun hkept => ?_⟩
  obtain ⟨r, hr, hid⟩ := List.mem_map.1 (hlog ▸ mem_cons_self : "outer" ∈ _)
  have hrow : r.rowid = 1 ∨ r.rowid = 2 := by
    have hmem : r.rowid ∈ [1, 2] := hrowids ▸ List.mem_map_of_mem hr
    simpa using hmem
  have := hkept 2 hcursor r hr (by omega) (by omega)
  rw [hprocessed, hid] at this
  simp at this

/-- Along runs of steps in turn every event the cursor has passed was handed over. -/
theorem no_event_lost {h : List AutomationLabel} {s : AutomationState}
    (hr : (automationMachine.restrict fun s l _ => InTurn s l).Run h s) : s.Kept :=
  (hr.invariant AutomationState.Sound.init fun _ _ _ hs hst =>
    hs.step (automationStep_of_perform hst.1) hst.2).kept

/-- A check for `InTurn`. -/
def isInTurn (s : AutomationState) : AutomationLabel → Bool
  | .handleEvent => s.bus.stack.head?.all fun d => s.cursor.all fun n =>
      s.bus.log.rows.all fun r => r.rowid ≤ n || s.bus.log.position d.event.id ≤ r.rowid
  | _ => true

theorem inTurn_of_isInTurn (s : AutomationState) (l : AutomationLabel) (h : isInTurn s l = true) :
    InTurn s l := by
  cases l with
  | handleEvent =>
    intro d hd n hn r hr hlt
    obtain hd : s.bus.stack.head? = some d := hd
    simp only [isInTurn, hd, hn, all_some, List.all_eq_true, Bool.or_eq_true,
      decide_eq_true_eq] at h
    exact (h r hr).resolve_left (not_le.2 hlt)
  | _ => trivial

/-- An event is handed over live, two are published while the runtime is stopped, and a fourth
after it has caught up. -/
def caughtUpRun : List AutomationLabel :=
  [.start, .publish (.ofType "goal.changed") "evt-1" "t" "t", .handleEvent, .setEventCursor, .leave,
    .finish, .stop, .publish (.ofType "goal.changed") "evt-2" "t" "t", .finish,
    .publish (.ofType "goal.changed") "evt-3" "t" "t", .finish, .start, .catchUp, .crash, .start,
    .catchUp, .setEventCursor, .catchUp, .setEventCursor,
    .publish (.ofType "goal.changed") "evt-4" "t" "t", .handleEvent, .setEventCursor]

theorem no_event_lost_caughtUpRun : ∃ s, automationMachine.Run caughtUpRun s ∧ s.Kept ∧
    s.cursor = some 4 ∧ s.processed = ["evt-1", "evt-2", "evt-2", "evt-3", "evt-4"] := by
  have hview : (Machine.drive performAutomation isInTurn automationMachine.init caughtUpRun).map
      (fun s => (s.cursor, s.processed)) =
      some (some 4, ["evt-1", "evt-2", "evt-2", "evt-3", "evt-4"]) := by decide +kernel
  obtain ⟨s, hs, hv⟩ := map_eq_some_iff.1 hview
  have hr : (automationMachine.restrict fun s l _ => InTurn s l).Run caughtUpRun s :=
    Machine.steps_drive inTurn_of_isInTurn hs
  simp only [Prod.mk.injEq] at hv
  exact ⟨s, hr.of_restrict, no_event_lost hr, hv.1, hv.2⟩

end U2os.Server.Packages
