import U2os.Lib.Run
import U2os.Server.Events.EventBus

/-!
# The live stream

The hub is one subscriber of the bus among others.  It writes every event it is handed to the
clients connected to it, and to a client that comes back it first replays a page of the log past
the last event the client has.

So a client gets events in two orders: replayed ones in the order of the log, live ones in the
order of dispatch.  The two agree as long as the hub is not handed an inner event while an outer
one is still on its way to it; and live events continue a replay as long as the page had
everything that was missing.

## Main results

* `StreamStep`, `streamStep_of_perform` : all a step can do.
-/

namespace U2os.Server.Events

open List Option

/-- Who subscribes to the bus. -/
inductive Handler where
  | hub
  | other (k : ℕ)
deriving DecidableEq

/-- A client of the stream. -/
structure Client where
  /-- The events written to it, as far as they arrived. -/
  received : List Event
  connected : Bool
  /-- The last rowid when it first attached: it is owed every event past it. -/
  since : ℕ

/-- The ids a client has received. -/
def Client.ids (cl : Client) : List String := cl.received.map Event.id

/-- The id a client sends when it comes back. -/
def Client.lastEventId (cl : Client) : Option String := cl.received.getLast?.map Event.id

/-- The bus and the clients. -/
structure StreamState where
  bus : Bus Handler
  clients : ℕ → Client

/-- What can happen. -/
inductive StreamLabel where
  | subscribe (pattern : String) (k : ℕ)
  | unsubscribe (i : ℕ)
  /-- `new SseHub(eventBus)`. -/
  | construct
  | publish (p : Partial) (id now createdAt : String)
  /-- A handler other than the hub's is called. -/
  | enter
  | leave
  /-- The hub's handler: `broadcast`. -/
  | broadcast
  | finish
  /-- A client attaches and `n` of the replayed events arrive; when they are not all, the
  connection was lost on the way. -/
  | attach (c n : ℕ)
  | disconnect (c : ℕ)
  /-- The process stops and starts over the same log. -/
  | restart
deriving DecidableEq

/-- The hub is there. -/
def hasHub (subscribers : List (Subscriber Handler)) : Bool :=
  subscribers.any fun x => x.handler = .hub

/-- What `attach` replays to a client. -/
def replay (log : Log) (cl : Client) : List Event :=
  match cl.lastEventId with
  | none => []
  | some id => listEventsAfterId log id 500

/-- A client after `attach`, of which `n` events arrived.  One that has received nothing has no
id to come back with, and attaches for the first time. -/
def Client.attach (cl : Client) (log : Log) (n : ℕ) : Client where
  received := cl.received ++ (replay log cl).take n
  connected := (replay log cl).length ≤ n
  since := if cl.received = [] then log.nextRowid - 1 else cl.since

/-- `broadcast`, to one client. -/
def Client.write (cl : Client) (e : Event) : Client :=
  if cl.connected then { cl with received := cl.received ++ [e] } else cl

/-- Something happened to one client. -/
def StreamState.setClient (s : StreamState) (c : ℕ) (cl : Client) : StreamState :=
  { s with clients := Function.update s.clients c cl }

@[simp] theorem StreamState.setClient_self (s : StreamState) (c : ℕ) (cl : Client) :
    (s.setClient c cl).clients c = cl := Function.update_self ..

theorem StreamState.setClient_of_ne (s : StreamState) (cl : Client) {c c' : ℕ} (h : c' ≠ c) :
    (s.setClient c cl).clients c' = s.clients c' := Function.update_of_ne h ..

/-- A step of the machine. -/
def performStream (s : StreamState) : StreamLabel → Option StreamState
  | .subscribe pattern k =>
    if s.bus.isFree then some { s with bus := s.bus.subscribe pattern (.other k) } else none
  | .unsubscribe i =>
    -- The hub drops the function `subscribe` returned to it.
    if s.bus.isFree ∧ (s.bus.subscribers[i]?.any fun x => x.handler ≠ .hub) then
      some { s with bus := s.bus.unsubscribe i }
    else none
  | .construct =>
    if s.bus.isFree ∧ hasHub s.bus.subscribers = false then
      some { s with bus := s.bus.subscribe "*" .hub }
    else none
  | .publish p id now createdAt =>
    if s.bus.isFree then
      (s.bus.publish p id now createdAt).map fun bus => { s with bus := bus }
    else none
  | .enter =>
    match s.bus.enter with
    | some (_, .other _, bus) => some { s with bus := bus }
    | _ => none
  | .leave => s.bus.leave.map fun bus => { s with bus := bus }
  | .broadcast =>
    match s.bus.enter with
    | some (e, .hub, bus) =>
      bus.leave.map fun bus => { bus := bus, clients := fun c => (s.clients c).write e }
    | _ => none
  | .finish => s.bus.finish.map fun bus => { s with bus := bus }
  | .attach c n =>
    if s.bus.stack.isEmpty ∧ hasHub s.bus.subscribers ∧ (s.clients c).connected = false then
      some (s.setClient c ((s.clients c).attach s.bus.log n))
    else none
  | .disconnect c => some (s.setClient c { s.clients c with connected := false })
  | .restart =>
    some { bus := .new s.bus.log
           clients := fun c => { s.clients c with connected := false } }

/-- The bus of one server, its hub and its clients. -/
def streamMachine : Machine StreamState StreamLabel :=
  .ofPerform { bus := .new .empty, clients := fun _ => ⟨[], false, 0⟩ } performStream

/-- The event of a row has been received. -/
def Client.Has (cl : Client) (r : EventRow) : Prop := r.id ∈ cl.ids

/-- The last id received stands for everything owed up to its place in the log. -/
def Client.Positioned (cl : Client) (log : Log) : Prop :=
  ∀ id, cl.lastEventId = some id → ∀ r ∈ log.rows, cl.since < r.rowid →
    r.rowid ≤ log.position id → cl.Has r

/-- Everything owed has been received. -/
def Client.Complete (cl : Client) (log : Log) : Prop :=
  ∀ r ∈ log.rows, cl.since < r.rowid → cl.Has r

/-- No client has a gap: its last id is a position in the log, and once everything is dispatched
a connected client has every event. -/
def StreamState.NoGaps (s : StreamState) : Prop :=
  ∀ c, (s.clients c).Positioned s.bus.log ∧
    (s.bus.stack = [] → (s.clients c).connected = true → (s.clients c).Complete s.bus.log)

/-- The dispatch still goes to the hub. -/
def Dispatch.Pending (d : Dispatch Handler) : Prop := hasHub d.rest = true

/-- The rows past the last event a client has received. -/
def Client.missed (cl : Client) (log : Log) : List EventRow :=
  match cl.lastEventId with
  | none => []
  | some id => after EventRow.rowid (log.position id) log.rows

/-- The condition on a step: the hub is handed an event with a client connected only when no
outer event is still on its way to it, and a client comes back while the log has at most 500
events past its last one, or loses the connection before it has 500 of them. -/
def Orderly (s : StreamState) : StreamLabel → Prop
  | .broadcast => (∃ c, (s.clients c).connected = true) → ∀ d ∈ s.bus.stack.tail, ¬ d.Pending
  | .attach c n => ((s.clients c).missed s.bus.log).length ≤ 500 ∨ n < 500
  | _ => True

/-- All a step can do. -/
inductive StreamStep (s : StreamState) : StreamLabel → StreamState → Prop
  | subscribe (pattern : String) (k : ℕ) :
    StreamStep s (.subscribe pattern k) { s with bus := s.bus.subscribe pattern (.other k) }
  | unsubscribe {i : ℕ} (h : s.bus.subscribers[i]?.any fun x => x.handler ≠ .hub) :
    StreamStep s (.unsubscribe i) { s with bus := s.bus.unsubscribe i }
  | construct (h : hasHub s.bus.subscribers = false) :
    StreamStep s .construct { s with bus := s.bus.subscribe "*" .hub }
  | publish {p : Partial} {id now createdAt : String} {e : Event} {log : Log}
      (he : p.toEvent id now createdAt = some e) (hlog : s.bus.log.insert e = some log) :
    StreamStep s (.publish p id now createdAt)
      { s with bus := { log := log, subscribers := s.bus.subscribers,
                        stack := ⟨e, s.bus.audience e, false⟩ :: s.bus.stack } }
  | enter {e : Event} {pattern : String} {k : ℕ} {rest : List (Subscriber Handler)}
      {stack : List (Dispatch Handler)}
      (hs : s.bus.stack = ⟨e, ⟨pattern, .other k⟩ :: rest, false⟩ :: stack) :
    StreamStep s .enter { s with bus := { s.bus with stack := ⟨e, rest, true⟩ :: stack } }
  | leave {e : Event} {rest : List (Subscriber Handler)} {stack : List (Dispatch Handler)}
      (hs : s.bus.stack = ⟨e, rest, true⟩ :: stack) :
    StreamStep s .leave { s with bus := { s.bus with stack := ⟨e, rest, false⟩ :: stack } }
  | broadcast {e : Event} {pattern : String} {rest : List (Subscriber Handler)}
      {stack : List (Dispatch Handler)}
      (hs : s.bus.stack = ⟨e, ⟨pattern, .hub⟩ :: rest, false⟩ :: stack) :
    StreamStep s .broadcast
      { bus := { s.bus with stack := ⟨e, rest, false⟩ :: stack }
        clients := fun c => (s.clients c).write e }
  | finish {e : Event} {stack : List (Dispatch Handler)}
      (hs : s.bus.stack = ⟨e, [], false⟩ :: stack) :
    StreamStep s .finish { s with bus := { s.bus with stack := stack } }
  | attach {c n : ℕ} (hs : s.bus.stack = []) (hhub : hasHub s.bus.subscribers = true)
      (hc : (s.clients c).connected = false) :
    StreamStep s (.attach c n)
      (s.setClient c ((s.clients c).attach s.bus.log n))
  | disconnect (c : ℕ) :
    StreamStep s (.disconnect c) (s.setClient c { s.clients c with connected := false })
  | restart :
    StreamStep s .restart
      { bus := .new s.bus.log, clients := fun c => { s.clients c with connected := false } }

theorem streamStep_of_perform {s t : StreamState} {l : StreamLabel}
    (h : performStream s l = some t) : StreamStep s l t := by
  cases l with
  | subscribe pattern k =>
    simp only [performStream, ite_none_right_eq_some] at h
    obtain ⟨_, h⟩ := h
    cases h
    exact .subscribe ..
  | unsubscribe i =>
    simp only [performStream, ite_none_right_eq_some] at h
    obtain ⟨⟨_, hi⟩, h⟩ := h
    cases h
    exact .unsubscribe hi
  | construct =>
    simp only [performStream, ite_none_right_eq_some] at h
    obtain ⟨⟨_, hhub⟩, h⟩ := h
    cases h
    exact .construct hhub
  | publish p id now createdAt =>
    simp only [performStream, ite_none_right_eq_some] at h
    obtain ⟨_, h⟩ := h
    obtain ⟨bus, hb, rfl⟩ := map_eq_some_iff.1 h
    obtain ⟨e, log, he, hlog, rfl⟩ := Bus.publish_eq hb
    exact .publish he hlog
  | enter =>
    simp only [performStream] at h
    split at h
    · rename_i he
      cases h
      obtain ⟨pattern, rest, stack, hs, rfl⟩ := Bus.enter_eq he
      exact .enter hs
    · cases h
  | leave =>
    obtain ⟨bus, hb, rfl⟩ := map_eq_some_iff.1 h
    obtain ⟨e, rest, stack, hs, rfl⟩ := Bus.leave_eq hb
    exact .leave hs
  | broadcast =>
    simp only [performStream] at h
    split at h
    · rename_i he
      obtain ⟨pattern, rest, stack, hs, rfl⟩ := Bus.enter_eq he
      cases h
      exact .broadcast hs
    · cases h
  | finish =>
    obtain ⟨bus, hb, rfl⟩ := map_eq_some_iff.1 h
    obtain ⟨e, stack, hs, rfl⟩ := Bus.finish_eq hb
    exact .finish hs
  | attach c n =>
    simp only [performStream, ite_none_right_eq_some, List.isEmpty_iff] at h
    obtain ⟨⟨hs, hhub, hc⟩, h⟩ := h
    cases h
    exact .attach hs hhub hc
  | disconnect c =>
    cases h
    exact .disconnect c
  | restart =>
    cases h
    exact .restart

/-! ### What the bus keeps -/

/-- How often the hub is called. -/
def hubs (subscribers : List (Subscriber Handler)) : ℕ :=
  subscribers.countP fun x => x.handler = .hub

theorem hasHub_iff {l : List (Subscriber Handler)} :
    hasHub l = true ↔ ∃ x ∈ l, x.handler = .hub := by
  simp [hasHub]

theorem hubs_eq_zero {l : List (Subscriber Handler)} (h : hasHub l = false) : hubs l = 0 := by
  rw [hubs, countP_eq_zero]
  intro x hx
  simpa using (List.any_eq_false.1 h) x hx

/-- The stack against the log; the hub is subscribed once, to everything. -/
structure Bus.Sound (b : Bus Handler) : Prop where
  logged : ∀ d ∈ b.stack, ∃ r ∈ b.log.rows, r.id = d.event.id
  ordered : b.stack.Pairwise fun d d' =>
    b.log.position d'.event.id < b.log.position d.event.id
  oneHub : hubs b.subscribers ≤ 1
  oneLeft : ∀ d ∈ b.stack, hubs d.rest ≤ 1
  star : ∀ x ∈ b.subscribers, x.handler = .hub → x.pattern = "*"

namespace Bus.Sound

variable {b : Bus Handler} {e : Event} {log : Log}

theorem hasHub_audience (hb : b.Sound) (e : Event) :
    hasHub (b.audience e) = hasHub b.subscribers := by
  rw [Bool.eq_iff_iff, hasHub_iff, hasHub_iff]
  constructor
  · rintro ⟨x, hx, hh⟩
    exact ⟨x, mem_of_mem_filter hx, hh⟩
  · rintro ⟨x, hx, hh⟩
    refine ⟨x, mem_filter.2 ⟨hx, ?_⟩, hh⟩
    rw [hb.star x hx hh, matchesPattern_star]

theorem publish (hb : b.Sound) (hlog : b.log.insert e = some log) :
    Bus.Sound { log := log, subscribers := b.subscribers,
                stack := ⟨e, b.audience e, false⟩ :: b.stack } := by
  obtain ⟨hrows, _⟩ := Log.insert_eq hlog
  have hnew : EventRow.ofEvent b.log.nextRowid e ∈ log.rows := by rw [hrows]; simp
  have hold : ∀ r ∈ b.log.rows, r ∈ log.rows := fun r hr => by
    rw [hrows]; exact mem_append_left _ hr
  refine ⟨?_, pairwise_cons.2 ⟨?_, ?_⟩, hb.oneHub, ?_, hb.star⟩
  · intro d hd
    rcases mem_cons.1 hd with rfl | hd
    · exact ⟨_, hnew, rfl⟩
    · obtain ⟨r, hr, hid⟩ := hb.logged d hd
      exact ⟨r, hold r hr, hid⟩
  · intro d hd
    obtain ⟨r, hr, hid⟩ := hb.logged d hd
    have he : log.position e.id = b.log.nextRowid := Log.position_of_mem hnew
    rw [← hid, he, Log.position_of_mem (hold r hr)]
    exact Log.rowid_lt_nextRowid hr
  · -- The rows of the outer events have not moved.
    refine hb.ordered.imp_of_mem fun {d d'} hd hd' h => ?_
    obtain ⟨r, hr, hid⟩ := hb.logged d hd
    obtain ⟨r', hr', hid'⟩ := hb.logged d' hd'
    rwa [← hid, ← hid', Log.position_insert hlog hr, Log.position_insert hlog hr', hid, hid']
  · intro d hd
    rcases mem_cons.1 hd with rfl | hd
    · exact (filter_sublist.countP_le).trans hb.oneHub
    · exact hb.oneLeft d hd

theorem subscribers (hb : b.Sound) {l : List (Subscriber Handler)} (h : hubs l ≤ 1)
    (hstar : ∀ x ∈ l, x.handler = .hub → x.pattern = "*") :
    Bus.Sound { b with subscribers := l } :=
  ⟨hb.logged, hb.ordered, h, hb.oneLeft, hstar⟩

theorem top (hb : b.Sound) {rest rest' : List (Subscriber Handler)} {f f' : Bool}
    {stack : List (Dispatch Handler)} (hs : b.stack = ⟨e, rest, f⟩ :: stack)
    (hrest : rest'.Sublist rest) : Bus.Sound { b with stack := ⟨e, rest', f'⟩ :: stack } := by
  obtain ⟨hlogged, hordered, hone, hleft, hstar⟩ := hb
  rw [hs] at hlogged hordered hleft
  refine ⟨?_, ?_, hone, ?_, hstar⟩
  · simpa using hlogged
  · simpa using hordered
  · intro d hd
    rcases mem_cons.1 hd with rfl | hd
    · exact hrest.countP_le.trans (hleft _ mem_cons_self)
    · exact hleft d (mem_cons_of_mem _ hd)

theorem pop (hb : b.Sound) {d : Dispatch Handler} {stack : List (Dispatch Handler)}
    (hs : b.stack = d :: stack) : Bus.Sound { b with stack := stack } := by
  obtain ⟨hlogged, hordered, hone, hleft, hstar⟩ := hb
  rw [hs] at hlogged hordered hleft
  exact ⟨fun d hd => hlogged d (mem_cons_of_mem _ hd), (pairwise_cons.1 hordered).2,
    hone, fun d hd => hleft d (mem_cons_of_mem _ hd), hstar⟩

theorem new (log : Log) : Bus.Sound (.new log) :=
  ⟨by simp [Bus.new], by simp [Bus.new], by simp [Bus.new, hubs], by simp [Bus.new],
    by simp [Bus.new]⟩

end Bus.Sound

/-- Every step keeps the dispatches and the log in line. -/
theorem Bus.Sound.step {s t : StreamState} {l : StreamLabel} (hs : StreamStep s l t)
    (hb : s.bus.Sound) : t.bus.Sound := by
  cases hs with
  | subscribe pattern k =>
    refine hb.subscribers ?_ ?_
    · simpa [hubs, countP_append] using hb.oneHub
    · intro x hx hh
      rcases List.mem_append.1 hx with hx | hx
      · exact hb.star x hx hh
      · obtain rfl := mem_singleton.1 hx
        cases hh
  | unsubscribe h =>
    exact hb.subscribers ((eraseIdx_sublist ..).countP_le.trans hb.oneHub)
      fun x hx => hb.star x (mem_of_mem_eraseIdx hx)
  | construct h =>
    refine hb.subscribers ?_ ?_
    · have := hubs_eq_zero h
      simp only [hubs] at this
      simp [hubs, countP_append, this]
    · intro x hx hh
      rcases List.mem_append.1 hx with hx | hx
      · exact hb.star x hx hh
      · obtain rfl := mem_singleton.1 hx
        rfl
  | publish he hlog => exact hb.publish hlog
  | enter h => exact hb.top h (sublist_cons_self ..)
  | leave h => exact hb.top h (Sublist.refl _)
  | broadcast h => exact hb.top h (sublist_cons_self ..)
  | finish h => exact hb.pop h
  | attach h => exact hb
  | disconnect c => exact hb
  | restart => exact .new _

/-! ### What a client has -/

/-- What a client has received, against the log and the stack. -/
structure Client.Served (cl : Client) (b : Bus Handler) : Prop where
  begun : cl.since < b.log.nextRowid
  received : ∀ e ∈ cl.received, ∃ r ∈ b.log.rows, r.id = e.id ∧ cl.since < r.rowid
  sorted : cl.received.Pairwise fun e e' => b.log.position e.id < b.log.position e'.id
  upTo : ∀ r ∈ b.log.rows, cl.since < r.rowid → ∀ e ∈ cl.received,
    r.rowid ≤ b.log.position e.id → cl.Has r
  hub : cl.connected = true → hasHub b.subscribers = true
  /-- What a connected client does not have is on its way to the hub. -/
  live : cl.connected = true → ∀ r ∈ b.log.rows, cl.since < r.rowid →
    cl.Has r ∨ ∃ d ∈ b.stack, d.Pending ∧ d.event.id = r.id
  ahead : cl.connected = true → ∀ d ∈ b.stack, cl.since < b.log.position d.event.id
  unseen : cl.connected = true → ∀ d ∈ b.stack, d.Pending → ∀ e ∈ cl.received,
    b.log.position e.id < b.log.position d.event.id

namespace Client.Served

variable {b b' : Bus Handler} {cl : Client} {e : Event} {log : Log} {n : ℕ}

theorem logged (h : cl.Served b) (he : e ∈ cl.received) : ∃ r ∈ b.log.rows, r.id = e.id := by
  obtain ⟨r, hr, hid, _⟩ := h.received e he
  exact ⟨r, hr, hid⟩

theorem disconnected (h : cl.Served b) : Client.Served { cl with connected := false } b :=
  ⟨h.begun, h.received, h.sorted, h.upTo, nofun, nofun, nofun, nofun⟩

theorem le_last (h : cl.Served b) {id : String} (hl : cl.lastEventId = some id)
    (he : e ∈ cl.received) : b.log.position e.id ≤ b.log.position id := by
  obtain ⟨x, hx, rfl⟩ := map_eq_some_iff.1 hl
  obtain ⟨ys, hys⟩ := getLast?_eq_some_iff.1 hx
  have hs := h.sorted
  rw [hys] at hs he
  rcases List.mem_append.1 he with he | he
  · exact ((pairwise_append.1 hs).2.2 e he x mem_cons_self).le
  · obtain rfl := mem_singleton.1 he
    exact le_rfl

theorem mem_last {id : String} (hl : cl.lastEventId = some id) : ∃ x ∈ cl.received, x.id = id := by
  obtain ⟨x, hx, rfl⟩ := map_eq_some_iff.1 hl
  exact ⟨x, mem_of_getLast? hx, rfl⟩

theorem has_iff {r : EventRow} : cl.Has r ↔ ∃ x ∈ cl.received, x.id = r.id := by
  simp [Client.Has, Client.ids]

theorem positioned (h : cl.Served b) : cl.Positioned b.log := by
  intro id hid r hr hlt hle
  obtain ⟨x, hx, rfl⟩ := mem_last hid
  exact h.upTo r hr hlt x hx hle

theorem complete (h : cl.Served b) (hc : cl.connected = true) (hs : b.stack = []) :
    cl.Complete b.log := by
  intro r hr hlt
  rcases h.live hc r hr hlt with hhas | ⟨d, hd, _⟩
  · exact hhas
  · rw [hs] at hd
    cases hd

theorem of_not_connected (h : cl.Served b) (hc : cl.connected = false) (hlog : b'.log = b.log) :
    cl.Served b' := by
  obtain ⟨hbegun, hreceived, hsorted, hupTo, _⟩ := h
  rw [← hlog] at hbegun hreceived hsorted hupTo
  refine ⟨hbegun, hreceived, hsorted, hupTo, ?_, ?_, ?_, ?_⟩ <;>
    exact fun hc' => absurd hc' (by simp [hc])

theorem congr (h : cl.Served b) (hlog : b'.log = b.log)
    (hhub : hasHub b.subscribers = true → hasHub b'.subscribers = true)
    (hto : ∀ d' ∈ b'.stack, ∃ d ∈ b.stack, d.event = d'.event ∧ (d'.Pending → d.Pending))
    (hfrom : ∀ d ∈ b.stack, d.Pending → ∃ d' ∈ b'.stack, d'.Pending ∧ d'.event = d.event) :
    cl.Served b' := by
  obtain ⟨hbegun, hreceived, hsorted, hupTo, hh, hlive, hahead, hunseen⟩ := h
  rw [← hlog] at hbegun hreceived hsorted hupTo hlive hahead hunseen
  refine ⟨hbegun, hreceived, hsorted, hupTo, fun hc => hhub (hh hc), ?_, ?_, ?_⟩
  · intro hc r hr hlt
    rcases hlive hc r hr hlt with hhas | ⟨d, hd, hp, hid⟩
    · exact .inl hhas
    · obtain ⟨d', hd', hp', he⟩ := hfrom d hd hp
      exact .inr ⟨d', hd', hp', by rw [he, hid]⟩
  · intro hc d' hd'
    obtain ⟨d, hd, he, _⟩ := hto d' hd'
    rw [← he]
    exact hahead hc d hd
  · intro hc d' hd' hp'
    obtain ⟨d, hd, he, hp⟩ := hto d' hd'
    rw [← he]
    exact hunseen hc d hd (hp hp')

theorem subscribers (h : cl.Served b) {l : List (Subscriber Handler)}
    (hl : ∀ x ∈ b.subscribers, x.handler = .hub → x ∈ l) :
    cl.Served { b with subscribers := l } := by
  refine h.congr rfl ?_ (fun d hd => ⟨d, hd, rfl, id⟩) fun d hd hp => ⟨d, hd, hp, rfl⟩
  simp only [hasHub_iff]
  rintro ⟨x, hx, hh⟩
  exact ⟨x, hl x hx hh, hh⟩

theorem top (h : cl.Served b) {rest rest' : List (Subscriber Handler)} {f f' : Bool}
    {stack : List (Dispatch Handler)} (hs : b.stack = ⟨e, rest, f⟩ :: stack)
    (hrest : hasHub rest' = hasHub rest) :
    cl.Served { b with stack := ⟨e, rest', f'⟩ :: stack } := by
  refine h.congr rfl id ?_ ?_
  · intro d' hd'
    rcases mem_cons.1 hd' with rfl | hd'
    · exact ⟨⟨e, rest, f⟩, by rw [hs]; exact mem_cons_self, rfl, fun hp => hrest.symm.trans hp⟩
    · exact ⟨d', by rw [hs]; exact mem_cons_of_mem _ hd', rfl, id⟩
  · intro d hd hp
    rw [hs] at hd
    rcases mem_cons.1 hd with rfl | hd
    · exact ⟨⟨e, rest', f'⟩, mem_cons_self, hrest.trans hp, rfl⟩
    · exact ⟨d, mem_cons_of_mem _ hd, hp, rfl⟩

theorem pop (h : cl.Served b) {d : Dispatch Handler} {stack : List (Dispatch Handler)}
    (hs : b.stack = d :: stack) (hd : ¬ d.Pending) : cl.Served { b with stack := stack } := by
  refine h.congr rfl id ?_ ?_
  · intro d' hd'
    exact ⟨d', by rw [hs]; exact mem_cons_of_mem _ hd', rfl, id⟩
  · intro d' hd' hp
    rw [hs] at hd'
    rcases mem_cons.1 hd' with rfl | hd'
    · exact absurd hp hd
    · exact ⟨d', hd', hp, rfl⟩

/-- A client is still served when an event is published. -/
theorem publish (h : cl.Served b) (hb : b.Sound) (hlog : b.log.insert e = some log) :
    cl.Served { log := log, subscribers := b.subscribers,
                stack := ⟨e, b.audience e, false⟩ :: b.stack } := by
  obtain ⟨hrows, _⟩ := Log.insert_eq hlog
  have hnew : EventRow.ofEvent b.log.nextRowid e ∈ log.rows := by rw [hrows]; simp
  have hold : ∀ r ∈ b.log.rows, r ∈ log.rows := fun r hr => by
    rw [hrows]; exact mem_append_left _ hr
  have hpe : log.position e.id = b.log.nextRowid := Log.position_of_mem hnew
  -- The ids of the log keep their places, all before the new one.
  have hpos : ∀ id, (∃ r ∈ b.log.rows, r.id = id) →
      log.position id = b.log.position id ∧ log.position id < b.log.nextRowid := by
    rintro id ⟨r, hr, rfl⟩
    rw [Log.position_insert hlog hr, Log.position_of_mem hr]
    exact ⟨rfl, Log.rowid_lt_nextRowid hr⟩
  have hcases : ∀ r ∈ log.rows, r ∈ b.log.rows ∨ r = .ofEvent b.log.nextRowid e := by
    intro r hr
    rw [hrows] at hr
    simpa using hr
  refine ⟨h.begun.trans (Log.rowid_lt_nextRowid hnew), ?_, ?_, ?_, h.hub, ?_, ?_, ?_⟩
  · intro x hx
    obtain ⟨r, hr, hid⟩ := h.received x hx
    exact ⟨r, hold r hr, hid⟩
  · refine h.sorted.imp_of_mem fun {x y} hx hy hxy => ?_
    rwa [(hpos _ (h.logged hx)).1, (hpos _ (h.logged hy)).1]
  · intro r hr hlt x hx hle
    obtain ⟨hp, hltn⟩ := hpos _ (h.logged hx)
    rcases hcases r hr with hr | rfl
    · exact h.upTo r hr hlt x hx (hp ▸ hle)
    · exact absurd (hle.trans_lt hltn) (lt_irrefl _)
  · intro hc r hr hlt
    rcases hcases r hr with hr | rfl
    · rcases h.live hc r hr hlt with hhas | ⟨d, hd, hp, hid⟩
      · exact .inl hhas
      · exact .inr ⟨d, mem_cons_of_mem _ hd, hp, hid⟩
    · exact .inr ⟨_, mem_cons_self, (hb.hasHub_audience e).trans (h.hub hc), rfl⟩
  · intro hc d hd
    rcases mem_cons.1 hd with rfl | hd
    · rw [hpe]
      exact h.begun
    · rw [(hpos _ (hb.logged d hd)).1]
      exact h.ahead hc d hd
  · intro hc d hd hp x hx
    obtain ⟨hpx, hltx⟩ := hpos _ (h.logged hx)
    rcases mem_cons.1 hd with rfl | hd
    · rw [hpe]
      exact hltx
    · rw [hpx, (hpos _ (hb.logged d hd)).1]
      exact h.unseen hc d hd hp x hx

/-- A client is still served when the hub writes it the event on top. -/
theorem write (h : cl.Served b) (hb : b.Sound) {pattern : String}
    {rest : List (Subscriber Handler)} {stack : List (Dispatch Handler)}
    (hs : b.stack = ⟨e, ⟨pattern, .hub⟩ :: rest, false⟩ :: stack)
    (ho : cl.connected = true → ∀ d ∈ stack, ¬ d.Pending) :
    (cl.write e).Served { b with stack := ⟨e, rest, false⟩ :: stack } := by
  unfold Client.write
  by_cases hc : cl.connected = true
  swap
  · rw [if_neg hc]
    exact h.of_not_connected (by simpa using hc) rfl
  rw [if_pos hc]
  have htop : ⟨e, ⟨pattern, .hub⟩ :: rest, false⟩ ∈ b.stack := by rw [hs]; exact mem_cons_self
  have hrest : hasHub rest = false := by
    -- The hub is called once for each event.
    rw [Bool.eq_false_iff, Ne, hasHub_iff]
    rintro ⟨x, hx, hh⟩
    have hpos : 0 < hubs rest := countP_pos_iff.2 ⟨x, hx, by simpa using hh⟩
    have hone := hb.oneLeft _ htop
    simp only [hubs, countP_cons, decide_true, if_true] at hone hpos
    omega
  have hunseen := h.unseen hc _ htop (by simp [Dispatch.Pending, hasHub])
  have hdead : ∀ d ∈ (⟨e, rest, false⟩ :: stack : List (Dispatch Handler)), ¬ d.Pending := by
    intro d hd
    rcases mem_cons.1 hd with rfl | hd
    · simp [Dispatch.Pending, hrest]
    · exact ho hc d hd
  have hlive : ∀ r ∈ b.log.rows, cl.since < r.rowid → r.id ∈ (cl.received ++ [e]).map Event.id := by
    intro r hr hlt
    rw [map_append, List.mem_append]
    rcases h.live hc r hr hlt with hhas | ⟨d, hd, hp, hid⟩
    · exact .inl hhas
    · rw [hs] at hd
      rcases mem_cons.1 hd with rfl | hd
      · exact .inr (by simpa using hid.symm)
      · exact absurd hp (ho hc d hd)
  refine ⟨h.begun, ?_, ?_, fun r hr hlt _ _ _ => hlive r hr hlt, h.hub,
    fun _ r hr hlt => .inl (hlive r hr hlt), ?_, fun _ d hd hp => absurd hp (hdead d hd)⟩
  · intro x hx
    rcases List.mem_append.1 hx with hx | hx
    · exact h.received x hx
    · obtain rfl := mem_singleton.1 hx
      obtain ⟨r, hr, hid⟩ := hb.logged _ htop
      refine ⟨r, hr, hid, ?_⟩
      rw [← Log.position_of_mem hr, hid]
      exact h.ahead hc _ htop
  · refine pairwise_append.2 ⟨h.sorted, pairwise_singleton .., ?_⟩
    intro x hx y hy
    obtain rfl := mem_singleton.1 hy
    exact hunseen x hx
  · intro _ d hd
    rcases mem_cons.1 hd with rfl | hd
    · have := h.ahead hc _ htop
      exact this
    · exact h.ahead hc d (by rw [hs]; exact mem_cons_of_mem _ hd)

theorem since_lt (h : cl.Served b) {id : String} (hid : cl.lastEventId = some id) :
    cl.since < b.log.position id := by
  obtain ⟨x, hx, rfl⟩ := mem_last hid
  obtain ⟨r, hr, hrx, hlt⟩ := h.received x hx
  rwa [← hrx, Log.position_of_mem hr]

theorem replay_eq (h : cl.Served b) {id : String} (hid : cl.lastEventId = some id) :
    replay b.log cl = (b.log.page (b.log.position id) 500).map rowToEvent := by
  obtain ⟨x, hx, rfl⟩ := mem_last hid
  obtain ⟨r, hr, hrx⟩ := h.logged hx
  simp only [replay, hid, listEventsAfterId, ← hrx, Log.find_eq_some.2 ⟨hr, rfl⟩,
    Log.position_of_mem hr, show pageSize 500 = 500 from rfl]

theorem lastEventId_eq_none : cl.lastEventId = none ↔ cl.received = [] := by
  simp [Client.lastEventId]

theorem attach_first (hs : b.stack = []) (hhub : hasHub b.subscribers = true)
    (hr : cl.received = []) : (cl.attach b.log n).Served b := by
  have hnext : 0 < b.log.nextRowid := Nat.succ_pos _
  have hreplay : replay b.log cl = [] := by
    simp only [replay, lastEventId_eq_none.2 hr]
  unfold Client.attach
  rw [hreplay, hr, if_pos rfl]
  refine ⟨Nat.sub_lt hnext Nat.one_pos, by simp, by simp, by simp, fun _ => hhub, ?_, by simp [hs],
    by simp⟩
  intro _ r hrow hlt
  have := Log.rowid_lt_nextRowid hrow
  simp only at hlt
  omega

theorem attach_again (h : cl.Served b) (hs : b.stack = []) (hhub : hasHub b.subscribers = true)
    (hr : cl.received ≠ []) (ho : (cl.missed b.log).length ≤ 500 ∨ n < 500) :
    (cl.attach b.log n).Served b := by
  obtain ⟨id, hid⟩ := ne_none_iff_exists'.1 (mt lastEventId_eq_none.1 hr)
  obtain ⟨last, hlast, rfl⟩ := mem_last hid
  simp only [Client.missed, hid] at ho
  unfold Client.attach
  rw [h.replay_eq hid, if_neg hr, ← map_take, length_map]
  set page := b.log.page (b.log.position last.id) 500 with hpage
  have hpre : page.take n <+: after EventRow.rowid (b.log.position last.id) b.log.rows :=
    (List.take_prefix ..).trans page_prefix
  have hmem : ∀ r ∈ page.take n, r ∈ b.log.rows ∧ b.log.position last.id < r.rowid :=
    fun r hr => mem_after.1 (hpre.subset hr)
  have hupTo : ∀ r ∈ b.log.rows, cl.since < r.rowid →
      r.rowid ≤ b.log.position last.id ∨ r ∈ page.take n →
      r.id ∈ (cl.received ++ (page.take n).map rowToEvent).map Event.id := by
    intro r hrow hlt hcase
    rw [map_append, List.mem_append]
    rcases hcase with hle | hr
    · exact .inl (h.upTo r hrow hlt last hlast hle)
    · exact .inr (List.mem_map.2 ⟨rowToEvent r, List.mem_map_of_mem hr, rfl⟩)
  refine ⟨h.begun, ?_, ?_, ?_, fun _ => hhub, ?_, by simp [hs], by simp [hs]⟩
  · intro x hx
    rcases List.mem_append.1 hx with hx | hx
    · exact h.received x hx
    · obtain ⟨r, hr, rfl⟩ := List.mem_map.1 hx
      exact ⟨r, (hmem r hr).1, rfl, (h.since_lt hid).trans (hmem r hr).2⟩
  · refine pairwise_append.2 ⟨h.sorted, ?_, ?_⟩
    · rw [pairwise_map]
      refine (b.log.sorted.sublist (hpre.sublist.trans filter_sublist)).imp_of_mem ?_
      intro r q hr hq hlt
      simpa [Log.position_of_mem (hmem r hr).1, Log.position_of_mem (hmem q hq).1] using hlt
    · intro x hx y hy
      obtain ⟨r, hr, rfl⟩ := List.mem_map.1 hy
      rw [rowToEvent_id, Log.position_of_mem (hmem r hr).1]
      exact (h.le_last hid hx).trans_lt (hmem r hr).2
  · intro r hrow hlt x hx hle
    refine hupTo r hrow hlt ?_
    rcases List.mem_append.1 hx with hx | hx
    · exact .inl (hle.trans (h.le_last hid hx))
    · obtain ⟨q, hq, rfl⟩ := List.mem_map.1 hx
      rw [rowToEvent_id, Log.position_of_mem (hmem q hq).1] at hle
      rcases le_or_gt r.rowid (b.log.position last.id) with hle' | hlt'
      · exact .inl hle'
      · exact .inr (mem_of_prefix_after b.log.sorted hpre hq hrow hlt' hle)
  · -- A page that arrived whole and is not cut short has all that was missing.
    intro hc r hrow hlt
    have hc : page.length ≤ n := by simpa using hc
    have hall : (after EventRow.rowid (b.log.position last.id) b.log.rows).length ≤ 500 := by
      rcases ho with ho | ho
      · exact ho
      · rw [hpage, Log.page, length_take] at hc
        omega
    refine .inl (hupTo r hrow hlt ?_)
    rw [take_of_length_le hc, hpage, page_all hall]
    rcases le_or_gt r.rowid (b.log.position last.id) with hle | hlt'
    · exact .inl hle
    · exact .inr (mem_after.2 ⟨hrow, hlt'⟩)

end Client.Served

/-! ### Runs -/

/-- The bus and every client. -/
structure StreamState.Sound (s : StreamState) : Prop where
  bus : s.bus.Sound
  clients : ∀ c, (s.clients c).Served s.bus

namespace StreamState.Sound

variable {s t : StreamState} {l : StreamLabel}

theorem init : streamMachine.init.Sound where
  bus := .new _
  clients _ := by
    refine ⟨?_, ?_, ?_, ?_, nofun, nofun, nofun, nofun⟩ <;>
      simp [streamMachine, Machine.ofPerform, Bus.new, Log.empty, Log.nextRowid]

theorem noGaps (h : s.Sound) : s.NoGaps := fun c =>
  ⟨(h.clients c).positioned, fun hs hc => (h.clients c).complete hc hs⟩

/-- Every orderly step keeps the clients served. -/
theorem step (h : s.Sound) (hst : StreamStep s l t) (ho : Orderly s l) : t.Sound := by
  refine ⟨h.bus.step hst, fun c => ?_⟩
  cases hst with
  | subscribe pattern k =>
    exact (h.clients c).subscribers fun x hx _ => mem_append_left _ hx
  | unsubscribe hi =>
    refine (h.clients c).subscribers fun x hx hh => ?_
    obtain ⟨j, hj⟩ := mem_iff_getElem?.1 hx
    refine mem_eraseIdx_iff_getElem?.2 ⟨j, ?_, hj⟩
    rintro rfl
    simp [hj, hh] at hi
  | construct hhub =>
    exact (h.clients c).subscribers fun x hx _ => mem_append_left _ hx
  | publish he hlog => exact (h.clients c).publish h.bus hlog
  | enter hs => exact (h.clients c).top hs (by simp [hasHub])
  | leave hs => exact (h.clients c).top hs rfl
  | broadcast hs =>
    refine (h.clients c).write h.bus hs fun hc => ?_
    have := ho ⟨c, hc⟩
    rwa [hs] at this
  | finish hs => exact (h.clients c).pop hs (by simp [Dispatch.Pending, hasHub])
  | @attach c' n hs hhub hc' =>
    by_cases hcc : c = c'
    · subst hcc
      rw [StreamState.setClient_self]
      by_cases hr : (s.clients c).received = []
      · exact .attach_first hs hhub hr
      · exact (h.clients c).attach_again hs hhub hr ho
    · rw [StreamState.setClient_of_ne _ _ hcc]
      exact h.clients c
  | disconnect c' =>
    by_cases hcc : c = c'
    · subst hcc
      rw [StreamState.setClient_self]
      exact (h.clients c).disconnected
    · rw [StreamState.setClient_of_ne _ _ hcc]
      exact h.clients c
  | restart => exact (h.clients c).disconnected.of_not_connected rfl rfl

theorem gap_of_page (h : s.Sound) {c n : ℕ}
    (hm : 500 < ((s.clients c).missed s.bus.log).length) (hn : 500 ≤ n)
    (ht : ((s.clients c).attach s.bus.log n).connected = true →
      ((s.clients c).attach s.bus.log n).Complete s.bus.log) : False := by
  have hcl := h.clients c
  unfold Client.missed at hm
  cases hid : (s.clients c).lastEventId with
  | none => simp [hid] at hm
  | some id =>
    simp only [hid] at hm
    set log := s.bus.log with hlog
    set all := after EventRow.rowid (log.position id) log.rows with hall
    have hpage : replay log (s.clients c) = (all.take 500).map rowToEvent := hcl.replay_eq hid
    -- The first row past the page.
    obtain ⟨q, hq⟩ : ∃ q, q ∈ all.drop 500 := by
      refine exists_mem_of_length_pos ?_
      rw [length_drop]
      omega
    have hsorted : all.Pairwise fun a b => a.rowid < b.rowid :=
      log.sorted.sublist filter_sublist
    have hpast : ∀ r ∈ all.take 500, r.rowid < q.rowid := by
      rw [← take_append_drop 500 all] at hsorted
      exact fun r hr => (pairwise_append.1 hsorted).2.2 r hr q hq
    obtain ⟨hqrow, hqlt⟩ := mem_after.1 (mem_of_mem_drop hq)
    have hconn : ((s.clients c).attach log n).connected = true := by
      simp only [Client.attach, hpage, length_map, length_take, decide_eq_true_eq]
      omega
    have hsince : ((s.clients c).attach log n).since = (s.clients c).since := by
      have hne : (s.clients c).received ≠ [] := by
        intro hnil
        rw [Client.Served.lastEventId_eq_none.2 hnil] at hid
        cases hid
      simp only [Client.attach, if_neg hne]
    have hhas := ht hconn q hqrow (by rw [hsince]; exact (hcl.since_lt hid).trans hqlt)
    obtain ⟨x, hx, hxq⟩ := Client.Served.has_iff.1 hhas
    rcases List.mem_append.1 hx with hx | hx
    · have := hcl.le_last hid hx
      rw [hxq, Log.position_of_mem hqrow] at this
      exact absurd hqlt (not_lt.2 this)
    · rw [hpage, ← map_take] at hx
      obtain ⟨r, hr, rfl⟩ := List.mem_map.1 hx
      have hr := mem_of_mem_take hr
      have hrow := (mem_after.1 (mem_of_mem_take hr)).1
      obtain rfl := Log.eq_of_id_eq hrow hqrow hxq
      exact lt_irrefl _ (hpast r hr)

theorem gap (h : s.Sound) (hst : StreamStep s l t) (ho : ¬ Orderly s l) : ¬ t.NoGaps := by
  intro ht
  cases hst with
  | @broadcast e pattern rest stack hs =>
    -- The inner event overtook `d`, which the client does not have.
    simp only [Orderly, hs, tail_cons, not_forall, not_not] at ho
    obtain ⟨⟨c, hc⟩, d, hd, hp⟩ := ho
    have hcl := h.clients c
    have hds : d ∈ s.bus.stack := by rw [hs]; exact mem_cons_of_mem _ hd
    obtain ⟨r, hr, hid⟩ := h.bus.logged d hds
    have hlt : s.bus.log.position d.event.id < s.bus.log.position e.id := by
      have := h.bus.ordered
      rw [hs] at this
      exact (pairwise_cons.1 this).1 d hd
    have hpos := Log.position_of_mem hr
    have hw : (s.clients c).write e =
        { s.clients c with received := (s.clients c).received ++ [e] } := if_pos hc
    have hat : ((s.clients c).write e).Positioned s.bus.log := (ht c).1
    rw [hw] at hat
    have hhas := hat e.id (by simp [Client.lastEventId]) r hr
      (by rw [← hpos, hid]; exact hcl.ahead hc d hds) (by rw [← hpos, hid]; exact hlt.le)
    obtain ⟨x, hx, hxr⟩ := Client.Served.has_iff.1 hhas
    rcases List.mem_append.1 hx with hx | hx
    · have := hcl.unseen hc d hds hp x hx
      rw [hxr, hid] at this
      exact lt_irrefl _ this
    · obtain rfl := mem_singleton.1 hx
      rw [hxr, hid] at hlt
      exact lt_irrefl _ hlt
  | @attach c n hs hhub hc =>
    simp only [Orderly, not_or, not_le, not_lt] at ho
    refine h.gap_of_page ho.1 ho.2 ?_
    have := (ht c).2 hs
    rwa [StreamState.setClient_self] at this
  | _ => exact ho trivial

end StreamState.Sound

theorem sound_of_run {h : List StreamLabel} {s : StreamState}
    (hr : (streamMachine.restrict fun s l _ => Orderly s l).Run h s) : s.Sound :=
  hr.invariant StreamState.Sound.init fun _ _ _ hs hst =>
    hs.step (streamStep_of_perform hst.1) hst.2

/-- A handler subscribed before the hub publishes while it is handed an event; the client loses
its connection between the two. -/
def overtakenRun : List StreamLabel :=
  [.subscribe "*" 1, .construct, .attach 0 0,
    .publish (.ofType "goal.changed") "outer" "t" "t", .enter,
    .publish (.ofType "memory.changed") "inner" "t" "t", .enter, .leave, .broadcast,
    .disconnect 0, .finish, .leave, .broadcast, .finish, .attach 0 1]

/-- A client, beside the log. -/
structure ClientView where
  idle : Bool
  connected : Bool
  since : ℕ
  ids : List String
  logged : List String
  rowids : List ℕ
deriving DecidableEq

/-- What a state says of a client. -/
def StreamState.view (s : StreamState) (c : ℕ) : ClientView where
  idle := s.bus.stack.isEmpty
  connected := (s.clients c).connected
  since := (s.clients c).since
  ids := (s.clients c).ids
  logged := s.bus.log.rows.map EventRow.id
  rowids := s.bus.log.rows.map EventRow.rowid

/-- The client comes back after the inner event and never gets the outer one. -/
theorem inner_event_overtakes : ∃ s, streamMachine.Run overtakenRun s ∧ ¬ s.NoGaps := by
  have hview : (Machine.drive performStream (fun _ _ => true) streamMachine.init overtakenRun).map
      (fun s => s.view 0) =
      some ⟨true, true, 0, ["inner"], ["outer", "inner"], [1, 2]⟩ := by decide +kernel
  obtain ⟨s, hs, hv⟩ := map_eq_some_iff.1 hview
  simp only [StreamState.view, ClientView.mk.injEq] at hv
  obtain ⟨hstack, hconn, hsince, hids, hlog, hrowids⟩ := hv
  refine ⟨s, Machine.run_drive hs, fun hno => ?_⟩
  obtain ⟨r, hr, hrid⟩ := List.mem_map.1 (hlog ▸ mem_cons_self : "outer" ∈ _)
  have hpos : 0 < r.rowid := by
    have hmem : r.rowid ∈ [1, 2] := hrowids ▸ List.mem_map_of_mem hr
    simp only [mem_cons, not_mem_nil, or_false] at hmem
    omega
  have hhas := (hno 0).2 (List.isEmpty_iff.1 hstack) hconn r hr (by rw [hsince]; exact hpos)
  rw [Client.Has, hids, hrid] at hhas
  simp at hhas

/-- A run of orderly steps leaves no gap, and a step that is not orderly makes one: the stream
has no gaps along a run exactly when all its steps are orderly. -/
theorem stream_noGaps {h : List StreamLabel} {s : StreamState}
    (hr : (streamMachine.restrict fun s l _ => Orderly s l).Run h s) :
    s.NoGaps ∧ ∀ l t, streamMachine.step s l t → ¬ Orderly s l → ¬ t.NoGaps :=
  ⟨(sound_of_run hr).noGaps, fun _ _ hst ho => (sound_of_run hr).gap (streamStep_of_perform hst) ho⟩

/-- A check for `Orderly`. -/
def isOrderly (s : StreamState) : StreamLabel → Bool
  | .broadcast => s.bus.stack.tail.all fun d => !hasHub d.rest
  | .attach c n => ((s.clients c).missed s.bus.log).length ≤ 500 || n < 500
  | _ => true

theorem orderly_of_isOrderly (s : StreamState) (l : StreamLabel) (h : isOrderly s l = true) :
    Orderly s l := by
  cases l with
  | broadcast =>
    intro _ d hd hp
    have := List.all_eq_true.1 h d hd
    rw [show hasHub d.rest = true from hp] at this
    cases this
  | attach c n => simpa [isOrderly, Orderly] using h
  | _ => trivial

/-- A client misses two events and comes back for them. -/
def resumedRun : List StreamLabel :=
  [.construct, .attach 0 0, .publish (.ofType "goal.changed") "evt-1" "t" "t", .broadcast,
    .finish, .disconnect 0, .publish (.ofType "goal.changed") "evt-2" "t" "t", .broadcast, .finish,
    .publish (.ofType "goal.changed") "evt-3" "t" "t", .broadcast, .finish, .attach 0 2]

theorem stream_noGaps_resumedRun : ∃ s, streamMachine.Run resumedRun s ∧ s.NoGaps ∧
    (s.clients 0).ids = ["evt-1", "evt-2", "evt-3"] := by
  have hids : (Machine.drive performStream isOrderly streamMachine.init resumedRun).map
      (fun s => (s.clients 0).ids) = some ["evt-1", "evt-2", "evt-3"] := by decide +kernel
  obtain ⟨s, hs, hv⟩ := map_eq_some_iff.1 hids
  have hr : (streamMachine.restrict fun s l _ => Orderly s l).Run resumedRun s :=
    Machine.steps_drive orderly_of_isOrderly hs
  exact ⟨s, hr.of_restrict, (stream_noGaps hr).1, hv⟩

end U2os.Server.Events
