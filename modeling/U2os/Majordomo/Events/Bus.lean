import Mathlib.Data.List.Basic
import U2os.Lib.Run
import U2os.Majordomo.Events.Log

/-!
# The event bus

Live delivery of the event log (`events.rs`).  One thread at a time announces the events that
are not announced yet (`deliver_pending`, under the lock of the bus), offering each of them to
the bounded channel of every subscriber.  A subscription returns events from its channel; when
the channel was full and an event was lost (`lagged`), it empties the channel and reads the
log again from its cursor.

The machine interleaves insertions into the log, the steps of `deliver_pending` and the steps
of every `recv_timeout`.  One offer to one channel is one step, which sets the flag of the
subscriber when the channel is full; inside `recv_timeout`, looking at the buffer and the flag,
taking one event from the channel and reading one batch of the log are one step each.

The source stores the flag right after the refused offer.  Runs in which the receiver empties
its channel between the two and is then offered the next event are not among those of the
machine: an offer and its flag are not interrupted.
-/

namespace U2os.Majordomo

def replayBatch : ℕ := 256

def maxSubscribers : ℕ := 64

/-- Where a subscription starts. -/
inductive Cursor where
  /-- From the first event. -/
  | start
  /-- Past a number. -/
  | past (seq : Int)
  /-- Past what was announced so far. -/
  | now
  deriving DecidableEq

/-- The cursor of a new subscription. -/
def Cursor.seq (delivered : ℕ) : Cursor → ℕ
  | .start => 0
  | .past seq => seq.toNat
  | .now => delivered

/-- Whether a new subscription begins with the log. -/
def Cursor.replay : Cursor → Bool
  | .start | .past _ => true
  | .now => false

/-- Where the receiving thread is in `recv_timeout`. -/
inductive Position where
  /-- Outside of it. -/
  | idle
  /-- At the head of the loop. -/
  | top
  /-- Emptying the channel. -/
  | drain
  /-- In `refill`. -/
  | refill
  /-- Waiting for the channel. -/
  | receive
  deriving DecidableEq

/-- A subscription, with its channel and flag and the position of its thread. -/
structure Subscription where
  pattern : String
  cursor : ℕ
  needsReplay : Bool
  buffer : List Event := []
  /-- What the bounded channel holds, oldest first. -/
  channel : List Event := []
  lagged : Bool := false
  position : Position := .idle
  /-- The receiver was dropped. -/
  dropped : Bool := false

/-- The event is one of the subscription's. -/
def Subscription.wants (s : Subscription) (e : Event) : Bool := matchesPattern s.pattern e.eventType

def Subscription.new (delivered : ℕ) (pattern : String) (from_ : Cursor) : Subscription where
  pattern := pattern
  cursor := from_.seq delivered
  needsReplay := from_.replay

/-- One step of `recv_timeout`; its second part is what the call returns, if it does. -/
def Subscription.recvStep (log : EventLog) (s : Subscription) :
    Subscription × Option (Option Event) :=
  match s.position with
  | .idle => ({ s with position := .top }, none)
  | .top =>
    match s.buffer with
    | e :: rest => ({ s with buffer := rest, cursor := e.seq, position := .idle }, some (some e))
    | [] =>
      if s.lagged then ({ s with lagged := false, position := .drain }, none)
      else ({ s with position := if s.needsReplay then .refill else .receive }, none)
  | .drain =>
    match s.channel with
    | _ :: rest => ({ s with channel := rest }, none)
    | [] => ({ s with needsReplay := true, position := .refill }, none)
  | .refill =>
    let batch := log.readAfter s.cursor replayBatch
    match s.buffer ++ batch.filter s.wants, batch.getLast? with
    | e :: rest, _ => ({ s with buffer := e :: rest, position := .top }, none)
    -- Everything in the batch was filtered out; skip past it and read again.
    | [], some last => ({ s with cursor := last.seq }, none)
    | [], none => ({ s with needsReplay := false, position := .receive }, none)
  | .receive =>
    match s.channel with
    | e :: rest =>
      if s.cursor < e.seq then
        ({ s with channel := rest, cursor := e.seq, position := .idle }, some (some e))
      else ({ s with channel := rest, position := .top }, none)
    -- The wait for the channel is over.
    | [] => ({ s with position := .idle }, some none)

/-- Where the announcing thread is in `deliver_pending`; the first component of each is the
number of events it has announced. -/
inductive Delivery where
  /-- Nobody holds the lock. -/
  | idle
  /-- About to read the next batch. -/
  | reading (total : ℕ)
  /-- The rest of a batch. -/
  | announcing (total : ℕ) (batch : List Event)
  /-- The subscribers that the event was not offered to yet, and the rest of the batch. -/
  | sending (total : ℕ) (e : Event) (todo : List ℕ) (batch : List Event)

/-- The bus over its log.  Subscribers are named by numbers. -/
structure Bus where
  log : EventLog
  /-- The last event announced. -/
  delivered : ℕ
  delivery : Delivery
  subscribers : List ℕ
  subscription : ℕ → Option Subscription

namespace Bus

/-- A subscription changes. -/
def set (b : Bus) (k : ℕ) (s : Subscription) : Bus :=
  { b with subscription := Function.update b.subscription k (some s) }

/-- `try_send` to one subscriber, with what `deliver_pending` makes of its result. -/
def trySend (capacity : ℕ) (b : Bus) (k : ℕ) (e : Event) : Bus :=
  match b.subscription k with
  | none => b
  | some s =>
    if s.wants e = false then b
    else if s.dropped then { b with subscribers := b.subscribers.filter (· ≠ k) }
    else if s.channel.length < max 1 capacity then b.set k { s with channel := s.channel ++ [e] }
    else b.set k { s with lagged := true }

/-- One step of `deliver_pending`; its second part is what the call returns, if it does. -/
def deliverStep (capacity : ℕ) (b : Bus) : Bus × Option ℕ :=
  match b.delivery with
  | .idle => ({ b with delivery := .reading 0 }, none)
  | .reading total =>
    match b.log.readAfter b.delivered replayBatch with
    | [] => ({ b with delivery := .idle }, some total)
    | e :: rest => ({ b with delivery := .announcing total (e :: rest) }, none)
  | .announcing total [] => ({ b with delivery := .reading total }, none)
  | .announcing total (e :: rest) =>
    ({ b with delivered := e.seq, delivery := .sending (total + 1) e b.subscribers rest }, none)
  | .sending total _ [] rest => ({ b with delivery := .announcing total rest }, none)
  | .sending total e (k :: todo) rest =>
    ({ b.trySend capacity k e with delivery := .sending total e todo rest }, none)

/-- A new subscription, under the lock of the bus and with a number that is not in use. -/
def subscribe (b : Bus) (k : ℕ) (pattern : String) (from_ : Cursor) : Except EventError Bus := do
  checkField "pattern" pattern
  if maxSubscribers ≤ b.subscribers.length then throw (.tooManySubscribers maxSubscribers)
  return { b.set k (.new b.delivered pattern from_) with subscribers := b.subscribers ++ [k] }

end Bus

/-- What a step does. -/
inductive BusLabel where
  /-- An event was stored. -/
  | append (e : Event)
  /-- A step of `deliver_pending`, and what the call returned if it did. -/
  | deliver (result : Option ℕ)
  /-- A batch could not be read, and `deliver_pending` returned the error. -/
  | deliverError (e : StoreError)
  | subscribe (k : ℕ) (pattern : String) (from_ : Cursor)
  /-- A step of a subscription's `recv_timeout`, and what the call returned if it did. -/
  | receive (k : ℕ) (result : Option (Option Event))
  /-- The log could not be read, and `recv_timeout` returned the error. -/
  | receiveError (k : ℕ) (e : StoreError)
  /-- The subscription is dropped. -/
  | drop (k : ℕ)

/-- The steps of the bus, its log and its subscribers. -/
inductive Bus.Step (capacity : ℕ) (b : Bus) : BusLabel → Bus → Prop
  | append {e : Event} {log : EventLog} : b.log.insert? e = some log →
      Step capacity b (.append e) { b with log := log }
  | deliver : Step capacity b (.deliver (b.deliverStep capacity).2) (b.deliverStep capacity).1
  | deliverError {total : ℕ} {e : StoreError} : b.delivery = .reading total →
      Step capacity b (.deliverError e) { b with delivery := .idle }
  | subscribe {k : ℕ} {pattern : String} {from_ : Cursor} {c : Bus} : b.delivery = .idle →
      b.subscription k = none → b.subscribe k pattern from_ = .ok c →
      Step capacity b (.subscribe k pattern from_) c
  | receive {k : ℕ} {s : Subscription} : b.subscription k = some s → s.dropped = false →
      Step capacity b (.receive k (s.recvStep b.log).2) (b.set k (s.recvStep b.log).1)
  | receiveError {k : ℕ} {s : Subscription} {e : StoreError} : b.subscription k = some s →
      s.dropped = false → s.position = .refill →
      Step capacity b (.receiveError k e) (b.set k { s with position := .idle })
  | drop {k : ℕ} {s : Subscription} : b.subscription k = some s → s.position = .idle →
      Step capacity b (.drop k) (b.set k { s with dropped := true })

/-- A bus that is opened over a log: everything in it counts as announced. -/
def eventBus (capacity : ℕ) (log : EventLog) : Machine Bus BusLabel where
  init := ⟨log, log.maxSeq, .idle, [], fun _ => none⟩
  step b l c := b.Step capacity l c

/-- The event a label returned from a subscription. -/
def BusLabel.returned (k : ℕ) : BusLabel → Option Event
  | .receive j (some (some e)) => if j = k then some e else none
  | _ => none

/-- The events a subscription returned, in order. -/
def received (k : ℕ) (h : List BusLabel) : List Event := h.filterMap (BusLabel.returned k)

end U2os.Majordomo
