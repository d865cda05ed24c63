import U2os.Lib.JsText
import U2os.Lib.Run
import U2os.Server.Devices.CapabilityResolver

/-!
# Devices with a connection

The realtime device bus (`devices/adapters/websocket-device-adapter.js`) and the rows of the
registry it keeps (`devices/device-registry.js`).  A socket remembers the id of the device that said
hello on it last, and a map has one socket for each id.  Sockets are numbered in the order in which
they were opened.

A message may arrive until the close notification of its socket is processed, also on a socket that
has been terminated.  Of a device's row, only the status is modelled; the other fields of a device
may make the database refuse it.
-/

namespace U2os.Server.Devices.Realtime

/-- The state of a socket: `closing` until its close notification is processed. -/
inductive ReadyState where
  | opened
  | closing
  | closed
  deriving DecidableEq

/-- A connection. -/
structure Socket where
  deviceId : Option String
  isAlive : Bool
  readyState : ReadyState
  deriving DecidableEq

/-- A message `hello`: its id (none where it has no id that is a text), whether it has a name and a
type, and whether the database takes its fields. -/
structure Hello where
  id : Option String
  named : Bool
  storable : Bool
  deriving DecidableEq

/-- The id of a message that has all that is required. -/
def Hello.accepted? (message : Hello) : Option String :=
  message.id.filter fun id => id ≠ "" ∧ message.named

/-- The events about a device. -/
inductive DeviceEvent where
  | discovered (id : String)
  | connected (id : String)
  | disconnected (id : String)
  | pairingRequested (id : String)
  deriving DecidableEq

/-- The adapter and the registry: the sockets, the map `_connections`, the statuses of the rows, the
events published, and the messages `hello_ack` sent, with their sockets. -/
structure State where
  sockets : List Socket
  connections : List (String × ℕ)
  devices : List (String × Status)
  events : List DeviceEvent
  acks : List (String × ℕ)
  deriving DecidableEq

namespace State

/-- Nothing has happened. -/
def empty : State := ⟨[], [], [], [], []⟩

/-- Something is done to a socket. -/
def onSocket (s : State) (n : ℕ) (f : Socket → Socket) : State :=
  { s with sockets := s.sockets.modify n f }

def emit (s : State) (e : DeviceEvent) : State := { s with events := s.events ++ [e] }

def terminate (s : State) (n : ℕ) : State :=
  s.onSocket n fun c => if c.readyState = .opened then { c with readyState := .closing } else c

/-- The status of a row is written. -/
def putStatus (s : State) (id : String) (status : Status) : State :=
  { s with devices := Assoc.assign id status s.devices }

/-- `setStatus(id, 'offline')`, which throws for a device without a row. -/
def setOffline (s : State) (id : String) : State :=
  if Assoc.get? s.devices id = some .online then
    (s.putStatus id .offline).emit (.disconnected id)
  else s

/-- `upsertDevice` of a device that is online. -/
def upsertDevice (s : State) (id : String) : State :=
  match Assoc.get? s.devices id with
  | none => ((s.putStatus id .online).emit (.discovered id)).emit (.connected id)
  | some .offline => (s.putStatus id .online).emit (.connected id)
  | some .online => s.putStatus id .online

def onClose (s : State) (n : ℕ) : State :=
  match s.sockets[n]?.bind Socket.deviceId with
  | none => s
  | some id =>
    if Assoc.get? s.connections id = some n then
      { s with connections := Assoc.erase id s.connections }.setOffline id
    else s

/-- A socket with an older connection of the same id is terminated. -/
def replaceStale (s : State) (n : ℕ) (id : String) : State :=
  match Assoc.get? s.connections id with
  | some stale => if stale ≠ n then s.terminate stale else s
  | none => s

/-- The last lines of `_handleHello`. -/
def register (s : State) (n : ℕ) (id : String) : State :=
  let s := s.onSocket n fun c => { c with deviceId := some id }
  { s with connections := Assoc.assign id n s.connections, acks := s.acks ++ [(id, n)] }

/-- `_handleHello`.  What is refused is answered by an error. -/
def handleHello (s : State) (n : ℕ) (hello : Hello) : State :=
  match hello.accepted? with
  | none => s
  | some id =>
    let s := s.replaceStale n id
    let isNewDevice := (Assoc.get? s.devices id).isNone
    if hello.storable then
      let s := s.upsertDevice id
      let s := if isNewDevice then s.emit (.pairingRequested id) else s
      s.register n id
    else s

/-- What `_pingAll` does to one socket. -/
def ping (s : State) (n : ℕ) : State :=
  match s.sockets[n]? with
  | some c => if c.isAlive then s.onSocket n fun c => { c with isAlive := false } else s.terminate n
  | none => s

def pingAll (s : State) : State := (s.connections.map Prod.snd).foldl ping s

/-- The socket is open. -/
def IsOpen (s : State) (n : ℕ) : Prop := (s.sockets[n]?.map Socket.readyState) = some .opened

instance (s : State) (n : ℕ) : Decidable (s.IsOpen n) := inferInstanceAs (Decidable (_ = _))

/-- The socket that `invoke` sends a command to. -/
def invoke (s : State) (id : String) : Option ℕ :=
  (Assoc.get? s.connections id).filter fun n => s.IsOpen n

end State

/-- What may happen. -/
inductive Action where
  /-- A connection is opened. -/
  | connect
  /-- The message `hello` arrives on a socket. -/
  | hello (n : ℕ) (message : Hello)
  /-- A connection breaks, or its device closes it. -/
  | close (n : ℕ)
  /-- The close notification of a socket is processed. -/
  | closed (n : ℕ)
  /-- A socket answers a ping. -/
  | pong (n : ℕ)
  /-- The heartbeat timer fires. -/
  | pingAll
  /-- The registry disconnects a device that is revoked. -/
  | disconnect (id : String)
  /-- The owner removes a device. -/
  | remove (id : String)

/-- The socket is there, in some state. -/
def State.InState (s : State) (n : ℕ) (states : List ReadyState) : Prop :=
  ∃ c ∈ s.sockets[n]?, c.readyState ∈ states

instance (s : State) (n : ℕ) (states : List ReadyState) : Decidable (s.InState n states) :=
  inferInstanceAs (Decidable (∃ c ∈ s.sockets[n]?, c.readyState ∈ states))

/-- One thing happens; none where it cannot. -/
def perform (s : State) : Action → Option State
  | .connect => some { s with sockets := s.sockets ++ [⟨none, true, .opened⟩] }
  | .hello n message =>
    if s.InState n [.opened, .closing] then some (s.handleHello n message) else none
  | .close n => if s.InState n [.opened] then some (s.terminate n) else none
  | .closed n =>
    if s.InState n [.closing] then
      some ((s.onClose n).onSocket n fun c => { c with readyState := .closed })
    else none
  | .pong n =>
    if s.InState n [.opened, .closing] then
      some (s.onSocket n fun c => { c with isAlive := true })
    else none
  | .pingAll => some s.pingAll
  | .disconnect id =>
    match Assoc.get? s.connections id with
    | some n => some (s.terminate n)
    | none => some s
  | .remove id => some { s with devices := Assoc.erase id s.devices }

/-- The bus, from its start. -/
def adapter : Machine State Action := .ofPerform .empty perform

end U2os.Server.Devices.Realtime
