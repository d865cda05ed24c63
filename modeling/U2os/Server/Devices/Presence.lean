import Mathlib.Data.List.Chain
import U2os.Server.Devices.WebSocketDeviceAdapter

/-!
# Presence of devices

A device is online while a connection is registered for its id.  The status, the map of connections
and the ids that the sockets remember agree as long as no socket goes on to another id while it is
registered for one, and as long as no device is removed while it is online: a socket that has gone
on leaves its first id behind when it closes, and a device that is removed publishes nothing.

## Main results

* `Invariant.register`, `Invariant.onClose`, `Invariant.weaken` : what a hello, a close notification
  and everything that only touches sockets keep.
-/

namespace U2os.Server.Devices.Realtime

open List Option Assoc State

/-- Switches that alternate, from off, and end where the flag says. -/
def Alternates (switches : List Bool) (on : Bool) : Prop :=
  (false :: switches).IsChain (· ≠ ·) ∧ (false :: switches).getLast? = some on

theorem Alternates.snoc {l : List Bool} {on : Bool} (h : Alternates l on) :
    Alternates (l ++ [!on]) (!on) := by
  refine ⟨?_, by rw [← cons_append, getLast?_concat]⟩
  rw [← cons_append, isChain_append]
  refine ⟨h.1, isChain_singleton _, fun x hx y hy => ?_⟩
  rw [h.2] at hx
  cases hx
  cases hy
  cases on <;> decide

theorem alternates_nil : Alternates [] false := ⟨isChain_singleton _, rfl⟩

namespace State

/-- Whether a device is online. -/
def isOnline (s : State) (id : String) : Bool := get? s.devices id = some .online

/-- The switches of a device: it connected, or it disconnected. -/
def switches (s : State) (id : String) : List Bool :=
  s.events.filterMap fun
    | .connected i => if i = id then some true else none
    | .disconnected i => if i = id then some false else none
    | _ => none

/-- The socket of the last hello of an id that was acknowledged. -/
def lastHello (s : State) (id : String) : Option ℕ :=
  (s.acks.reverse.find? fun e => e.1 = id).map Prod.snd

/-- Every close notification has been processed. -/
def Settled (s : State) : Prop := ∀ c ∈ s.sockets, c.readyState ≠ .closing

end State

/-- The statuses, the invocations and the events tell which connections there are. -/
structure Truthful (s : State) : Prop where
  online : ∀ id, s.isOnline id = true ↔ ∃ n, get? s.connections id = some n ∧ s.IsOpen n
  invoke : ∀ id n, s.invoke id = some n ↔ s.lastHello id = some n ∧ s.IsOpen n
  events : ∀ id, Alternates (s.switches id) (s.isOnline id)

/-- The step leaves nothing behind: a hello that is accepted is not one of a socket that is
registered for another id, and a device that is removed is not online. -/
def Proper (s : State) : Action → Prop
  | .hello n message => message.storable = true → ∀ id ∈ message.accepted?,
      ∀ old ∈ s.sockets[n]?.bind Socket.deviceId, old ≠ id → get? s.connections old ≠ some n
  | .remove id => s.isOnline id = false
  | _ => True

instance (s : State) : (a : Action) → Decidable (Proper s a)
  | .hello n message => inferInstanceAs (Decidable (message.storable = true →
      ∀ id ∈ message.accepted?, ∀ old ∈ s.sockets[n]?.bind Socket.deviceId, old ≠ id →
        get? s.connections old ≠ some n))
  | .remove id => inferInstanceAs (Decidable (s.isOnline id = false))
  | .connect | .close _ | .closed _ | .pong _ | .pingAll | .disconnect _ => isTrue trivial

/-- What presence rests on. -/
structure Invariant (s : State) : Prop where
  /-- A socket that is registered for an id remembers it, and is not done. -/
  remembers : ∀ id n, get? s.connections id = some n →
    ∃ c, s.sockets[n]? = some c ∧ c.readyState ≠ .closed ∧ c.deviceId = some id
  /-- A device is online while a socket is registered for it. -/
  online : ∀ id, s.isOnline id = (get? s.connections id).isSome
  /-- The socket that is registered is the one of the last hello. -/
  acked : ∀ id n, get? s.connections id = some n → s.lastHello id = some n
  /-- A hello comes from a socket that is there. -/
  existing : ∀ id n, s.lastHello id = some n → n < s.sockets.length
  /-- The socket of the last hello is registered while it is open. -/
  registered : ∀ id n, s.lastHello id = some n → s.IsOpen n →
    get? s.connections id = some n
  /-- The events of a device alternate. -/
  events : ∀ id, Alternates (s.switches id) (s.isOnline id)

variable {s : State}

theorem Invariant.truthful (h : Invariant s) (hs : s.Settled) : Truthful s where
  online id := by
    rw [h.online, isSome_iff_exists]
    refine exists_congr fun n => (and_iff_left_of_imp fun hn => ?_).symm
    obtain ⟨c, hc, hclosed, -⟩ := h.remembers id n hn
    have hclosing := hs c (mem_of_getElem? hc)
    rw [State.IsOpen, hc]
    cases hstate : c.readyState <;> simp_all
  invoke id n := by
    rw [invoke, filter_eq_some_iff, decide_eq_true_eq]
    exact and_congr_left fun ho => ⟨h.acked id n, fun hn => h.registered id n hn ho⟩
  events := h.events

/-- What a socket may become without a hello: it keeps its id, it is not done, and it is open only
if it was. -/
structure Weakens (c c' : Socket) : Prop where
  deviceId : c'.deviceId = c.deviceId
  closed : c.readyState ≠ .closed → c'.readyState ≠ .closed
  opened : c'.readyState = .opened → c.readyState = .opened

theorem Weakens.refl (c : Socket) : Weakens c c := ⟨rfl, id, id⟩

theorem weakens_terminate (c : Socket) :
    Weakens c (if c.readyState = .opened then { c with readyState := .closing } else c) := by
  split_ifs
  · exact ⟨rfl, fun _ => nofun, nofun⟩
  · exact .refl c

theorem getElem?_onSocket (s : State) (n m : ℕ) (f : Socket → Socket) :
    (s.onSocket n f).sockets[m]? = s.sockets[m]?.map (if n = m then f else id) := by
  rw [onSocket, getElem?_modify]
  split_ifs <;> cases s.sockets[m]? <;> rfl

theorem Invariant.onSocket (h : Invariant s) (n : ℕ) {f : Socket → Socket}
    (hf : ∀ c, Weakens c (f c)) : Invariant (s.onSocket n f) where
  remembers id m hm := by
    obtain ⟨c, hc, hclosed, hid⟩ := h.remembers id m hm
    refine ⟨_, by rw [getElem?_onSocket, hc, map_some], ?_⟩
    split_ifs
    · exact ⟨(hf c).closed hclosed, (hf c).deviceId.trans hid⟩
    · exact ⟨hclosed, hid⟩
  online := h.online
  acked := h.acked
  existing id m hm := by simpa [State.onSocket] using h.existing id m hm
  registered id m hm ho := by
    refine h.registered id m hm ?_
    simp only [State.IsOpen, getElem?_onSocket] at ho ⊢
    cases hc : s.sockets[m]? with
    | none => simp [hc] at ho
    | some c =>
      simp only [hc, map_some, Option.some.injEq] at ho ⊢
      split_ifs at ho
      · exact (hf c).opened ho
      · exact ho
  events := h.events

theorem Invariant.terminate (h : Invariant s) (n : ℕ) : Invariant (s.terminate n) :=
  h.onSocket n weakens_terminate

theorem Invariant.pingAll (h : Invariant s) : Invariant s.pingAll := by
  refine foldlRecOn _ _ h fun t ht n _ => ?_
  unfold ping
  split
  · split_ifs
    · exact ht.onSocket n fun c => ⟨rfl, id, id⟩
    · exact ht.terminate n
  · exact ht

theorem Invariant.replaceStale (h : Invariant s) (n : ℕ) (id : String) :
    Invariant (s.replaceStale n id) := by
  unfold State.replaceStale
  split
  · split_ifs
    · exact h.terminate _
    · exact h
  · exact h

/-! ### Messages and close notifications -/

@[simp] theorem isOnline_putStatus (s : State) (id id' : String) (status : Status) :
    (s.putStatus id status).isOnline id' =
      if id = id' then decide (status = .online) else s.isOnline id' := by
  simp only [isOnline, putStatus, get?_assign]
  split_ifs <;> simp

@[simp] theorem isOnline_emit (s : State) (e : DeviceEvent) (id : String) :
    (s.emit e).isOnline id = s.isOnline id := rfl

@[simp] theorem switches_putStatus (s : State) (id id' : String) (status : Status) :
    (s.putStatus id status).switches id' = s.switches id' := rfl

@[simp] theorem switches_emit (s : State) (e : DeviceEvent) (id : String) :
    (s.emit e).switches id = s.switches id ++
      match e with
      | .connected i => if i = id then [true] else []
      | .disconnected i => if i = id then [false] else []
      | _ => [] := by
  simp only [switches, emit, filterMap_append]
  cases e <;> simp only [filterMap_cons, filterMap_nil] <;> split_ifs <;> rfl

theorem isOnline_eq_false {i : String} (h : get? s.devices i ≠ some .online) :
    s.isOnline i = false := decide_eq_false h

theorem upsertDevice_spec (s : State) (id id' : String) :
    (s.upsertDevice id).isOnline id' = (decide (id = id') || s.isOnline id') ∧
    (s.upsertDevice id).switches id' =
      s.switches id' ++ if id = id' ∧ s.isOnline id = false then [true] else [] := by
  unfold upsertDevice
  cases hdev : get? s.devices id with
  | none => simp [isOnline_eq_false (s := s) (i := id) (by simp [hdev])]
  | some status =>
    cases status with
    | offline => simp [isOnline_eq_false (s := s) (i := id) (by simp [hdev])]
    | online => simp [show s.isOnline id = true by simp [isOnline, hdev]]

theorem setOffline_spec (s : State) (id id' : String) :
    (s.setOffline id).isOnline id' = (decide (id ≠ id') && s.isOnline id') ∧
    (s.setOffline id).switches id' =
      s.switches id' ++ if id = id' ∧ s.isOnline id = true then [false] else [] := by
  unfold setOffline
  by_cases hdev : get? s.devices id = some .online
  · simp [hdev, show s.isOnline id = true by simp [isOnline, hdev]]
  · by_cases hid : id = id'
    · subst hid
      simp [hdev, isOnline_eq_false hdev]
    · simp [hdev, hid]

theorem upsertDevice_rest (s : State) (id : String) :
    (s.upsertDevice id).sockets = s.sockets ∧ (s.upsertDevice id).connections = s.connections ∧
      (s.upsertDevice id).acks = s.acks := by
  unfold upsertDevice
  split <;> exact ⟨rfl, rfl, rfl⟩

theorem setOffline_rest (s : State) (id : String) :
    (s.setOffline id).sockets = s.sockets ∧ (s.setOffline id).connections = s.connections ∧
      (s.setOffline id).acks = s.acks := by
  unfold setOffline
  split_ifs <;> exact ⟨rfl, rfl, rfl⟩

theorem lastHello_append (s : State) (n : ℕ) (id id' : String) :
    { s with acks := s.acks ++ [(id, n)] }.lastHello id' =
      if id = id' then some n else s.lastHello id' := by
  simp only [lastHello, reverse_append, reverse_singleton, singleton_append,
    find?_cons]
  by_cases hid : id = id' <;> simp [hid]

/-- A device that is put online, by a hello of a socket that is not registered for another one. -/
theorem Invariant.register {t : State} (h : Invariant s) {n : ℕ} {id : String} {c : Socket}
    (hc : s.sockets[n]? = some c) (hclosed : c.readyState ≠ .closed)
    (hold : ∀ old, c.deviceId = some old → old ≠ id → Assoc.get? s.connections old ≠ some n)
    (hsockets : t.sockets = s.sockets) (hconn : t.connections = s.connections)
    (hacks : t.acks = s.acks)
    (honline : ∀ id', t.isOnline id' = (decide (id = id') || s.isOnline id'))
    (hswitches : ∀ id', t.switches id' =
      s.switches id' ++ if id = id' ∧ s.isOnline id = false then [true] else []) :
    Invariant (t.register n id) := by
  have hlast : ∀ id', (t.register n id).lastHello id' =
      if id = id' then some n else s.lastHello id' := fun id' =>
    (lastHello_append t n id id').trans (by rw [State.lastHello, State.lastHello, hacks])
  constructor
  case remembers =>
    intro id' m hm
    have hget : (t.register n id).sockets[m]? =
        s.sockets[m]?.map (if n = m then fun c => { c with deviceId := some id } else fun c => c) :=
      hsockets ▸ getElem?_onSocket t n m _
    have hm : Assoc.get? (Assoc.assign id n t.connections) id' = some m := hm
    rw [hconn, Assoc.get?_assign] at hm
    split_ifs at hm with hid
    · obtain rfl := Option.some.inj hm
      exact ⟨_, by rw [hget, hc, map_some], by simpa using hclosed, by simp [hid]⟩
    · obtain ⟨c', hc', hclosed', hid'⟩ := h.remembers id' m hm
      have hne : n ≠ m := by
        rintro rfl
        obtain rfl : c' = c := Option.some.inj (hc'.symm.trans hc)
        exact hold id' hid' (Ne.symm hid) hm
      exact ⟨c', by rw [hget, hc', if_neg hne, map_some], hclosed', hid'⟩
  case online =>
    intro id'
    have hset : (t.register n id).isOnline id' = t.isOnline id' := rfl
    have hget : (t.register n id).connections = Assoc.assign id n t.connections := rfl
    rw [hset, honline, hget, hconn, Assoc.get?_assign, h.online]
    split_ifs with hid <;> simp [hid]
  case acked =>
    intro id' m hm
    have hm : Assoc.get? (Assoc.assign id n t.connections) id' = some m := hm
    rw [hconn, Assoc.get?_assign] at hm
    rw [hlast]
    split_ifs at hm ⊢
    · exact hm
    · exact h.acked id' m hm
  case existing =>
    intro id' m hm
    have hlen : (t.register n id).sockets.length = s.sockets.length := by
      simp [State.register, State.onSocket, hsockets]
    rw [hlast] at hm
    rw [hlen]
    split_ifs at hm
    · obtain rfl := Option.some.inj hm
      exact (List.getElem?_eq_some_iff.1 hc).1
    · exact h.existing id' m hm
  case registered =>
    intro id' m hm ho
    have hget : (t.register n id).connections = Assoc.assign id n t.connections := rfl
    rw [hlast] at hm
    rw [hget, hconn, Assoc.get?_assign]
    split_ifs at hm ⊢
    · exact hm
    · refine h.registered id' m hm ?_
      have hget : (t.register n id).sockets[m]? = s.sockets[m]?.map
          (if n = m then fun c => { c with deviceId := some id } else fun c => c) :=
        hsockets ▸ getElem?_onSocket t n m _
      rw [State.IsOpen, hget] at ho
      rw [State.IsOpen, ← ho, Option.map_map]
      split_ifs <;> rfl
  case events =>
    intro id'
    have hset : (t.register n id).isOnline id' = t.isOnline id' := rfl
    have hsw : (t.register n id).switches id' = t.switches id' := rfl
    have halt := h.events id'
    rw [hset, hsw, honline, hswitches]
    by_cases hid : id = id'
    · subst hid
      cases hon : s.isOnline id with
      | true => simpa [hon] using halt
      | false => simpa [hon] using (hon ▸ halt).snoc
    · simpa [hid] using halt

/-- A proper hello keeps sockets and statuses in line. -/
theorem Invariant.hello (h : Invariant s) {n : ℕ} {message : Hello} {c : Socket}
    (hc : s.sockets[n]? = some c) (hclosed : c.readyState ≠ .closed)
    (hproper : Proper s (.hello n message)) : Invariant (s.handleHello n message) := by
  unfold State.handleHello
  split
  · exact h
  next id hid =>
    have hstale := h.replaceStale n id
    have hconn : (s.replaceStale n id).connections = s.connections := by
      unfold State.replaceStale
      split <;> [split_ifs; skip] <;> rfl
    have hsocket : (s.replaceStale n id).sockets[n]? = some c := by
      unfold State.replaceStale
      split
      · split_ifs with hne
        · rw [State.terminate, getElem?_onSocket, if_neg hne, hc]
          rfl
        · exact hc
      · exact hc
    dsimp only
    split_ifs with hstorable hnew
    all_goals try exact hstale
    all_goals
      obtain ⟨hsockets, hconns, hacks⟩ := upsertDevice_rest (s.replaceStale n id) id
      refine hstale.register hsocket hclosed (fun old hold hne => ?_) hsockets hconns hacks
        (fun id' => (upsertDevice_spec _ id id').1) fun id' => ?_
    all_goals try exact hconn ▸ hproper hstorable id hid old (by rw [hc]; exact hold) hne
    · simpa using (upsertDevice_spec (s.replaceStale n id) id id').2
    · exact (upsertDevice_spec _ id id').2

/-- A connection whose socket is closed may be forgotten. -/
theorem Invariant.forget (h : Invariant s) {n : ℕ} {id : String}
    (hn : get? s.connections id = some n) (hopen : ¬s.IsOpen n) :
    Invariant ({ s with connections := Assoc.erase id s.connections }.setOffline id) := by
  obtain ⟨hsockets, hconn, hacks⟩ :=
    setOffline_rest { s with connections := Assoc.erase id s.connections } id
  have hspec : ∀ id', (setOffline { s with connections := Assoc.erase id s.connections }
        id).isOnline id' = (decide (id ≠ id') && s.isOnline id') ∧
      (setOffline { s with connections := Assoc.erase id s.connections } id).switches id' =
        s.switches id' ++ if id = id' ∧ s.isOnline id = true then [false] else [] :=
    setOffline_spec { s with connections := Assoc.erase id s.connections } id
  generalize setOffline { s with connections := Assoc.erase id s.connections } id = t
    at hsockets hconn hacks hspec ⊢
  have hget : ∀ id', get? t.connections id' =
      if id = id' then none else get? s.connections id' := fun id' =>
    hconn ▸ get?_erase
  have hlast : ∀ id', t.lastHello id' = s.lastHello id' := fun id' => by
    rw [lastHello, lastHello, hacks]
  refine ⟨fun id' m hm => ?_, fun id' => ?_, fun id' m hm => ?_, fun id' m hm => ?_,
    fun id' m hm ho => ?_, fun id' => ?_⟩
  · rw [hget] at hm
    split_ifs at hm
    exact hsockets ▸ h.remembers id' m hm
  · rw [(hspec id').1, hget]
    split_ifs with hid
    · simp [hid]
    · simpa [hid] using h.online id'
  · rw [hget] at hm
    split_ifs at hm
    rw [hlast]
    exact h.acked id' m hm
  · exact hsockets ▸ h.existing id' m (hlast id' ▸ hm)
  · have ho : s.IsOpen m := by rwa [State.IsOpen, hsockets] at ho
    have hm := h.registered id' m (hlast id' ▸ hm) ho
    rw [hget]
    split_ifs with hid
    · subst hid
      obtain rfl := some.inj (hn.symm.trans hm)
      exact absurd ho hopen
    · exact hm
  · have halt := h.events id'
    have hon : s.isOnline id = true := by rw [h.online, hn]; rfl
    obtain ⟨hset, hsw⟩ := hspec id'
    rw [hset, hsw]
    by_cases hid : id = id'
    · subst hid
      have hsnoc := (hon ▸ halt).snoc
      simpa [hon] using hsnoc
    · simpa [hid] using halt

theorem Invariant.done (h : Invariant s) {n : ℕ}
    (hn : ∀ id, Assoc.get? s.connections id ≠ some n) :
    Invariant (s.onSocket n fun c => { c with readyState := .closed }) where
  remembers id m hm := by
    have hne : n ≠ m := fun he => hn id (he ▸ hm)
    obtain ⟨c, hc, hrest⟩ := h.remembers id m hm
    exact ⟨c, by rw [getElem?_onSocket, if_neg hne, Option.map_id, hc]; rfl, hrest⟩
  online := h.online
  acked := h.acked
  existing id m hm := by simpa [State.onSocket] using h.existing id m hm
  registered id m hm ho := by
    refine h.registered id m hm ?_
    rw [State.IsOpen, getElem?_onSocket, Option.map_map] at ho
    rw [State.IsOpen, ← ho]
    split_ifs with hne
    · subst hne
      cases hc : s.sockets[n]? <;> simp [hc] at ho
    · rfl
  events := h.events

theorem Invariant.onClose (h : Invariant s) {n : ℕ} {c : Socket}
    (hc : s.sockets[n]? = some c) (hclosing : c.readyState = .closing) :
    Invariant ((s.onClose n).onSocket n fun c => { c with readyState := .closed }) := by
  have honly : ∀ id, Assoc.get? s.connections id = some n → c.deviceId = some id := by
    intro id hid
    obtain ⟨c', hc', -, hdev⟩ := h.remembers id n hid
    exact Option.some.inj (hc.symm.trans hc') ▸ hdev
  have hopen : ¬s.IsOpen n := by
    rw [State.IsOpen, hc, map_some, hclosing]
    decide
  unfold State.onClose
  rw [hc, bind_some]
  split
  next hnone => exact h.done fun id hid => by simpa [hnone] using honly id hid
  next id hid =>
    split_ifs with hn
    · refine (h.forget hn hopen).done fun id' hid' => ?_
      rw [(setOffline_rest _ id).2.1, Assoc.get?_erase] at hid'
      split_ifs at hid' with hne
      exact hne (Option.some.inj (hid.symm.trans (honly id' hid')))
    · refine h.done fun id' hid' => hn ?_
      rwa [Option.some.inj (hid.symm.trans (honly id' hid'))]

/-! ### Runs -/

theorem Invariant.empty : Invariant .empty where
  remembers _ _ h := absurd h nofun
  online _ := rfl
  acked _ _ h := absurd h nofun
  existing _ _ h := absurd h nofun
  registered _ _ h := absurd h nofun
  events _ := alternates_nil

theorem Invariant.connect (h : Invariant s) (c : Socket) :
    Invariant { s with sockets := s.sockets ++ [c] } where
  remembers id m hm := by
    obtain ⟨c', hc', hrest⟩ := h.remembers id m hm
    exact ⟨c', getElem?_append_left (List.getElem?_eq_some_iff.1 hc').1 ▸ hc', hrest⟩
  online := h.online
  acked := h.acked
  existing id m hm := (h.existing id m hm).trans_le (by simp)
  registered id m hm ho := by
    refine h.registered id m hm ?_
    have hold : (s.sockets ++ [c])[m]? = s.sockets[m]? :=
      getElem?_append_left (h.existing id m hm)
    rwa [State.IsOpen, hold] at ho
  events := h.events

theorem Invariant.remove (h : Invariant s) {id : String} (hid : s.isOnline id = false) :
    Invariant { s with devices := Assoc.erase id s.devices } := by
  have hsame : ∀ id', isOnline { s with devices := Assoc.erase id s.devices } id' =
      s.isOnline id' := by
    intro id'
    rw [isOnline, get?_erase]
    split_ifs with he
    · rw [← he, hid]
      rfl
    · rfl
  exact ⟨h.remembers, fun id' => (hsame id').trans (h.online id'), h.acked, h.existing,
    h.registered, fun id' => hsame id' ▸ h.events id'⟩

/-- Every proper step keeps sockets, connections and statuses in line. -/
theorem Invariant.step {t : State} (h : Invariant s) {a : Action} (hproper : Proper s a)
    (hstep : perform s a = some t) : Invariant t := by
  cases a with
  | connect =>
    obtain rfl := some.inj hstep
    exact h.connect _
  | hello n message =>
    simp only [perform, ite_none_right_eq_some, some.injEq] at hstep
    obtain ⟨⟨c, hc, hstate⟩, rfl⟩ := hstep
    exact h.hello hc (by rintro he; simp [he] at hstate) hproper
  | close n =>
    simp only [perform, ite_none_right_eq_some, some.injEq] at hstep
    obtain ⟨-, rfl⟩ := hstep
    exact h.terminate n
  | closed n =>
    simp only [perform, ite_none_right_eq_some, some.injEq] at hstep
    obtain ⟨⟨c, hc, hstate⟩, rfl⟩ := hstep
    exact h.onClose hc (mem_singleton.1 hstate)
  | pong n =>
    simp only [perform, ite_none_right_eq_some, some.injEq] at hstep
    obtain ⟨-, rfl⟩ := hstep
    exact h.onSocket n fun c => ⟨rfl, id, id⟩
  | pingAll =>
    obtain rfl := some.inj hstep
    exact h.pingAll
  | disconnect id =>
    simp only [perform] at hstep
    split at hstep
    all_goals obtain rfl := some.inj hstep
    · exact h.terminate _
    · exact h
  | remove id =>
    obtain rfl := some.inj hstep
    exact h.remove hproper

theorem invariant_of_run {h : List Action}
    (hrun : (adapter.restrict fun s a _ => Proper s a).Run h s) : Invariant s :=
  hrun.invariant .empty fun _ _ _ hs hst => hs.step hst.2 hst.1

/-- In runs of proper steps, presence is truthful once the close notifications are processed. -/
theorem presence_truthful {h : List Action} {s : State}
    (hrun : (adapter.restrict fun s a _ => Proper s a).Run h s) (hs : s.Settled) : Truthful s :=
  (invariant_of_run hrun).truthful hs

instance (s : State) : Decidable s.Settled :=
  inferInstanceAs (Decidable (∀ c ∈ s.sockets, c.readyState ≠ .closing))

/-- A hello with all that it needs. -/
def sampleHello (id : String) : Hello := ⟨some id, true, true⟩

/-- A device that comes back on another connection, with a ping. -/
def takeover : List Action :=
  [.connect, .hello 0 (sampleHello "camera"), .connect, .hello 1 (sampleHello "camera"), .closed 0,
    .pingAll, .pong 1]

/-- After these steps. -/
def afterTakeover : State :=
  (Machine.drive perform (fun s a => decide (Proper s a)) .empty takeover).get (by decide)

theorem sample_truthful : Truthful afterTakeover :=
  presence_truthful (h := takeover)
    (Machine.steps_drive (fun _ _ => of_decide_eq_true) (some_get _).symm) (by decide)

/-- A connection goes on to another id, and closes. -/
def goesOn : List Action :=
  [.connect, .hello 0 (sampleHello "camera"), .hello 0 (sampleHello "lamp"), .close 0, .closed 0]

/-- After these steps. -/
def afterGoingOn : State :=
  (Machine.drive perform (fun _ _ => true) .empty goesOn).get (by decide)

/-- A device is removed while it is online, and says hello again. -/
def comesAgain : List Action :=
  [.connect, .hello 0 (sampleHello "camera"), .remove "camera", .hello 0 (sampleHello "camera")]

/-- After these steps. -/
def afterComingAgain : State :=
  (Machine.drive perform (fun _ _ => true) .empty comesAgain).get (by decide)

/-- The first id stays online without a connection, and a device connects twice in a row. -/
theorem presence_untruthful :
    (adapter.Run goesOn afterGoingOn ∧ afterGoingOn.Settled ∧ ¬Truthful afterGoingOn) ∧
    adapter.Run comesAgain afterComingAgain ∧ afterComingAgain.Settled ∧
      ¬Truthful afterComingAgain := by
  refine ⟨⟨Machine.run_drive (some_get _).symm, by decide, fun h => ?_⟩,
    Machine.run_drive (some_get _).symm, by decide, fun h => ?_⟩
  · obtain ⟨n, hn, ho⟩ := (h.online "camera").1 (by decide)
    obtain rfl : n = 0 := (some.inj ((show _ = some 0 by decide).symm.trans hn)).symm
    exact absurd ho (by decide)
  · have htwice : afterComingAgain.switches "camera" = [true, true] := by decide
    have halt := (h.events "camera").1
    rw [htwice] at halt
    exact absurd halt (by simp)

end U2os.Server.Devices.Realtime
