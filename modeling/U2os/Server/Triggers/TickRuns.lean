import U2os.Server.Triggers.NextCheck

/-!
# Ticks of several processes

The table of triggers, and the timers and schedules that ticks of any number of processes are at
work on (`triggers/trigger-engine.js`, `api/routes/triggers.js`).  Each statement on the table is a
step: between any two of one process there may be steps of the others.

A tick works on a trigger from its claim to the release of the lease: it reads the trigger, runs the
action, and writes when it is checked next.  The time of the tick may be long past when it claims.

What no step here reads of a row is left out, and so is what belongs to goals.

## Main results

* `Step`, `step_of_perform`, `Step.perform` : all a step can do.
-/

namespace U2os.Server.Triggers.Timing

open JsDate Option Function

/-- A row of `triggers`. -/
structure Trigger where
  kind : Kind
  enabled : Bool
  config : Json
  nextCheckAt : Option String
  leaseOwner : Option String
  leaseExpiresAt : Option String
  deriving DecidableEq

namespace Trigger

variable (t : Trigger)

/-- `next_check_at <= ?`. -/
def isDue (now : ℤ) : Bool := t.nextCheckAt.any fun text => text ≤ toISOString now

/-- No lease is in force. -/
def isFree (now : ℤ) : Bool :=
  t.leaseOwner.isNone || t.leaseExpiresAt.all fun text => text ≤ toISOString now

/-- What the query of a tick selects and its claim demands. -/
def claimable (now : ℤ) : Bool :=
  t.enabled && (t.kind = .timer || t.kind = .schedule) && t.isFree now && t.isDue now

/-- The row with a lease. -/
def leased (owner : String) (expires : ℤ) : Trigger :=
  { t with leaseOwner := some owner, leaseExpiresAt := some (toISOString expires) }

/-- The row without a lease. -/
def unleased : Trigger := { t with leaseOwner := none, leaseExpiresAt := none }

/-- `UPDATE triggers SET … WHERE id = ? AND lease_owner = ?`. -/
def ifHeld (owner : String) (f : Trigger → Trigger) : Trigger :=
  if t.leaseOwner = some owner then f t else t

end Trigger

/-- How far the work on a trigger is; from its start on with the row that it read. -/
inductive Phase where
  | claimed
  | running (trigger : Trigger)
  /-- The action has completed. -/
  | acted (trigger : Trigger)
  | settled
  deriving DecidableEq

/-- The trigger whose action is running. -/
def Phase.running? : Phase → Option Trigger
  | running t => some t
  | _ => none

/-- The trigger whose action has completed. -/
def Phase.acted? : Phase → Option Trigger
  | acted t => some t
  | _ => none

/-- What a tick does on a trigger. -/
structure Work where
  id : String
  owner : String
  /-- The time of the tick. -/
  now : ℤ
  leaseMs : ℤ
  phase : Phase
  deriving DecidableEq

/-- What was run: the trigger as it was read, and the time of the tick. -/
inductive Entry where
  | fired (id : String) (trigger : Trigger) (now : ℤ)
  | completed (id : String) (trigger : Trigger) (now : ℤ)
  deriving DecidableEq

/-- The latest clock, the table, the work in flight, and what was run so far. -/
structure State where
  clock : ℤ
  triggers : String → Option Trigger
  works : ℕ → Option Work
  log : List Entry

/-- A row is added. -/
def State.insert (s : State) (id : String) (t : Trigger) : State :=
  { s with triggers := update s.triggers id (some t) }

/-- The row of a trigger is rewritten. -/
def State.rewrite (s : State) (id : String) (f : Trigger → Trigger) : State :=
  { s with triggers := update s.triggers id ((s.triggers id).map f) }

theorem State.insert_self (s : State) (id : String) (t : Trigger) :
    (s.insert id t).triggers id = some t := update_self id _ _

theorem State.insert_of_ne {id id' : String} (h : id' ≠ id) (s : State) (t : Trigger) :
    (s.insert id t).triggers id' = s.triggers id' := update_of_ne h _ _

theorem State.rewrite_self (s : State) (id : String) (f : Trigger → Trigger) :
    (s.rewrite id f).triggers id = (s.triggers id).map f := update_self id _ _

theorem State.rewrite_of_ne {id id' : String} (h : id' ≠ id) (s : State) (f : Trigger → Trigger) :
    (s.rewrite id f).triggers id' = s.triggers id' := update_of_ne h _ _

/-- What happens. -/
inductive Label where
  | pass (time : ℤ)
  /-- `POST /api/triggers`. -/
  | create (id : String) (kind : Kind) (config : Option Json) (enabled : Bool)
  /-- `PATCH /api/triggers/:id`. -/
  | patch (id : String) (enabled : Option Bool) (config : Option Json)
  /-- `claimTrigger`, up to its update. -/
  | claim (work : ℕ) (id owner : String) (now leaseMs : ℤ)
  /-- `getTrigger`, and the action starts. -/
  | fire (work : ℕ)
  | complete (work : ℕ)
  | fail (work : ℕ)
  /-- What `fireTimerOrSchedule` does after the action. -/
  | settle (work : ℕ)
  /-- `renewTriggerLease`. -/
  | renew (work : ℕ)
  /-- `releaseTriggerLease`. -/
  | release (work : ℕ)

variable (host : Host)

/-- `config || {}`. -/
def bodyConfig (config : Option Json) : Json := (config.filter (truthy host)).getD (.obj [])

/-- What is written after the action; nothing where the next time is none, and the code throws. -/
def written (w : Work) (t : Trigger) : Option (Trigger → Trigger) :=
  match t.kind with
  | .timer => some fun r => { r.unleased with enabled := false, nextCheckAt := none }
  | .schedule => (computeNextForSchedule host t.config w.now).map fun next => fun r =>
      { r.unleased with nextCheckAt := some (toISOString next) }
  | .eventRule | .conditionWatch => none

/-- The work moves on. -/
def State.advance (s : State) (k : ℕ) (w : Work) (phase : Phase) : State :=
  { s with works := update s.works k (some { w with phase := phase }) }

/-- A step; none where it cannot be. -/
def perform (s : State) : Label → Option State
  | .pass time => if s.clock ≤ time then some { s with clock := time } else none
  | .create id kind config enabled =>
    let config := bodyConfig host config
    if s.triggers id = none ∧ validateIncomingConfig host kind config = true then
      (computeInitialNextCheckAt host kind config s.clock).map fun next =>
        s.insert id ⟨kind, enabled, config, next, none, none⟩
    else none
  | .patch id enabled config =>
    (s.triggers id).bind fun t =>
      if config.all (validateIncomingConfig host t.kind) = true then
        some (s.rewrite id fun t =>
          { t with enabled := enabled.getD t.enabled, config := config.getD t.config })
      else none
  | .claim k id owner now leaseMs =>
    (s.triggers id).bind fun t =>
      if s.works k = none ∧ (0 ≤ now ∧ now ≤ s.clock) ∧ t.claimable now = true then
        some { s.rewrite id (fun t => t.leased owner (now + leaseMs)) with
          works := update s.works k (some ⟨id, owner, now, leaseMs, .claimed⟩) }
      else none
  | .fire k =>
    (s.works k).bind fun w => (s.triggers w.id).bind fun t =>
      if w.phase = .claimed then
        some { s.advance k w (.running t) with log := s.log ++ [.fired w.id t w.now] }
      else none
  | .complete k =>
    (s.works k).bind fun w => w.phase.running?.map fun t =>
      { s.advance k w (.acted t) with log := s.log ++ [.completed w.id t w.now] }
  | .fail k => (s.works k).bind fun w => w.phase.running?.map fun _ => s.advance k w .settled
  | .settle k =>
    (s.works k).bind fun w => w.phase.acted?.map fun t =>
      (s.rewrite w.id fun r => r.ifHeld w.owner ((written host w t).getD fun r => r)).advance k w .settled
  | .renew k =>
    (s.works k).map fun w =>
      s.rewrite w.id fun r => r.ifHeld w.owner fun r =>
        { r with leaseExpiresAt := some (toISOString (s.clock + w.leaseMs)) }
  | .release k =>
    (s.works k).bind fun w =>
      if w.phase = .settled then
        some { s.rewrite w.id (fun r => r.ifHeld w.owner Trigger.unleased) with
          works := update s.works k none }
      else none

/-- No triggers, and no ticks. -/
def init : State where
  clock := 0
  triggers _ := none
  works _ := none
  log := []

/-- The requests and ticks of all processes. -/
def machine : Machine State Label := .ofPerform init (perform host)

/-- All a step can do. -/
inductive Step (s : State) : Label → State → Prop
  | pass {time : ℤ} (h : s.clock ≤ time) : Step s (.pass time) { s with clock := time }
  | create {id : String} {kind : Kind} {config : Option Json} {enabled : Bool}
      {next : Option String} (hnew : s.triggers id = none)
      (hvalid : validateIncomingConfig host kind (bodyConfig host config) = true)
      (hnext : computeInitialNextCheckAt host kind (bodyConfig host config) s.clock = some next) :
      Step s (.create id kind config enabled)
        (s.insert id ⟨kind, enabled, bodyConfig host config, next, none, none⟩)
  | patch {id : String} {enabled : Option Bool} {config : Option Json} {t : Trigger}
      (ht : s.triggers id = some t)
      (hvalid : config.all (validateIncomingConfig host t.kind) = true) :
      Step s (.patch id enabled config) (s.rewrite id fun t =>
        { t with enabled := enabled.getD t.enabled, config := config.getD t.config })
  | claim {k : ℕ} {id owner : String} {now leaseMs : ℤ} {t : Trigger}
      (ht : s.triggers id = some t) (hk : s.works k = none) (hnow : 0 ≤ now ∧ now ≤ s.clock)
      (hclaim : t.claimable now = true) :
      Step s (.claim k id owner now leaseMs)
        { s.rewrite id (fun t => t.leased owner (now + leaseMs)) with
          works := update s.works k (some ⟨id, owner, now, leaseMs, .claimed⟩) }
  | fire {k : ℕ} {w : Work} {t : Trigger} (hw : s.works k = some w) (hphase : w.phase = .claimed)
      (ht : s.triggers w.id = some t) :
      Step s (.fire k) { s.advance k w (.running t) with log := s.log ++ [.fired w.id t w.now] }
  | complete {k : ℕ} {w : Work} {t : Trigger} (hw : s.works k = some w)
      (hphase : w.phase = .running t) :
      Step s (.complete k)
        { s.advance k w (.acted t) with log := s.log ++ [.completed w.id t w.now] }
  | fail {k : ℕ} {w : Work} {t : Trigger} (hw : s.works k = some w)
      (hphase : w.phase = .running t) : Step s (.fail k) (s.advance k w .settled)
  | settle {k : ℕ} {w : Work} {t : Trigger} (hw : s.works k = some w)
      (hphase : w.phase = .acted t) :
      Step s (.settle k) ((s.rewrite w.id fun r =>
        r.ifHeld w.owner ((written host w t).getD fun r => r)).advance k w .settled)
  | renew {k : ℕ} {w : Work} (hw : s.works k = some w) :
      Step s (.renew k) (s.rewrite w.id fun r => r.ifHeld w.owner fun r =>
        { r with leaseExpiresAt := some (toISOString (s.clock + w.leaseMs)) })
  | release {k : ℕ} {w : Work} (hw : s.works k = some w) (hphase : w.phase = .settled) :
      Step s (.release k) { s.rewrite w.id (fun r => r.ifHeld w.owner Trigger.unleased) with
        works := update s.works k none }

variable {host} {s s' : State} {l : Label}

theorem Phase.running?_eq_some {phase : Phase} {t : Trigger} :
    phase.running? = some t ↔ phase = .running t := by
  cases phase <;> simp [running?]

theorem Phase.acted?_eq_some {phase : Phase} {t : Trigger} :
    phase.acted? = some t ↔ phase = .acted t := by
  cases phase <;> simp [acted?]

/-- All a step of the ticks can do. -/
theorem step_of_perform (h : perform host s l = some s') : Step host s l s' := by
  cases l with
  | pass time =>
    obtain ⟨hle, ⟨⟩⟩ := ite_none_right_eq_some.1 h
    exact .pass hle
  | create id kind config enabled =>
    obtain ⟨⟨hnew, hvalid⟩, h⟩ := ite_none_right_eq_some.1 h
    obtain ⟨next, hnext, rfl⟩ := map_eq_some_iff.1 h
    exact .create hnew hvalid hnext
  | patch id enabled config =>
    obtain ⟨t, ht, h⟩ := bind_eq_some_iff.1 h
    obtain ⟨hvalid, ⟨⟩⟩ := ite_none_right_eq_some.1 h
    exact .patch ht hvalid
  | claim k id owner now leaseMs =>
    obtain ⟨t, ht, h⟩ := bind_eq_some_iff.1 h
    obtain ⟨⟨hk, hnow, hclaim⟩, ⟨⟩⟩ := ite_none_right_eq_some.1 h
    exact .claim ht hk hnow hclaim
  | fire k =>
    obtain ⟨w, hw, h⟩ := bind_eq_some_iff.1 h
    obtain ⟨t, ht, h⟩ := bind_eq_some_iff.1 h
    obtain ⟨hphase, ⟨⟩⟩ := ite_none_right_eq_some.1 h
    exact .fire hw hphase ht
  | complete k =>
    obtain ⟨w, hw, h⟩ := bind_eq_some_iff.1 h
    obtain ⟨t, ht, rfl⟩ := map_eq_some_iff.1 h
    exact .complete hw (Phase.running?_eq_some.1 ht)
  | fail k =>
    obtain ⟨w, hw, h⟩ := bind_eq_some_iff.1 h
    obtain ⟨t, ht, rfl⟩ := map_eq_some_iff.1 h
    exact .fail hw (Phase.running?_eq_some.1 ht)
  | settle k =>
    obtain ⟨w, hw, h⟩ := bind_eq_some_iff.1 h
    obtain ⟨t, ht, rfl⟩ := map_eq_some_iff.1 h
    exact .settle hw (Phase.acted?_eq_some.1 ht)
  | renew k =>
    obtain ⟨w, hw, rfl⟩ := map_eq_some_iff.1 h
    exact .renew hw
  | release k =>
    obtain ⟨w, hw, h⟩ := bind_eq_some_iff.1 h
    obtain ⟨hphase, ⟨⟩⟩ := ite_none_right_eq_some.1 h
    exact .release hw hphase

theorem Step.perform (h : Step host s l s') : perform host s l = some s' := by
  cases h with
  | pass hle => exact if_pos hle
  | create hnew hvalid hnext =>
    rw [Timing.perform, if_pos ⟨hnew, hvalid⟩, hnext, map_some]
  | patch ht hvalid => rw [Timing.perform, ht, bind_some, if_pos hvalid]
  | claim ht hk hnow hclaim =>
    rw [Timing.perform, ht, bind_some, if_pos ⟨hk, hnow, hclaim⟩]
  | fire hw hphase ht =>
    rw [Timing.perform, hw, bind_some, ht, bind_some, if_pos hphase]
  | complete hw hphase | fail hw hphase =>
    rw [Timing.perform, hw, bind_some, Phase.running?_eq_some.2 hphase, map_some]
  | settle hw hphase =>
    rw [Timing.perform, hw, bind_some, Phase.acted?_eq_some.2 hphase, map_some]
  | renew hw => rw [Timing.perform, hw, map_some]
  | release hw hphase => rw [Timing.perform, hw, bind_some, if_pos hphase]

end U2os.Server.Triggers.Timing
