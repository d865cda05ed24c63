import Mathlib.Tactic.Common

/-!
# The action state machine

Statuses, triggers and the transition table of `actions/state.rs`.  Every state change of the
action store goes through `next`; a pair outside the table is illegal.

## Main results

* `Status.parse_asStr`, `Trigger.parse_asStr` : the stored names round trip.
-/

namespace U2os.Majordomo

/-- The status of an action. -/
inductive Status where
  | awaitingApproval
  | queued
  | leased
  | executing
  | retryWait
  | completed
  | failed
  | deadLetter
  | cancelled
  /-- The effect may or may not have happened. -/
  | outcomeUncertain
  deriving DecidableEq, Repr

def allStatuses : List Status :=
  [.awaitingApproval, .queued, .leased, .executing, .retryWait, .completed, .failed,
    .deadLetter, .cancelled, .outcomeUncertain]

namespace Status

/-- The stored name. -/
def asStr : Status → String
  | awaitingApproval => "awaiting_approval"
  | queued => "queued"
  | leased => "leased"
  | executing => "executing"
  | retryWait => "retry_wait"
  | completed => "completed"
  | failed => "failed"
  | deadLetter => "dead_letter"
  | cancelled => "cancelled"
  | outcomeUncertain => "outcome_uncertain"

/-- The status with a stored name. -/
def parse (text : String) : Option Status := allStatuses.find? fun s => s.asStr = text

/-- A lease is held in these statuses. -/
def Held (s : Status) : Prop := s = leased ∨ s = executing

instance (s : Status) : Decidable s.Held := inferInstanceAs (Decidable (_ ∨ _))

@[simp] theorem held_leased : leased.Held := .inl rfl

@[simp] theorem held_executing : executing.Held := .inr rfl

/-- The statuses a lease query picks from. -/
def Waiting (s : Status) : Prop := s = queued ∨ s = retryWait

instance (s : Status) : Decidable s.Waiting := inferInstanceAs (Decidable (_ ∨ _))

end Status

/-- What happens to an action. -/
inductive Trigger where
  | approve
  | reject
  | cancel
  | lease
  /-- A lease ran out: leased returns to the queue, executing is uncertain. -/
  | expireLease
  | beginAttempt
  | complete
  | failRetry
  | failDeadLetter
  | failTerminal
  /-- The capability reported that the outcome is unknown. -/
  | markUncertain
  | stopFailed
  | stopCancelled
  | stopDeadLetter
  | requeue
  | resolveDone
  | resolveNotDone
  deriving DecidableEq, Repr

def allTriggers : List Trigger :=
  [.approve, .reject, .cancel, .lease, .expireLease, .beginAttempt, .complete, .failRetry,
    .failDeadLetter, .failTerminal, .markUncertain, .stopFailed, .stopCancelled,
    .stopDeadLetter, .requeue, .resolveDone, .resolveNotDone]

namespace Trigger

/-- The stored name. -/
def asStr : Trigger → String
  | approve => "approve"
  | reject => "reject"
  | cancel => "cancel"
  | lease => "lease"
  | expireLease => "expire_lease"
  | beginAttempt => "begin_attempt"
  | complete => "complete"
  | failRetry => "fail_retry"
  | failDeadLetter => "fail_dead_letter"
  | failTerminal => "fail_terminal"
  | markUncertain => "mark_uncertain"
  | stopFailed => "stop_failed"
  | stopCancelled => "stop_cancelled"
  | stopDeadLetter => "stop_dead_letter"
  | requeue => "requeue"
  | resolveDone => "resolve_done"
  | resolveNotDone => "resolve_not_done"

/-- The trigger with a stored name. -/
def parse (text : String) : Option Trigger := allTriggers.find? fun t => t.asStr = text

theorem parse_asStr (t : Trigger) : parse t.asStr = some t := by cases t <;> decide

end Trigger

/-- Every legal `(from, trigger, to)`. -/
def transitions : List (Status × Trigger × Status) :=
  [(.awaitingApproval, .approve, .queued),
   (.awaitingApproval, .reject, .cancelled),
   (.awaitingApproval, .cancel, .cancelled),
   (.queued, .cancel, .cancelled),
   (.retryWait, .cancel, .cancelled),
   (.queued, .lease, .leased),
   (.retryWait, .lease, .leased),
   (.leased, .expireLease, .queued),
   (.leased, .beginAttempt, .executing),
   (.leased, .stopFailed, .failed),
   (.leased, .stopCancelled, .cancelled),
   (.leased, .stopDeadLetter, .deadLetter),
   (.executing, .complete, .completed),
   (.executing, .failRetry, .retryWait),
   (.executing, .failDeadLetter, .deadLetter),
   (.executing, .failTerminal, .failed),
   (.executing, .markUncertain, .outcomeUncertain),
   (.executing, .expireLease, .outcomeUncertain),
   (.failed, .requeue, .queued),
   (.cancelled, .requeue, .queued),
   (.outcomeUncertain, .resolveDone, .completed),
   (.outcomeUncertain, .resolveNotDone, .queued)]

/-- The error of an illegal pair. -/
structure IllegalTransition where
  /-- The status the trigger met. -/
  from_ : Status
  /-- The trigger. -/
  trigger : Trigger
  deriving DecidableEq, Repr

def IllegalTransition.message (e : IllegalTransition) : String :=
  "illegal transition: " ++ e.trigger.asStr ++ " is not allowed from " ++ e.from_.asStr

/-- The status reached by applying `trigger` to `from_`. -/
def next (from_ : Status) (trigger : Trigger) : Except IllegalTransition Status :=
  match transitions.find? fun r => r.1 = from_ ∧ r.2.1 = trigger with
  | some r => .ok r.2.2
  | none => .error ⟨from_, trigger⟩

theorem transitions_functional :
    ∀ r ∈ transitions, ∀ r' ∈ transitions, r.1 = r'.1 → r.2.1 = r'.2.1 → r = r' := by
  decide

/-- The table of the transitions. -/
theorem next_eq_ok {f t : Status} {g : Trigger} : next f g = .ok t ↔ (f, g, t) ∈ transitions := by
  unfold next
  constructor
  · intro h
    split at h
    · next r hr =>
      obtain ⟨rfl, rfl⟩ : r.1 = f ∧ r.2.1 = g := by simpa using List.find?_some hr
      cases h
      exact List.mem_of_find?_eq_some hr
    · cases h
  · intro h
    cases hr : transitions.find? fun r => r.1 = f ∧ r.2.1 = g with
    | none => exact absurd (List.find?_eq_none.1 hr _ h) (by simp)
    | some r =>
      obtain ⟨h₁, h₂⟩ : r.1 = f ∧ r.2.1 = g := by simpa using List.find?_some hr
      rw [transitions_functional r (List.mem_of_find?_eq_some hr) _ h h₁ h₂]

theorem next_table {P : Status → Trigger → Status → Prop} {f t : Status} {g : Trigger}
    (hn : next f g = .ok t) (h : ∀ r ∈ transitions, P r.1 r.2.1 r.2.2) : P f g t :=
  h _ (next_eq_ok.1 hn)

end U2os.Majordomo
