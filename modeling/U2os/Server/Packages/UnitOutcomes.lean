import U2os.Server.Agent.FinalOutcomes
import U2os.Server.Packages.WorkflowFrame

/-!
# Outcomes of units and of their actions

A capability unit of a workflow proposes an action and learns of its outcome in two places:
`invoke` maps what the gate answers, and after a wait `actionOutcome` maps the audit row.  Here the
queue runs on, and in between the workflow notes what it makes of an action.

The audit row says `failed` as soon as an attempt failed, also where the queue will try again, and a
worker that asks for the owner's approval answers `failed`, although the action is pending again.  So
a unit may fail although its action is executed afterwards.  Where the workflow notes a failure only
of an action at rest, that cannot happen.
-/

namespace U2os.Server.Packages

open List Option Agent

open Agent (WorkerConfig QueueState QueueLabel Outcome AtRest EventThrows RecordedAlone queueMachine
  orderlyQueue)

/-- `CapabilityInvoker.mapOutcome`, on what the gate answers. -/
def mapOutcome (H : Host) (contract : Option Contract) (o : Outcome) : InvokeOutcome :=
  match o.status with
  | .executed =>
    let output := o.result.getD .null
    match contract.elim [] fun c => H.outputErrors c output with
    | [] => .completed output
    | errors =>
      .failed ("Invalid output from " ++ contract.elim "" Contract.id ++ ": " ++ joinErrors errors)
        "invalid_output"
  | .rejected => .denied "The owner rejected this action" "rejected"
  | .blocked | .cancelled => .denied (o.error.getD "Blocked by policy") "blocked"
  | .failed | .deadLetter => .failed (o.error.getD "Action failed") "action_failed"
  | _ => .waiting

/-- The column `status`, as the workflow reads it. -/
def actionStatus : Agent.ActionStatus → ActionStatus
  | .pending => .pending
  | .approved => .approved
  | .executed => .executed
  | .rejected => .rejected
  | .blocked => .blocked
  | .cancelled => .cancelled
  | .failed => .failed

/-- `action.result?.error`. -/
def resultError (result : Option Json) : Option String :=
  match result.bind (Json.get? · "error") with
  | some (.str message) => some message
  | _ => none

/-- The row, as the workflow reads it. -/
def auditRow (a : Agent.AgentAction) : AgentAction where
  id := a.id
  status := actionStatus a.status
  policyRule := a.policyRule
  result := a.result
  error := resultError a.result

/-- What `actionOutcome` hands to `mapOutcome`. -/
def rowOutcome (a : Agent.AgentAction) : Outcome where
  id := a.id
  status := a.status.toStep
  result := a.result
  error := resultError a.result

theorem actionOutcome_auditRow (H : Host) (contract : Option Contract) (a : Agent.AgentAction) :
    actionOutcome H contract (auditRow a) = mapOutcome H contract (rowOutcome a) := by
  unfold actionOutcome mapOutcome auditRow rowOutcome
  cases a.status <;> rfl

/-- The unit failed, was denied or is skipped. -/
def UnitOutcome.isFailing : UnitOutcome → Bool
  | .failed .. | .denied _ | .skipped _ => true
  | _ => false

/-- The output of a completed unit. -/
def UnitOutcome.output? : UnitOutcome → Option Json
  | .completed output => some output
  | _ => none

variable {output : Json}

theorem UnitOutcome.output?_eq_some {o : UnitOutcome}
    (h : o.output? = some output) : o = .completed output := by
  cases o <;> cases h
  rfl

/-- The queue, and the actions of units with what the workflow made of them. -/
structure UnitState where
  queue : QueueState
  units : List (String × UnitOutcome) := []

/-- What can happen. -/
inductive UnitLabel where
  | queue (l : QueueLabel)
  /-- `invoke` comes back with what the turn answered. -/
  | invoked (t : ℕ) (capability : String)
  /-- `invoke` throws, after it recorded the action. -/
  | thrown (actionId message : String)
  /-- The unit waited, and `actionOutcome` is read again. -/
  | resumed (actionId capability : String)

/-- What the workflow makes of an action. -/
def noted (H : Host) (s : QueueState) : UnitLabel → Option (String × UnitOutcome)
  | .queue _ => none
  | .invoked t capability =>
    match s.turns t with
    | .answered o =>
      some (o.id, mapCapabilityOutcome H capability o.id
        ((s.db.actions.find o.id).bind Agent.AgentAction.policyRule)
        (mapOutcome H (H.contract capability) o))
    | _ => none
  | .thrown actionId message => some (actionId, .thrown message)
  | .resumed actionId capability =>
    (s.db.actions.find actionId).map fun a =>
      (actionId, mapCapabilityOutcome H capability actionId a.policyRule
        (actionOutcome H (H.contract capability) (auditRow a)))

/-- The queue and the workflow. -/
inductive UnitStep (C : WorkerConfig) (H : Host) (s : UnitState) : UnitLabel → UnitState → Prop
  | queue {l : QueueLabel} {s' : QueueState} (h : (queueMachine C).step s.queue l s') :
    UnitStep C H s (.queue l) { s with queue := s' }
  | note {l : UnitLabel} {x : String × UnitOutcome} (h : noted H s.queue l = some x) :
    UnitStep C H s l { s with units := x :: s.units }

/-- The queue, with units that follow their actions. -/
def unitMachine (C : WorkerConfig) (H : Host) : Machine UnitState UnitLabel where
  init := { queue := (queueMachine C).init }
  step := UnitStep C H

/-- The tool of the action of a failed unit does not return. -/
def UnitState.FailuresFinal (s : UnitState) : Prop :=
  ∀ a o, (a, o) ∈ s.units → o.isFailing = true → ∀ l, s.queue.returns l ≠ some a

/-- The action of a completed unit is executed, and the output is its result. -/
def UnitState.CompletionsTrue (s : UnitState) : Prop :=
  ∀ a output, (a, .completed output) ∈ s.units → ∃ r, s.queue.db.actions.find a = some r ∧
    r.status = .executed ∧ r.result.getD .null = output

/-- Failures are noted of actions at rest only. -/
def FailsAtRest (H : Host) (s : UnitState) (l : UnitLabel) : Prop :=
  ∀ a o, noted H s.queue l = some (a, o) → o.isFailing = true → AtRest a s.queue

/-- Results are recorded by one worker alone, and their events are published. -/
def RecordsAlone (s : UnitState) (l : UnitLabel) : Prop :=
  ∀ k, l = .queue k → RecordedAlone s.queue k ∧ ∀ a, ¬EventThrows a s.queue k

variable {C : WorkerConfig} {H : Host} {s s' : UnitState}

/-- The actions of failed units are at rest. -/
def UnitState.Resting (s : UnitState) : Prop :=
  ∀ a o, (a, o) ∈ s.units → o.isFailing = true → AtRest a s.queue

variable {l : UnitLabel}

/-- A unit at rest stays so, under the condition on failures. -/
theorem UnitState.Resting.step (hR : s.Resting) (h : UnitStep C H s l s')
    (hf : FailsAtRest H s l) : s'.Resting := by
  intro a o ho hfail
  cases h with
  | queue h => exact (hR a o ho hfail).step (queueStep_of_step h)
  | note hx =>
    rcases mem_cons.1 ho with rfl | ho
    · exact hf a o hx hfail
    · exact hR a o ho hfail

theorem completed_of_mapOutcome {capability actionId : String} {rule : Option String}
    {contract : Option Contract} {o : Outcome}
    (h : mapCapabilityOutcome H capability actionId rule (mapOutcome H contract o) =
      .completed output) : o.status = .executed ∧ o.result.getD .null = output := by
  unfold mapOutcome at h
  split at h
  · rename_i hs
    dsimp only at h
    split at h
    · exact ⟨hs, by simpa [mapCapabilityOutcome] using h⟩
    · simp [mapCapabilityOutcome] at h
  all_goals
    simp only [mapCapabilityOutcome] at h
    first
      | cases h
      | split_ifs at h

/-- The queue keeps its books, and the actions of completed units are finished. -/
structure UnitState.Booked (s : UnitState) : Prop where
  orderly : s.queue.Orderly
  units : ∀ a output, (a, .completed output) ∈ s.units →
    ∃ r, Agent.Finished a r s.queue ∧ r.result.getD .null = output

theorem UnitState.Booked.noted {a : String} (hB : s.Booked)
    (h : noted H s.queue l = some (a, .completed output)) :
    ∃ r, Agent.Finished a r s.queue ∧ r.result.getD .null = output := by
  unfold Packages.noted at h
  split at h
  · cases h
  · split at h
    · rename_i o ht
      obtain ⟨rfl, ho⟩ := Prod.mk.inj (some_inj.1 h)
      obtain ⟨hs, hout⟩ := completed_of_mapOutcome ho
      obtain ⟨r, hF, hres⟩ := hB.orderly.books.answers _ o ht hs
      exact ⟨r, hF, hres ▸ hout⟩
    · cases h
  · cases h
  · obtain ⟨r, hr, he⟩ := map_eq_some_iff.1 h
    obtain ⟨rfl, ho⟩ := Prod.mk.inj he
    rw [actionOutcome_auditRow] at ho
    obtain ⟨hs, hout⟩ := completed_of_mapOutcome ho
    have hexe : r.status = .executed := by
      cases hr' : r.status <;> simp [rowOutcome, hr', Agent.ActionStatus.toStep] at hs ⊢
    exact ⟨r, hB.orderly.books.rows _ r hr hexe, hout⟩

/-- What is booked for a unit is what its action has recorded. -/
theorem UnitState.Booked.step (hB : s.Booked) (h : UnitStep C H s l s')
    (hal : RecordsAlone s l) : s'.Booked := by
  cases h with
  | @queue k q h =>
    obtain ⟨halone, hev⟩ := hal k rfl
    refine ⟨hB.orderly.step (C := C) ⟨h, halone, hev⟩, fun a output ho => ?_⟩
    obtain ⟨r, hF, hres⟩ := hB.units a output ho
    exact ⟨r, hF.step hB.orderly.sound (queueStep_of_step h) (hev a), hres⟩
  | note hx =>
    refine ⟨hB.orderly, fun a output ho => ?_⟩
    rcases mem_cons.1 ho with rfl | ho
    · exact hB.noted hx
    · exact hB.units a output ho

/-- As long as failures are noted of actions at rest only, the action of a failed unit is not
executed any more.  As long as results are recorded by one worker alone and their events are
published, the action of a completed unit is executed, with the output of the unit. -/
theorem units_agree (C : WorkerConfig) (H : Host) :
    (∀ h s, ((unitMachine C H).restrict fun s l _ => FailsAtRest H s l).Run h s →
      s.FailuresFinal) ∧
    ∀ h s, ((unitMachine C H).restrict fun s l _ => RecordsAlone s l).Run h s →
      s.CompletionsTrue := by
  constructor
  · intro h s hr a o ho hf
    have hR : s.Resting := hr.invariant (I := UnitState.Resting)
      (fun _ _ ho => by cases ho) fun _ _ _ hR hst => hR.step hst.1 hst.2
    exact (hR a o ho hf).returns_ne
  · intro h s hr a output ho
    have hB : s.Booked := hr.invariant (I := UnitState.Booked)
      ⟨orderly_init C, fun _ _ ho => by cases ho⟩ fun _ _ _ hB hst => hB.step hst.1 hst.2
    obtain ⟨r, hF, hres⟩ := hB.units a output ho
    exact ⟨r, hF.row, hF.executed, hres⟩

theorem steps_queue {P : UnitState → UnitLabel → Prop} {M : Machine QueueState QueueLabel}
    {q q' : QueueState} {h : List QueueLabel} (units : List (String × UnitOutcome))
    (hM : ∀ q l q', M.step q l q' → (queueMachine C).step q l q' ∧ P ⟨q, units⟩ (.queue l))
    (hs : M.Steps q h q') :
    ((unitMachine C H).restrict fun s l _ => P s l).Steps ⟨q, units⟩ (h.map .queue) ⟨q', units⟩ := by
  induction hs with
  | nil => exact .nil
  | snoc _ hst ih =>
    obtain ⟨hst, hP⟩ := hM _ _ _ hst
    rw [map_append]
    exact ih.snoc ⟨.queue hst, hP⟩

theorem run_note {P : UnitState → UnitLabel → Prop} {M : Machine QueueState QueueLabel}
    {q : QueueState} {h : List QueueLabel} {x : String × UnitOutcome}
    (hM : ∀ q l q', M.step q l q' → (queueMachine C).step q l q' ∧ P ⟨q, []⟩ (.queue l))
    (hs : M.Steps (queueMachine C).init h q) (hx : noted H q l = some x) (hP : P ⟨q, []⟩ l) :
    ((unitMachine C H).restrict fun s l _ => P s l).Run (h.map .queue ++ [l]) ⟨q, [x]⟩ :=
  (steps_queue [] hM hs).snoc ⟨.note hx, hP⟩

/-- A host whose capabilities write, and whose expressions say nothing. -/
def plainHost : Host where
  leaseMs := 60_000
  contract capability := some { id := capability, effect := .write }
  skill _ := none
  resolveTemplate template _ _ := .ok template
  condition _ _ _ := .ok true
  eventMatches _ _ _ _ := true
  evaluatePackagePolicy _ _ _ _ _ := .ok .null
  prepareSkillInput _ input := input
  skillInputErrors _ _ := []
  skillOutputErrors _ _ := []
  outputErrors _ _ := []
  stateErrors _ _ := []
  mergeState _ state := state
  emitProblem _ _ := none
  parseDuration _ := none
  parseDate _ := none

/-- The e-mail is sent, and the gate answers. -/
def sendEmail : List QueueLabel :=
  proposeAndReturn ++ [.turn 0 (.record none), .turn 0 (.publish none), .turn 0 (.complete 0)]

/-- A unit whose e-mail is blocked by the policy, and one whose e-mail is sent. -/
theorem units_agree_email :
    (∃ s : UnitState, s.FailuresFinal ∧ ∃ o, ("act-1", o) ∈ s.units ∧ o.isFailing = true) ∧
      ∃ s : UnitState, s.CompletionsTrue ∧ ("act-1", .completed (.str "sent")) ∈ s.units := by
  obtain ⟨hfail, hcomp⟩ := units_agree plainWorkers plainHost
  constructor
  · have h₀ : (driveQueue plainWorkers 1 (queueMachine plainWorkers).init
        [.turn 0 (.propose (emailProposal forbidden) 0), .turn 0 (.enqueue 0)]).map
          (fun s => ((noted plainHost s (.invoked 0 "email.send")).map fun x =>
            (x.1, x.2.isFailing), (s.db.actions.find "act-1").map (·.status),
              s.db.queue.find "act-1", (s.turns 0).isPast "act-1")) =
        some (some ("act-1", true), some .blocked, none, true) := by
      decide +kernel
    obtain ⟨q, hd, hv⟩ := map_eq_some_iff.1 h₀
    simp only [Prod.mk.injEq] at hv
    obtain ⟨hn, hrow, hqueue, hpast⟩ := hv
    obtain ⟨⟨a, o⟩, hnote, hx⟩ := map_eq_some_iff.1 hn
    obtain ⟨rfl, hf⟩ := Prod.mk.inj hx
    obtain ⟨r, hr, hrs⟩ := map_eq_some_iff.1 hrow
    obtain ⟨hrun, hidle⟩ := steps_driveQueue (fun _ _ => rfl) hd
    have hrest : AtRest "act-1" q := by
      refine ⟨⟨r, hr, by rw [hrs]; decide⟩, fun p hp => ?_, fun t => ?_⟩
      · rw [hqueue] at hp
        cases hp
      · cases t with
        | zero => exact hpast
        | succ t =>
          rw [hidle (t + 1) (by omega)]
          rfl
    refine ⟨_, hfail _ _ (run_note (fun _ _ _ hst => ⟨hst, nofun⟩) hrun hnote ?_), o,
      mem_cons_self .., hf⟩
    rintro a o' ho' -
    rw [hnote] at ho'
    cases ho'
    exact hrest
  · have h₀ : (driveQueue plainWorkers 1 (queueMachine plainWorkers).init
        sendEmail).map (fun s => (noted plainHost s (.invoked 0 "email.send")).map fun x =>
          (x.1, x.2.output?)) = some (some ("act-1", some (.str "sent"))) := by
      decide +kernel
    obtain ⟨q, hd, hn⟩ := map_eq_some_iff.1 h₀
    obtain ⟨⟨a, o⟩, hnote, hx⟩ := map_eq_some_iff.1 hn
    obtain ⟨rfl, ho⟩ := Prod.mk.inj hx
    obtain rfl := UnitOutcome.output?_eq_some ho
    have hsteps := steps_orderlyQueue (C := plainWorkers) (fun _ _ => rfl)
      (by simp [sendEmail, proposeAndReturn, proposeAndBegin, proposeAndLease]) hd
    refine ⟨_, hcomp _ _ (run_note (M := orderlyQueue plainWorkers)
      (fun _ _ _ hst => ⟨hst.1, ?_⟩) hsteps hnote nofun), mem_cons_self ..⟩
    rintro k ⟨⟩
    exact hst.2

/-- An e-mail whose first attempt failed, and that the queue will try again. -/
def failOnce : List QueueLabel :=
  proposeAndBegin ++ [.turn 0 .call,
    .turn 0 (.throw_ { message := "timeout", errorClass := .retryable }), .turn 0 .note,
    .turn 0 (.publish none), .turn 0 (.fail 0)]

/-- The second attempt, up to the call. -/
def tryAgain : List QueueLabel :=
  [.turn 1 (.tick "w-1" 30_000 2_000), .turn 1 (.expire 2_000),
    .turn 1 (.check (emailView allowed 2_000)), .turn 1 (.begin "att-2" 2_000),
    .turn 1 .call]

/-- The workflow reads `failed` in the audit row, and the second attempt goes through. -/
theorem failed_unit_executes : ¬∀ C H h s, (unitMachine C H).Run h s →
    s.FailuresFinal ∧ s.CompletionsTrue := by
  intro hall
  have h₁ : (driveQueue idempotentWorkers 2 (queueMachine idempotentWorkers).init
      failOnce).map (fun s => ((noted plainHost s (.resumed "act-1" "email.send")).map fun x =>
        (x.1, x.2.isFailing))) = some (some ("act-1", true)) := by
    decide +kernel
  have h₂ : (driveQueue idempotentWorkers 2 (queueMachine idempotentWorkers).init
      (failOnce ++ tryAgain)).map (fun s => s.returns (.turn 1 (.return_ (.str "sent")))) =
        some (some "act-1") := by
    decide +kernel
  obtain ⟨q, hd, hn⟩ := map_eq_some_iff.1 h₁
  obtain ⟨⟨a, o⟩, hnote, hx⟩ := map_eq_some_iff.1 hn
  obtain ⟨rfl, hf⟩ := Prod.mk.inj hx
  obtain ⟨q', hd', hret⟩ := map_eq_some_iff.1 h₂
  rw [driveQueue_append, hd, bind_some] at hd'
  obtain ⟨hrun, hidle⟩ := steps_driveQueue (fun _ _ => rfl) hd
  obtain ⟨hsteps, -⟩ := steps_driveQueue hidle hd'
  have hlift : ∀ {q q' h} units, (queueMachine idempotentWorkers).Steps q h q' →
      (unitMachine idempotentWorkers plainHost).Steps ⟨q, units⟩ (h.map .queue)
        ⟨q', units⟩ := fun _ hs =>
    (steps_queue _ (P := fun _ _ => True) (fun _ _ _ hst => ⟨hst, trivial⟩) hs).of_restrict
  have hunit := ((hlift [] hrun).snoc (l := .resumed "act-1" "email.send") (.note hnote)).trans
    (hlift _ hsteps)
  exact (hall _ _ _ _ hunit).1 _ o (by simp) hf _ hret

end U2os.Server.Packages
