import U2os.Server.Agent.GoalStore

/-!
# The machine of the runs

The functions of `agent/run-store.js` in any order, each of them one step, between any changes
of the rows of the actions (the queue, its workers, the owner) and of the goal tables.

A step is given by its function and the arguments, so the state it leads to is computed.
-/

namespace U2os.Server.Agent

open List Option

/-- What can happen to the tables. -/
inductive RunInput where
  | createRun (n : NewRun) (now : ℕ)
  | recordRunPlan (runId : String) (plan : Plan)
  | beginModelCall (runId : String) (now : ℕ)
  | recordModelUsage (runId : String) (inputTokens outputTokens now : ℕ)
  | beginRunStep (runId : String) (index : ℕ) (actionId : String) (now : ℕ)
  | recordRunStepOutcome (runId : String) (index : ℕ) (status : StepStatus)
  | finishRun (runId : String)
  | failRun (runId : String)
  | markBudgetExhausted (runId : String) (reason : BudgetReason)
  | requestRunCancellation (runId cancelledBy : String) (now : ℕ)
  | clearContinuation (runId : String)
  | claimContinuation (runId : String)
  | getRun (runId : String)
  | reconcileInterruptedRuns
  /-- The queue, its workers and the owner. -/
  | actions (db : ActionDb)
  /-- Edits of goals, and what goes with them. -/
  | goals (goals : Goals) (wakes : GoalWakes) (schedules : ResearchSchedules) (triggers : Triggers)

/-- What a step does; a function that throws does nothing. -/
def performRun (s : Store) : RunInput → Store
  | .createRun n now => (createRun s n now).toOption.getD s
  | .recordRunPlan runId plan => (recordRunPlan s runId plan).getD s
  | .beginModelCall runId now => (beginModelCall s runId now).toOption.getD s
  | .recordModelUsage runId inputTokens outputTokens now =>
    (recordModelUsage s runId inputTokens outputTokens now).1
  | .beginRunStep runId index actionId now =>
    (beginRunStep s runId index actionId now).toOption.getD s
  | .recordRunStepOutcome runId index status => recordRunStepOutcome s runId index status
  | .finishRun runId => finishRun s runId
  | .failRun runId => failRun s runId
  | .markBudgetExhausted runId reason => markBudgetExhausted s runId reason
  | .requestRunCancellation runId cancelledBy now => requestRunCancellation s runId cancelledBy now
  | .clearContinuation runId => clearContinuation s runId
  | .claimContinuation runId => (claimContinuation s runId).1
  | .getRun runId => touchRun s runId
  | .reconcileInterruptedRuns => reconcileInterruptedRuns s
  | .actions db => { s with toActionDb := db }
  | .goals goals wakes schedules triggers =>
    { s with goals := goals, wakes := wakes, schedules := schedules, triggers := triggers }

/-- The functions of the run store in any order. -/
def runMachine : Machine Store RunInput where
  init := Store.empty
  step s l t := performRun s l = t

/-- Steps one after another. -/
def driveRuns (s : Store) (inputs : List RunInput) : Store := inputs.foldl performRun s

theorem steps_driveRuns (s : Store) (inputs : List RunInput) :
    runMachine.Steps s inputs (driveRuns s inputs) := by
  induction inputs generalizing s with
  | nil => exact Machine.Steps.nil
  | cons l inputs ih => exact Machine.Steps.cons rfl (ih _)

/-- The run with the status `getRun` finds. -/
def Store.reread (s : Store) (r : AgentRun) : AgentRun :=
  { r with status := currentRunStatus r (s.currentSteps r.id) }

/-- `markBudgetExhausted`, before its `getRun`. -/
def Store.exhausting (s : Store) (runId : String) (reason : BudgetReason) : Store :=
  (s.updateRun runId (AgentRun.exhausted reason) (AgentRun.exhausted_id reason)).closeUnstarted
    runId .budgetExhausted

theorem AgentRun.cancelRequested_id (cancelledBy : String) (now : ℕ) (r : AgentRun) :
    (r.cancelRequested cancelledBy now).id = r.id := rfl

/-- `requestRunCancellation`, before its second `getRun`. -/
def Store.cancelling (s : Store) (runId cancelledBy : String) (now : ℕ) : Store :=
  ((touchRun s runId).updateRun runId (AgentRun.cancelRequested cancelledBy now)
    (AgentRun.cancelRequested_id cancelledBy now)).closeUnstarted runId .cancelled

def AgentRun.claimed (r : AgentRun) : AgentRun :=
  { r with status := .planning, continuationClaimed := true }

/-- The run is over, and stays as it is when its cancellation is requested. -/
def AgentRun.isClosed (r : AgentRun) : Prop := r.status = .completed ∨ r.status = .failed

instance : DecidablePred AgentRun.isClosed := fun _ => inferInstanceAs (Decidable (_ ∨ _))

/-- All a step can do to the row of a run. -/
inductive RunChange (s : Store) : RunInput → AgentRun → AgentRun → Prop
  | same (l : RunInput) (r : AgentRun) : RunChange s l r r
  | planned (r : AgentRun) (plan : Plan) (after : Option ℕ) :
    RunChange s (.recordRunPlan r.id plan) r
      { r with status := .running, continuationAfterStep := after, continuationClaimed := false }
  | called (r : AgentRun) (now : ℕ) (h : r.mayCall maxModelCalls now) :
    RunChange s (.beginModelCall r.id now) r { r with modelCallCount := r.modelCallCount + 1 }
  | metered (r : AgentRun) (inputTokens outputTokens now : ℕ)
      (h : r.meteredModelCalls < r.modelCallCount) :
    RunChange s (.recordModelUsage r.id inputTokens outputTokens now) r
      (r.metered inputTokens outputTokens)
  | begun (r : AgentRun) (index : ℕ) (actionId : String) (now : ℕ) (h : r.mayStep now) :
    RunChange s (.beginRunStep r.id index actionId now) r { r with stepCount := r.stepCount + 1 }
  | finished (r : AgentRun) :
    RunChange s (.finishRun r.id) r { r with status := finishedStatus s r }
  | failed (r : AgentRun) : RunChange s (.failRun r.id) r { r with status := .failed }
  | exhausted (r : AgentRun) (reason : BudgetReason) :
    RunChange s (.markBudgetExhausted r.id reason) r
      ((s.exhausting r.id reason).reread (r.exhausted reason))
  /-- The first `getRun` of a cancellation found the run over. -/
  | closed (r : AgentRun) (cancelledBy : String) (now : ℕ) (h : (s.reread r).isClosed) :
    RunChange s (.requestRunCancellation r.id cancelledBy now) r (s.reread r)
  | cancelled (r : AgentRun) (cancelledBy : String) (now : ℕ) (h : ¬(s.reread r).isClosed) :
    RunChange s (.requestRunCancellation r.id cancelledBy now) r
      ((s.cancelling r.id cancelledBy now).reread ((s.reread r).cancelRequested cancelledBy now))
  | cleared (r : AgentRun) : RunChange s (.clearContinuation r.id) r r.withoutContinuation
  | claimed (r : AgentRun) (h : (s.reread r).claimable) :
    RunChange s (.claimContinuation r.id) r (s.reread r).claimed
  | unclaimed (r : AgentRun) : RunChange s (.claimContinuation r.id) r (s.reread r)
  | read (r : AgentRun) : RunChange s (.getRun r.id) r (s.reread r)
  /-- A run that is not finished, at a restart. -/
  | restarted (r : AgentRun) (status : RunStatus) (h : r.status.isFinished = false) :
    RunChange s .reconcileInterruptedRuns r { r.restarted with status := status }

/-- The row of a new run, and what `createRun` has found. -/
inductive NewRow (s : Store) : RunInput → AgentRun → Prop
  | created (n : NewRun) (now : ℕ) (revision : Option ℕ)
      (h : ∀ goalId, n.goalId = some goalId → (goalUsage s.runs goalId).unfinished = 0) :
    NewRow s (.createRun n now) (n.row revision now)

/-! ### One function after another -/

variable {r : AgentRun} {now : ℕ}

section Functions

variable {s t : Store} {runId : String}

theorem evolves_of_rewritten {l : RunInput} {N : AgentRun → Prop} {f : AgentRun → AgentRun}
    (h : s.runs.RewrittenAt t.runs runId f)
    (hf : ∀ r : AgentRun, r.id = runId → RunChange s l r (f r)) :
    s.runs.Evolves (RunChange s l) N t.runs :=
  h.evolves (RunChange.same l) fun r hr => hf r (Table.key_of_find (show _ = _ from hr))

theorem rewrittenAt_updateRun (f : AgentRun → AgentRun) (hf : ∀ r, (f r).id = r.id) :
    s.runs.RewrittenAt (s.updateRun runId f hf).runs runId f :=
  Table.rewrittenAt_updateWhere hf fun _ => Iff.rfl

theorem rewrittenAt_put (h : s.runs.find runId = some r) (f : AgentRun → AgentRun)
    (hid : (f r).id = r.id) : s.runs.RewrittenAt (s.runs.put (f r)) runId f := by
  have hk : (f r).id = runId := hid.trans (Table.key_of_find h)
  subst hk
  exact Table.rewrittenAt_put h rfl

theorem getRun_eq (h : s.runs.find runId = some r) :
    getRun s runId = some (touchRun s runId, ⟨s.reread r, s.currentSteps runId⟩) := by
  obtain rfl : r.id = runId := Table.key_of_find h
  simp only [touchRun, getRun, h, map_some]
  rfl

theorem getRun_eq_none (h : s.runs.find runId = none) : getRun s runId = none := by
  simp only [getRun, h, map_none]

theorem touchRun_of_none (h : s.runs.find runId = none) : touchRun s runId = s := by
  simp only [touchRun, getRun_eq_none h]

theorem touchRun_runs (h : s.runs.find runId = some r) :
    (touchRun s runId).runs = s.runs.put (s.reread r) := by
  obtain rfl : r.id = runId := Table.key_of_find h
  simp only [touchRun, getRun, h, map_some]
  rfl

theorem rewrittenAt_touchRun (s : Store) (runId : String) :
    s.runs.RewrittenAt (touchRun s runId).runs runId s.reread := by
  cases h : s.runs.find runId with
  | none =>
    rw [touchRun_of_none h]
    exact (Table.RewrittenAt.refl _ _).congr fun r hr => by rw [h] at hr; cases hr
  | some r =>
    rw [touchRun_runs h]
    exact rewrittenAt_put h s.reread rfl

theorem recordRunPlan_runs {plan : Plan} (h : recordRunPlan s runId plan = some t) :
    s.runs.Evolves (RunChange s (.recordRunPlan runId plan)) (NewRow s (.recordRunPlan runId plan))
      t.runs := by
  obtain ⟨steps, _, rfl⟩ := map_eq_some_iff.1 h
  refine evolves_of_rewritten (rewrittenAt_updateRun _ _) ?_
  rintro r rfl
  exact .planned r plan _

theorem beginModelCall_eq_ok (h : beginModelCall s runId now = .ok t) :
    ∃ r, s.runs.find runId = some r ∧ getBudgetStopReason s runId now = none ∧
      getGoalModelCallStopReason s runId = none ∧ r.mayCall maxModelCalls now ∧
      t = { s with runs := s.runs.put { r with modelCallCount := r.modelCallCount + 1 } } := by
  unfold beginModelCall at h
  split at h
  · cases h
  · cases h
  · rename_i r hbudget hgoal hr
    split_ifs at h with hmay
    exact ⟨r, hr, hbudget, hgoal, hmay, (Except.ok.inj h).symm⟩
  · cases h

theorem beginModelCall_runs (h : beginModelCall s runId now = .ok t) :
    s.runs.Evolves (RunChange s (.beginModelCall runId now)) (NewRow s (.beginModelCall runId now))
      t.runs := by
  obtain ⟨r, hr, _, _, hmay, rfl⟩ := beginModelCall_eq_ok h
  obtain rfl : r.id = runId := Table.key_of_find hr
  exact .put (RunChange.same _) (Table.mem_of_find hr) rfl (.called r now hmay)

theorem recordModelUsage_runs (s : Store) (runId : String) (inputTokens outputTokens now : ℕ) :
    s.runs.Evolves (RunChange s (.recordModelUsage runId inputTokens outputTokens now))
      (NewRow s (.recordModelUsage runId inputTokens outputTokens now))
      (recordModelUsage s runId inputTokens outputTokens now).1.runs := by
  unfold recordModelUsage
  split_ifs
  · exact .refl (RunChange.same _) _
  split
  · exact .refl (RunChange.same _) _
  rename_i r hr
  split_ifs with hmay
  · obtain rfl : r.id = runId := Table.key_of_find hr
    have hput : s.runs.Evolves
        (RunChange s (.recordModelUsage r.id inputTokens outputTokens now))
        (NewRow s (.recordModelUsage r.id inputTokens outputTokens now))
        (s.runs.put (r.metered inputTokens outputTokens)) :=
      .put (RunChange.same _) (Table.mem_of_find hr) rfl (.metered r _ _ now hmay.2)
    -- the usage is kept also where it exhausts the budget
    dsimp only
    split <;> exact hput
  · exact .refl (RunChange.same _) _

theorem beginRunStep_eq_ok {index : ℕ} {actionId : String}
    (h : beginRunStep s runId index actionId now = .ok t) :
    ∃ r x, s.runs.find runId = some r ∧ s.steps.find (runId, index) = some x ∧
      getBudgetStopReason s runId now = none ∧ r.mayStep now ∧ x.status.isOpen = true ∧
      (∀ y ∈ s.steps, y.actionId ≠ some actionId) ∧
      t = { s with
        runs := s.runs.put { r with stepCount := r.stepCount + 1 }
        steps := s.steps.put { x with status := .running, actionId := some actionId } } := by
  unfold beginRunStep at h
  split at h
  · cases h
  · cases h
  · rename_i r hbudget hr
    by_cases hmay : r.mayStep now
    · rw [if_neg (not_not.2 hmay)] at h
      split at h
      · cases h
      · rename_i x hx
        split_ifs at h with hopen hfresh
        refine ⟨r, x, hr, hx, hbudget, hmay, by simpa using hopen, ?_, (Except.ok.inj h).symm⟩
        intro y hy hid
        exact hfresh (List.any_eq_true.2 ⟨y, hy, by simp [hid]⟩)
    · rw [if_pos hmay] at h
      cases h

theorem beginRunStep_runs {index : ℕ} {actionId : String}
    (h : beginRunStep s runId index actionId now = .ok t) :
    s.runs.Evolves (RunChange s (.beginRunStep runId index actionId now))
      (NewRow s (.beginRunStep runId index actionId now)) t.runs := by
  obtain ⟨r, x, hr, _, _, hmay, _, _, rfl⟩ := beginRunStep_eq_ok h
  obtain rfl : r.id = runId := Table.key_of_find hr
  exact .put (RunChange.same _) (Table.mem_of_find hr) rfl (.begun r index actionId now hmay)

theorem finishRun_runs (s : Store) (runId : String) :
    s.runs.Evolves (RunChange s (.finishRun runId)) (NewRow s (.finishRun runId))
      (finishRun s runId).runs := by
  unfold finishRun
  split
  · exact .refl (RunChange.same _) _
  · rename_i r hr
    obtain rfl : r.id = runId := Table.key_of_find hr
    exact .put (RunChange.same _) (Table.mem_of_find hr) rfl (.finished r)

theorem rewrittenAt_exhausting (s : Store) (runId : String) (reason : BudgetReason) :
    s.runs.RewrittenAt (s.exhausting runId reason).runs runId (AgentRun.exhausted reason) :=
  rewrittenAt_updateRun _ (AgentRun.exhausted_id reason)

theorem rewrittenAt_cancelling (s : Store) (runId cancelledBy : String) (now : ℕ) :
    s.runs.RewrittenAt (s.cancelling runId cancelledBy now).runs runId
      (AgentRun.cancelRequested cancelledBy now ∘ s.reread) := by
  refine (rewrittenAt_touchRun s runId).trans ?_
  exact rewrittenAt_updateRun (s := touchRun s runId) (AgentRun.cancelRequested cancelledBy now)
    fun _ => rfl

theorem markBudgetExhausted_runs (s : Store) (runId : String) (reason : BudgetReason) :
    s.runs.Evolves (RunChange s (.markBudgetExhausted runId reason))
      (NewRow s (.markBudgetExhausted runId reason)) (markBudgetExhausted s runId reason).runs := by
  refine evolves_of_rewritten ((rewrittenAt_exhausting s runId reason).trans
    (rewrittenAt_touchRun _ runId)) ?_
  rintro r rfl
  exact .exhausted r reason

theorem requestRunCancellation_of_none {cancelledBy : String}
    (h : s.runs.find runId = none) : requestRunCancellation s runId cancelledBy now = s := by
  simp only [requestRunCancellation, getRun_eq_none h]

theorem requestRunCancellation_eq {cancelledBy : String} (h : s.runs.find runId = some r) :
    requestRunCancellation s runId cancelledBy now =
      if (s.reread r).isClosed then touchRun s runId
      else touchRun (s.cancelling runId cancelledBy now) runId := by
  simp only [requestRunCancellation, getRun_eq h]
  rfl

theorem requestRunCancellation_runs (s : Store) (runId cancelledBy : String) (now : ℕ) :
    s.runs.Evolves (RunChange s (.requestRunCancellation runId cancelledBy now))
      (NewRow s (.requestRunCancellation runId cancelledBy now))
      (requestRunCancellation s runId cancelledBy now).runs := by
  cases h : s.runs.find runId with
  | none =>
    rw [requestRunCancellation_of_none h]
    exact .refl (RunChange.same _) _
  | some r =>
    rw [requestRunCancellation_eq h]
    obtain rfl : r.id = runId := Table.key_of_find h
    split_ifs with hclosed
    · refine (rewrittenAt_touchRun s r.id).evolves (RunChange.same _) fun r' hr' => ?_
      obtain rfl : r = r' := Option.some.inj (h.symm.trans hr')
      exact .closed r cancelledBy now hclosed
    · refine ((rewrittenAt_cancelling s r.id cancelledBy now).trans
        (rewrittenAt_touchRun _ r.id)).evolves (RunChange.same _) fun r' hr' => ?_
      obtain rfl : r = r' := Option.some.inj (h.symm.trans hr')
      exact .cancelled r cancelledBy now hclosed

theorem claimContinuation_runs (s : Store) (runId : String) :
    s.runs.Evolves (RunChange s (.claimContinuation runId)) (NewRow s (.claimContinuation runId))
      (claimContinuation s runId).1.runs := by
  unfold claimContinuation
  cases h : s.runs.find runId with
  | none =>
    rw [getRun_eq_none h]
    exact .refl (RunChange.same _) _
  | some r =>
    rw [getRun_eq h]
    have hread := rewrittenAt_touchRun s runId
    obtain rfl : r.id = runId := Table.key_of_find h
    dsimp only
    split_ifs with hclaim
    · have hfind : (touchRun s r.id).runs.find r.id = some (s.reread r) := by
        rw [hread r.id, if_pos rfl, h, map_some]
      refine (hread.trans (rewrittenAt_put hfind AgentRun.claimed rfl)).evolves
        (RunChange.same _) fun r' hr' => ?_
      obtain rfl : r = r' := Option.some.inj (h.symm.trans hr')
      exact .claimed r hclaim
    · refine evolves_of_rewritten hread ?_
      intro r' hr'
      rw [← hr']
      exact .unclaimed r'

theorem startGoal_eq_ok {actorId goalId : String} {revision : ℕ}
    (h : startGoal s actorId goalId = .ok (t, revision)) :
    t.runs = s.runs ∧ t.steps = s.steps ∧ (goalUsage s.runs goalId).unfinished = 0 := by
  unfold startGoal at h
  split at h
  · cases h
  · dsimp only at h
    split_ifs at h with _ _ _ hfree
    cases h
    exact ⟨rfl, rfl, not_not.1 hfree⟩

theorem consumeWake_eq_ok {n : NewRun} {revision : Option ℕ}
    (h : consumeWake s n revision now = .ok t) : t.runs = s.runs ∧ t.steps = s.steps := by
  unfold consumeWake at h
  split at h
  · cases h
    exact ⟨rfl, rfl⟩
  · split at h
    · cases h
    · split_ifs at h
      cases h
      exact ⟨rfl, rfl⟩

theorem createRun_inserts {n : NewRun} (h : createRun s n now = .ok t) :
    ∃ revision, s.runs.insert? (n.row revision now) = some t.runs ∧ t.steps = s.steps ∧
      ∀ goalId, n.goalId = some goalId → (goalUsage s.runs goalId).unfinished = 0 := by
  obtain ⟨s₁, revision, s₂, runs, hstart, hconsume, hins, rfl⟩ := createRun_eq_ok h
  obtain ⟨hruns₂, hsteps₂⟩ := consumeWake_eq_ok hconsume
  obtain ⟨hruns₁, hsteps₁, hfree⟩ : s₁.runs = s.runs ∧ s₁.steps = s.steps ∧
      ∀ goalId, n.goalId = some goalId → (goalUsage s.runs goalId).unfinished = 0 := by
    rcases hstart with ⟨hgoal, rfl, _⟩ | ⟨goalId, number, hgoal, hs, _⟩
    · exact ⟨rfl, rfl, by simp [hgoal]⟩
    · obtain ⟨h1, h2, h3⟩ := startGoal_eq_ok hs
      refine ⟨h1, h2, fun goalId' hgoal' => ?_⟩
      obtain rfl : goalId = goalId' := Option.some.inj (hgoal.symm.trans hgoal')
      exact h3
  rw [hruns₂, hruns₁] at hins
  exact ⟨revision, hins, hsteps₂.trans hsteps₁, hfree⟩

theorem createRun_runs {n : NewRun} (h : createRun s n now = .ok t) :
    s.runs.Evolves (RunChange s (.createRun n now)) (NewRow s (.createRun n now)) t.runs := by
  obtain ⟨revision, hins, _, hfree⟩ := createRun_inserts h
  exact .insert (RunChange.same _) hins (.created n now revision hfree)

theorem foldl_touchRun_runs (ids : List String) (s : Store) :
    s.runs.Evolves (fun r r' => (∃ status, r' = { r with status := status }) ∧
      (r.id ∉ ids → r' = r)) (fun _ => False) (ids.foldl touchRun s).runs := by
  induction ids generalizing s with
  | nil => exact .refl (fun r => ⟨⟨r.status, rfl⟩, fun _ => rfl⟩) _
  | cons id ids ih =>
    have hread : s.runs.Evolves (fun r r' => (∃ status, r' = { r with status := status }) ∧
        (r.id ∉ id :: ids → r' = r)) (fun _ => False) (touchRun s id).runs := by
      refine (rewrittenAt_touchRun s id).evolves (fun r => ⟨⟨r.status, rfl⟩, fun _ => rfl⟩) ?_
      intro r hr
      obtain rfl : r.id = id := Table.key_of_find hr
      exact ⟨⟨_, rfl⟩, fun hni => absurd mem_cons_self hni⟩
    have hrest : (touchRun s id).runs.Evolves (fun r r' =>
        (∃ status, r' = { r with status := status }) ∧ (r.id ∉ id :: ids → r' = r))
        (fun _ => False) (ids.foldl touchRun (touchRun s id)).runs :=
      (ih _).mono (fun r _ r' h => ⟨h.1, fun hni => h.2 fun hmem => hni (mem_cons_of_mem _ hmem)⟩)
        fun _ h => h
    refine hread.trans ?_ (fun _ _ h _ => h) hrest
    rintro a b c ⟨⟨st, rfl⟩, hab⟩ ⟨⟨st', rfl⟩, hbc⟩
    exact ⟨⟨st', rfl⟩, fun hni => (hbc hni).trans (hab hni)⟩

theorem RunStatus.isRead_of_isFinished {status : RunStatus} (h : status.isFinished = true) :
    status.isRead = false := by
  cases status <;> first | rfl | cases h

theorem AgentRun.restarted_of_isFinished (h : r.status.isFinished = true) :
    r.restarted = r := by
  have hne : ∀ status : RunStatus, status.isFinished = false → r.status ≠ status := by
    rintro status hst rfl
    rw [h] at hst
    cases hst
  unfold AgentRun.restarted
  simp [hne .planning rfl, hne .running rfl, hne .interrupted rfl]

/-- What a restart does to the runs. -/
theorem reconcileInterruptedRuns_runs (s : Store) :
    s.runs.Evolves (RunChange s .reconcileInterruptedRuns) (NewRow s .reconcileInterruptedRuns)
      (reconcileInterruptedRuns s).runs := by
  unfold reconcileInterruptedRuns
  generalize hs₁ : ({ s with
    steps := s.steps.updateWhere RunStep.stranded (fun x => { x with status := .interrupted })
      fun _ => rfl
    runs := s.runs.updateWhere (fun _ => True) AgentRun.restarted AgentRun.restarted_id } : Store)
    = s₁
  have hruns₁ : s₁.runs = s.runs.updateWhere (fun _ => True) AgentRun.restarted
      AgentRun.restarted_id := by rw [← hs₁]
  dsimp only
  generalize hids : (s₁.runs.rows.filter fun (r : AgentRun) => r.status.isRead).map AgentRun.id = ids
  have hread := foldl_touchRun_runs ids s₁
  -- a finished run is not read
  have hid : ∀ r ∈ s.runs, ∀ r', (∃ status, r' = { r.restarted with status := status }) ∧
      (r.restarted.id ∉ ids → r' = r.restarted) → RunChange s .reconcileInterruptedRuns r r' := by
    rintro r hr r' ⟨⟨status, rfl⟩, hsame⟩
    cases hfin : r.status.isFinished with
    | false => exact .restarted r status hfin
    | true =>
      have hr₁ : r ∈ s₁.runs := by
        rw [hruns₁]
        have hmem := Table.updateWhere_mem (p := fun _ => True) AgentRun.restarted_id hr
        rwa [if_pos trivial, AgentRun.restarted_of_isFinished hfin] at hmem
      rw [AgentRun.restarted_of_isFinished hfin] at hsame ⊢
      rw [hsame]
      · exact .same _ r
      · rw [← hids]
        intro hmem
        obtain ⟨r₂, hr₂, hid₂⟩ := List.mem_map.1 hmem
        obtain ⟨hr₂, hst₂⟩ := mem_filter.1 hr₂
        obtain rfl := s₁.runs.eq_of_key hr₂ hr₁ hid₂
        rw [RunStatus.isRead_of_isFinished hfin] at hst₂
        cases hst₂
  constructor
  · intro r hr
    have hr₁ : r.restarted ∈ s₁.runs := by
      rw [hruns₁]
      exact Table.updateWhere_mem (p := fun _ => True) AgentRun.restarted_id hr
    obtain ⟨r', hr', h'⟩ := hread.goes _ hr₁
    exact ⟨r', hr', hid r hr r' h'⟩
  · intro r' hr'
    rcases hread.comes r' hr' with ⟨r₁, hr₁, h'⟩ | hf
    · rw [hruns₁] at hr₁
      obtain ⟨r, hr, rfl⟩ := Table.mem_updateWhere.1 hr₁
      exact .inl ⟨r, hr, hid r hr r' h'⟩
    · exact hf.elim

end Functions

/-- All that a call does to the rows of the runs. -/
theorem perform_runs (s : Store) (l : RunInput) :
    s.runs.Evolves (RunChange s l) (NewRow s l) (performRun s l).runs := by
  have hsame : ∀ l, s.runs.Evolves (RunChange s l) (NewRow s l) s.runs := fun l =>
    .refl (RunChange.same l) _
  cases l with
  | createRun n now =>
    cases h : createRun s n now with
    | error e => rw [performRun, h]; exact hsame _
    | ok t => rw [performRun, h]; exact createRun_runs h
  | recordRunPlan runId plan =>
    cases h : recordRunPlan s runId plan with
    | none => rw [performRun, h]; exact hsame _
    | some t => rw [performRun, h]; exact recordRunPlan_runs h
  | beginModelCall runId now =>
    cases h : beginModelCall s runId now with
    | error e => rw [performRun, h]; exact hsame _
    | ok t => rw [performRun, h]; exact beginModelCall_runs h
  | recordModelUsage runId inputTokens outputTokens now => exact recordModelUsage_runs s ..
  | beginRunStep runId index actionId now =>
    cases h : beginRunStep s runId index actionId now with
    | error e => rw [performRun, h]; exact hsame _
    | ok t => rw [performRun, h]; exact beginRunStep_runs h
  | recordRunStepOutcome runId index status => exact hsame _
  | finishRun runId => exact finishRun_runs s runId
  | failRun runId =>
    refine evolves_of_rewritten (rewrittenAt_updateRun _ _) ?_
    rintro r rfl
    exact .failed r
  | markBudgetExhausted runId reason => exact markBudgetExhausted_runs s runId reason
  | requestRunCancellation runId cancelledBy now => exact requestRunCancellation_runs s ..
  | clearContinuation runId =>
    refine evolves_of_rewritten (rewrittenAt_updateRun _ _) ?_
    rintro r rfl
    exact .cleared r
  | claimContinuation runId => exact claimContinuation_runs s runId
  | getRun runId =>
    refine evolves_of_rewritten (rewrittenAt_touchRun s runId) ?_
    rintro r rfl
    exact .read r
  | reconcileInterruptedRuns => exact reconcileInterruptedRuns_runs s
  | actions db => exact hsame _
  | goals goals wakes schedules triggers => exact hsame _

/-! ### What a step does to a step of a run -/

/-- The step brings the steps of the run up to date. -/
def RunInput.rereads : RunInput → String → Prop
  | .markBudgetExhausted runId _, id | .requestRunCancellation runId _ _, id
  | .claimContinuation runId, id | .getRun runId, id => runId = id
  | .reconcileInterruptedRuns, _ => True
  | _, _ => False

/-- The status the steps get that wait without an action. -/
def RunInput.closes : RunInput → String → Option StepStatus
  | .markBudgetExhausted runId _, id => if runId = id then some .budgetExhausted else none
  | .requestRunCancellation runId _ _, id => if runId = id then some .cancelled else none
  | _, _ => none

/-- All a step can do to the row of a step. -/
inductive StepChange (s : Store) : RunInput → RunStep → RunStep → Prop
  | same (l : RunInput) (x : RunStep) : StepChange s l x x
  | begun (x : RunStep) (actionId : String) (now : ℕ) (h : x.status.isOpen = true) :
    StepChange s (.beginRunStep x.runId x.index actionId now) x
      { x with status := .running, actionId := some actionId }
  | recorded (x : RunStep) (status : StepStatus) (h : x ∈ s.steps) :
    StepChange s (.recordRunStepOutcome x.runId x.index status) x { x with status := status }
  | reread (l : RunInput) (x : RunStep) (h : l.rereads x.runId) :
    StepChange s l x { x with status := currentStepStatus s.toActionDb x }
  | closed (l : RunInput) (x : RunStep) (status : StepStatus) (h : l.closes x.runId = some status)
      (hx : x.unstarted x.runId) : StepChange s l x { x with status := status }
  | stranded (x : RunStep) (h : x.stranded) :
    StepChange s .reconcileInterruptedRuns x { x with status := .interrupted }

/-- The row of a new step. -/
inductive NewStep : RunInput → RunStep → Prop
  | planned (runId : String) (plan : Plan) (a : PlannedAction) (base index : ℕ)
      (h : (a, index) ∈ plan.actions.zipIdx) :
    NewStep (.recordRunPlan runId plan) (a.row runId base index)

variable {db : ActionDb}

section Steps

variable {s t : Store} {runId : String}

theorem currentStepStatus_of_none {x : RunStep} (h : x.actionId = none)
    (hrun : x.status ≠ .running) : currentStepStatus db x = x.status := by
  simp only [currentStepStatus, h, if_neg hrun]

theorem currentStepStatus_ne_running (db : ActionDb) (x : RunStep) (h : x.actionId = none) :
    currentStepStatus db x ≠ .running := by
  simp only [currentStepStatus, h]
  split_ifs with hrun
  · simp
  · exact hrun

theorem currentStepStatus_of_some {x : RunStep} {a : String}
    (h : x.actionId = some a) (status : StepStatus) :
    currentStepStatus db { x with status := status } = currentStepStatus db x := by
  simp only [currentStepStatus, h]

@[simp] theorem currentStepStatus_idem (db : ActionDb) (x : RunStep) :
    currentStepStatus db { x with status := currentStepStatus db x } = currentStepStatus db x := by
  by_cases h : x.actionId = none
  · exact currentStepStatus_of_none h (currentStepStatus_ne_running db x h)
  · obtain ⟨a, ha⟩ := ne_none_iff_exists'.1 h
    exact currentStepStatus_of_some ha _

/-- What reading and closing the steps of a run makes of a step. -/
inductive StepUpdate (db : ActionDb) (runId : String) (status : StepStatus) : RunStep → RunStep → Prop
  | same (x : RunStep) : StepUpdate db runId status x x
  | reread (x : RunStep) (h : x.runId = runId) :
    StepUpdate db runId status x { x with status := currentStepStatus db x }
  | closed (x : RunStep) (hx : x.unstarted runId) : StepUpdate db runId status x { x with status := status }

/-- Two updates of one call are one update. -/
theorem StepUpdate.trans {status : StepStatus} (hrun : status ≠ .running)
    (hopen : status.isOpen = false) {x y z : RunStep} (h : StepUpdate db runId status x y)
    (h' : StepUpdate db runId status y z) : StepUpdate db runId status x z := by
  cases h with
  | same => exact h'
  | reread hid =>
    cases h' with
    | same => exact .reread x hid
    | reread _ =>
      rw [currentStepStatus_idem]
      exact .reread x hid
    | closed hx =>
      refine .closed x ⟨hx.1, hx.2.1, ?_⟩
      have hst := hx.2.2
      -- an open status was read as it is
      have hxrun : x.status ≠ .running := by
        intro hr
        have : currentStepStatus db x = .interrupted := by
          simp only [currentStepStatus, show x.actionId = none from hx.2.1, hr, if_true]
        rw [this] at hst
        cases hst
      rwa [currentStepStatus_of_none (show x.actionId = none from hx.2.1) hxrun] at hst
  | closed hx =>
    cases h' with
    | same => exact .closed x hx
    | reread _ =>
      rw [currentStepStatus_of_none (x := { x with status := status }) hx.2.1 hrun]
      exact .closed x hx
    | closed hx' =>
      have hst : status.isOpen = true := hx'.2.2
      rw [hopen] at hst
      cases hst

theorem touchRun_db (s : Store) (runId : String) : (touchRun s runId).toActionDb = s.toActionDb := by
  unfold touchRun getRun
  cases s.runs.find runId <;> rfl

theorem reread_steps (s : Store) (runId : String) :
    s.steps.Evolves (fun x y => y = x ∨
      x.runId = runId ∧ y = { x with status := currentStepStatus s.toActionDb x }) (fun _ => False)
      (touchRun s runId).steps := by
  unfold touchRun getRun
  cases s.runs.find runId with
  | none =>
    refine .refl ?_ _
    exact fun _ => .inl rfl
  | some r =>
    refine .updateWhere ?_ (fun _ => .inl rfl) fun x _ hx => .inr ⟨hx, rfl⟩
    exact fun _ => rfl

theorem touchRun_steps (s : Store) (runId : String) (status : StepStatus) :
    s.steps.Evolves (StepUpdate s.toActionDb runId status) (fun _ => False)
      (touchRun s runId).steps := by
  refine (reread_steps s runId).mono (fun x _ y h => ?_) fun _ h => h
  rcases h with rfl | ⟨hid, rfl⟩
  · exact .same _
  · exact .reread x hid

theorem closeUnstarted_steps (s : Store) (runId : String) (status : StepStatus) :
    s.steps.Evolves (StepUpdate s.toActionDb runId status) (fun _ => False)
      (s.closeUnstarted runId status).steps := by
  refine Table.Evolves.updateWhere ?_ StepUpdate.same fun x _ hx => ?_
  · exact fun _ => rfl
  · exact .closed x hx

theorem exhausting_steps (s : Store) (runId : String) (reason : BudgetReason) :
    s.steps.Evolves (StepUpdate s.toActionDb runId .budgetExhausted) (fun _ => False)
      (markBudgetExhausted s runId reason).steps := by
  have htrans : ∀ x y z : RunStep, StepUpdate s.toActionDb runId .budgetExhausted x y →
      StepUpdate s.toActionDb runId .budgetExhausted y z →
      StepUpdate s.toActionDb runId .budgetExhausted x z :=
    fun _ _ _ h h' => h.trans (by simp) rfl h'
  have hclosed : s.steps.Evolves (StepUpdate s.toActionDb runId .budgetExhausted) (fun _ => False)
      (s.exhausting runId reason).steps := closeUnstarted_steps s runId .budgetExhausted
  exact hclosed.trans htrans (fun _ _ h _ => h) (touchRun_steps (s.exhausting runId reason) runId _)

theorem cancelling_steps (s : Store) (runId cancelledBy : String) (now : ℕ) :
    s.steps.Evolves (StepUpdate s.toActionDb runId .cancelled) (fun _ => False)
      (requestRunCancellation s runId cancelledBy now).steps := by
  have htrans : ∀ x y z : RunStep, StepUpdate s.toActionDb runId .cancelled x y →
      StepUpdate s.toActionDb runId .cancelled y z → StepUpdate s.toActionDb runId .cancelled x z :=
    fun _ _ _ h h' => h.trans (by simp) rfl h'
  cases h : s.runs.find runId with
  | none =>
    rw [requestRunCancellation_of_none h]
    exact .refl .same _
  | some r =>
    rw [requestRunCancellation_eq h]
    split_ifs
    · exact touchRun_steps s runId _
    · have hdb : (s.cancelling runId cancelledBy now).toActionDb = s.toActionDb := touchRun_db s runId
      have hclose : (touchRun s runId).steps.Evolves
          (StepUpdate (touchRun s runId).toActionDb runId .cancelled) (fun _ => False)
          (s.cancelling runId cancelledBy now).steps := closeUnstarted_steps
        ((touchRun s runId).updateRun runId (AgentRun.cancelRequested cancelledBy now)) runId _
      have hread := touchRun_steps (s.cancelling runId cancelledBy now) runId .cancelled
      rw [hdb] at hread
      rw [touchRun_db] at hclose
      have h₁ := (touchRun_steps s runId .cancelled).trans htrans (fun _ _ h _ => h) hclose
      exact h₁.trans htrans (fun _ _ h _ => h) hread

theorem StepUpdate.change {l : RunInput} {status : StepStatus} {x y : RunStep}
    (h : StepUpdate s.toActionDb runId status x y) (hread : l.rereads runId)
    (hclose : l.closes runId = some status ∨ ¬x.unstarted runId) : StepChange s l x y := by
  cases h with
  | same => exact .same l x
  | reread hid => exact .reread l x (hid ▸ hread)
  | closed hx =>
    rcases hclose with hclose | hno
    · exact .closed l x status (hx.1 ▸ hclose) (hx.1 ▸ hx)
    · exact absurd hx hno

theorem insertPlan_steps {steps steps' : RunSteps} {runId : String} {plan : Plan} {base : ℕ}
    (h : insertPlan steps runId base plan.actions = some steps') :
    steps.Evolves (StepChange s (.recordRunPlan runId plan)) (NewStep (.recordRunPlan runId plan))
      steps' := by
  have hins : ∀ (ps : List (PlannedAction × ℕ)) (steps : RunSteps),
      (∀ p ∈ ps, p ∈ plan.actions.zipIdx) →
      ps.foldlM (fun steps p => steps.insert? (p.1.row runId base p.2)) steps = some steps' →
      steps.Evolves (fun x y => y = x) (NewStep (.recordRunPlan runId plan)) steps' := by
    intro ps
    induction ps with
    | nil =>
      intro steps _ h
      exact .of_eq (fun _ => rfl) (Option.some.inj h).symm
    | cons p ps ih =>
      intro steps hps h
      rw [foldlM_cons] at h
      obtain ⟨steps₁, hp, hrest⟩ := bind_eq_some_iff.1 h
      refine .trans (fun _ _ _ h h' => h'.trans h) (fun _ _ h h' => h' ▸ h)
        (.insert (fun _ => rfl) hp ?_) (ih steps₁ (fun q hq => hps q (mem_cons_of_mem _ hq)) hrest)
      exact .planned runId plan p.1 base p.2 (hps p mem_cons_self)
  refine (hins _ steps (fun _ hp => hp) h).mono ?_ fun _ h => h
  rintro x _ _ rfl
  exact .same _ _

theorem reconciled {x y z : RunStep}
    (hxy : y = x ∨ x.stranded ∧ y = { x with status := .interrupted })
    (hyz : z = y ∨ z = { y with status := currentStepStatus s.toActionDb y }) :
    StepChange s .reconcileInterruptedRuns x z := by
  rcases hxy with rfl | ⟨hx, rfl⟩ <;> rcases hyz with rfl | rfl
  · exact .same _ _
  · exact .reread _ _ trivial
  · exact .stranded _ hx
  · have hread : currentStepStatus s.toActionDb { x with status := .interrupted } = .interrupted :=
      currentStepStatus_of_none hx.1 (by simp)
    rw [hread]
    exact .stranded _ hx

theorem reconcileInterruptedRuns_steps (s : Store) :
    s.steps.Evolves (StepChange s .reconcileInterruptedRuns) (fun _ => False)
      (reconcileInterruptedRuns s).steps := by
  unfold reconcileInterruptedRuns
  generalize hs₁ : ({ s with
    steps := s.steps.updateWhere RunStep.stranded (fun x => { x with status := .interrupted })
      fun _ => rfl
    runs := s.runs.updateWhere (fun _ => True) AgentRun.restarted AgentRun.restarted_id } : Store)
    = s₁
  have hdb : s₁.toActionDb = s.toActionDb := by rw [← hs₁]
  have hreads : ∀ (ids : List String) (t : Store), t.toActionDb = s.toActionDb →
      t.steps.Evolves (fun x y => y = x ∨ y = { x with status := currentStepStatus s.toActionDb x })
        (fun _ => False) (ids.foldl touchRun t).steps := by
    intro ids
    induction ids with
    | nil =>
      refine fun t _ => .refl ?_ _
      exact fun _ => .inl rfl
    | cons id ids ih =>
      intro t ht
      have hread : t.steps.Evolves
          (fun x y => y = x ∨ y = { x with status := currentStepStatus s.toActionDb x })
          (fun _ => False) (touchRun t id).steps := by
        refine (reread_steps t id).mono (fun x _ y h => ?_) fun _ h => h
        rw [ht] at h
        exact h.imp_right And.right
      refine hread.trans ?_ (fun _ _ h _ => h) (ih _ ((touchRun_db t id).trans ht))
      rintro x _ _ (rfl | rfl) (rfl | rfl)
      · exact .inl rfl
      · exact .inr rfl
      · exact .inr rfl
      · exact .inr (by rw [currentStepStatus_idem])
  have h₁ : s.steps.Evolves (fun x y => y = x ∨ x.stranded ∧ y = { x with status := .interrupted })
      (fun _ => False) s₁.steps := by
    rw [← hs₁]
    refine .updateWhere ?_ (fun _ => .inl rfl) fun x _ hx => .inr ⟨hx, rfl⟩
    exact fun _ => rfl
  constructor
  · intro x hx
    obtain ⟨y, hy, hxy⟩ := h₁.goes x hx
    obtain ⟨z, hz, hyz⟩ := (hreads _ s₁ hdb).goes y hy
    exact ⟨z, hz, reconciled hxy hyz⟩
  · intro z hz
    rcases (hreads _ s₁ hdb).comes z hz with ⟨y, hy, hyz⟩ | hf
    · rcases h₁.comes y hy with ⟨x, hx, hxy⟩ | hf
      · exact .inl ⟨x, hx, reconciled hxy hyz⟩
      · exact hf.elim
    · exact hf.elim

end Steps

/-- All that a call does to the rows of the steps. -/
theorem perform_steps (s : Store) (l : RunInput) :
    s.steps.Evolves (StepChange s l) (NewStep l) (performRun s l).steps := by
  have hsame : ∀ {l : RunInput} {t : Store}, t.steps = s.steps →
      s.steps.Evolves (StepChange s l) (NewStep l) t.steps :=
    fun h => .of_eq (StepChange.same _) h
  cases l with
  | createRun n now =>
    cases h : createRun s n now with
    | error e => rw [performRun, h]; exact hsame rfl
    | ok t =>
      obtain ⟨_, _, hsteps, _⟩ := createRun_inserts h
      rw [performRun, h]
      exact hsame hsteps
  | recordRunPlan runId plan =>
    cases h : recordRunPlan s runId plan with
    | none => rw [performRun, h]; exact hsame rfl
    | some t =>
      obtain ⟨steps, hins, rfl⟩ := map_eq_some_iff.1 h
      rw [performRun, h]
      exact insertPlan_steps hins
  | beginModelCall runId now =>
    cases h : beginModelCall s runId now with
    | error e => rw [performRun, h]; exact hsame rfl
    | ok t =>
      obtain ⟨_, _, _, _, _, rfl⟩ := beginModelCall_eq_ok h
      rw [performRun, h]
      exact hsame rfl
  | recordModelUsage runId inputTokens outputTokens now =>
    refine hsame ?_
    simp only [performRun, recordModelUsage]
    split_ifs
    · rfl
    split
    · rfl
    split_ifs
    · split <;> rfl
    · rfl
  | beginRunStep runId index actionId now =>
    cases h : beginRunStep s runId index actionId now with
    | error e => rw [performRun, h]; exact hsame rfl
    | ok t =>
      obtain ⟨r, x, _, hx, _, _, hopen, _, rfl⟩ := beginRunStep_eq_ok h
      have hkey : x.key = (runId, index) := Table.key_of_find hx
      obtain ⟨rfl, rfl⟩ := Prod.mk.inj hkey
      rw [performRun, h]
      exact .put (StepChange.same _) (Table.mem_of_find hx) rfl (.begun x actionId now hopen)
  | recordRunStepOutcome runId index status =>
    refine Table.Evolves.updateWhere ?_ (StepChange.same _) fun x hx hid => ?_
    · exact fun _ => rfl
    · obtain ⟨rfl, rfl⟩ := hid
      exact .recorded x status hx
  | finishRun runId =>
    refine hsame ?_
    simp only [performRun, finishRun]
    split <;> rfl
  | failRun runId => exact hsame rfl
  | markBudgetExhausted runId reason =>
    refine (exhausting_steps s runId reason).mono (fun x _ y h => ?_) fun _ h => h.elim
    exact h.change rfl (.inl (if_pos rfl))
  | requestRunCancellation runId cancelledBy now =>
    refine (cancelling_steps s runId cancelledBy now).mono (fun x _ y h => ?_) fun _ h => h.elim
    exact h.change rfl (.inl (if_pos rfl))
  | clearContinuation runId => exact hsame rfl
  | claimContinuation runId =>
    have hread : s.steps.Evolves (StepChange s (.claimContinuation runId))
        (NewStep (.claimContinuation runId)) (touchRun s runId).steps := by
      refine (reread_steps s runId).mono (fun x _ y h => ?_) fun _ h => h.elim
      rcases h with rfl | ⟨hid, rfl⟩
      · exact .same _ _
      · exact .reread _ _ hid.symm
    simp only [performRun, claimContinuation]
    cases h : s.runs.find runId with
    | none => rw [getRun_eq_none h]; exact hsame rfl
    | some r =>
      rw [getRun_eq h]
      dsimp only
      split_ifs <;> exact hread
  | getRun runId =>
    refine (reread_steps s runId).mono (fun x _ y h => ?_) fun _ h => h.elim
    rcases h with rfl | ⟨hid, rfl⟩
    · exact .same _ _
    · exact .reread _ _ hid.symm
  | reconcileInterruptedRuns =>
    exact (reconcileInterruptedRuns_steps s).mono (fun _ _ _ h => h) fun _ h => h.elim
  | actions db => exact hsame rfl
  | goals goals wakes schedules triggers => exact hsame rfl

end U2os.Server.Agent
