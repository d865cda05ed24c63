import U2os.Server.Agent.RunMachine

/-!
# The limits of a run

In every run of the machine of the runs the counters of `agent_runs` stay within their limits, and
what has barred a model call or a step bars it for good.  None of this needs a condition, although
the limits are checked in several places.  A step keeps the first action id it gets unless it is
recorded as `planned` or `waiting_dependency` afterwards, which `recordRunStepOutcome` does not
refuse.

That a goal has at most one unfinished run is checked by `createRun` only, and a finished run may
become unfinished again: the functions that read a run classify it anew, by rows that may say
something else by then (`goal_run_reopened`).  Where no finished run of a goal is reopened, a goal
has one unfinished run at most.
-/

namespace U2os.Server.Agent

open List AgentRun StepStatus

/-! ### What every step keeps -/

/-- The counters are within their limits. -/
structure AgentRun.Limited (r : AgentRun) : Prop where
  steps : r.stepCount ≤ r.stepLimit
  metered : r.meteredModelCalls ≤ r.modelCallCount
  calls : r.modelCallCount ≤ maxModelCalls

/-- What no step takes from a run. -/
structure AgentRun.Grows (r r' : AgentRun) : Prop where
  id : r'.id = r.id
  goal : r'.goalId = r.goalId
  revision : r'.goalRevision = r.goalRevision
  deadline : r'.deadlineAt = r.deadlineAt
  limit : r'.tokenLimit = r.tokenLimit
  tokens : r.tokens ≤ r'.tokens
  cancelled : r.cancelRequestedAt.isSome = true → r'.cancelRequestedAt.isSome = true
  limited : r.Limited → r'.Limited

theorem AgentRun.Grows.refl (r : AgentRun) : r.Grows r :=
  ⟨rfl, rfl, rfl, rfl, rfl, le_refl _, fun h => h, fun h => h⟩

variable {r r' : AgentRun}

theorem AgentRun.Grows.trans {r'' : AgentRun} (h : r.Grows r') (h' : r'.Grows r'') :
    r.Grows r'' where
  id := h'.id.trans h.id
  goal := h'.goal.trans h.goal
  revision := h'.revision.trans h.revision
  deadline := h'.deadline.trans h.deadline
  limit := h'.limit.trans h.limit
  tokens := h.tokens.trans h'.tokens
  cancelled := h'.cancelled ∘ h.cancelled
  limited := h'.limited ∘ h.limited

theorem AgentRun.Limited.of_counts (h : r.Limited)
    (hs : r'.stepCount = r.stepCount ∧ r'.stepLimit = r.stepLimit)
    (hc : r'.meteredModelCalls = r.meteredModelCalls ∧ r'.modelCallCount = r.modelCallCount) :
    r'.Limited where
  steps := by rw [hs.1, hs.2]; exact h.steps
  metered := by rw [hc.1, hc.2]; exact h.metered
  calls := by rw [hc.2]; exact h.calls

theorem AgentRun.grows_exhausted (r : AgentRun) (reason : BudgetReason) :
    r.Grows (r.exhausted reason) := by
  unfold exhausted
  split_ifs
  · exact ⟨rfl, rfl, rfl, rfl, rfl, le_refl _, fun h => h, fun h => h.of_counts ⟨rfl, rfl⟩ ⟨rfl, rfl⟩⟩
  · exact .refl r

theorem AgentRun.grows_cancelRequested (r : AgentRun) (cancelledBy : String) (now : ℕ) :
    r.Grows (r.cancelRequested cancelledBy now) where
  id := rfl
  goal := rfl
  revision := rfl
  deadline := rfl
  limit := rfl
  tokens := le_refl _
  cancelled h := by
    unfold cancelRequested
    cases hc : r.cancelRequestedAt with
    | none => rw [hc] at h; cases h
    | some at_ => rfl
  limited h := h.of_counts ⟨rfl, rfl⟩ ⟨rfl, rfl⟩

theorem AgentRun.grows_restarted (r : AgentRun) : r.Grows r.restarted := by
  unfold restarted
  dsimp only
  split_ifs <;>
    exact ⟨rfl, rfl, rfl, rfl, rfl, le_refl _, fun h => h, fun h => h.of_counts ⟨rfl, rfl⟩ ⟨rfl, rfl⟩⟩

theorem AgentRun.grows_status (r : AgentRun) (status : RunStatus) (after : Option ℕ)
    (claimed : Bool) :
    r.Grows { r with
      status := status, continuationAfterStep := after, continuationClaimed := claimed } :=
  ⟨rfl, rfl, rfl, rfl, rfl, le_refl _, fun h => h, fun h => h.of_counts ⟨rfl, rfl⟩ ⟨rfl, rfl⟩⟩

variable {s t u : Store} {l : RunInput}

/-- No step lowers a count of a run. -/
theorem RunChange.grows (h : RunChange s l r r') :
    r.Grows r' := by
  cases h with
  | same => exact .refl r
  | planned => exact r.grows_status ..
  | called _ now hmay =>
    refine ⟨rfl, rfl, rfl, rfl, rfl, le_refl _, fun h => h, fun h => ⟨h.steps, ?_, ?_⟩⟩
    · exact h.metered.trans (Nat.le_succ _)
    · exact hmay.1
  | metered _ inputTokens outputTokens now hmay =>
    refine ⟨rfl, rfl, rfl, rfl, rfl, ?_, fun h => h, fun h => ⟨h.steps, hmay, h.calls⟩⟩
    simp only [AgentRun.tokens, AgentRun.metered]
    omega
  | begun _ index actionId now hmay =>
    exact ⟨rfl, rfl, rfl, rfl, rfl, le_refl _, fun h => h, fun h => ⟨hmay.1, h.metered, h.calls⟩⟩
  | finished | failed => exact r.grows_status ..
  | exhausted _ reason => exact (r.grows_exhausted reason).trans (AgentRun.grows_status _ _ _ _)
  | closed => exact r.grows_status ..
  | cancelled _ cancelledBy now =>
    exact (r.grows_status (s.reread r).status _ _).trans
      ((AgentRun.grows_cancelRequested _ cancelledBy now).trans (AgentRun.grows_status _ _ _ _))
  | cleared | claimed | unclaimed | read => exact r.grows_status ..
  | restarted => exact r.grows_restarted.trans (AgentRun.grows_status _ _ _ _)

theorem NewRow.limited (h : NewRow s l r) : r.Limited := by
  cases h
  exact ⟨Nat.zero_le _, le_refl _, Nat.zero_le _⟩

/-- Only a step without an action is recorded as open. -/
def RunInput.Kept (s : Store) : RunInput → Prop
  | .recordRunStepOutcome runId index status =>
    status.isOpen = true → ∀ x, s.steps.find (runId, index) = some x → x.actionId = none
  | _ => True

/-- The functions of the run store, where no step with an action is recorded as open again. -/
def keptRuns : Machine Store RunInput := runMachine.restrict fun s l _ => l.Kept s

/-- A step with an action is not open. -/
def RunStep.Claimed (x : RunStep) : Prop := x.actionId.isSome = true → x.status.isOpen = false

/-- What no step takes from a step of a run. -/
structure RunStep.Grows (x x' : RunStep) : Prop where
  key : x'.key = x.key
  action : ∀ a, x.actionId = some a → x'.actionId = some a
  claimed : x.Claimed → x'.Claimed

theorem RunStep.Grows.refl (x : RunStep) : x.Grows x := ⟨rfl, fun _ h => h, fun h => h⟩

theorem actionStepStatus_not_open (action : AgentAction) (item : Option QueueItem)
    (expired : Bool) : (actionStepStatus action item expired).isOpen = false := by
  have hst : ∀ status : ActionStatus, status.toStep.isOpen = false := by
    intro status
    cases status <;> rfl
  unfold actionStepStatus queueStepStatus
  split_ifs
  all_goals first
    | rfl
    | (split <;> first | rfl | exact hst _)

theorem currentStepStatus_not_open {db : ActionDb} {x : RunStep} (h : x.actionId.isSome = true) :
    (currentStepStatus db x).isOpen = false := by
  obtain ⟨a, ha⟩ := Option.isSome_iff_exists.1 h
  simp only [currentStepStatus, ha]
  split
  · rfl
  · exact actionStepStatus_not_open ..

theorem StepChange.grows {x x' : RunStep} (h : StepChange s l x x')
    (hl : l.Kept s) (hx : x.Claimed) : x.Grows x' := by
  cases h with
  | same => exact .refl x
  | begun _ actionId now hopen =>
    refine ⟨rfl, fun a ha => ?_, fun _ _ => rfl⟩
    -- a step with an action cannot be begun again
    rw [hx (ha ▸ rfl)] at hopen
    cases hopen
  | recorded _ status hmem =>
    refine ⟨rfl, fun _ h => h, fun _ hsome => ?_⟩
    cases hopen : status.isOpen with
    | false => rfl
    | true =>
      have hnone : x.actionId = none := hl hopen x (Table.find_eq_some.2 ⟨hmem, rfl⟩)
      change x.actionId.isSome = true at hsome
      rw [hnone] at hsome
      cases hsome
  | reread =>
    exact ⟨rfl, fun _ h => h, fun _ hsome => currentStepStatus_not_open (x := x) hsome⟩
  | closed _ _ status _ hun =>
    refine ⟨rfl, fun _ h => h, fun _ hsome => ?_⟩
    change x.actionId.isSome = true at hsome
    rw [hun.2.1] at hsome
    cases hsome
  | stranded => exact ⟨rfl, fun _ h => h, fun _ _ => rfl⟩

theorem NewStep.claimed {x : RunStep} (h : NewStep l x) : x.Claimed := by
  cases h
  rintro ⟨⟩

/-- Every run goes on, or is new and within its limits. -/
def Store.Grows (s t : Store) : Prop := s.runs.Evolves AgentRun.Grows AgentRun.Limited t.runs

/-- Every step of a run goes on, or is new. -/
def Store.StepsGrow (s t : Store) : Prop := s.steps.Evolves RunStep.Grows RunStep.Claimed t.steps

/-- One call lets every run go on. -/
theorem grows_of_step (h : runMachine.step s l t) : s.Grows t := by
  obtain rfl := h
  exact (perform_runs s l).mono (fun r _ r' h => h.grows) fun r h => h.limited

theorem grows_of_steps {h : List RunInput} (ht : runMachine.Steps s h t) : s.Grows t := by
  refine ht.invariant (I := fun t => s.Grows t) (.refl .refl _) fun t l u hst hstep => ?_
  exact hst.trans (fun _ _ _ => .trans) (fun _ _ hl h => h.limited hl) (grows_of_step hstep)

theorem limited_of_run {h : List RunInput} (hr : runMachine.Run h s) : ∀ r ∈ s.runs, r.Limited :=
  (grows_of_steps hr).all (fun _ h => (Table.not_mem_empty _ h).elim) (fun _ _ h => h.limited)
    fun _ h => h

/-- A call that records no step with an action as open lets every step go on. -/
theorem stepsGrow_of_step (hs : ∀ x ∈ s.steps, x.Claimed) (h : keptRuns.step s l t) :
    s.StepsGrow t := by
  obtain ⟨rfl, hl⟩ := h
  exact (perform_steps s l).mono (fun x hx x' h => h.grows hl (hs x hx)) fun x h => h.claimed

theorem stepsGrow_of_steps {h : List RunInput} (hs : ∀ x ∈ s.steps, x.Claimed)
    (ht : keptRuns.Steps s h t) : s.StepsGrow t ∧ ∀ x ∈ t.steps, x.Claimed := by
  refine ht.invariant (I := fun t => s.StepsGrow t ∧ ∀ x ∈ t.steps, x.Claimed)
    ⟨.refl .refl _, hs⟩ ?_
  rintro t l u ⟨hst, ht⟩ hstep
  have hg := stepsGrow_of_step ht hstep
  refine ⟨hst.trans (fun _ _ _ h h' => ⟨h'.key.trans h.key, fun a ha => h'.action a (h.action a ha),
    fun hc => h'.claimed (h.claimed hc)⟩) (fun _ _ hc h => h.claimed hc) hg, ?_⟩
  exact hg.all ht (fun _ _ h => h.claimed) fun _ h => h

theorem claimed_init : ∀ x ∈ keptRuns.init.steps, x.Claimed :=
  fun _ h => (Table.not_mem_empty _ h).elim

/-- No goal of the run's revision is active with tokens left. -/
def Store.GoalStops (t : Store) (r : AgentRun) : Prop :=
  ∃ goalId, r.goalId = some goalId ∧ ∀ goal, t.goals.find goalId = some goal → goal.serves r →
    goal.budgets.maxTokens ≤ (goalUsage t.runs goalId).tokens

/-- The run is over its time or its tokens, or cancelled, or its goal stops it. -/
def Store.Bars (t : Store) (r : AgentRun) (now : ℕ) : Prop :=
  r.deadlineAt ≤ now ∨ r.cancelRequestedAt.isSome = true ∨ r.tokenLimit ≤ r.tokens ∨ t.GoalStops r

/-- No goal of the run's revision is active with model calls left. -/
def Store.GoalStopsCalls (t : Store) (r : AgentRun) : Prop :=
  ∃ goalId, r.goalId = some goalId ∧ ∀ goal, t.goals.find goalId = some goal → goal.serves r →
    goal.budgets.maxModelCalls ≤ (goalUsage t.runs goalId).modelCalls

theorem AgentRun.Grows.goalStops (h : r.Grows r')
    (hs : t.GoalStops r) : t.GoalStops r' := by
  obtain ⟨goalId, hgoal, hstop⟩ := hs
  refine ⟨goalId, h.goal.trans hgoal, fun goal hfind hserves => hstop goal hfind ?_⟩
  exact ⟨hserves.1, h.revision ▸ hserves.2⟩

theorem AgentRun.Grows.goalStopsCalls (h : r.Grows r')
    (hs : t.GoalStopsCalls r) : t.GoalStopsCalls r' := by
  obtain ⟨goalId, hgoal, hstop⟩ := hs
  refine ⟨goalId, h.goal.trans hgoal, fun goal hfind hserves => hstop goal hfind ?_⟩
  exact ⟨hserves.1, h.revision ▸ hserves.2⟩

theorem AgentRun.Grows.bars {now : ℕ} (h : r.Grows r')
    (hb : t.Bars r now) : t.Bars r' now := by
  rcases hb with hb | hb | hb | hb
  · exact .inl (h.deadline ▸ hb)
  · exact .inr (.inl (h.cancelled hb))
  · exact .inr (.inr (.inl (h.limit ▸ hb.trans h.tokens)))
  · exact .inr (.inr (.inr (h.goalStops hb)))

theorem cancelled_of_bars {now : ℕ} (hr : t.runs.find r.id = some r)
    (hbudget : getBudgetStopReason t r.id now = none) (hb : t.Bars r now) :
    r.cancelRequestedAt.isSome = true := by
  simp only [getBudgetStopReason, hr] at hbudget
  split_ifs at hbudget with hdeadline hsteps htokens
  rcases hb with hb | hb | hb | ⟨goalId, hgoal, hstop⟩
  · exact absurd hb hdeadline
  · exact hb
  · exact absurd hb htokens
  · rw [hgoal] at hbudget
    simp only [Option.bind_some, goalStopReason] at hbudget
    split at hbudget
    · cases hbudget
    · rename_i goal hfind
      split_ifs at hbudget with hserves hspent
      exact absurd (hstop goal hfind hserves) hspent

theorem not_beginRunStep {index now : ℕ} {actionId : String}
    (hr : t.runs.find r.id = some r) (hb : t.Bars r now) :
    beginRunStep t r.id index actionId now ≠ .ok u := by
  intro h
  obtain ⟨r', _, hr', _, hbudget, hmay, _⟩ := beginRunStep_eq_ok h
  obtain rfl : r = r' := Option.some.inj (hr.symm.trans hr')
  have hc := cancelled_of_bars hr hbudget hb
  rw [hmay.2.2.2] at hc
  cases hc

theorem not_beginModelCall {now : ℕ}
    (hr : t.runs.find r.id = some r) (hb : t.Bars r now ∨ t.GoalStopsCalls r) :
    beginModelCall t r.id now ≠ .ok u := by
  intro h
  obtain ⟨r', hr', hbudget, hgoalCalls, hmay, _⟩ := beginModelCall_eq_ok h
  obtain rfl : r = r' := Option.some.inj (hr.symm.trans hr')
  rcases hb with hb | ⟨goalId, hgoal, hstop⟩
  · have hc := cancelled_of_bars hr hbudget hb
    rw [hmay.2.2.1] at hc
    cases hc
  · simp only [getGoalModelCallStopReason, hr, hgoal, Option.bind_eq_bind,
      Option.bind_some] at hgoalCalls
    split at hgoalCalls
    · cases hgoalCalls
    · rename_i goal hfind
      split_ifs at hgoalCalls with hserves hspent
      exact absurd (hstop goal hfind hserves) hspent

/-! ### What keeps a run open -/

/-- A step of this status keeps its run from being finished. -/
def StepStatus.keepsOpen (cancelled stopped : Bool) (status : StepStatus) : Bool :=
  if cancelled then status.isUnclear || status.isUnderway || status = .pending
  else status.isUnclear || status.isUnderway || status = .planning || status = .planned ||
    !stopped && (status = .waitingForApproval || status = .pending || status = .waitingDependency)

/-- What `classifyRun` finds to keep the run open. -/
def HeldOpen (statuses : List StepStatus) (hasContinuation cancelled stopped : Bool) : Prop :=
  (∃ status ∈ statuses, status.keepsOpen cancelled stopped = true) ∨
    hasContinuation = true ∧ cancelled = false ∧ stopped = false ∧
      ∀ status ∈ statuses, status.isUnsuccessful = false

theorem any_isUnclear {statuses : List StepStatus} :
    statuses.any isUnclear = true ↔
      .interrupted ∈ statuses ∨ .needsAttention ∈ statuses ∨ .outcomeUncertain ∈ statuses := by
  rw [any_eq_true]
  constructor
  · rintro ⟨x, hx, hst⟩
    cases x <;> simp_all [isUnclear]
  · rintro (h | h | h) <;> exact ⟨_, h, rfl⟩

theorem exists_keepsOpen_cancelled {statuses : List StepStatus} {stopped : Bool} :
    (∃ status ∈ statuses, status.keepsOpen true stopped = true) ↔
      statuses.any isUnclear = true ∨
        (statuses.any fun x => x.isUnderway || x = .pending) = true := by
  simp only [keepsOpen, if_true, any_eq_true, Bool.or_eq_true, or_assoc]
  constructor
  · rintro ⟨x, hx, h | h⟩
    · exact .inl ⟨x, hx, h⟩
    · exact .inr ⟨x, hx, h⟩
  · rintro (⟨x, hx, h⟩ | ⟨x, hx, h⟩)
    · exact ⟨x, hx, .inl h⟩
    · exact ⟨x, hx, .inr h⟩

theorem exists_keepsOpen (statuses : List StepStatus) (stopped : Bool) :
    (∃ status ∈ statuses, status.keepsOpen false stopped = true) ↔
      statuses.any isUnclear = true ∨ statuses.any isUnderway = true ∨
        .planning ∈ statuses ∨ .planned ∈ statuses ∨
        stopped = false ∧ (.waitingForApproval ∈ statuses ∨ .pending ∈ statuses ∨
          .waitingDependency ∈ statuses) := by
  simp only [keepsOpen, Bool.false_eq_true, if_false, any_eq_true, Bool.or_eq_true,
    Bool.and_eq_true, Bool.not_eq_true', decide_eq_true_eq, or_assoc]
  constructor
  · rintro ⟨x, hx, h | h | rfl | rfl | ⟨hst, h⟩⟩
    · exact .inl ⟨x, hx, h⟩
    · exact .inr (.inl ⟨x, hx, h⟩)
    · exact .inr (.inr (.inl hx))
    · exact .inr (.inr (.inr (.inl hx)))
    · refine .inr (.inr (.inr (.inr ⟨hst, ?_⟩)))
      rcases h with rfl | rfl | rfl
      · exact .inl hx
      · exact .inr (.inl hx)
      · exact .inr (.inr hx)
  · rintro (⟨x, hx, h⟩ | ⟨x, hx, h⟩ | h | h | ⟨hst, h | h | h⟩)
    · exact ⟨x, hx, .inl h⟩
    · exact ⟨x, hx, .inr (.inl h)⟩
    · exact ⟨_, h, by simp⟩
    · exact ⟨_, h, by simp⟩
    · exact ⟨_, h, by simp [hst]⟩
    · exact ⟨_, h, by simp [hst]⟩
    · exact ⟨_, h, by simp [hst]⟩

/-- A run is finished just where nothing holds it open. -/
theorem classifyRun_isFinished (statuses : List StepStatus)
    (hasContinuation cancelled stopped : Bool) :
    (classifyRun statuses hasContinuation cancelled stopped).isFinished = true ↔
      ¬HeldOpen statuses hasContinuation cancelled stopped := by
  have held : ∀ {status : RunStatus}, status.isFinished = false →
      HeldOpen statuses hasContinuation cancelled stopped →
      (status.isFinished = true ↔ ¬HeldOpen statuses hasContinuation cancelled stopped) :=
    fun h hheld => iff_of_false (by simp [h]) (not_not.2 hheld)
  unfold classifyRun
  cases cancelled with
  | true =>
    have hopen : HeldOpen statuses hasContinuation true stopped ↔
        statuses.any isUnclear = true ∨
          (statuses.any fun x => x.isUnderway || x = .pending) = true := by
      simp only [HeldOpen, exists_keepsOpen_cancelled, Bool.true_eq_false, false_and, and_false,
        or_false]
    rw [if_pos rfl]
    by_cases h₁ : statuses.any isUnclear = true
    · rw [if_pos h₁]
      exact held rfl (hopen.2 (.inl h₁))
    rw [if_neg h₁]
    by_cases h₂ : (statuses.any fun x => x.isUnderway || x = .pending) = true
    · rw [if_pos h₂]
      exact held rfl (hopen.2 (.inr h₂))
    rw [if_neg h₂]
    exact iff_of_true rfl fun h => (hopen.1 h).elim h₁ h₂
  | false =>
    have hexists := exists_keepsOpen statuses stopped
    rw [any_isUnclear] at hexists
    rw [if_neg (by simp)]
    by_cases h₁ : .planning ∈ statuses ∨ .planned ∈ statuses
    · rw [if_pos h₁]
      exact held rfl (.inl (hexists.2 (.inr (.inr (h₁.imp_right .inl)))))
    rw [if_neg h₁]
    by_cases h₂ : .interrupted ∈ statuses
    · rw [if_pos h₂]
      exact held rfl (.inl (hexists.2 (.inl (.inl h₂))))
    rw [if_neg h₂]
    by_cases h₃ : .needsAttention ∈ statuses
    · rw [if_pos h₃]
      exact held rfl (.inl (hexists.2 (.inl (.inr (.inl h₃)))))
    rw [if_neg h₃]
    by_cases h₄ : .outcomeUncertain ∈ statuses
    · rw [if_pos h₄]
      exact held rfl (.inl (hexists.2 (.inl (.inr (.inr h₄)))))
    rw [if_neg h₄]
    by_cases hway : statuses.any isUnderway = true
    · -- an action is on its way: the run waits for something
      have hheld : HeldOpen statuses hasContinuation false stopped :=
        .inl (hexists.2 (.inr (.inl hway)))
      rw [if_neg (by simp [hway])]
      split_ifs <;> exact held rfl hheld
    have hnone : (∃ status ∈ statuses, status.keepsOpen false stopped = true) ↔
        stopped = false ∧ (.waitingForApproval ∈ statuses ∨ .pending ∈ statuses ∨
          .waitingDependency ∈ statuses) := by
      rw [hexists]
      tauto
    cases stopped with
    | true =>
      rw [if_pos ⟨rfl, by simpa using hway⟩]
      refine iff_of_true rfl ?_
      rintro (h | ⟨_, _, h, _⟩)
      · cases (hnone.1 h).1
      · cases h
    | false =>
      rw [if_neg (by simp)]
      by_cases h₅ : .waitingForApproval ∈ statuses ∨ .pending ∈ statuses
      · rw [if_pos h₅]
        exact held rfl (.inl (hnone.2 ⟨rfl, h₅.imp_right .inl⟩))
      rw [if_neg h₅]
      by_cases h₆ : .waitingDependency ∈ statuses
      · rw [if_pos h₆]
        exact held rfl (.inl (hnone.2 ⟨rfl, .inr (.inr h₆)⟩))
      rw [if_neg h₆, if_neg hway]
      have hshut : ¬∃ status ∈ statuses, status.keepsOpen false false = true := by
        rw [hnone]
        tauto
      by_cases h₇ : statuses.any isUnsuccessful = true
      · rw [if_pos h₇]
        refine iff_of_true rfl ?_
        rintro (h | ⟨_, _, _, h⟩)
        · exact hshut h
        · obtain ⟨x, hx, hst⟩ := any_eq_true.1 h₇
          rw [h x hx] at hst
          cases hst
      rw [if_neg h₇]
      have hall : ∀ status ∈ statuses, status.isUnsuccessful = false := by simpa using h₇
      cases hasContinuation with
      | true => exact held rfl (.inr ⟨rfl, rfl, rfl, hall⟩)
      | false =>
        refine iff_of_true rfl ?_
        rintro (h | ⟨h, _⟩)
        · exact hshut h
        · cases h

/-! ### One unfinished run of a goal -/

/-- A run of a goal, and no other run of the goal, is unfinished. -/
def Store.OneUnfinished (s : Store) : Prop :=
  ∀ r ∈ s.runs, ∀ r' ∈ s.runs, r.goalId.isSome = true → r'.goalId = r.goalId →
    r.status.isFinished = false → r'.status.isFinished = false → r = r'

/-- What keeps a run open that has some steps. -/
def AgentRun.heldOpen (r : AgentRun) (steps : List RunStep) : Prop :=
  HeldOpen (steps.map RunStep.status) r.continuationAfterStep.isSome r.cancelRequestedAt.isSome
    r.budgetStopReason.isSome

/-- `getRun` takes the status of the run as it is. -/
def AgentRun.isKept (r : AgentRun) (steps : List RunStep) : Prop :=
  r.cancelRequestedAt.isSome = false ∧
      (r.status = .planning ∨ r.status = .running ∨ r.status = .failed) ∨
    steps.isEmpty ∧ r.cancelRequestedAt.isSome = false

/-- `getRun` finds something that keeps the run open. -/
def Store.HoldsOpen (s : Store) (r : AgentRun) : Prop :=
  ¬r.isKept (s.currentSteps r.id) ∧ r.heldOpen (s.currentSteps r.id)

/-- A function classifies the run anew although something keeps it open: an action that is still
to be done, a continuation, or a plan that is recorded for it. -/
def RunInput.Reopens (s : Store) : RunInput → AgentRun → Prop
  | .recordRunPlan runId _, r => runId = r.id
  | .finishRun runId, r => runId = r.id ∧ r.heldOpen (s.stepsOf r.id)
  | .getRun runId, r | .claimContinuation runId, r => runId = r.id ∧ s.HoldsOpen r
  | .markBudgetExhausted runId reason, r =>
    runId = r.id ∧ (s.exhausting runId reason).HoldsOpen (r.exhausted reason)
  | .requestRunCancellation runId cancelledBy now, r =>
    runId = r.id ∧ (s.cancelling runId cancelledBy now).HoldsOpen
      ((s.reread r).cancelRequested cancelledBy now)
  | _, _ => False

/-- No finished run of a goal is classified anew while something keeps it open. -/
def RunInput.Steady (s : Store) (l : RunInput) : Prop :=
  ∀ r ∈ s.runs, r.goalId.isSome = true → r.status.isFinished = true → ¬l.Reopens s r

/-- The functions of the run store, where no finished run of a goal is reopened. -/
def steadyRuns : Machine Store RunInput := runMachine.restrict fun s l _ => l.Steady s

variable {steps : List RunStep}

theorem currentRunStatus_of_isKept (h : r.isKept steps) :
    currentRunStatus r steps = r.status := if_pos h

theorem currentRunStatus_of_not_isKept (h : ¬r.isKept steps) : currentRunStatus r steps =
      classifyRun (steps.map RunStep.status) r.continuationAfterStep.isSome
        r.cancelRequestedAt.isSome r.budgetStopReason.isSome := if_neg h

theorem reread_isFinished (hfin : r.status.isFinished = true)
    (h : ¬s.HoldsOpen r) : (s.reread r).status.isFinished = true := by
  change (currentRunStatus r (s.currentSteps r.id)).isFinished = true
  by_cases hkept : r.isKept (s.currentSteps r.id)
  · rwa [currentRunStatus_of_isKept hkept]
  · rw [currentRunStatus_of_not_isKept hkept, classifyRun_isFinished]
    exact fun hheld => h ⟨hkept, hheld⟩

theorem AgentRun.not_isKept_of_cancelled
    (h : r.cancelRequestedAt.isSome = true) : ¬r.isKept steps := by
  rintro (⟨hc, _⟩ | ⟨_, hc⟩) <;> rw [h] at hc <;> cases hc

theorem AgentRun.isClosed.isFinished (h : r.isClosed) :
    r.status.isFinished = true := by
  rcases h with h | h <;> rw [h] <;> rfl

theorem reread_isFinished_of_cancelled
    (hc : r.cancelRequestedAt.isSome = true) (h : ¬s.HoldsOpen r) :
    (s.reread r).status.isFinished = true := by
  have hkept : ¬r.isKept (s.currentSteps r.id) := not_isKept_of_cancelled hc
  change (currentRunStatus r (s.currentSteps r.id)).isFinished = true
  rw [currentRunStatus_of_not_isKept hkept, classifyRun_isFinished]
  exact fun hheld => h ⟨hkept, hheld⟩

theorem AgentRun.isFinished_exhausted (reason : BudgetReason)
    (h : r.status.isFinished = true) : (r.exhausted reason).status.isFinished = true := by
  unfold exhausted
  split_ifs
  · rfl
  · exact h

/-- A finished run stays finished, unless it is reopened. -/
theorem RunChange.isFinished (h : RunChange s l r r')
    (hfin : r.status.isFinished = true) (hl : ¬l.Reopens s r) : r'.status.isFinished = true := by
  cases h with
  | same => exact hfin
  | planned => exact absurd rfl hl
  | called | metered | begun => exact hfin
  | finished => exact (classifyRun_isFinished ..).2 fun h => hl ⟨rfl, h⟩
  | failed => rfl
  | exhausted _ reason =>
    exact reread_isFinished (r.isFinished_exhausted reason hfin) fun h => hl ⟨rfl, h⟩
  | closed _ cancelledBy now hclosed => exact hclosed.isFinished
  | cancelled _ cancelledBy now =>
    refine reread_isFinished_of_cancelled ?_ fun h => hl ⟨rfl, h⟩
    unfold cancelRequested
    cases (s.reread r).cancelRequestedAt <;> rfl
  | cleared => exact hfin
  | claimed _ hclaim =>
    -- a run that can be claimed is not finished
    have hread := reread_isFinished hfin fun h => hl ⟨rfl, h⟩
    rw [hclaim.1] at hread
    cases hread
  | unclaimed | read => exact reread_isFinished hfin fun h => hl ⟨rfl, h⟩
  | restarted _ _ hopen =>
    rw [hopen] at hfin
    cases hfin

theorem goalUsage_unfinished_eq_zero {runs : AgentRuns} {goalId : String}
    (h : (goalUsage runs goalId).unfinished = 0) {r : AgentRun} (hr : r ∈ runs)
    (hgoal : r.goalId = some goalId) : r.status.isFinished = true := by
  have hnil := eq_nil_of_length_eq_zero h
  rw [filter_eq_nil_iff] at hnil
  have := hnil r (mem_filter.2 ⟨hr, by simpa using hgoal⟩)
  simpa using this

/-- At most one run of a goal is unfinished. -/
theorem Store.OneUnfinished.step (hs : s.OneUnfinished)
    (h : steadyRuns.step s l t) : t.OneUnfinished := by
  obtain ⟨rfl, hsteady⟩ := h
  have hrows := perform_runs s l
  -- an unfinished run of a goal was unfinished before, or it is the new one
  have hback : ∀ r' ∈ (performRun s l).runs, r'.goalId.isSome = true →
      r'.status.isFinished = false →
      (∃ r ∈ s.runs, r'.id = r.id ∧ r'.goalId = r.goalId ∧ r.status.isFinished = false) ∨
        NewRow s l r' := by
    intro r' hr' hgoal hopen
    refine (hrows.comes r' hr').imp_left ?_
    rintro ⟨r, hr, hchange⟩
    refine ⟨r, hr, hchange.grows.id, hchange.grows.goal, ?_⟩
    cases hfin : r.status.isFinished with
    | false => rfl
    | true =>
      have hstay := hchange.isFinished hfin (hsteady r hr (hchange.grows.goal ▸ hgoal) hfin)
      rw [hstay] at hopen
      cases hopen
  have hnew : ∀ r₁ r₂ : AgentRun, NewRow s l r₁ → r₁.goalId.isSome = true → r₂ ∈ s.runs →
      r₂.goalId = r₁.goalId → r₂.status.isFinished = true := by
    rintro _ r₂ ⟨n, now, revision, hfree⟩ hgoal hr₂ hsame
    obtain ⟨goalId, hid⟩ := Option.isSome_iff_exists.1 hgoal
    exact goalUsage_unfinished_eq_zero (hfree goalId hid) hr₂ (hsame.trans hid)
  intro r₁ hr₁ r₂ hr₂ hgoal hsame hopen₁ hopen₂
  refine (performRun s l).runs.eq_of_key hr₁ hr₂ ?_
  have hgoal₂ : r₂.goalId.isSome = true := hsame ▸ hgoal
  rcases hback r₁ hr₁ hgoal hopen₁ with ⟨r, hr, hid, hg, hopen⟩ | hn₁ <;>
    rcases hback r₂ hr₂ hgoal₂ hopen₂ with ⟨r', hr', hid', hg', hopen'⟩ | hn₂
  · have hrr' : r = r' := hs r hr r' hr' (hg ▸ hgoal) (hg'.symm.trans (hsame.trans hg)) hopen hopen'
    rw [hid, hid', hrr']
  · have hfin := hnew r₂ r hn₂ hgoal₂ hr (hg.symm.trans hsame.symm)
    rw [hopen] at hfin
    cases hfin
  · have hfin := hnew r₁ r' hn₁ hgoal hr' (hg'.symm.trans hsame)
    rw [hopen'] at hfin
    cases hfin
  · cases hn₁
    cases hn₂
    rfl

/-- What holds in `t`, and in `t` for what was so in `s` before. -/
structure WithinLimits (s t : Store) : Prop where
  counts : ∀ r ∈ t.runs, r.stepCount ≤ r.stepLimit ∧
    r.meteredModelCalls ≤ r.modelCallCount ∧ r.modelCallCount ≤ 3
  /-- A run that was barred, or is barred by its goal as it stands now, begins no step. -/
  steps : ∀ r ∈ s.runs, ∀ now index actionId u, t.Bars r now →
    beginRunStep t r.id index actionId now ≠ .ok u
  /-- It begins no model call either, nor when the calls of its goal are spent. -/
  calls : ∀ r ∈ s.runs, ∀ now u, t.Bars r now ∨ t.GoalStopsCalls r →
    beginModelCall t r.id now ≠ .ok u

/-- The action of a step is not replaced. -/
def Store.ActionsStay (s t : Store) : Prop :=
  ∀ x ∈ s.steps, ∀ a, x.actionId = some a →
    ∃ x' ∈ t.steps, x'.key = x.key ∧ x'.actionId = some a

theorem AgentRun.Grows.find (h : s.Grows t) {r : AgentRun} (hr : r ∈ s.runs) :
    ∃ r', t.runs.find r.id = some r' ∧ r'.id = r.id ∧ r.Grows r' := by
  obtain ⟨r', hr', hg⟩ := h.goes r hr
  exact ⟨r', hg.id ▸ Table.find_eq_some.2 ⟨hr', rfl⟩, hg.id, hg⟩

/-- In every run of the machine the limits hold; where no step with an action is recorded as open
again, a step is given one action at most; where no finished run of a goal is reopened, a goal has
one unfinished run at most. -/
theorem runs_within_limits {h h' : List RunInput} {s t : Store} (hr : runMachine.Run h s)
    (hs : runMachine.Steps s h' t) :
    WithinLimits s t ∧
      (∀ h s h' t, keptRuns.Run h s → keptRuns.Steps s h' t → s.ActionsStay t) ∧
      ∀ h u, steadyRuns.Run h u → u.OneUnfinished := by
  have hgrows := grows_of_steps hs
  refine ⟨⟨fun r hr' => ?_, ?_, ?_⟩, fun h s h' t hr hs x hx a ha => ?_, fun h u hu => ?_⟩
  · have hlim := limited_of_run (Machine.Steps.trans hr hs) r hr'
    exact ⟨hlim.steps, hlim.metered, hlim.calls⟩
  · intro r hr now index actionId u hb
    obtain ⟨r', hfind, hid, hg⟩ := AgentRun.Grows.find hgrows hr
    rw [← hid] at hfind ⊢
    exact not_beginRunStep hfind (hg.bars hb)
  · intro r hr now u hb
    obtain ⟨r', hfind, hid, hg⟩ := AgentRun.Grows.find hgrows hr
    rw [← hid] at hfind ⊢
    exact not_beginModelCall hfind (hb.imp hg.bars hg.goalStopsCalls)
  · obtain ⟨x', hx', hg⟩ :=
      (stepsGrow_of_steps (stepsGrow_of_steps claimed_init hr).2 hs).1.goes x hx
    exact ⟨x', hx', hg.key, hg.action a ha⟩
  · refine Machine.Run.invariant hu ?_ fun s l t hs hst => hs.step hst
    exact fun r hr => (Table.not_mem_empty r hr).elim

/-- A goal of the owner, as it is when it is created. -/
def researchGoal : Goal where
  id := "goal"
  ownerId := "owner"
  domains := ["web"]
  budgets := ⟨5, 20, 100_000⟩

/-- The action of a step, after a first attempt that failed and is to be made again. -/
def retriedAction : ActionDb where
  actions := ⟨[{ id := "act-1", requestedBy := "owner", tool := "web.search", arguments := .null
                 status := .failed, createdAt := 1 }], by simp⟩
  queue := ⟨[{ actionId := "act-1", tool := "web.search", arguments := .null
               idempotencyKey := "key", status := .retryWait, attemptCount := 1
               nextAttemptAt := 1_001, createdAt := 1 }], by simp⟩
  attempts := .empty

/-- A goal run whose only action is to be retried when the turn ends, another run of the goal,
and a look at the first one. -/
def reopenedRun : List RunInput :=
  [.goals ⟨[researchGoal], by simp⟩ .empty .empty .empty,
    .createRun { id := "run-1", actorId := "owner", goalId := some "goal" } 0,
    .recordRunPlan "run-1" { actions := [{ tool := "web.search", arguments := .null }] },
    .beginRunStep "run-1" 0 "act-1" 1,
    .actions retriedAction,
    .recordRunStepOutcome "run-1" 0 .retryWait,
    .finishRun "run-1",
    .createRun { id := "run-2", actorId := "owner", goalId := some "goal" } 2,
    .getRun "run-1"]

/-- The look at the first run makes it wait for its action again, beside the second run. -/
theorem goal_run_reopened : ∃ h s, runMachine.Run h s ∧ ¬s.OneUnfinished := by
  refine ⟨reopenedRun, _, steps_driveRuns _ _, fun hone => ?_⟩
  have hids : ((driveRuns runMachine.init reopenedRun).runs.rows.filter fun (r : AgentRun) =>
      r.goalId = some "goal" ∧ r.status.isFinished = false).map AgentRun.id =
      ["run-1", "run-2"] := by decide +kernel
  obtain ⟨r₁, hr₁, hid₁⟩ := mem_map.1 (hids ▸ mem_cons_self : "run-1" ∈ _)
  obtain ⟨r₂, hr₂, hid₂⟩ := mem_map.1
    (hids ▸ mem_cons_of_mem _ mem_cons_self : "run-2" ∈ _)
  obtain ⟨hm₁, hp₁⟩ := mem_filter.1 hr₁
  obtain ⟨hm₂, hp₂⟩ := mem_filter.1 hr₂
  simp only [decide_eq_true_eq] at hp₁ hp₂
  have heq := hone r₁ hm₁ r₂ hm₂ (by simp [hp₁.1]) (hp₂.1.trans hp₁.1.symm) hp₁.2 hp₂.2
  rw [← heq, hid₁] at hid₂
  exact absurd hid₂ (by decide)

theorem reopenedRun_kept : ∀ l ∈ reopenedRun, ∀ s, l.Kept s := by
  intro l hl s
  simp only [reopenedRun, mem_cons, not_mem_nil, or_false] at hl
  rcases hl with rfl | rfl | rfl | rfl | rfl | rfl | rfl | rfl | rfl <;>
    first | trivial | exact fun h => by cases h

theorem restrict_driveRuns {P : Store → RunInput → Prop} (s : Store) (inputs : List RunInput)
    (h : ∀ l ∈ inputs, ∀ s, P s l) :
    (runMachine.restrict fun s l _ => P s l).Steps s inputs (driveRuns s inputs) := by
  induction inputs generalizing s with
  | nil => exact Machine.Steps.nil
  | cons l inputs ih =>
    exact Machine.Steps.cons ⟨rfl, h l mem_cons_self s⟩
      (ih _ fun l' hl' => h l' (mem_cons_of_mem l hl'))

/-- The step of the first run keeps its action to the end of that run. -/
theorem runs_within_limits_reopenedRun :
    let s := driveRuns runMachine.init (reopenedRun.take 4)
    let t := driveRuns s (reopenedRun.drop 4)
    WithinLimits s t ∧ s.ActionsStay t ∧
      (s.steps.find ("run-1", 0)).bind RunStep.actionId = some "act-1" ∧
      (driveRuns runMachine.init (reopenedRun.take 2)).OneUnfinished := by
  intro s t
  obtain ⟨hlimits, hstay, hone⟩ := runs_within_limits (steps_driveRuns runMachine.init
    (reopenedRun.take 4)) (steps_driveRuns s (reopenedRun.drop 4))
  refine ⟨hlimits, hstay (reopenedRun.take 4) s (reopenedRun.drop 4) t ?_ ?_, by decide +kernel,
    hone (reopenedRun.take 2) _ ?_⟩
  · exact restrict_driveRuns _ _ fun l hl => reopenedRun_kept l (mem_of_mem_take hl)
  · exact restrict_driveRuns _ _ fun l hl => reopenedRun_kept l (mem_of_mem_drop hl)
  · refine restrict_driveRuns _ _ fun l hl s r _ _ _ => ?_
    simp only [reopenedRun, take_succ_cons, take_zero, mem_cons, not_mem_nil, or_false] at hl
    rcases hl with rfl | rfl <;> exact id

end U2os.Server.Agent
