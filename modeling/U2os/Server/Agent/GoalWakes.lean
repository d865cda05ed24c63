import U2os.Server.Agent.GoalStore

/-!
# Wakes start once and only for the goal they were made for

The invariants of goals, wakes and schedules over every run of `goalMachine`.  Wakes are never
deleted and leave `pending` only once, so what a wake has become it stays; a pending wake belongs
to the current revision of a goal that may run, because every new revision cancels the pending
wakes in its own transaction.
-/

namespace U2os.Server.Agent

open List Option GoalEvent GoalSystem Prod ResearchSchedule Table

/-- Pending wakes belong to the current revision of a goal that may run, and no goal has two. -/
structure WakesOk (s : Store) : Prop where
  current : ∀ w ∈ s.wakes, w.status = .pending →
    ∃ g ∈ s.goals, g.id = w.goalId ∧ g.revision = w.goalRevision ∧ g.status.canRun = true
  single : ∀ w ∈ s.wakes, ∀ w' ∈ s.wakes, w.status = .pending → w'.status = .pending →
    w.goalId = w'.goalId → w = w'

/-- The passes of a schedule: an active one waits for the pass it scheduled last. -/
structure ResearchSchedule.PassesOk (x : ResearchSchedule) : Prop where
  credited_le : x.successfulPasses ≤ x.scheduledPasses
  scheduled_le : x.scheduledPasses ≤ x.maxPasses
  awaits : x.status = .active → x.successfulPasses < x.scheduledPasses

/-- The passes of every schedule, and their wakes, which no two schedules share. -/
structure SchedulesOk (s : Store) : Prop where
  passes : ∀ x ∈ s.schedules, x.PassesOk
  wake : ∀ x ∈ s.schedules, ∃ w ∈ s.wakes, w.id = x.wakeId
  distinct : ∀ x ∈ s.schedules, ∀ y ∈ s.schedules, x.wakeId = y.wakeId → x = y

/-- No wake is deleted, and one that is not pending keeps its status. -/
def WakesGrow (s t : Store) : Prop :=
  ∀ w ∈ s.wakes, ∃ w' ∈ t.wakes, w'.id = w.id ∧ w'.goalId = w.goalId ∧
    (w.status ≠ .pending → w'.status = w.status)

theorem WakesGrow.of_eq {s t : Store} (h : t.wakes = s.wakes) : WakesGrow s t :=
  fun w hw => ⟨w, h ▸ hw, rfl, rfl, fun _ => rfl⟩

theorem WakesGrow.refl (s : Store) : WakesGrow s s := .of_eq rfl

theorem WakesGrow.trans {s t u : Store} (h : WakesGrow s t) (h' : WakesGrow t u) :
    WakesGrow s u := by
  intro w hw
  obtain ⟨w', hw', hid, hgoal, hst⟩ := h w hw
  obtain ⟨w'', hw'', hid', hgoal', hst'⟩ := h' w' hw'
  refine ⟨w'', hw'', hid'.trans hid, hgoal'.trans hgoal, fun hne => ?_⟩
  have hw'st := hst hne
  rw [hst' (by rwa [hw'st]), hw'st]

/-! ### What the invariants depend on -/

theorem WakesOk.fewer {s t : Store} (h : WakesOk s)
    (hw : ∀ w ∈ t.wakes, w.status = .pending → ∃ w₀ ∈ s.wakes, w₀.status = .pending ∧
      w₀.id = w.id ∧ w₀.goalId = w.goalId ∧ w₀.goalRevision = w.goalRevision)
    (hg : ∀ g ∈ s.goals, ∀ w ∈ t.wakes, w.status = .pending → g.id = w.goalId →
      g.status.canRun = true →
      ∃ g' ∈ t.goals, g'.id = g.id ∧ g'.revision = g.revision ∧ g'.status.canRun = true) :
    WakesOk t := by
  constructor
  · intro w hmem hpend
    obtain ⟨w₀, hw₀, hp₀, _, hgoal₀, hrev₀⟩ := hw w hmem hpend
    obtain ⟨g, hgm, hgid, hgrev, hrun⟩ := h.current w₀ hw₀ hp₀
    obtain ⟨g', hg', hid', hrev', hrun'⟩ := hg g hgm w hmem hpend (hgid.trans hgoal₀) hrun
    exact ⟨g', hg', hid'.trans (hgid.trans hgoal₀), hrev'.trans (hgrev.trans hrev₀), hrun'⟩
  · intro w hmem w' hmem' hpend hpend' hsame
    obtain ⟨w₀, hw₀, hp₀, hid₀, hgoal₀, _⟩ := hw w hmem hpend
    obtain ⟨w₁, hw₁, hp₁, hid₁, hgoal₁, _⟩ := hw w' hmem' hpend'
    have heq : w₀ = w₁ := h.single w₀ hw₀ w₁ hw₁ hp₀ hp₁ (by rw [hgoal₀, hgoal₁, hsame])
    exact t.wakes.eq_of_key hmem hmem' (by rw [← hid₀, ← hid₁, heq])

theorem WakesOk.of_eq {s t : Store} (h : WakesOk s) (hg : t.goals = s.goals)
    (hw : t.wakes = s.wakes) : WakesOk t :=
  h.fewer (fun w hmem hpend => ⟨w, hw ▸ hmem, hpend, rfl, rfl, rfl⟩)
    fun g hgm _ _ _ _ hrun => ⟨g, hg ▸ hgm, rfl, rfl, hrun⟩

theorem SchedulesOk.of_eq {s t : Store} (h : SchedulesOk s) (hx : t.schedules = s.schedules)
    (hw : WakesGrow s t) : SchedulesOk t := by
  constructor
  · exact fun x hmem => h.passes x (hx ▸ hmem)
  · intro x hmem
    obtain ⟨w, hwm, hid⟩ := h.wake x (hx ▸ hmem)
    obtain ⟨w', hw', hid', _⟩ := hw w hwm
    exact ⟨w', hw', hid'.trans hid⟩
  · exact fun x hmem y hmem' => h.distinct x (hx ▸ hmem) y (hx ▸ hmem')

/-- A schedule may be rewritten, with a wake of its own. -/
theorem SchedulesOk.put {s t : Store} (h : SchedulesOk s) {x x' : ResearchSchedule}
    (hx : x ∈ s.schedules) (hid : x'.id = x.id) (ht : t.schedules = s.schedules.put x')
    (hgrow : WakesGrow s t) (hpass : x'.PassesOk) (hmem : ∃ w ∈ t.wakes, w.id = x'.wakeId)
    (hwake : x'.wakeId = x.wakeId ∨ ∀ y ∈ s.schedules, y.wakeId ≠ x'.wakeId) :
    SchedulesOk t := by
  have hrows : ∀ y, y ∈ t.schedules ↔ (y ∈ s.schedules ∧ y.id ≠ x'.id) ∨ y = x' := fun y => by
    rw [ht, mem_put_of_mem hx hid.symm]
  -- another schedule has another wake
  have hother : ∀ y ∈ s.schedules, y.id ≠ x'.id → y.wakeId ≠ x'.wakeId := by
    intro y hy hne heq
    rcases hwake with hsame | hfresh
    · obtain rfl := h.distinct y hy x hx (heq.trans hsame)
      exact hne hid.symm
    · exact hfresh y hy heq
  constructor
  · intro y hy
    rcases (hrows y).1 hy with ⟨hy, _⟩ | rfl
    · exact h.passes y hy
    · exact hpass
  · intro y hy
    rcases (hrows y).1 hy with ⟨hy, _⟩ | rfl
    · obtain ⟨w, hw, hwid⟩ := h.wake y hy
      obtain ⟨w', hw', hid', _⟩ := hgrow w hw
      exact ⟨w', hw', hid'.trans hwid⟩
    · exact hmem
  · intro y hy z hz heq
    rcases (hrows y).1 hy with ⟨hy, hyne⟩ | rfl <;> rcases (hrows z).1 hz with ⟨hz, hzne⟩ | rfl
    · exact h.distinct y hy z hz heq
    · exact absurd heq (hother y hy hyne)
    · exact absurd heq.symm (hother z hz hzne)
    · rfl

/-- Schedules may be rewritten in place, as long as their counts and wakes stay. -/
theorem SchedulesOk.update {s t : Store} (h : SchedulesOk s) {p : ResearchSchedule → Prop}
    [DecidablePred p] {f : ResearchSchedule → ResearchSchedule} {hf : ∀ x, (f x).id = x.id}
    (ht : t.schedules = s.schedules.updateWhere p f hf) (hgrow : WakesGrow s t)
    (hkeep : ∀ x, (f x).wakeId = x.wakeId ∧ (f x).successfulPasses = x.successfulPasses ∧
      (f x).scheduledPasses = x.scheduledPasses ∧ (f x).maxPasses = x.maxPasses ∧
      ((f x).status = .active → x.status = .active)) : SchedulesOk t := by
  have hrows : ∀ y ∈ t.schedules, ∃ x ∈ s.schedules, y.id = x.id ∧ y.wakeId = x.wakeId ∧
      (x.PassesOk → y.PassesOk) := by
    intro y hy
    rw [ht] at hy
    obtain ⟨x, hx, rfl⟩ := mem_updateWhere.1 hy
    refine ⟨x, hx, ?_⟩
    obtain ⟨hwake, hsucc, hsched, hmax, hact⟩ := hkeep x
    split_ifs
    · refine ⟨hf x, hwake, fun hp => ⟨?_, ?_, fun ha => ?_⟩⟩
      · rw [hsucc, hsched]; exact hp.credited_le
      · rw [hsched, hmax]; exact hp.scheduled_le
      · rw [hsucc, hsched]; exact hp.awaits (hact ha)
    · exact ⟨rfl, rfl, id⟩
  constructor
  · intro y hy
    obtain ⟨x, hx, _, _, hp⟩ := hrows y hy
    exact hp (h.passes x hx)
  · intro y hy
    obtain ⟨x, hx, _, hwake, _⟩ := hrows y hy
    obtain ⟨w, hw, hid⟩ := h.wake x hx
    obtain ⟨w', hw', hid', _⟩ := hgrow w hw
    exact ⟨w', hw', by rw [hid', hid, hwake]⟩
  · intro y hy z hz heq
    obtain ⟨x, hx, hxid, hxw, _⟩ := hrows y hy
    obtain ⟨x', hx', hxid', hxw', _⟩ := hrows z hz
    have hxx : x = x' := h.distinct x hx x' hx' (by rw [← hxw, ← hxw', heq])
    exact t.schedules.eq_of_key hy hz (by rw [hxid, hxid', hxx])

/-- What a step has to keep. -/
structure GoalsOk (s : Store) : Prop where
  wakes : WakesOk s
  schedules : SchedulesOk s

theorem GoalsOk.of_other {s t : Store} (h : GoalsOk s) (ho : OtherTables s t) : GoalsOk t :=
  ⟨h.wakes.of_eq ho.1 ho.2.1, h.schedules.of_eq ho.2.2 (.of_eq ho.2.1)⟩

/-- Wakes are rewritten in place: no status changes but that of a pending wake, which is pending
no more. -/
structure WakeNote (p : GoalWake → Prop) (f : GoalWake → GoalWake) : Prop where
  id : ∀ w, (f w).id = w.id
  goalId : ∀ w, (f w).goalId = w.goalId
  goalRevision : ∀ w, (f w).goalRevision = w.goalRevision
  status : ∀ w, p w → w.status ≠ .pending → (f w).status = w.status
  settles : ∀ w, p w → (f w).status = .pending → w.status = .pending

theorem WakeNote.grow {s t : Store} {p : GoalWake → Prop} [DecidablePred p]
    {f : GoalWake → GoalWake} (hf : WakeNote p f) (ht : t.wakes = s.wakes.updateWhere p f hf.id) :
    WakesGrow s t := by
  intro w hw
  refine ⟨if p w then f w else w, ht ▸ updateWhere_mem hf.id hw, ?_⟩
  split_ifs with hp
  · exact ⟨hf.id w, hf.goalId w, hf.status w hp⟩
  · exact ⟨rfl, rfl, fun _ => rfl⟩

theorem WakeNote.fewer {s t : Store} {p : GoalWake → Prop} [DecidablePred p]
    {f : GoalWake → GoalWake} (hf : WakeNote p f) (ht : t.wakes = s.wakes.updateWhere p f hf.id) :
    ∀ w ∈ t.wakes, w.status = .pending → ∃ w₀ ∈ s.wakes, w₀.status = .pending ∧ w₀.id = w.id ∧
      w₀.goalId = w.goalId ∧ w₀.goalRevision = w.goalRevision := by
  intro w hw hpend
  rw [ht] at hw
  obtain ⟨w₀, hw₀, rfl⟩ := mem_updateWhere.1 hw
  refine ⟨w₀, hw₀, ?_⟩
  split_ifs at hpend ⊢ with hp
  · exact ⟨hf.settles w₀ hp hpend, (hf.id w₀).symm, (hf.goalId w₀).symm, (hf.goalRevision w₀).symm⟩
  · exact ⟨hpend, rfl, rfl, rfl⟩

theorem GoalsOk.note {s t : Store} (h : GoalsOk s) {p : GoalWake → Prop} [DecidablePred p]
    {f : GoalWake → GoalWake} (hf : WakeNote p f) (ht : t.wakes = s.wakes.updateWhere p f hf.id)
    (hg : t.goals = s.goals) (hx : t.schedules = s.schedules) : GoalsOk t :=
  ⟨h.wakes.fewer (hf.fewer ht) fun g hgm _ _ _ _ hrun => ⟨g, hg ▸ hgm, rfl, rfl, hrun⟩,
    h.schedules.of_eq hx (hf.grow ht)⟩

/-- A schedule after a step with an event. -/
inductive ScheduleStep (s : Store) (event : Option GoalEvent) (y : ResearchSchedule) : Prop
  /-- It is new, and so is its wake. -/
  | fresh (hid : ∀ x ∈ s.schedules, x.id ≠ y.id) (hpass : y.successfulPasses = 0)
      (hwake : ∀ w ∈ s.wakes, w.id ≠ y.wakeId)
  /-- Nothing is credited to it, and it waits for no other wake. -/
  | same (x : ResearchSchedule) (hx : x ∈ s.schedules) (hid : x.id = y.id)
      (hpass : y.successfulPasses = x.successfulPasses) (hwake : y.wakeId = x.wakeId)
      (hactive : y.status = .active → x.status = .active)
      (hevent : ∀ w, event ≠ some (.credited y.id w))
  /-- The pass it waited for is credited; if it goes on, then with a new wake. -/
  | credit (x : ResearchSchedule) (hx : x ∈ s.schedules) (hid : x.id = y.id)
      (hactive : x.status = .active) (hevent : event = some (.credited y.id x.wakeId))
      (hpass : y.successfulPasses = x.successfulPasses + 1)
      (hwake : y.status = .active → ∀ w ∈ s.wakes, w.id ≠ y.wakeId)

variable {event : Option GoalEvent}

theorem ScheduleStep.of_mem {s : Store} {y : ResearchSchedule}
    (hy : y ∈ s.schedules) (hevent : ∀ w, event ≠ some (.credited y.id w)) :
    ScheduleStep s event y :=
  .same y hy rfl rfl rfl id hevent

/-- What every step with an event keeps. -/
structure GoalStep (s t : Store) (event : Option GoalEvent) : Prop where
  ok : GoalsOk t
  grow : WakesGrow s t
  started : ∀ wakeId runId, event = some (.started wakeId runId) →
    (∃ w ∈ s.wakes, w.id = wakeId ∧ w.status = .pending) ∧
      ∃ w ∈ t.wakes, w.id = wakeId ∧ w.status = .started
  stopped : ∀ goalId, event = some (.stopped goalId) →
    ∀ w ∈ t.wakes, w.goalId = goalId → w.status ≠ .pending
  credited : ∀ scheduleId wakeId, event = some (.credited scheduleId wakeId) →
    ∃ x ∈ s.schedules, x.id = scheduleId ∧ x.status = .active ∧ x.wakeId = wakeId
  schedules : ∀ y ∈ t.schedules, ScheduleStep s event y
  kept : ∀ x ∈ s.schedules, ∃ y ∈ t.schedules, y.id = x.id

theorem GoalStep.quiet {s t : Store} (hok : GoalsOk t) (hgrow : WakesGrow s t)
    (hx : t.schedules = s.schedules) : GoalStep s t none where
  ok := hok
  grow := hgrow
  started _ _ h := by cases h
  stopped _ h := by cases h
  credited _ _ h := by cases h
  schedules y hy := .of_mem (hx ▸ hy) nofun
  kept x hx' := ⟨x, hx ▸ hx', rfl⟩

theorem GoalStep.refl {s : Store} (h : GoalsOk s) : GoalStep s s none :=
  .quiet h (.refl s) rfl

theorem schedules_put {s t : Store} {x x' : ResearchSchedule} (hx : x ∈ s.schedules)
    (hid : x'.id = x.id) (ht : t.schedules = s.schedules.put x') (event : Option GoalEvent)
    (hevent : ∀ scheduleId wakeId, event = some (.credited scheduleId wakeId) →
      scheduleId = x.id) (hx' : ScheduleStep s event x') :
    (∀ y ∈ t.schedules, ScheduleStep s event y) ∧
      ∀ y ∈ s.schedules, ∃ z ∈ t.schedules, z.id = y.id := by
  have hrows : ∀ y, y ∈ t.schedules ↔ (y ∈ s.schedules ∧ y.id ≠ x'.id) ∨ y = x' := fun y => by
    rw [ht, mem_put_of_mem hx hid.symm]
  constructor
  · intro y hy
    rcases (hrows y).1 hy with ⟨hy, hne⟩ | rfl
    · exact .of_mem hy fun w hw => hne ((hevent y.id w hw).trans hid.symm)
    · exact hx'
  · intro y hy
    by_cases hy' : y.id = x'.id
    · exact ⟨x', (hrows x').2 (.inr rfl), hy'.symm⟩
    · exact ⟨y, (hrows y).2 (.inl ⟨hy, hy'⟩), rfl⟩

theorem schedules_update {s t : Store} {p : ResearchSchedule → Prop} [DecidablePred p]
    {f : ResearchSchedule → ResearchSchedule} {hf : ∀ x, (f x).id = x.id}
    (ht : t.schedules = s.schedules.updateWhere p f hf)
    (hkeep : ∀ x, (f x).wakeId = x.wakeId ∧ (f x).successfulPasses = x.successfulPasses ∧
      (f x).scheduledPasses = x.scheduledPasses ∧ (f x).maxPasses = x.maxPasses ∧
      ((f x).status = .active → x.status = .active)) (event : Option GoalEvent)
    (hevent : ∀ scheduleId wakeId, event ≠ some (.credited scheduleId wakeId)) :
    (∀ y ∈ t.schedules, ScheduleStep s event y) ∧
      ∀ x ∈ s.schedules, ∃ y ∈ t.schedules, y.id = x.id := by
  constructor
  · intro y hy
    rw [ht] at hy
    obtain ⟨x, hx, rfl⟩ := mem_updateWhere.1 hy
    obtain ⟨hwake, hcredited, _, _, hactive⟩ := hkeep x
    split_ifs
    · exact .same x hx (hf x).symm hcredited hwake hactive (hevent _)
    · exact .of_mem hx (hevent _)
  · intro x hx
    refine ⟨_, ht ▸ updateWhere_mem hf hx, ?_⟩
    split_ifs
    · exact hf x
    · rfl

/-! ### Revisions -/

theorem wakeNote_invalidated (goalId reason : String) :
    WakeNote (fun w => w.goalId = goalId ∧ w.status = .pending) (GoalWake.invalidated reason) where
  id _ := rfl
  goalId _ := rfl
  goalRevision _ := rfl
  status _ hp hne := absurd hp.2 hne
  settles _ _ h := by cases h

/-- A new revision of a goal cancels its wakes and its schedules. -/
theorem reviseGoal_spec {s : Store} (h : GoalsOk s) {g : Goal} (hg : g ∈ s.goals) (goal : Goal)
    (hid : goal.id = g.id) (reason : String) {event : Option GoalEvent}
    (hevent : event = none ∨ event = some (.stopped goal.id)) :
    GoalStep s (reviseGoal s goal reason) event := by
  have hnote := wakeNote_invalidated goal.id reason
  have hwakes : (reviseGoal s goal reason).wakes = s.wakes.updateWhere
      (fun w => w.goalId = goal.id ∧ w.status = .pending) (GoalWake.invalidated reason) hnote.id :=
    rfl
  have hgrow : WakesGrow s (reviseGoal s goal reason) := hnote.grow hwakes
  have hnone : ∀ w ∈ (reviseGoal s goal reason).wakes, w.goalId = goal.id →
      w.status ≠ .pending := by
    intro w hw hgoal hpend
    rw [hwakes] at hw
    obtain ⟨w₀, _, rfl⟩ := mem_updateWhere.1 hw
    split_ifs at hgoal hpend with hp
    · cases hpend
    · exact hp ⟨hgoal, hpend⟩
  have hschedules : (reviseGoal s goal reason).schedules = s.schedules.updateWhere
      (fun x => x.goalId = goal.id ∧ x.status = .active) (invalidated reason)
      fun _ => rfl := rfl
  have hkeep : ∀ x, (invalidated reason x).wakeId = x.wakeId ∧
      (invalidated reason x).successfulPasses = x.successfulPasses ∧
      (invalidated reason x).scheduledPasses = x.scheduledPasses ∧
      (invalidated reason x).maxPasses = x.maxPasses ∧
      ((invalidated reason x).status = .active → x.status = .active) :=
    fun x => ⟨rfl, rfl, rfl, rfl, nofun⟩
  have hquiet : (∀ wakeId runId, event ≠ some (.started wakeId runId)) ∧
      ∀ scheduleId wakeId, event ≠ some (.credited scheduleId wakeId) := by
    rcases hevent with rfl | rfl
    · exact ⟨nofun, nofun⟩
    · exact ⟨nofun, nofun⟩
  obtain ⟨hsteps, hkept⟩ := schedules_update hschedules hkeep _ hquiet.2
  refine
    { ok := ⟨?_, h.schedules.update hschedules hgrow hkeep⟩
      grow := hgrow
      started := fun wakeId runId he => absurd he (hquiet.1 wakeId runId)
      stopped := fun goalId he => ?_
      credited := fun scheduleId wakeId he => absurd he (hquiet.2 scheduleId wakeId)
      schedules := hsteps
      kept := hkept }
  · refine h.wakes.fewer (hnote.fewer hwakes) fun g' hg' w hw hpend hgw hrun => ?_
    -- the revised goal has no pending wake left
    have hne : g'.id ≠ goal.id := fun e => hnone w hw (hgw.symm.trans e) hpend
    refine ⟨g', ?_, rfl, rfl, hrun⟩
    exact (mem_put_of_mem (r := { goal with revision := goal.revision + 1 }) hg hid.symm).2
      (.inl ⟨hg', hne⟩)
  · rcases hevent with rfl | rfl
    · cases he
    · cases he
      exact hnone

theorem getGoalDraft_mem {s : Store} {id ownerId : String} {v : GoalView}
    (h : getGoalDraft s id ownerId = some v) : v.goal ∈ s.goals ∧ v.goal.id = id ∧
      v = present s v.goal := by
  unfold getGoalDraft at h
  obtain ⟨g, hg, rfl⟩ := map_eq_some_iff.1 h
  obtain ⟨hfind, _⟩ := filter_eq_some_iff.1 hg
  exact ⟨mem_of_find hfind, key_of_find hfind, rfl⟩

theorem updateGoalDraft_spec {s t : Store} (h : GoalsOk s) {id ownerId : String}
    {expectedRevision : ℕ} {draft : GoalDraft}
    (ht : updateGoalDraft s id ownerId expectedRevision draft = some t) :
    GoalStep s t (some (.stopped id)) := by
  simp only [updateGoalDraft, bind_eq_bind, bind_eq_some_iff, guard_eq_some',
    Option.pure_def, some_inj] at ht
  obtain ⟨_, _, v, hv, _, _, _, _, rfl⟩ := ht
  obtain ⟨hmem, rfl, _⟩ := getGoalDraft_mem hv
  exact reviseGoal_spec h hmem { v.goal with domains := draft.domains, budgets := draft.budgets }
    rfl "goal_revised" (.inr rfl)

theorem controlGoal_spec {s t : Store} (h : GoalsOk s) {id ownerId : String}
    {op : GoalOperation} {expectedRevision : ℕ}
    (ht : controlGoal s id ownerId op expectedRevision = some t) :
    GoalStep s t (if op = .resume then none else some (.stopped id)) := by
  simp only [controlGoal, bind_eq_bind, bind_eq_some_iff, guard_eq_some'] at ht
  obtain ⟨_, _, v, hv, ht⟩ := ht
  obtain ⟨hmem, rfl, _⟩ := getGoalDraft_mem hv
  split_ifs at ht with hsame
  · obtain rfl := some_inj.1 ht
    have hq := GoalStep.refl h
    split_ifs with hop
    · exact hq
    · refine ⟨h, .refl s, nofun, ?_, nofun, fun y hy => .of_mem hy nofun, hq.kept⟩
      rintro _ ⟨⟩ w hw hgoal hpend
      -- the goal has the status it was to get, which does not let it run
      obtain ⟨g, hg, hgid, _, hrun⟩ := h.wakes.current w hw hpend
      obtain rfl := s.goals.eq_of_key hg hmem (hgid.trans hgoal)
      rw [hsame] at hrun
      cases op with
      | pause => cases hrun
      | cancel => cases hrun
      | resume => exact hop rfl
  · simp only [Option.pure_def, bind_eq_some_iff, guard_eq_some',
      some_inj] at ht
    obtain ⟨_, _, _, _, _, _, rfl⟩ := ht
    refine reviseGoal_spec h hmem { v.goal with status := op.target v } rfl "goal_stopped" ?_
    split_ifs
    · exact .inl rfl
    · exact .inr rfl

theorem createGoalDraft_spec {s t : Store} (h : GoalsOk s) {id ownerId : String}
    {draft : GoalDraft} (ht : createGoalDraft s id ownerId draft = some t) :
    GoalStep s t none := by
  unfold createGoalDraft at ht
  split_ifs at ht
  obtain ⟨goals, hins, rfl⟩ := map_eq_some_iff.1 ht
  refine .quiet ⟨?_, h.schedules.of_eq rfl (.of_eq rfl)⟩ (.of_eq rfl) rfl
  refine h.wakes.fewer (fun w hw hpend => ⟨w, hw, hpend, rfl, rfl, rfl⟩) ?_
  intro g hg _ _ _ _ hrun
  exact ⟨g, (mem_of_insert? hins).2 (.inl hg), rfl, rfl, hrun⟩

/-- What a new wake adds. -/
structure NewWake (s t : Store) (goal : Goal) (fireAt : ℕ) (id : String) : Prop where
  fresh : ∀ w ∈ s.wakes, w.id ≠ id
  wakes : ∃ w, w.id = id ∧ w.goalId = goal.id ∧ w.goalRevision = goal.revision ∧
    w.fireAt = fireAt ∧ ∀ w', w' ∈ t.wakes ↔ w' ∈ s.wakes ∨ w' = w
  free : ∀ w ∈ s.wakes, w.goalId = goal.id → w.status ≠ .pending
  goals : t.goals = s.goals
  schedules : t.schedules = s.schedules

theorem createWake_spec {s t : Store} {goal : Goal} {fireAt now : ℕ} {ids : WakeIds}
    (ht : createWake s goal fireAt now ids = some t) : NewWake s t goal fireAt ids.wake := by
  simp only [createWake, bind_eq_bind, bind_eq_some_iff, guard_eq_some',
    Option.pure_def, some_inj] at ht
  obtain ⟨triggers, _, _, _, _, hfree, wakes, hins, rfl⟩ := ht
  refine ⟨(insert?_eq_some.1 hins).1, ⟨ids.row goal fireAt now, rfl, rfl, rfl, rfl,
    fun w' => mem_of_insert? hins⟩, fun w hw hgoal hpend => ?_, rfl, rfl⟩
  simp only [GoalWakes.hasPending, Bool.not_eq_true', List.any_eq_false] at hfree
  exact hfree w hw (by simp [hgoal, hpend])

namespace NewWake

variable {s t : Store} {goal : Goal} {fireAt : ℕ} {id : String}

theorem grow (h : NewWake s t goal fireAt id) : WakesGrow s t := by
  obtain ⟨_, _, _, _, _, hw⟩ := h.wakes
  exact fun w hmem => ⟨w, (hw w).2 (.inl hmem), rfl, rfl, fun _ => rfl⟩

theorem mem (h : NewWake s t goal fireAt id) : ∃ w ∈ t.wakes, w.id = id := by
  obtain ⟨w, hid, _, _, _, hw⟩ := h.wakes
  exact ⟨w, (hw w).2 (.inr rfl), hid⟩

theorem wakesOk (h : NewWake s t goal fireAt id) (hs : WakesOk s) (hg : goal ∈ s.goals)
    (hrun : goal.status.canRun = true) : WakesOk t := by
  obtain ⟨w, _, hgoal, hrev, _, hw⟩ := h.wakes
  constructor
  · intro x hx hpend
    rw [h.goals]
    rcases (hw x).1 hx with hx | rfl
    · exact hs.current x hx hpend
    · exact ⟨goal, hg, hgoal.symm, hrev.symm, hrun⟩
  · intro x hx y hy hpx hpy hsame
    rcases (hw x).1 hx with hx | rfl <;> rcases (hw y).1 hy with hy | rfl
    · exact hs.single x hx y hy hpx hpy hsame
    · exact absurd hpx (h.free x hx (hsame.trans hgoal))
    · exact absurd hpy (h.free y hy (hsame.symm.trans hgoal))
    · rfl

theorem unused (h : NewWake s t goal fireAt id) (hs : SchedulesOk s) :
    ∀ y ∈ s.schedules, y.wakeId ≠ id := by
  intro y hy heq
  obtain ⟨w, hw, hid⟩ := hs.wake y hy
  exact h.fresh w hw (hid.trans heq)

end NewWake

theorem scheduleGoalWake_spec {s t : Store} (h : GoalsOk s) {goalId ownerId : String}
    {fireAt expectedRevision now : ℕ} {ids : WakeIds}
    (ht : scheduleGoalWake s goalId ownerId fireAt expectedRevision now ids = some t) :
    GoalStep s t none := by
  simp only [scheduleGoalWake, bind_eq_bind, bind_eq_some_iff,
    guard_eq_some'] at ht
  obtain ⟨_, _, v, hv, _, _, _, hrun, _, _, ht⟩ := ht
  obtain ⟨hmem, _, _⟩ := getGoalDraft_mem hv
  have hcan : v.goal.status.canRun = true := by
    simp only [GoalView.manualRunAvailable, Bool.and_eq_true] at hrun
    exact hrun.1.1.1.1.1
  have hnew := createWake_spec ht
  exact .quiet ⟨hnew.wakesOk h.wakes hmem hcan, h.schedules.of_eq hnew.schedules hnew.grow⟩
    hnew.grow hnew.schedules

/-! ### Runs and deliveries -/

theorem wakeNote_refused (wakeId blocker : String) :
    WakeNote (fun w => w.id = wakeId ∧ w.status = .pending) (GoalWake.refused blocker) where
  id _ := rfl
  goalId _ := rfl
  goalRevision _ := rfl
  status _ hp hne := absurd hp.2 hne
  settles _ _ h := by cases h

theorem wakeNote_blocker (p : GoalWake → Prop) (blocker : String) :
    WakeNote p fun w => { w with blocker := some blocker } where
  id _ := rfl
  goalId _ := rfl
  goalRevision _ := rfl
  status _ _ _ := rfl
  settles _ _ h := h

theorem failDelivery_spec {s : Store} (h : GoalsOk s) (wakeId blocker : String) :
    GoalsOk (failDelivery s wakeId blocker) ∧ WakesGrow s (failDelivery s wakeId blocker) := by
  have hrefused := wakeNote_refused wakeId blocker
  have hblocker := wakeNote_blocker (fun w => w.id = wakeId ∧ w.status = .started)
    "inspect_run_failure"
  let s₁ : Store := { s with
    wakes := s.wakes.updateWhere (fun w => w.id = wakeId ∧ w.status = .pending)
      (GoalWake.refused blocker) fun _ => rfl }
  have h₁ : GoalsOk s₁ := h.note hrefused rfl rfl rfl
  have hg₁ : WakesGrow s s₁ := hrefused.grow rfl
  exact ⟨h₁.note hblocker rfl rfl rfl, hg₁.trans (hblocker.grow rfl)⟩

theorem getRun_other {s t : Store} {runId : String} {v : RunView}
    (h : getRun s runId = some (t, v)) : OtherTables s t := by
  unfold getRun at h
  obtain ⟨run, _, hrun⟩ := map_eq_some_iff.1 h
  obtain ⟨rfl, _⟩ := mk.inj hrun
  exact ⟨rfl, rfl, rfl⟩

theorem settleDelivery_spec {s : Store} (h : GoalsOk s) (wakeId runId : String) (failed : Bool) :
    GoalsOk (settleDelivery s wakeId runId failed) ∧
      WakesGrow s (settleDelivery s wakeId runId failed) ∧
      (settleDelivery s wakeId runId failed).schedules = s.schedules := by
  have hfail := failDelivery_spec h wakeId "run_not_started"
  unfold settleDelivery
  split_ifs
  · exact ⟨hfail.1, hfail.2, rfl⟩
  · cases hrun : getRun s runId with
    | none => exact ⟨hfail.1, hfail.2, rfl⟩
    | some r =>
      obtain ⟨t, v⟩ := r
      have ho := getRun_other hrun
      have ht := h.of_other ho
      dsimp only
      split_ifs
      · exact ⟨ht, .of_eq ho.2.1, ho.2.2⟩
      · have hnote := wakeNote_blocker (fun w => w.id = wakeId) "inspect_run_status"
        exact ⟨ht.note hnote rfl rfl rfl, (WakesGrow.of_eq ho.2.1).trans (hnote.grow rfl), ho.2.2⟩

theorem startGoal_spec {s t : Store} (h : GoalsOk s) {actorId goalId : String} {revision : ℕ}
    (ht : startGoal s actorId goalId = .ok (t, revision)) :
    GoalsOk t ∧ t.wakes = s.wakes ∧ t.schedules = s.schedules := by
  unfold startGoal at ht
  split at ht
  · cases ht
  · next goal hgoal =>
    dsimp only at ht
    split_ifs at ht
    cases ht
    have hmem := mem_of_find hgoal
    have hput : ∀ x, x ∈ s.goals.put { goal with status := .active } ↔
        (x ∈ s.goals ∧ x.id ≠ goal.id) ∨ x = { goal with status := .active } :=
      fun x => mem_put_of_mem hmem rfl
    refine ⟨⟨?_, h.schedules.of_eq rfl (.of_eq rfl)⟩, rfl, rfl⟩
    refine h.wakes.fewer (fun w hw hpend => ⟨w, hw, hpend, rfl, rfl, rfl⟩) ?_
    intro g hg _ _ _ _ hrun
    by_cases hid : g.id = goal.id
    · obtain rfl := s.goals.eq_of_key hg hmem hid
      exact ⟨_, (hput _).2 (.inr rfl), rfl, rfl, rfl⟩
    · exact ⟨g, (hput g).2 (.inl ⟨hg, hid⟩), rfl, rfl, hrun⟩

theorem consumeWake_spec {s t : Store} (h : GoalsOk s) {n : NewRun} {goalRevision : Option ℕ}
    {now : ℕ} (ht : consumeWake s n goalRevision now = .ok t) :
    GoalsOk t ∧ WakesGrow s t ∧ t.schedules = s.schedules ∧
      ∀ wakeId, n.goalWakeId = some wakeId →
        (∃ w ∈ s.wakes, w.id = wakeId ∧ w.status = .pending) ∧
          ∃ w ∈ t.wakes, w.id = wakeId ∧ w.status = .started := by
  unfold consumeWake at ht
  split at ht
  · next hnone =>
    cases ht
    exact ⟨h, .refl _, rfl, fun wakeId hw => by rw [hnone] at hw; cases hw⟩
  · next wakeId hsome =>
    split at ht
    · cases ht
    · next w hw =>
      split_ifs at ht with hready
      cases ht
      obtain ⟨hmem, hid⟩ := find_eq_some.1 hw
      -- replacing the one row with this id is noting the wakes with this id
      have hput : s.wakes.put (w.started n.id) = s.wakes.updateWhere
          (fun x => x.id = wakeId ∧ x.status = .pending) (GoalWake.started n.id) fun _ => rfl :=
        (updateWhere_eq_put (f := GoalWake.started n.id) (fun _ => rfl) hmem
          ⟨hid, hready.2.2.1⟩ fun x hx => hx.1.trans hid.symm).symm
      have hnote : WakeNote (fun x => x.id = wakeId ∧ x.status = .pending)
          (GoalWake.started n.id) :=
        ⟨fun _ => rfl, fun _ => rfl, fun _ => rfl, fun _ hp hne => absurd hp.2 hne,
          fun _ _ hst => by cases hst⟩
      refine ⟨h.note hnote hput rfl rfl, hnote.grow hput, rfl, fun wakeId' hw' => ?_⟩
      obtain rfl : wakeId = wakeId' := some_inj.1 (hsome.symm.trans hw')
      exact ⟨⟨w, hmem, hid, hready.2.2.1⟩, w.started n.id,
        (mem_put_of_mem (r := w.started n.id) hmem rfl).2 (.inr rfl), hid, rfl⟩

theorem createRun_spec {s t : Store} (h : GoalsOk s) {n : NewRun} {now : ℕ}
    (ht : createRun s n now = .ok t) :
    GoalsOk t ∧ WakesGrow s t ∧ t.schedules = s.schedules ∧
      ∀ wakeId, n.goalWakeId = some wakeId →
        (∃ w ∈ s.wakes, w.id = wakeId ∧ w.status = .pending) ∧
          ∃ w ∈ t.wakes, w.id = wakeId ∧ w.status = .started := by
  -- the goal, then the wake, then the row of the run
  obtain ⟨s₁, goalRevision, s₂, runs, hstart, hconsume, _, rfl⟩ := createRun_eq_ok ht
  obtain ⟨hok, hw, hx⟩ : GoalsOk s₁ ∧ s₁.wakes = s.wakes ∧ s₁.schedules = s.schedules := by
    rcases hstart with ⟨_, rfl, _⟩ | ⟨goalId, number, _, hs, _⟩
    · exact ⟨h, rfl, rfl⟩
    · exact startGoal_spec h hs
  obtain ⟨hok₂, hgrow, hsched, hstarted⟩ := consumeWake_spec hok hconsume
  refine ⟨hok₂.of_other ⟨rfl, rfl, rfl⟩, ?_, hsched.trans hx, fun wakeId hid => ?_⟩
  · exact (WakesGrow.of_eq hw).trans (hgrow.trans (.of_eq rfl))
  · obtain ⟨hpend, hst⟩ := hstarted wakeId hid
    rw [hw] at hpend
    exact ⟨hpend, hst⟩

/-! ### Schedules -/

/-- A schedule that no pass is credited to may be rewritten. -/
theorem GoalStep.put {s u t : Store} (h : GoalsOk s) (ho : OtherTables s u)
    {x : ResearchSchedule} (hx : x ∈ s.schedules) (hactive : x.status = .active)
    (x' : ResearchSchedule) (hid : x'.id = x.id) (hwake : x'.wakeId = x.wakeId)
    (hcredited : x'.successfulPasses = x.successfulPasses)
    (hscheduled : x'.scheduledPasses = x.scheduledPasses) (hmax : x'.maxPasses = x.maxPasses)
    (ht : t = { u with schedules := u.schedules.put x' }) : GoalStep s t none := by
  obtain ⟨hg, hw, hs⟩ := ho
  have hput : t.schedules = s.schedules.put x' := by rw [ht, ← hs]
  have hgrow : WakesGrow s t := .of_eq (by rw [ht]; exact hw)
  have hp := h.schedules.passes x hx
  have hpass : x'.PassesOk := by
    refine ⟨?_, ?_, fun _ => ?_⟩
    · rw [hcredited, hscheduled]; exact hp.credited_le
    · rw [hscheduled, hmax]; exact hp.scheduled_le
    · rw [hcredited, hscheduled]; exact hp.awaits hactive
  have hmem : ∃ w ∈ t.wakes, w.id = x'.wakeId := by
    obtain ⟨w, hwm, hwid⟩ := h.schedules.wake x hx
    obtain ⟨w', hw', hid', _⟩ := hgrow w hwm
    exact ⟨w', hw', by rw [hid', hwid, hwake]⟩
  obtain ⟨hsteps, hkept⟩ := schedules_put hx hid hput none nofun
    (.same x hx hid.symm hcredited hwake (fun _ => hactive) nofun)
  exact
    { ok := ⟨h.wakes.of_eq (by rw [ht]; exact hg) (by rw [ht]; exact hw),
        h.schedules.put hx hid hput hgrow hpass hmem (.inl hwake)⟩
      grow := hgrow
      started := nofun
      stopped := nofun
      credited := nofun
      schedules := hsteps
      kept := hkept }

/-- Every wake a step creates fires late enough after the wake of the schedule. -/
def FiresLate (s t : Store) (scheduleId : String) (now : ℕ) : Prop :=
  ∀ w ∈ t.wakes, (∀ w₀ ∈ s.wakes, w₀.id ≠ w.id) →
    ∃ x ∈ s.schedules, x.id = scheduleId ∧ ∃ w₀ ∈ s.wakes, w₀.id = x.wakeId ∧
      now + x.intervalHours * hourMs ≤ w.fireAt ∧ w₀.fireAt + x.intervalHours * hourMs ≤ w.fireAt

theorem FiresLate.of_eq {s t : Store} (h : t.wakes = s.wakes) (scheduleId : String) (now : ℕ) :
    FiresLate s t scheduleId now :=
  fun w hw hnew => absurd rfl (hnew w (h ▸ hw))

theorem judgeSchedule_spec {s u : Store} {series : ResearchSchedule} {goal : Goal} {r : Reconciled}
    (h : judgeSchedule s series goal = (u, r)) : OtherTables s u ∧
      ∀ wake, r = .credit wake → wake ∈ s.wakes ∧ wake.id = series.wakeId ∧
        wake.status ≠ .pending ∧ goal.status.canRun = true := by
  unfold judgeSchedule at h
  split_ifs at h with hgoal
  · cases h
    exact ⟨⟨rfl, rfl, rfl⟩, by simp⟩
  · simp only [not_or, Bool.not_eq_false] at hgoal
    split at h
    · cases h
      exact ⟨⟨rfl, rfl, rfl⟩, by simp⟩
    · next wake hwake =>
      obtain ⟨hfind, _⟩ := filter_eq_some_iff.1 hwake
      split_ifs at h with hpend
      · cases h
        exact ⟨⟨rfl, rfl, rfl⟩, by simp⟩
      · split at h
        · cases h
          exact ⟨⟨rfl, rfl, rfl⟩, by simp⟩
        · split at h
          · cases h
            exact ⟨⟨rfl, rfl, rfl⟩, by simp⟩
          · split at h
            · cases h
              exact ⟨⟨rfl, rfl, rfl⟩, by simp⟩
            · next t view hrun =>
              obtain ⟨rfl, hjudge⟩ := mk.inj h
              refine ⟨getRun_other hrun, fun wake' hcredit => ?_⟩
              rw [hcredit] at hjudge
              obtain rfl : wake = wake' := by
                unfold judgeRun at hjudge
                split_ifs at hjudge
                exact Reconciled.credit.inj hjudge
              exact ⟨mem_of_find hfind, key_of_find hfind, hpend, hgoal.2.1⟩

theorem GoalStep.credit {s t : Store} (h : GoalsOk s) {x : ResearchSchedule}
    (hx : x ∈ s.schedules) (hactive : x.status = .active) (x' : ResearchSchedule)
    (hid : x'.id = x.id)
    (ht : t.schedules = s.schedules.put x') (hwakes : WakesOk t) (hgrow : WakesGrow s t)
    (hpass : x'.PassesOk) (hcredited : x'.successfulPasses = x.successfulPasses + 1)
    (hmem : ∃ w ∈ t.wakes, w.id = x'.wakeId)
    (hwake : x'.wakeId = x.wakeId ∧ x'.status ≠ .active ∨ ∀ w ∈ s.wakes, w.id ≠ x'.wakeId) :
    GoalStep s t (some (.credited x.id x.wakeId)) := by
  have hnew : x'.wakeId = x.wakeId ∨ ∀ y ∈ s.schedules, y.wakeId ≠ x'.wakeId := by
    refine hwake.imp And.left fun hfresh y hy heq => ?_
    obtain ⟨w, hw, hwid⟩ := h.schedules.wake y hy
    exact hfresh w hw (hwid.trans heq)
  have hstep : ScheduleStep s (some (.credited x.id x.wakeId)) x' := by
    refine .credit x hx hid.symm hactive (by rw [hid]) hcredited fun ha => ?_
    exact hwake.resolve_left fun hsame => hsame.2 ha
  obtain ⟨hsteps, hkept⟩ := schedules_put hx hid ht (some (.credited x.id x.wakeId))
    (fun scheduleId wakeId he => (credited.inj (some_inj.1 he)).1.symm) hstep
  refine ⟨⟨hwakes, h.schedules.put hx hid ht hgrow hpass hmem hnew⟩, hgrow, nofun, nofun, ?_,
    hsteps, hkept⟩
  intro scheduleId wakeId he
  obtain ⟨rfl, rfl⟩ := credited.inj (some_inj.1 he)
  exact ⟨x, hx, rfl, hactive, rfl⟩

theorem creditPass_spec {s u t : Store} (h : GoalsOk s) (ho : OtherTables s u)
    {x : ResearchSchedule} (hx : x ∈ s.schedules) (hactive : x.status = .active)
    {goal : Goal} (hgoal : goal ∈ s.goals) (hrun : goal.status.canRun = true) {wake : GoalWake}
    (hwake : wake ∈ s.wakes) (hid : wake.id = x.wakeId) {available : Bool} {now : ℕ}
    {ids : WakeIds}
    (ht : creditPass u { x with checkedAt := now } goal available wake now ids = some t) :
    GoalStep s t (some (.credited x.id x.wakeId)) ∧ FiresLate s t x.id now := by
  obtain ⟨hg, hw, hs⟩ := ho
  have hu := h.of_other ⟨hg, hw, hs⟩
  have hp := h.schedules.passes x hx
  have hlt := hp.awaits hactive
  have hle := hp.scheduled_le
  have hold : ∃ w ∈ u.wakes, w.id = x.wakeId := ⟨wake, hw ▸ hwake, hid⟩
  let y : ResearchSchedule := ({ x with checkedAt := now } : ResearchSchedule).credited
  unfold creditPass at ht
  dsimp only [ResearchSchedule.credited] at ht
  split_ifs at ht with hlast havailable
  · -- the last pass
    cases ht
    exact ⟨.credit h hx hactive { y with status := .completed } rfl (by rw [← hs]; rfl)
      (hu.wakes.of_eq rfl rfl) (.of_eq hw) ⟨hlt, hle, nofun⟩ rfl hold (.inl ⟨rfl, nofun⟩),
      .of_eq hw _ _⟩
  · -- the goal cannot go on
    cases ht
    exact ⟨.credit h hx hactive (y.stopped "review_goal_budget_or_run") rfl (by rw [← hs]; rfl)
      (hu.wakes.of_eq rfl rfl) (.of_eq hw) ⟨hlt, hle, nofun⟩ rfl hold (.inl ⟨rfl, nofun⟩),
      .of_eq hw _ _⟩
  · obtain ⟨v, hcreate, rfl⟩ := map_eq_some_iff.1 ht
    have hnew := createWake_spec hcreate
    have hfresh : ∀ w ∈ s.wakes, w.id ≠ ids.wake := fun w hwm => hnew.fresh w (hw ▸ hwm)
    have hgrow : WakesGrow s v := (WakesGrow.of_eq hw).trans hnew.grow
    have hmore : x.successfulPasses + 1 < x.scheduledPasses + 1 := by omega
    have hfit : x.scheduledPasses + 1 ≤ x.maxPasses := by omega
    constructor
    · exact .credit h hx hactive (y.next ids.wake) rfl (by rw [← hs, ← hnew.schedules]; rfl)
        ((hnew.wakesOk hu.wakes (hg ▸ hgoal) hrun).of_eq rfl rfl) hgrow
        ⟨hmore.le, hfit, fun _ => hmore⟩ rfl hnew.mem (.inr hfresh)
    · intro w hwm hnone
      obtain ⟨w₁, hid₁, _, _, hfire, hrows⟩ := hnew.wakes
      rcases (hrows w).1 hwm with hold | rfl
      · exact absurd rfl (hnone w (hw ▸ hold))
      · refine ⟨x, hx, rfl, wake, hwake, hid, ?_, ?_⟩ <;> rw [hfire]
        · exact Nat.add_le_add_right (le_max_left _ _) _
        · exact Nat.add_le_add_right (le_max_right _ _) _

theorem reconcileSchedule_spec {s t : Store} (h : GoalsOk s) {id : String} {now : ℕ}
    {ids : WakeIds} {wakeId : Option String}
    (ht : reconcileSchedule s id now ids = some (t, wakeId)) :
    GoalStep s t (wakeId.map (.credited id)) ∧ FiresLate s t id now := by
  unfold reconcileSchedule at ht
  split at ht
  · cases ht
    exact ⟨.refl h, .of_eq rfl _ _⟩
  · next x hfind =>
    obtain ⟨hx, hactive⟩ := filter_eq_some_iff.1 hfind
    obtain ⟨hmem, rfl⟩ := find_eq_some.1 hx
    rw [decide_eq_true_eq] at hactive
    let y : ResearchSchedule := { x with checkedAt := now }
    dsimp only at ht
    split at ht
    · cases ht
      exact ⟨.put h ⟨rfl, rfl, rfl⟩ hmem hactive (y.stopped "goal_unavailable") rfl rfl rfl rfl rfl
        rfl, .of_eq (by rfl) _ _⟩
    · next goal hgoal =>
      have hgm := mem_of_find hgoal
      split at ht
      · next u hjudge =>
        obtain ⟨ho, _⟩ := judgeSchedule_spec hjudge
        cases ht
        exact ⟨.put h ho hmem hactive y rfl rfl rfl rfl rfl rfl, .of_eq ho.2.1 _ _⟩
      · next u blocker hjudge =>
        obtain ⟨ho, _⟩ := judgeSchedule_spec hjudge
        cases ht
        exact ⟨.put h ho hmem hactive (y.stopped blocker) rfl rfl rfl rfl rfl rfl,
          .of_eq ho.2.1 _ _⟩
      · next u wake hjudge =>
        obtain ⟨ho, hcredit⟩ := judgeSchedule_spec hjudge
        obtain ⟨hwake, hwid, _, hrun⟩ := hcredit wake rfl
        obtain ⟨v, hpass, hv⟩ := map_eq_some_iff.1 ht
        obtain ⟨rfl, rfl⟩ := mk.inj hv
        have hspec := creditPass_spec h ho hmem hactive hgm hrun hwake hwid hpass
        rw [map_some, hwid]
        exact hspec

theorem checkSchedule_spec {s t : Store} (h : GoalsOk s) {id : String} {now : ℕ} {ids : WakeIds}
    {fails : Bool} {wakeId : Option String}
    (ht : checkSchedule s id now ids fails = (t, wakeId)) :
    GoalStep s t (wakeId.map (.credited id)) ∧ FiresLate s t id now := by
  unfold checkSchedule at ht
  split at ht
  · next r hr =>
    subst ht
    split_ifs at hr
    exact reconcileSchedule_spec h hr
  · obtain ⟨rfl, rfl⟩ := mk.inj ht
    refine ⟨?_, .of_eq (by rfl) _ _⟩
    have hschedules : (markUnavailable s id now).schedules = s.schedules.updateWhere
        (fun x => x.id = id ∧ x.status = .active)
        (fun x => { x with blocker := some "checkpoint_unavailable", checkedAt := now })
        fun _ => rfl := rfl
    obtain ⟨hsteps, hkept⟩ := schedules_update hschedules
      (fun x => ⟨rfl, rfl, rfl, rfl, fun ha => ha⟩) none nofun
    have hok := h.schedules.update hschedules (.of_eq rfl)
      fun x => ⟨rfl, rfl, rfl, rfl, fun ha => ha⟩
    exact ⟨⟨h.wakes.of_eq rfl rfl, hok⟩, .of_eq rfl, nofun, nofun, nofun, hsteps, hkept⟩

/-- New research has a schedule and a wake of its own. -/
theorem scheduleGoalResearch_spec {s t : Store} (h : GoalsOk s) {goalId ownerId : String}
    {x : ResearchInput} {now : ℕ} {ids : WakeIds} {researchId : String}
    (ht : scheduleGoalResearch s goalId ownerId x now ids researchId = some t) :
    GoalStep s t none := by
  simp only [scheduleGoalResearch, bind_eq_bind, bind_eq_some_iff,
    guard_eq_some', Option.pure_def, some_inj] at ht
  obtain ⟨_, hvalid, v, hv, _, _, _, _, _, hrun, _, _, u, hcreate, schedules, hins, rfl⟩ := ht
  obtain ⟨hmem, _, _⟩ := getGoalDraft_mem hv
  have hcan : v.goal.status.canRun = true := by
    have hav := hrun.1
    simp only [GoalView.manualRunAvailable, Bool.and_eq_true] at hav
    exact hav.1.1.1.1.1
  have hnew := createWake_spec hcreate
  have hx := h.schedules
  have hins' : ∀ y, y ∈ schedules ↔ y ∈ s.schedules ∨ y = x.row v.goal researchId ids.wake now :=
    fun y => by rw [mem_of_insert? hins, hnew.schedules]
  have hfreshId : ∀ y ∈ s.schedules, y.id ≠ researchId := fun y hy =>
    (insert?_eq_some.1 hins).1 y (hnew.schedules ▸ hy)
  have hmax : 2 ≤ x.maxPasses := by
    simp only [ResearchInput.isValid, Bool.and_eq_true, decide_eq_true_eq] at hvalid
    exact hvalid.1.2.1
  have hrow : (x.row v.goal researchId ids.wake now).PassesOk :=
    ⟨Nat.zero_le _, by change 1 ≤ x.maxPasses; omega, fun _ => Nat.one_pos⟩
  refine
    { ok := ⟨(hnew.wakesOk h.wakes hmem hcan).of_eq rfl rfl, ?_, ?_, ?_⟩
      grow := hnew.grow
      started := nofun
      stopped := nofun
      credited := nofun
      schedules := fun y hy => ?_
      kept := fun y hy => ⟨y, (hins' y).2 (.inl hy), rfl⟩ }
  · intro y hy
    rcases (hins' y).1 hy with hy | rfl
    · exact hx.passes y hy
    · exact hrow
  · intro y hy
    rcases (hins' y).1 hy with hy | rfl
    · obtain ⟨w, hw, hid⟩ := hx.wake y hy
      obtain ⟨w', hw', hid', _⟩ := hnew.grow w hw
      exact ⟨w', hw', hid'.trans hid⟩
    · exact hnew.mem
  · intro y hy z hz heq
    rcases (hins' y).1 hy with hy | rfl <;> rcases (hins' z).1 hz with hz | rfl
    · exact hx.distinct y hy z hz heq
    · exact absurd heq (hnew.unused hx y hy)
    · exact absurd heq.symm (hnew.unused hx z hz)
    · rfl
  · rcases (hins' y).1 hy with hy | rfl
    · exact .of_mem hy nofun
    · exact .fresh hfreshId rfl hnew.fresh

/-! ### Steps -/

variable {x y : GoalSystem}

theorem GoalSystem.attempt_spec {o : Option Store} {event' : Option GoalEvent} (h : GoalsOk x.store)
    (hs : ∀ t, o = some t → GoalStep x.store t event)
    (hxy : x.attempt o event = (y, event')) : GoalStep x.store y.store event' := by
  unfold GoalSystem.attempt at hxy
  split at hxy
  · next t =>
    obtain ⟨rfl, rfl⟩ := Prod.mk.inj hxy
    exact hs t rfl
  · obtain ⟨rfl, rfl⟩ := Prod.mk.inj hxy
    exact .refl h

theorem deliverWake_spec {s t : Store} (h : GoalsOk s) {wakeId triggerId runId : String}
    {now : ℕ} {started : Bool} (ht : deliverWake s wakeId triggerId runId now = (t, started)) :
    GoalStep s t (if started then some (.started wakeId runId) else none) := by
  have hfail : ∀ blocker, GoalStep s (failDelivery s wakeId blocker) none := fun blocker =>
    .quiet (failDelivery_spec h wakeId blocker).1 (failDelivery_spec h wakeId blocker).2 rfl
  unfold deliverWake at ht
  split at ht
  · obtain ⟨rfl, rfl⟩ := mk.inj ht
    exact .refl h
  · split_ifs at ht
    · obtain ⟨rfl, rfl⟩ := mk.inj ht
      exact .refl h
    · split at ht
      · obtain ⟨rfl, rfl⟩ := mk.inj ht
        exact hfail _
      · split_ifs at ht
        · obtain ⟨rfl, rfl⟩ := mk.inj ht
          exact hfail _
        · obtain ⟨rfl, rfl⟩ := mk.inj ht
          exact hfail _
        · split at ht
          · next u hcreate =>
            obtain ⟨rfl, rfl⟩ := mk.inj ht
            obtain ⟨hok, hgrow, hx, hstarted⟩ := createRun_spec h hcreate
            have hq := GoalStep.quiet hok hgrow hx
            rw [if_pos rfl]
            refine ⟨hok, hgrow, ?_, by simp, by simp, ?_, hq.kept⟩
            · rintro _ _ ⟨⟩
              exact hstarted wakeId rfl
            · exact fun y hy => .of_mem (hx ▸ hy) (by simp)
          · obtain ⟨rfl, rfl⟩ := mk.inj ht
            exact hfail _

theorem perform_ok (h : GoalsOk x.store) {input : GoalInput}
    {event : Option GoalEvent} (hstep : performGoal x input = (y, event)) :
    GoalStep x.store y.store event := by
  cases input with
  | create id ownerId draft =>
    exact attempt_spec h (fun t ht => createGoalDraft_spec h ht) hstep
  | update id ownerId expectedRevision draft =>
    exact attempt_spec h (fun t ht => updateGoalDraft_spec h ht) hstep
  | control id ownerId op expectedRevision =>
    exact attempt_spec h (fun t ht => controlGoal_spec h ht) hstep
  | scheduleWake goalId ownerId fireAt expectedRevision now ids =>
    exact attempt_spec h (fun t ht => scheduleGoalWake_spec h ht) hstep
  | scheduleResearch goalId ownerId input now ids researchId =>
    exact attempt_spec h (fun t ht => scheduleGoalResearch_spec h ht) hstep
  | check scheduleId now ids fails =>
    cases hcheck : checkSchedule x.store scheduleId now ids fails with
    | mk t wakeId =>
      simp only [performGoal, hcheck] at hstep
      obtain ⟨rfl, rfl⟩ := mk.inj hstep
      exact (checkSchedule_spec h hcheck).1
  | run n now =>
    refine attempt_spec h (fun t ht => ?_) hstep
    cases hcreate : createRun x.store { n with goalWakeId := none } now with
    | error message => rw [hcreate] at ht; cases ht
    | ok u =>
      rw [hcreate] at ht
      cases ht
      obtain ⟨hok, hgrow, hx, _⟩ := createRun_spec h hcreate
      exact .quiet hok hgrow hx
  | deliver wakeId triggerId runId now =>
    cases hdeliver : deliverWake x.store wakeId triggerId runId now with
    | mk t started =>
      have hspec := deliverWake_spec h hdeliver
      simp only [performGoal, hdeliver] at hstep
      cases started <;> obtain ⟨rfl, rfl⟩ := mk.inj hstep <;> exact hspec
  | settle wakeId runId failed =>
    simp only [performGoal] at hstep
    obtain ⟨hok, hgrow, hx⟩ := settleDelivery_spec h wakeId runId failed
    split_ifs at hstep <;> obtain ⟨rfl, rfl⟩ := mk.inj hstep
    · exact .quiet hok hgrow hx
    · exact .refl h
  | crash =>
    obtain ⟨rfl, rfl⟩ := mk.inj hstep
    exact .refl h

variable {l : GoalLabel}

theorem goal_step (h : GoalsOk x.store)
    (hstep : goalMachine.step x l y) : GoalStep x.store y.store l.event := by
  cases l with
  | goal input event => exact perform_ok h hstep
  | other => exact .quiet (h.of_other hstep.1) (.of_eq hstep.1.2.1) hstep.1.2.2

theorem goalsOk_empty : GoalsOk Store.empty :=
  ⟨⟨nofun, nofun⟩, ⟨nofun, nofun, nofun⟩⟩

variable {h : List GoalLabel}

theorem goals_ok (hx : GoalsOk x.store)
    (hs : goalMachine.Steps x h y) : GoalsOk y.store :=
  hs.invariant hx fun _ _ _ hI hstep => (goal_step hI hstep).ok

/-! ### Runs -/

/-- What the events of a run say about the tables it leads to. -/
structure Ledger (h : List GoalLabel) (s : Store) : Prop where
  started_nodup : (startedWakes h).Nodup
  started : ∀ id ∈ startedWakes h, ∃ w ∈ s.wakes, w.id = id ∧ w.status = .started
  credited_nodup : ((creditedPasses h).map snd).Nodup
  credited_wake : ∀ p ∈ creditedPasses h, ∃ w ∈ s.wakes, w.id = p.2
  credited_done : ∀ p ∈ creditedPasses h, ∀ x ∈ s.schedules, x.status = .active → x.wakeId ≠ p.2
  credited_schedule : ∀ p ∈ creditedPasses h, ∃ x ∈ s.schedules, x.id = p.1
  count : ∀ x ∈ s.schedules,
    x.successfulPasses = ((creditedPasses h).filter fun p => p.1 = x.id).length

theorem startedWakes_snoc (h : List GoalLabel) (l : GoalLabel) :
    startedWakes (h ++ [l]) = startedWakes h ++ (l.event.bind startedWake).toList := by
  simp only [startedWakes, filterMap_append, filterMap_cons, filterMap_nil]
  cases l.event.bind startedWake <;> rfl

theorem creditedPasses_snoc (h : List GoalLabel) (l : GoalLabel) :
    creditedPasses (h ++ [l]) =
      creditedPasses h ++ (l.event.bind creditedPass).toList := by
  simp only [creditedPasses, filterMap_append, filterMap_cons, filterMap_nil]
  cases l.event.bind creditedPass <;> rfl

theorem startedWake_eq_some {wakeId : String} :
    event.bind startedWake = some wakeId ↔ ∃ runId, event = some (.started wakeId runId) := by
  rcases event with _ | (_ | _ | _) <;> simp [startedWake]

theorem creditedPass_eq_some {p : String × String} :
    event.bind creditedPass = some p ↔ event = some (.credited p.1 p.2) := by
  rcases event with _ | (_ | _ | _) <;> simp [creditedPass, Prod.ext_iff]

theorem Ledger.started_step {s t : Store} (hl : Ledger h s)
    (hstep : GoalStep s t l.event) : (startedWakes (h ++ [l])).Nodup ∧
      ∀ id ∈ startedWakes (h ++ [l]), ∃ w ∈ t.wakes, w.id = id ∧ w.status = .started := by
  have hold : ∀ id ∈ startedWakes h, ∃ w ∈ t.wakes, w.id = id ∧ w.status = .started := by
    intro id hid
    obtain ⟨w, hw, hwid, hst⟩ := hl.started id hid
    obtain ⟨w', hw', hid', _, hkeep⟩ := hstep.grow w hw
    exact ⟨w', hw', hid'.trans hwid, (hkeep (by rw [hst]; decide)).trans hst⟩
  rw [startedWakes_snoc]
  cases hevent : l.event.bind startedWake with
  | none =>
    rw [toList_none, append_nil]
    exact ⟨hl.started_nodup, hold⟩
  | some wakeId =>
    obtain ⟨runId, he⟩ := startedWake_eq_some.1 hevent
    obtain ⟨⟨w, hw, hid, hpend⟩, hnow⟩ := hstep.started wakeId runId he
    have hfresh : wakeId ∉ startedWakes h := by
      intro hmem
      obtain ⟨w', hw', hid', hst⟩ := hl.started wakeId hmem
      obtain rfl := s.wakes.eq_of_key hw' hw (hid'.trans hid.symm)
      rw [hpend] at hst
      cases hst
    rw [toList_some]
    constructor
    · refine nodup_append.2 ⟨hl.started_nodup, nodup_singleton _, ?_⟩
      rintro a ha b hb rfl
      exact hfresh (mem_singleton.1 hb ▸ ha)
    · intro id hid
      rcases mem_append.1 hid with hid | hid
      · exact hold id hid
      · rw [mem_singleton.1 hid]
        exact hnow

/-- Every step keeps the ledger of what was started and credited. -/
theorem Ledger.step {s t : Store} (hl : Ledger h s)
    (hs : GoalsOk s) (hstep : GoalStep s t l.event) : Ledger (h ++ [l]) t := by
  obtain ⟨hnodup, hstarted⟩ := hl.started_step hstep
  have hgrow : ∀ {id : String}, (∃ w ∈ s.wakes, w.id = id) → ∃ w ∈ t.wakes, w.id = id := by
    rintro id ⟨w, hw, rfl⟩
    obtain ⟨w', hw', hid, _⟩ := hstep.grow w hw
    exact ⟨w', hw', hid⟩
  have hkept : ∀ {id : String}, (∃ x ∈ s.schedules, x.id = id) → ∃ x ∈ t.schedules, x.id = id := by
    rintro id ⟨x, hx, rfl⟩
    exact hstep.kept x hx
  -- the new pass, if there is one: its schedule was active and had its wake
  have hnew : ∀ p, l.event.bind creditedPass = some p →
      ∃ x ∈ s.schedules, x.id = p.1 ∧ x.status = .active ∧ x.wakeId = p.2 :=
    fun p hp => hstep.credited p.1 p.2 (creditedPass_eq_some.1 hp)
  have hmem : ∀ p ∈ creditedPasses (h ++ [l]),
      p ∈ creditedPasses h ∨ l.event.bind creditedPass = some p := by
    intro p hp
    rw [creditedPasses_snoc, mem_append, mem_toList] at hp
    exact hp
  have hwake : ∀ p ∈ creditedPasses (h ++ [l]), ∃ w ∈ s.wakes, w.id = p.2 := by
    intro p hp
    rcases hmem p hp with hp | hp
    · exact hl.credited_wake p hp
    · obtain ⟨x, hx, _, _, hxw⟩ := hnew p hp
      exact hxw ▸ hs.schedules.wake x hx
  have hschedule : ∀ p ∈ creditedPasses (h ++ [l]), ∃ x ∈ s.schedules, x.id = p.1 := by
    intro p hp
    rcases hmem p hp with hp | hp
    · exact hl.credited_schedule p hp
    · obtain ⟨x, hx, hid, _⟩ := hnew p hp
      exact ⟨x, hx, hid⟩
  refine
    { started_nodup := hnodup
      started := hstarted
      credited_nodup := ?_
      credited_wake := fun p hp => hgrow (hwake p hp)
      credited_done := ?_
      credited_schedule := fun p hp => hkept (hschedule p hp)
      count := ?_ }
  · rw [creditedPasses_snoc, map_append]
    refine nodup_append.2 ⟨hl.credited_nodup, ?_, ?_⟩
    · cases l.event.bind creditedPass <;> simp
    · rintro a ha b hb rfl
      obtain ⟨p, hp, rfl⟩ := List.mem_map.1 ha
      obtain ⟨q, hq, hqp⟩ := List.mem_map.1 hb
      obtain ⟨x, hx, _, hactive, hxw⟩ := hnew q (mem_toList.1 hq)
      exact hl.credited_done p hp x hx hactive (hxw.trans hqp)
  · intro p hp y hy hactive heq
    have hnofresh : (∀ w ∈ s.wakes, w.id ≠ y.wakeId) → False := by
      intro hfresh
      obtain ⟨w, hw, hid⟩ := hwake p hp
      exact hfresh w hw (hid.trans heq.symm)
    cases hstep.schedules y hy with
    | fresh _ _ hfresh => exact hnofresh hfresh
    | same x hx hid _ hxw hact hevent =>
      rcases hmem p hp with hold | hp'
      · exact hl.credited_done p hold x hx (hact hactive) (hxw.symm.trans heq)
      · -- the schedule of the pass is the one with its wake
        obtain ⟨z, hz, hzid, _, hzw⟩ := hnew p hp'
        obtain rfl := hs.schedules.distinct z hz x hx (by rw [hzw, ← heq, hxw])
        refine hevent p.2 ?_
        rw [creditedPass_eq_some.1 hp', ← hid, hzid]
    | credit _ _ _ _ _ _ hfresh => exact hnofresh (hfresh hactive)
  · intro y hy
    rw [creditedPasses_snoc, filter_append, length_append]
    cases hstep.schedules y hy with
    | fresh hid hzero _ =>
      have hold : (creditedPasses h).filter (fun p => p.1 = y.id) = [] := by
        refine filter_eq_nil_iff.2 fun p hp => ?_
        obtain ⟨x, hx, hxid⟩ := hl.credited_schedule p hp
        simpa [← hxid] using hid x hx
      have hnow : (l.event.bind creditedPass).toList.filter (fun p => p.1 = y.id) = [] := by
        refine filter_eq_nil_iff.2 fun p hp => ?_
        obtain ⟨x, hx, hxid, _⟩ := hnew p (mem_toList.1 hp)
        simpa [← hxid] using hid x hx
      rw [hold, hnow, hzero]
      rfl
    | same x hx hid hpass _ _ hevent =>
      have hnow : (l.event.bind creditedPass).toList.filter (fun p => p.1 = y.id) = [] := by
        refine filter_eq_nil_iff.2 fun p hp => ?_
        rw [decide_eq_true_eq]
        rintro hpid
        refine hevent p.2 ?_
        rw [← hpid]
        exact creditedPass_eq_some.1 (mem_toList.1 hp)
      rw [hnow, hpass, hl.count x hx, hid]
      rfl
    | credit x hx hid _ hevent hpass _ =>
      rw [hevent, hpass, hl.count x hx, hid]
      simp [creditedPass]

theorem ledger (hr : goalMachine.Run h x) :
    Ledger h x.store := by
  refine hr.history (I := fun h x => Ledger h x.store) ?_ ?_
  · refine ⟨nodup_nil, nofun, nodup_nil, nofun, nofun, nofun, nofun⟩
  · intro h x l y hr hI hstep
    have hok := goals_ok goalsOk_empty hr
    exact hI.step hok (goal_step hok hstep)

theorem not_started_again (hx : GoalsOk x.store)
    (hs : goalMachine.Steps x h y) {w : GoalWake} (hw : w ∈ x.store.wakes)
    (hdone : w.status ≠ .pending) : w.id ∉ startedWakes h := by
  have hall : w.id ∉ startedWakes h ∧ ∃ w' ∈ y.store.wakes, w'.id = w.id ∧ w'.status = w.status := by
    refine hs.history (I := fun h y => w.id ∉ startedWakes h ∧
      ∃ w' ∈ y.store.wakes, w'.id = w.id ∧ w'.status = w.status) ⟨nofun, w, hw, rfl, rfl⟩ ?_
    rintro h y l z hs ⟨hnot, w', hw', hid, hst⟩ hstep
    have hgs := goal_step (goals_ok hx hs) hstep
    refine ⟨fun hmem => ?_, ?_⟩
    · rw [startedWakes_snoc, mem_append, mem_toList] at hmem
      rcases hmem with hmem | hmem
      · exact hnot hmem
      · obtain ⟨runId, he⟩ := startedWake_eq_some.1 hmem
        obtain ⟨⟨w₀, hw₀, hid₀, hpend⟩, _⟩ := hgs.started w.id runId he
        obtain rfl := y.store.wakes.eq_of_key hw₀ hw' (hid₀.trans hid.symm)
        exact hdone (hst.symm.trans hpend)
    · obtain ⟨w'', hw'', hid'', _, hkeep⟩ := hgs.grow w' hw'
      exact ⟨w'', hw'', hid''.trans hid, (hkeep (by rwa [hst])).trans hst⟩
  exact hall.1

/-- Wakes and passes in the state a run leads to, and in what follows. -/
structure WakesAndPasses (h : List GoalLabel) (x : GoalSystem) : Prop where
  /-- Every wake is consumed by at most one run. -/
  started_once : (startedWakes h).Nodup
  /-- And never after it was cancelled or blocked. -/
  not_after_end : ∀ w ∈ x.store.wakes, w.status = .cancelled ∨ w.status = .blocked →
    ∀ h' y, goalMachine.Steps x h' y → w.id ∉ startedWakes h'
  one_pending : ∀ w ∈ x.store.wakes, ∀ w' ∈ x.store.wakes, w.status = .pending →
    w'.status = .pending → w.goalId = w'.goalId → w = w'
  current_revision : ∀ w ∈ x.store.wakes, w.status = .pending →
    ∃ g ∈ x.store.goals, g.id = w.goalId ∧ g.revision = w.goalRevision
  passes : ∀ series ∈ x.store.schedules,
    series.successfulPasses ≤ series.scheduledPasses ∧ series.scheduledPasses ≤ series.maxPasses
  /-- Every pass is credited at most once, and the counter counts the credited passes. -/
  credited_once : ((creditedPasses h).map snd).Nodup
  credited_count : ∀ series ∈ x.store.schedules,
    series.successfulPasses = ((creditedPasses h).filter fun p => p.1 = series.id).length
  /-- A wake a reconciliation creates fires an interval after now and after the last wake. -/
  fires_late : ∀ scheduleId now ids fails event y,
    goalMachine.step x (.goal (.check scheduleId now ids fails) event) y →
      FiresLate x.store y.store scheduleId now
  /-- After a pause, a cancellation or a revision no wake that was there starts a run. -/
  stopped : ∀ l y goalId, goalMachine.step x l y → l.event = some (.stopped goalId) →
    ∀ w ∈ y.store.wakes, w.goalId = goalId →
      ∀ h' z, goalMachine.Steps y h' z → w.id ∉ startedWakes h'

/-- **Goal wakes and research schedules.** -/
theorem goal_wakes {h : List GoalLabel} {x : GoalSystem} (hr : goalMachine.Run h x) :
    WakesAndPasses h x := by
  have hok := goals_ok goalsOk_empty hr
  have hl := ledger hr
  refine
    { started_once := hl.started_nodup
      not_after_end := fun w hw hend h' y hs => not_started_again hok hs hw ?_
      one_pending := hok.wakes.single
      current_revision := fun w hw hpend => ?_
      passes := fun y hy => ⟨(hok.schedules.passes y hy).1, (hok.schedules.passes y hy).2⟩
      credited_once := hl.credited_nodup
      credited_count := hl.count
      fires_late := fun scheduleId now ids fails event y hstep => ?_
      stopped := fun l y goalId hstep he w hw hgoal h' z hs => ?_ }
  · rcases hend with hend | hend <;> rw [hend] <;> decide
  · obtain ⟨g, hg, hid, hrev, _⟩ := hok.wakes.current w hw hpend
    exact ⟨g, hg, hid, hrev⟩
  · cases hcheck : checkSchedule x.store scheduleId now ids fails with
    | mk t wakeId =>
      simp only [goalMachine, performGoal, hcheck] at hstep
      obtain ⟨rfl, _⟩ := mk.inj hstep
      exact (checkSchedule_spec hok hcheck).2
  · have hgs := goal_step hok hstep
    exact not_started_again hgs.ok hs hw (hgs.stopped goalId he w hw hgoal)

/-- A goal with research in two passes; the wake of the first is delivered twice. -/
def deliveredTwice : List GoalInput :=
  let draft : GoalDraft := ⟨["web"], ⟨5, 20, 100_000⟩⟩
  [.create "goal" "owner" draft,
    .scheduleResearch "goal" "owner" ⟨2_000, 1, 24, 2⟩ 1_000 ⟨"wake", "trigger"⟩ "research",
    .deliver "wake" "trigger" "run" 2_000,
    .deliver "wake" "trigger" "again" 2_001]

/-- What the agent leaves of the run: a search that was executed. -/
def searched (x : GoalSystem) : GoalSystem :=
  { x with
    store := { x.store with
      actions := ⟨[{ id := "act", requestedBy := "owner", tool := "web.search", arguments := .null,
                     status := .executed, createdAt := 2_000 }], by decide⟩
      steps := ⟨[{ runId := "run", index := 0, tool := "web.search", arguments := .null,
                   status := .executed, actionId := some "act" }], by decide⟩
      runs := x.store.runs.updateWhere (fun r => r.id = "run")
        (fun r => { r with status := .completed }) fun _ => rfl } }

/-- The pass is credited, and the owner pauses the goal before the next one. -/
def creditedAndPaused : List GoalInput :=
  [.check "research" 5_000 ⟨"next", "next-trigger"⟩ false, .control "goal" "owner" .pause 1]

/-- The deliveries, the work of the agent, and what follows. -/
def creditedRun : List GoalLabel × GoalSystem :=
  let first := driveGoals goalMachine.init deliveredTwice
  let second := driveGoals (searched first.2) creditedAndPaused
  (first.1 ++ .other :: second.1, second.2)

theorem run_creditedRun : goalMachine.Run creditedRun.1 creditedRun.2 :=
  Machine.Run.append (steps_driveGoals goalMachine.init deliveredTwice)
    (Machine.Steps.cons (t := searched (driveGoals goalMachine.init deliveredTwice).2)
      ⟨⟨rfl, rfl, rfl⟩, rfl⟩ (steps_driveGoals _ creditedAndPaused))

/-- The wake starts one run, whose pass is credited once, and the goal is stopped. -/
theorem goal_wakes_deliveredTwice : ∃ h x, goalMachine.Run h x ∧ startedWakes h = ["wake"] ∧
    creditedPasses h = [("research", "wake")] ∧ WakesAndPasses h x := by
  have hstarted : startedWakes creditedRun.1 = ["wake"] := by decide +kernel
  have hcredited : creditedPasses creditedRun.1 = [("research", "wake")] := by decide +kernel
  exact ⟨_, _, run_creditedRun, hstarted, hcredited, goal_wakes run_creditedRun⟩

end U2os.Server.Agent
