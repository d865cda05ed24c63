import U2os.Server.Packages.WorkflowEngine

/-!
# The runs under the engine

What the engine does to the rows of `workflow_runs`: a row keeps what it was created with, a run
that is over stays over, and no run is skipped or throttled later.  New rows are children of the
runs that frames hold, but for those that are created from outside.
-/

namespace U2os.Server.Packages

open List Option

/-! ### Rows -/

/-- What a run is created with and keeps. -/
structure RunIdentity where
  id : String
  kind : RunKind
  definitionId : String
  instanceId : Option String
  rootRunId : String
  parentRunId : Option String
  trigger : Json
  dedupeKey : Option String
  createdAt : Int

/-- What a run keeps. -/
def WorkflowRun.identity (r : WorkflowRun) : RunIdentity where
  id := r.id
  kind := r.kind
  definitionId := r.definitionId
  instanceId := r.instanceId
  rootRunId := r.rootRunId
  parentRunId := r.parentRunId
  trigger := r.trigger
  dedupeKey := r.dedupeKey
  createdAt := r.createdAt

/-- `'skipped'`, `'throttled'`. -/
def RunStatus.isRefused : RunStatus → Bool
  | .skipped | .throttled => true
  | _ => false

/-- What may become of a row. -/
structure WorkflowRun.Becomes (r r' : WorkflowRun) : Prop where
  identity : r'.identity = r.identity
  active : r'.status.isActive = true → r.status.isActive = true
  refused : r'.status.isRefused = true → r.status.isRefused = true

namespace WorkflowRun.Becomes

theorem refl (r : WorkflowRun) : r.Becomes r := ⟨rfl, fun h => h, fun h => h⟩

theorem trans (a b c : WorkflowRun) (h : a.Becomes b) (h' : b.Becomes c) : a.Becomes c :=
  ⟨h'.identity.trans h.identity, h.active ∘ h'.active, h.refused ∘ h'.refused⟩

theorem of_active {r r' : WorkflowRun} (h : r'.identity = r.identity)
    (ha : r.status.isActive = true) (hr : r'.status.isRefused = false) : r.Becomes r' :=
  ⟨h, fun _ => ha, fun hr' => by rw [hr] at hr'; cases hr'⟩

end WorkflowRun.Becomes

/-- The rows go on, and there are no others. -/
def RunsKept (runs runs' : Runs) : Prop := runs.Evolves WorkflowRun.Becomes (fun _ => False) runs'

namespace RunsKept

variable {runs runs' runs'' : Runs}

theorem refl (runs : Runs) : RunsKept runs runs :=
  Table.Evolves.refl WorkflowRun.Becomes.refl runs

theorem trans (h : RunsKept runs runs') (h' : RunsKept runs' runs'') : RunsKept runs runs'' :=
  Table.Evolves.trans WorkflowRun.Becomes.trans (fun _ _ h _ => h) h h'

theorem updateWhere {p : WorkflowRun → Prop} [DecidablePred p] {f : WorkflowRun → WorkflowRun}
    (hf : ∀ r, (f r).id = r.id) (h : ∀ r ∈ runs, p r → r.Becomes (f r)) :
    RunsKept runs (runs.updateWhere p f hf) :=
  Table.Evolves.updateWhere hf WorkflowRun.Becomes.refl h

theorem comes (h : RunsKept runs runs') {r' : WorkflowRun} (hr : r' ∈ runs') :
    ∃ r ∈ runs, r.Becomes r' := by
  rcases Table.Evolves.comes h r' hr with hr | hn
  · exact hr
  · exact hn.elim

end RunsKept

section Statements

variable {runs runs' : Runs} {id owner : String}

theorem runsKept_leaseRun {leaseMs now : Int} {leased : WorkflowRun}
    (h : leaseRun runs id owner leaseMs now = some (runs', leased)) :
    RunsKept runs runs' ∧ leased ∈ runs' := by
  rw [leaseRun] at h
  split at h
  · rename_i r hr
    split_ifs at h with hpending
    cases h
    have hmem := Table.mem_of_find hr
    have hkey : r.id = (r.leased owner leaseMs now).id := rfl
    refine ⟨Table.Evolves.put WorkflowRun.Becomes.refl hmem hkey ?_, ?_⟩
    · exact .of_active rfl (by rw [hpending]; rfl) rfl
    · exact (Table.mem_put_of_mem hmem hkey).2 (.inr rfl)
  · cases h

theorem runsKept_renewRunLease {leaseMs now : Int} :
    RunsKept runs (renewRunLease runs id owner leaseMs now) :=
  .updateWhere _ fun _ _ _ => ⟨rfl, fun h => h, fun h => h⟩

theorem runsKept_checkpointRun {context : Context} {position : Position} :
    RunsKept runs (checkpointRun runs id owner context position) :=
  .updateWhere _ fun _ _ _ => ⟨rfl, fun h => h, fun h => h⟩

theorem runsKept_suspendRun {context : Context} {position : Position} {wait : Wait}
    {wakeAt : Option Int} : RunsKept runs (suspendRun runs id owner context position wait wakeAt) :=
  .updateWhere _ fun _ _ h => .of_active rfl (by rw [h.2.2]; rfl) rfl

/-- A status a frame, or `cancelRun`, ends a run with. -/
def RunStatus.IsEnd (status : RunStatus) : Prop :=
  status.isActive = false ∧ status.isRefused = false

theorem runsKept_finishRun {status : RunStatus} {outputs : Option Json} {error : Option String}
    {context : Option Context} {position : Option Position} (h : status.IsEnd) :
    RunsKept runs (finishRun runs id status outputs error context position) := by
  refine .updateWhere _ fun r _ _ => ⟨rfl, fun ha => ?_, fun hr => ?_⟩
  · exact absurd (h.1.symm.trans ha) Bool.false_ne_true
  · exact absurd (h.2.symm.trans hr) Bool.false_ne_true

theorem runsKept_wakeRun {position : Option Position} :
    RunsKept runs (wakeRun runs id position) :=
  .updateWhere _ fun _ _ h => .of_active rfl (by rw [h.2]; rfl) rfl

theorem runsKept_recoverInterruptedRuns {expiredOnly : Bool} {now : Int} :
    RunsKept runs (recoverInterruptedRuns runs expiredOnly now) :=
  .updateWhere _ fun _ _ h => .of_active rfl (by rw [h.1]; rfl) rfl

theorem runsKept_wakeParent {parentId childId : String} :
    RunsKept runs (wakeParent runs parentId childId) := by
  rw [wakeParent]
  split
  · split_ifs
    · exact runsKept_wakeRun
    · exact .refl runs
  · exact .refl runs

theorem runsKept_wakeEach {wakes : Runs → WorkflowRun → Option (Option Position)}
    {listed : List WorkflowRun} : RunsKept runs (wakeEach wakes listed runs) := by
  induction listed generalizing runs with
  | nil => exact .refl runs
  | cons r listed ih =>
    rw [wakeEach, foldl_cons]
    refine RunsKept.trans ?_ ih
    split
    · exact runsKept_wakeRun
    · exact .refl runs

end Statements

/-! ### Frames -/

/-- A frame ends its run as completed or failed. -/
def Pc.Ends : Pc → Prop
  | .finish status .. => status = .completed ∨ status = .failed
  | .finished status .. => status = .completed ∨ status = .failed
  | _ => True

theorem isEnd_of_ends {status : RunStatus} (h : status = .completed ∨ status = .failed) :
    status.IsEnd := by
  rcases h with rfl | rfl <;> exact ⟨rfl, rfl⟩

/-- A turn stays with the run of its frame. -/
structure Turn.Stays (f : Frame) (u : Turn) : Prop where
  run : u.frame.run = f.run
  ends : u.frame.pc.Ends

variable {instances : Instances}

section Turns

variable {H : Host} {f : Frame} {step : Step} {actions : Actions} {tick : Tick} {now : Int}

theorem Frame.stays_fail {error : String} : (f.fail error).Stays f := ⟨rfl, .inr rfl⟩

theorem Frame.stays_outcome {o : UnitOutcome} : (f.goto (.outcome o)).Stays f := ⟨rfl, trivial⟩

theorem Frame.stays_advanceIteration {e : UnitEnd} : (f.advanceIteration step e).Stays f :=
  ⟨rfl, trivial⟩

theorem Frame.stays_execute {record : Option PackageRecord} :
    (f.execute instances record).Stays f := by
  unfold Frame.execute
  split
  · exact ⟨rfl, .inr rfl⟩
  · split_ifs
    · exact ⟨rfl, .inr rfl⟩
    · refine ⟨rfl, ?_⟩
      dsimp only
      split <;> trivial

theorem Frame.stays_finishSteps : (f.finishSteps H now).Stays f := by
  unfold Frame.finishSteps
  extract_lets output
  clear_value output
  cases output with
  | error e => exact stays_fail
  | ok output =>
    dsimp only
    split
    · exact ⟨rfl, .inl rfl⟩
    · exact stays_fail

theorem Frame.stays_finishModule {result : Except String Json} :
    (f.finishModule H result).Stays f := by
  unfold Frame.finishModule
  split
  · exact ⟨rfl, .inr rfl⟩
  · split
    · exact ⟨rfl, .inl rfl⟩
    · exact ⟨rfl, .inr rfl⟩

theorem Frame.stays_enter : (f.enter H step now).Stays f := by
  unfold Frame.enter
  split
  · have hstart : ∀ items : List Json, (if maxForeachItems < items.length then
        f.fail (step.id ++ ".foreach has more than 500 items")
      else
        { frame := { f with
            position := { f.position with items := some items, results := [], iteration := 0 }
            pc := .units }
          checkpoint := true } : Turn).Stays f := by
      intro items
      split_ifs
      · exact stays_fail
      · exact ⟨rfl, trivial⟩
    split
    · exact stays_fail
    · exact hstart []
    · exact hstart _
    · exact stays_fail
  · exact ⟨rfl, trivial⟩

theorem Frame.stays_nextUnit : (f.nextUnit H step now).Stays f := by
  unfold Frame.nextUnit
  split_ifs
  · split
    · split
      · exact stays_fail
      · exact ⟨rfl, trivial⟩
      · exact stays_advanceIteration
    · exact ⟨rfl, trivial⟩
  · exact ⟨rfl, trivial⟩
  · exact ⟨rfl, trivial⟩

theorem Frame.stays_unitFailed {reason verb : String} {retryable : Bool} :
    (f.unitFailed H step reason verb retryable now).Stays f := by
  unfold Frame.unitFailed
  split_ifs
  · dsimp only
    split <;> exact ⟨rfl, trivial⟩
  · exact stays_advanceIteration
  all_goals exact stays_fail

theorem Frame.stays_unitEnded {o : UnitOutcome} : (f.unitEnded H step now o).Stays f := by
  cases o with
  | completed output => exact stays_advanceIteration
  | waiting wait wakeAt => exact ⟨rfl, trivial⟩
  | skipped reason => exact stays_advanceIteration
  | failed reason retryable | denied reason => exact stays_unitFailed

theorem Frame.stays_capabilityUnit {target : String} {input : Json} :
    (f.capabilityUnit H actions step target input tick).Stays f := by
  unfold Frame.capabilityUnit
  dsimp only
  split
  · exact stays_outcome
  · split
    · exact stays_outcome
    · exact ⟨rfl, trivial⟩

theorem Frame.stays_emitUnit {type : String} {data : Json} {subject : Option Json} :
    (f.emitUnit H step type data subject tick).Stays f := by
  unfold Frame.emitUnit
  split
  · exact stays_outcome
  · split
    · exact stays_outcome
    · split_ifs
      · exact stays_outcome
      · exact ⟨rfl, trivial⟩

theorem Frame.stays_stateUnit {set : Json} : (f.stateUnit H step set now).Stays f := by
  unfold Frame.stateUnit
  split
  · exact stays_outcome
  · split
    · exact stays_outcome
    · dsimp only
      split
      · exact ⟨rfl, trivial⟩
      · exact stays_outcome

theorem Frame.stays_sleepUnit {input : SleepInput} : (f.sleepUnit H step input now).Stays f := by
  unfold Frame.sleepUnit
  dsimp only
  split
  · exact stays_outcome
  · split
    · exact stays_outcome
    · exact ⟨rfl, trivial⟩

theorem Frame.stays_waitUnit {event : String} {where_ : Option String} {timeout : Option Json} :
    (f.waitUnit H event where_ timeout now).Stays f := by
  unfold Frame.waitUnit
  dsimp only
  split
  · exact stays_outcome
  · split_ifs <;> exact ⟨rfl, trivial⟩

theorem Frame.stays_runUnit {u : Turn} (h : f.runUnit H actions step tick = some u) :
    u.Stays f := by
  unfold Frame.runUnit at h
  split at h
  · cases h
    exact stays_capabilityUnit
  · cases h
  · split at h <;> cases h <;> exact stays_outcome
  · cases h
    exact stays_outcome
  · cases h
    exact stays_emitUnit
  · cases h
    exact stays_stateUnit
  · cases h
    exact stays_sleepUnit
  · cases h
    exact stays_waitUnit

theorem Frame.stays_turn {runs : Runs} {u : Turn}
    (h : f.turn H runs instances actions tick = some u) : u.Stays f := by
  unfold Frame.turn at h
  split at h
  case h_1 => cases h; exact ⟨rfl, trivial⟩
  case h_2 => cases h; exact stays_execute
  case h_3 => cases h; split_ifs <;> exact ⟨rfl, trivial⟩
  case h_4 => obtain ⟨step, -, rfl⟩ := map_eq_some_iff.1 h; exact stays_enter
  case h_5 => obtain ⟨step, -, rfl⟩ := map_eq_some_iff.1 h; exact stays_nextUnit
  case h_6 =>
    obtain ⟨step, -, h⟩ := bind_eq_some_iff.1 h
    exact stays_runUnit h
  case h_7 =>
    obtain ⟨step, -, h⟩ := bind_eq_some_iff.1 h
    split at h <;> cases h
    exact ⟨rfl, trivial⟩
  case h_8 =>
    obtain ⟨step, -, h⟩ := bind_eq_some_iff.1 h
    split at h <;> cases h
    exact stays_outcome
  case h_9 => obtain ⟨step, -, rfl⟩ := map_eq_some_iff.1 h; exact stays_unitEnded
  case h_10 => cases h; exact ⟨rfl, trivial⟩
  case h_11 => cases h; exact stays_finishSteps
  all_goals cases h

end Turns

/-! ### Steps of the engine -/

/-- A frame holds a run of the table, and ends it as completed or failed. -/
structure State.Sane (s : State) : Prop where
  ends : ∀ fid f, s.frames fid = some f → f.pc.Ends
  held : ∀ fid f, s.frames fid = some f → ∃ r ∈ s.runs, r.identity = f.run.identity

/-- What a step of the engine does to the rows: at most it inserts a child of a run that a frame
holds. -/
inductive RunsStep (s : State) (runs : Runs) : Prop
  | kept (h : RunsKept s.runs runs)
  | child {fid : ℕ} {f : Frame} {step : Step} {skill : Skill} {inputs : Json} {id : String}
      {now : Int} {runs₁ : Runs} (hf : s.frames fid = some f)
      (hi : insertRun s.runs (f.childRun step skill inputs) id now = some runs₁)
      (h : RunsKept runs₁ runs)

/-- The ids of the instances and of their automations. -/
def names (instances : Instances) : List (String × String) :=
  instances.rows.map fun x => (x.id, x.automationId)

/-- What an act of the engine does. -/
structure EngineStep (s t : State) : Prop where
  sane : t.Sane
  rows : RunsStep s t.runs
  names : names t.instances = names s.instances

section Steps

variable {H : Host} {s t : State} {fid : ℕ} {f : Frame} {u : Turn} {tick : Tick}

@[simp] theorem names_updateInstance {id : String} {patch : InstancePatch} : names
    (updateInstance instances id patch) = names instances := by
  simp only [names, updateInstance, Table.updateWhere, List.map_map]
  refine map_congr_left fun x _ => ?_
  rw [Function.comp_apply]
  split_ifs <;> rfl

theorem names_elim {id : Option String} {patch : InstancePatch} :
    names (id.elim instances fun id => updateInstance instances id patch) = names instances := by
  cases id with
  | none => rfl
  | some id => exact names_updateInstance

theorem RunsKept.goes {runs runs' : Runs} (h : RunsKept runs runs') :
    ∀ r ∈ runs, ∃ r' ∈ runs', r'.identity = r.identity := by
  intro r hr
  obtain ⟨r', hr', hb⟩ := Table.Evolves.goes h r hr
  exact ⟨r', hr', hb.identity⟩

/-- The frames stay sane as runs go on. -/
theorem State.Sane.of (hs : s.Sane)
    (hgo : ∀ r ∈ s.runs, ∃ r' ∈ t.runs, r'.identity = r.identity)
    (hframes : ∀ i g, t.frames i = some g →
      g.pc.Ends ∧ ((∃ j g', s.frames j = some g' ∧ g.run = g'.run) ∨ g.run ∈ t.runs)) :
    t.Sane := by
  refine ⟨fun i g hg => (hframes i g hg).1, fun i g hg => ?_⟩
  rcases (hframes i g hg).2 with ⟨j, g', hg', hrun⟩ | hmem
  · obtain ⟨r, hr, hid⟩ := hs.held j g' hg'
    obtain ⟨r', hr', hid'⟩ := hgo r hr
    exact ⟨r', hr', by rw [hid', hid, hrun]⟩
  · exact ⟨g.run, hmem, rfl⟩

theorem State.Sane.of_frames (hs : s.Sane) (hframes : t.frames = s.frames)
    (hgo : ∀ r ∈ s.runs, ∃ r' ∈ t.runs, r'.identity = r.identity) : t.Sane :=
  hs.of hgo fun i g hg => by
    rw [hframes] at hg
    exact ⟨hs.ends i g hg, .inl ⟨i, g, hg, rfl⟩⟩

theorem State.Sane.of_update (hs : s.Sane) (hf : s.frames fid = some f) {g : Frame}
    (hframes : t.frames = Function.update s.frames fid (some g)) (hrun : g.run = f.run)
    (hends : g.pc.Ends) (hgo : ∀ r ∈ s.runs, ∃ r' ∈ t.runs, r'.identity = r.identity) :
    t.Sane :=
  hs.of hgo fun i g' hg => by
    rw [hframes] at hg
    rcases of_update_some hg with ⟨_, rfl⟩ | ⟨_, hg⟩
    · exact ⟨hends, .inl ⟨fid, f, hf, hrun⟩⟩
    · exact ⟨hs.ends i g' hg, .inl ⟨i, g', hg, rfl⟩⟩

theorem runsKept_apply : RunsKept s.runs (s.apply fid u).runs := by
  dsimp only [State.apply]
  split_ifs
  · exact runsKept_checkpointRun
  · exact .refl _

theorem names_apply : names (s.apply fid u).instances = names s.instances := by
  dsimp only [State.apply]
  cases u.update with
  | none => rfl
  | some p => exact names_updateInstance

theorem State.Sane.apply (hs : s.Sane) (hf : s.frames fid = some f) (hu : u.Stays f) :
    (s.apply fid u).Sane :=
  hs.of_update hf rfl hu.run hu.ends runsKept_apply.goes

theorem State.Sane.play (hs : s.Sane) (hf : s.frames fid = some f) (hu : u.Stays f)
    (h : s.play fid u = some t) : EngineStep s t := by
  rw [State.play, ite_none_right_eq_some] at h
  obtain ⟨_, h⟩ := h
  cases h
  exact ⟨hs.apply hf hu, .kept runsKept_apply, names_apply⟩

/-- A unit with a skill starts its run under the frame. -/
theorem State.Sane.skillUnit (hs : s.Sane) (hf : s.frames fid = some f) {step : Step}
    {target : String} {input : Json} :
    EngineStep s (s.skillUnit H fid f step target input tick) := by
  rw [State.skillUnit]
  split
  · exact ⟨hs.apply hf ⟨rfl, trivial⟩, .kept runsKept_apply, names_apply⟩
  · split
    · exact ⟨hs.apply hf ⟨rfl, trivial⟩, .kept runsKept_apply, names_apply⟩
    · rename_i skill inputs _
      dsimp only
      cases hi : insertRun s.runs (f.childRun step skill inputs) tick.id tick.now with
      | none =>
        split
        · exact ⟨hs.apply hf ⟨rfl, trivial⟩, .kept runsKept_apply, names_apply⟩
        · exact ⟨hs.apply hf ⟨rfl, trivial⟩, .kept runsKept_apply, names_apply⟩
      | some runs₁ =>
        split
        · exact ⟨hs.apply hf ⟨rfl, trivial⟩, .kept runsKept_apply, names_apply⟩
        · have hgrow : ∀ r ∈ s.runs, ∃ r' ∈ runs₁, r'.identity = r.identity := by
            intro r hr
            rw [insertRun] at hi
            split_ifs at hi
            exact ⟨r, (Table.mem_of_insert? hi).2 (.inl hr), rfl⟩
          have hs₁ : State.Sane { s with runs := runs₁ } := hs.of_frames rfl hgrow
          have hf₁ : ({ s with runs := runs₁ } : State).frames fid = some f := hf
          exact ⟨hs₁.apply hf₁ ⟨rfl, trivial⟩,
            .child hf hi (runsKept_apply (s := { s with runs := runs₁ })),
            names_apply (s := { s with runs := runs₁ })⟩

theorem State.Sane.callChild (hs : s.Sane) (hf : s.frames fid = some f) {child : WorkflowRun}
    (h : s.callChild H fid f child tick = some t) : EngineStep s t := by
  rw [State.callChild] at h
  by_cases hpending : child.status = .pending
  · rw [if_pos hpending] at h
    split at h
    · rename_i runs leased hl
      obtain ⟨hkept, hmem⟩ := runsKept_leaseRun hl
      split_ifs at h
      cases h
      refine ⟨hs.of hkept.goes fun i g hg => ?_, .kept hkept, rfl⟩
      rcases of_update_some hg with ⟨_, rfl⟩ | ⟨_, hg⟩
      · exact ⟨trivial, .inr hmem⟩
      · rcases of_update_some hg with ⟨_, rfl⟩ | ⟨_, hg⟩
        · exact ⟨trivial, .inl ⟨fid, f, hf, rfl⟩⟩
        · exact ⟨hs.ends i g hg, .inl ⟨i, g, hg, rfl⟩⟩
    · cases h
      exact ⟨hs.apply hf ⟨rfl, trivial⟩, .kept runsKept_apply, names_apply⟩
  · rw [if_neg hpending] at h
    cases h
    exact ⟨hs.apply hf ⟨rfl, trivial⟩, .kept runsKept_apply, names_apply⟩

/-- A frame that returns leaves the others sane. -/
theorem State.Sane.return_ (hs : s.Sane) {run : Option WorkflowRun} :
    (s.return_ fid run).Sane := by
  refine hs.of (fun r hr => ⟨r, hr, rfl⟩) fun i g hg => ?_
  dsimp only [State.return_] at hg
  split_ifs at hg
  obtain ⟨g', hg', rfl⟩ := map_eq_some_iff.1 hg
  have hsame : (Frame.resume fid run g').run = g'.run ∧ (Frame.resume fid run g').pc.Ends := by
    rw [Frame.resume]
    split
    · split_ifs
      · exact ⟨rfl, trivial⟩
      · exact ⟨rfl, hs.ends i g' hg'⟩
    · exact ⟨rfl, hs.ends i g' hg'⟩
  exact ⟨hsame.2, .inl ⟨i, g', hg', hsame.1⟩⟩

theorem settle_spec (s : State) (run : WorkflowRun) (status : RunStatus)
    (error : Option String) :
    (s.settle run status error).frames = s.frames ∧
      RunsKept s.runs (s.settle run status error).runs ∧
      names (s.settle run status error).instances = names s.instances := by
  have hparent : ∀ runs : Runs, RunsKept runs
      (run.parentRunId.elim runs fun parentId => wakeParent runs parentId run.id) := by
    intro runs
    cases run.parentRunId with
    | none => exact .refl _
    | some parentId => exact runsKept_wakeParent
  by_cases hk : run.kind = .automation
  · rw [State.settle, if_pos hk]
    exact ⟨rfl, hparent _, names_elim⟩
  · rw [State.settle, if_neg hk]
    exact ⟨rfl, hparent _, rfl⟩

/-- A frame that goes on does a step of the engine. -/
theorem State.Sane.proceed (hs : s.Sane) (hf : s.frames fid = some f)
    (h : s.proceed H fid f tick = some t) : EngineStep s t := by
  have hends := hs.ends fid f hf
  rw [State.proceed] at h
  split at h
  · exact hs.callChild hf h
  · cases h
    exact ⟨hs.of_update hf rfl rfl trivial runsKept_suspendRun.goes, .kept runsKept_suspendRun, rfl⟩
  · cases h
    rw [State.suspended]
    split_ifs
    · have hs' : State.Sane ((s.publish f.run.id "automation.waiting").updateInstance
          f.run.instanceId { lastStatus := some .waiting }) :=
        hs.of_frames rfl fun r hr => ⟨r, hr, rfl⟩
      exact ⟨hs'.return_, .kept (.refl _), names_elim⟩
    · exact ⟨hs.return_, .kept (.refl _), rfl⟩
  · rename_i hpc
    cases h
    have hend : RunStatus.IsEnd _ := isEnd_of_ends (by rw [hpc] at hends; exact hends)
    refine ⟨hs.of_update hf rfl rfl ?_ (runsKept_finishRun hend).goes,
      .kept (runsKept_finishRun hend), rfl⟩
    rw [hpc] at hends
    exact hends
  · cases h
    obtain ⟨hframes, hkept, hnames⟩ := settle_spec s f.run _ _
    exact ⟨(hs.of_frames hframes hkept.goes).return_, .kept hkept, hnames⟩
  · split at h
    · cases h
      exact hs.skillUnit hf
    · obtain ⟨u, hu, hplay⟩ := bind_eq_some_iff.1 h
      exact hs.play hf (Frame.stays_turn hu) hplay
  · obtain ⟨u, hu, hplay⟩ := bind_eq_some_iff.1 h
    exact hs.play hf (Frame.stays_turn hu) hplay

/-- Cancelling keeps the frames and the names of the instances. -/
theorem cancelRun_spec (n : ℕ) (s : State) (runId reason : String) :
    (cancelRun n s runId reason).frames = s.frames ∧
      RunsKept s.runs (cancelRun n s runId reason).runs ∧
      names (cancelRun n s runId reason).instances = names s.instances := by
  induction n generalizing s runId with
  | zero => exact ⟨rfl, .refl _, rfl⟩
  | succ n ih =>
    have hfold : ∀ (l : List WorkflowRun) (s : State),
        (l.foldl (fun s child => cancelRun n s child.id reason) s).frames = s.frames ∧
          RunsKept s.runs (l.foldl (fun s child => cancelRun n s child.id reason) s).runs ∧
          names (l.foldl (fun s child => cancelRun n s child.id reason) s).instances =
            names s.instances := by
      intro l
      induction l with
      | nil => exact fun s => ⟨rfl, .refl _, rfl⟩
      | cons r l ihl =>
        intro s
        obtain ⟨hf, hk, hn⟩ := ihl (cancelRun n s r.id reason)
        obtain ⟨hf', hk', hn'⟩ := ih s r.id
        exact ⟨hf.trans hf', hk'.trans hk, hn.trans hn'⟩
    rw [cancelRun]
    split
    · exact ⟨rfl, .refl _, rfl⟩
    · rename_i run _
      split_ifs
      · exact ⟨rfl, .refl _, rfl⟩
      · dsimp only
        obtain ⟨hf, hk, hn⟩ := hfold (listActiveChildren s.runs runId) s
        have hcancelled : RunStatus.IsEnd .cancelled := ⟨rfl, rfl⟩
        obtain ⟨hf', hk', hn'⟩ := settle_spec
          { (listActiveChildren s.runs runId).foldl
              (fun s child => cancelRun n s child.id reason) s with
            actions := withdraw ((listActiveChildren s.runs runId).foldl
              (fun s child => cancelRun n s child.id reason) s).actions run.wait
            runs := finishRun ((listActiveChildren s.runs runId).foldl
              (fun s child => cancelRun n s child.id reason) s).runs run.id .cancelled none
              (some reason) none none } run .cancelled (some reason)
        exact ⟨hf'.trans hf, (hk.trans (runsKept_finishRun hcancelled)).trans hk', hn'.trans hn⟩

theorem State.Sane.recordAction (hs : s.Sane) {action : AgentAction}
    (h : s.recordAction action = some t) : EngineStep s t := by
  obtain ⟨actions, _, rfl⟩ := map_eq_some_iff.1 h
  exact ⟨hs.of_frames rfl fun r hr => ⟨r, hr, rfl⟩, .kept (.refl _), rfl⟩

/-- Whether the act creates a run from outside. -/
def Act.isCreate : Act → Bool
  | .create .. => true
  | _ => false

/-- Every step of the engine keeps the frames sane. -/
theorem State.Sane.step (hs : s.Sane) {a : Act} (ha : a.isCreate = false)
    (h : step? H s a = some t) : EngineStep s t := by
  have hkept : ∀ {runs : Runs}, RunsKept s.runs runs → EngineStep s { s with runs := runs } :=
    fun hk => ⟨hs.of_frames rfl hk.goes, .kept hk, rfl⟩
  cases a with
  | create => cases ha
  | advance i runId owner now =>
    simp only [step?] at h
    split at h
    · rename_i runs leased hl
      obtain ⟨hk, hmem⟩ := runsKept_leaseRun hl
      split_ifs at h
      cases h
      refine ⟨hs.of hk.goes fun j g hg => ?_, .kept hk, rfl⟩
      rcases of_update_some hg with ⟨_, rfl⟩ | ⟨_, hg⟩
      · exact ⟨trivial, .inr hmem⟩
      · exact ⟨hs.ends j g hg, .inl ⟨j, g, hg, rfl⟩⟩
    · cases h
      exact ⟨hs, .kept (.refl _), rfl⟩
  | proceed i tick =>
    obtain ⟨g, hg, h⟩ := bind_eq_some_iff.1 h
    exact hs.proceed hg h
  | renew i now =>
    obtain ⟨g, hg, rfl⟩ := map_eq_some_iff.1 h
    exact hkept runsKept_renewRunLease
  | returns i result =>
    obtain ⟨g, hg, h⟩ := bind_eq_some_iff.1 h
    rw [State.returns] at h
    split at h
    · cases h
      exact ⟨hs.apply hg Frame.stays_outcome, .kept runsKept_apply, names_apply⟩
    · cases h
  | timeout i =>
    obtain ⟨g, hg, h⟩ := bind_eq_some_iff.1 h
    rw [State.timeout] at h
    split at h
    · split_ifs at h
      cases h
      rename_i actionId target _ _ _
      let u := g.invoked H s.actions target actionId
        (.ok (.failed (target ++ " timed out") "timeout"))
      have happly : (s.apply i u).Sane := hs.apply hg Frame.stays_outcome
      have hkept' : RunsKept s.runs (s.apply i u).runs := runsKept_apply
      have hnames : names (s.apply i u).instances = names s.instances := names_apply
      exact ⟨happly.of_frames rfl fun r hr => ⟨r, hr, rfl⟩, .kept hkept', hnames⟩
    · cases h
  | moduleInvoke i capability =>
    obtain ⟨g, hg, h⟩ := bind_eq_some_iff.1 h
    split at h
    · cases h
      exact ⟨hs.of_frames rfl fun r hr => ⟨r, hr, rfl⟩, .kept (.refl _), rfl⟩
    · cases h
  | moduleReturns i result =>
    obtain ⟨g, hg, h⟩ := bind_eq_some_iff.1 h
    split at h
    · cases h
      exact ⟨hs.apply hg Frame.stays_finishModule, .kept runsKept_apply, names_apply⟩
    · cases h
  | throws i message =>
    obtain ⟨g, hg, h⟩ := bind_eq_some_iff.1 h
    split at h
    · cases h
      exact ⟨hs.apply hg ⟨rfl, .inr rfl⟩, .kept runsKept_apply, names_apply⟩
    · cases h
      exact ⟨hs.apply hg ⟨rfl, .inr rfl⟩, .kept runsKept_apply, names_apply⟩
    · cases h
  | cancelRun runId reason =>
    cases h
    obtain ⟨hf, hk, hn⟩ := cancelRun_spec (s.runs.rows.length + 1) s runId reason
    exact ⟨hs.of_frames hf hk.goes, .kept hk, hn⟩
  | wakeDueRuns now | wakeActionWaits | wakeChildWaits | deliverEvent event now =>
    cases h; exact hkept runsKept_wakeEach
  | recoverInterruptedRuns expiredOnly now =>
    cases h
    exact hkept runsKept_recoverInterruptedRuns
  | record i action =>
    obtain ⟨g, hg, h⟩ := bind_eq_some_iff.1 h
    split at h
    · split_ifs at h
      exact hs.recordAction h
    · cases h
  | recordLate action =>
    simp only [step?, ite_none_right_eq_some] at h
    exact hs.recordAction h.2
  | amend action =>
    cases h
    exact ⟨hs.of_frames rfl fun r hr => ⟨r, hr, rfl⟩, .kept (.refl _), rfl⟩
  | recordOther action =>
    simp only [step?, ite_none_left_eq_some] at h
    have hs' : State.Sane { s with issued := action.id :: s.issued } :=
      hs.of_frames rfl fun r hr => ⟨r, hr, rfl⟩
    have hstep := hs'.recordAction h.2
    obtain ⟨actions, _, rfl⟩ := map_eq_some_iff.1 h.2
    exact ⟨hstep.sane, .kept (.refl _), rfl⟩
  | crash =>
    cases h
    exact ⟨hs.of (fun r hr => ⟨r, hr, rfl⟩) (fun i g hg => by cases hg), .kept (.refl _), rfl⟩

end Steps

end U2os.Server.Packages
