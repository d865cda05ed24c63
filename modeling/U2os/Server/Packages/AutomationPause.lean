import U2os.Server.Packages.AutomationStarts

/-!
# Paused automations

A pass of `drain` must not advance a run of a paused automation, nor a run of a skill nested under
one.  `_mayExecute` looks for the root only where the run itself has an instance, which no run of a
skill has; and a page is filtered once, while its runs are advanced one by one.

So a pass holds what it must hold back only if no run of a skill under a paused automation is
pending when a page is read, and no automation is paused while a pass has runs of it left.
-/

namespace U2os.Server.Packages

open List Option RunIdentity RuntimeState

/-- No call of `advance` by a pass was for a run under a paused automation. -/
def RuntimeState.PauseEffective (s : RuntimeState) : Prop :=
  ∀ c ∈ s.advanced, c.paused = false

/-- The condition on a step: no run of a skill under a paused automation is in the page that is
read, and no run of an automation is left in a page when the automation is paused. -/
def RuntimeState.heldBack (s : RuntimeState) : RuntimeLabel → Bool
  | .turnPage .. => (listRunnableRuns s.engine.runs pageSize).all fun r =>
      r.instanceId.isSome || !s.rootPaused r
  | .pause automationId => (s.instanceOf automationId).all fun inst =>
      s.passes.all fun x => x.all fun pass => pass.page.all fun r =>
        s.rootInstance r ≠ some inst.id
  | _ => true

/-! ### Roots -/

/-- What the rows say of their roots. -/
structure RootsSound (runs : Runs) : Prop where
  top : ∀ r ∈ runs, r.parentRunId = none → r.rootRunId = r.id
  nested : ∀ r ∈ runs, ∀ id, r.parentRunId = some id →
    ∃ parent ∈ runs, parent.id = id ∧ r.rootRunId = parent.rootRunId
  present : ∀ r ∈ runs, ∃ root ∈ runs, root.id = r.rootRunId
  rooted : ∀ r ∈ runs, r.instanceId.isSome → r.parentRunId = none

section Roots

variable {runs runs' : Runs}

/-- The roots stay sound as runs go on. -/
theorem RootsSound.kept (hs : RootsSound runs) (h : RunsKept runs runs') : RootsSound runs' := by
  have hgo : ∀ r ∈ runs, ∃ r' ∈ runs', r'.identity = r.identity := h.goes
  constructor
  · intro r' hr' hparent
    obtain ⟨r, hr, hb⟩ := h.comes hr'
    have hparent' : r.parentRunId = none :=
      (congrArg parentRunId hb.identity).symm.trans hparent
    calc r'.rootRunId = r.rootRunId := congrArg rootRunId hb.identity
      _ = r.id := hs.top r hr hparent'
      _ = r'.id := (congrArg RunIdentity.id hb.identity).symm
  · intro r' hr' id hparent
    obtain ⟨r, hr, hb⟩ := h.comes hr'
    have hparent' : r.parentRunId = some id :=
      (congrArg parentRunId hb.identity).symm.trans hparent
    obtain ⟨parent, hp, hid, hroot⟩ := hs.nested r hr id hparent'
    obtain ⟨parent', hp', hid'⟩ := hgo parent hp
    refine ⟨parent', hp', (congrArg RunIdentity.id hid').trans hid, ?_⟩
    calc r'.rootRunId = r.rootRunId := congrArg rootRunId hb.identity
      _ = parent.rootRunId := hroot
      _ = parent'.rootRunId := (congrArg rootRunId hid').symm
  · intro r' hr'
    obtain ⟨r, hr, hb⟩ := h.comes hr'
    obtain ⟨root, hroot, hid⟩ := hs.present r hr
    obtain ⟨root', hroot', hid'⟩ := hgo root hroot
    refine ⟨root', hroot', ?_⟩
    calc root'.id = root.id := congrArg RunIdentity.id hid'
      _ = r.rootRunId := hid
      _ = r'.rootRunId := (congrArg rootRunId hb.identity).symm
  · intro r' hr' hinst
    obtain ⟨r, hr, hb⟩ := h.comes hr'
    have hsame : r'.instanceId = r.instanceId := congrArg instanceId hb.identity
    have hinst' : r.instanceId.isSome := hsame ▸ hinst
    exact (congrArg parentRunId hb.identity).trans (hs.rooted r hr hinst')

/-- A run that is started has the root of its parent, or is one. -/
theorem RootsSound.insert {n : NewRun} {id : String} {now : Int} (hs : RootsSound runs)
    (hi : insertRun runs n id now = some runs')
    (hn : n.parentRunId = none ∧ n.rootRunId = none ∨ n.instanceId = none ∧
      ∃ parent ∈ runs, n.parentRunId = some parent.id ∧ n.rootRunId = some parent.rootRunId) :
    RootsSound runs' := by
  have hmem := fun r => mem_of_insertRun (r := r) hi
  have hold : ∀ r ∈ runs, r ∈ runs' := fun r hr => (hmem r).2 (.inl hr)
  have hnew : n.row id now ∈ runs' := (hmem _).2 (.inr rfl)
  constructor
  · intro r hr hparent
    rcases (hmem r).1 hr with hr | rfl
    · exact hs.top r hr hparent
    · rcases hn with ⟨_, hroot⟩ | ⟨_, parent, _, hp, _⟩
      · rw [NewRun.row, hroot, getD_none]
      · exact absurd (hp.symm.trans hparent) (some_ne_none _)
  · intro r hr i hparent
    rcases (hmem r).1 hr with hr | rfl
    · obtain ⟨parent, hp, h⟩ := hs.nested r hr i hparent
      exact ⟨parent, hold parent hp, h⟩
    · rcases hn with ⟨hp, _⟩ | ⟨_, parent, hparent', hp, hroot⟩
      · exact absurd (hp.symm.trans hparent) (some_ne_none _).symm
      · refine ⟨parent, hold parent hparent', some.inj (hp.symm.trans hparent), ?_⟩
        rw [NewRun.row, hroot, getD_some]
  · intro r hr
    rcases (hmem r).1 hr with hr | rfl
    · obtain ⟨root, hroot, h⟩ := hs.present r hr
      exact ⟨root, hold root hroot, h⟩
    · rcases hn with ⟨_, hroot⟩ | ⟨_, parent, hparent', _, hroot⟩
      · refine ⟨_, hnew, ?_⟩
        rw [NewRun.row, hroot, getD_none]
      · obtain ⟨root, hmem', h⟩ := hs.present parent hparent'
        refine ⟨root, hold root hmem', ?_⟩
        rw [NewRun.row, hroot, getD_some, h]
  · intro r hr hinst
    rcases (hmem r).1 hr with hr | rfl
    · exact hs.rooted r hr hinst
    · rcases hn with ⟨hp, _⟩ | ⟨hnone, _⟩
      · exact hp
      · rw [show (n.row id now).instanceId = n.instanceId from rfl, hnone] at hinst
        cases hinst

theorem RootsSound.step {s : State} (hs : RootsSound s.runs) (hsane : s.Sane)
    (h : RunsStep s runs) : RootsSound runs := by
  cases h with
  | kept h => exact hs.kept h
  | @child fid f step skill inputs id now runs₁ hf hi h =>
    obtain ⟨parent, hp, hid⟩ := hsane.held fid f hf
    have hroot : f.run.rootRunId = parent.rootRunId :=
      (congrArg rootRunId hid).symm
    have hparent : f.run.id = parent.id := (congrArg RunIdentity.id hid).symm
    refine (hs.insert hi (.inr ⟨rfl, parent, hp, ?_, ?_⟩)).kept h
    · rw [Frame.childRun, hparent]
    · rw [Frame.childRun, hroot]

theorem RootsSound.rowsStep {R : Runtime} {s t : RuntimeState} (hs : RootsSound s.engine.runs)
    (hsane : s.engine.Sane) (h : RowsStep R s t) : RootsSound t.engine.runs := by
  cases h with
  | engine h _ => exact hs.step hsane h
  | skill hi _ => exact hs.insert hi (.inl ⟨rfl, rfl⟩)
  | automation _ _ _ hf hi _ => exact hs.insert hi (.inl ⟨hf.parentRunId, hf.rootRunId⟩)

end Roots

/-! ### Passes and pauses -/

/-- A step that gives no pass a run, advances none for a pass and pauses no automation. -/
structure Quiet (s t : RuntimeState) : Prop where
  passes : ∀ pass, some pass ∈ t.passes → pass.page = [] ∨ some pass ∈ s.passes
  advanced : t.advanced = s.advanced
  paused : ∀ i, (t.switches i).paused = true → (s.switches i).paused = true

variable {d : Automation} {c : Firing}

variable {l : RuntimeLabel}

section Passes

variable {R : Runtime} {s t u : RuntimeState}

theorem Quiet.refl (s : RuntimeState) : Quiet s s := ⟨fun _ h => .inr h, rfl, fun _ h => h⟩

theorem Quiet.congr (h : Quiet s t) (hp : u.passes = t.passes) (ha : u.advanced = t.advanced)
    (hs : ∀ i, (u.switches i).paused = true → (t.switches i).paused = true) : Quiet s u :=
  ⟨hp ▸ h.passes, ha.trans h.advanced, fun i hi => h.paused i (hs i hi)⟩

theorem Quiet.crash (h : Quiet s t) : Quiet s t.crash :=
  ⟨fun _ hp => absurd hp not_mem_nil, h.advanced, h.paused⟩

theorem Quiet.setSwitches (h : Quiet s t) (i : String) {f : Switches → Switches}
    (hf : (f (t.switches i)).paused = true → (t.switches i).paused = true) :
    Quiet s (t.setSwitches i f) := by
  refine h.congr rfl rfl fun j hj => ?_
  dsimp only [RuntimeState.setSwitches] at hj
  rw [Function.update_apply] at hj
  split_ifs at hj with hji
  · rw [hji]
    exact hf hj
  · exact hj

theorem Quiet.switch (h : Quiet s t) (automationId : String) {f : Switches → Switches}
    (hf : ∀ x, (f x).paused = true → x.paused = true) : Quiet s (t.switch automationId f) := by
  rw [RuntimeState.switch]
  cases t.instanceOf automationId with
  | none => exact h
  | some inst => exact h.setSwitches inst.id (hf _)

theorem Quiet.reschedule (h : Quiet s t) (d : Automation) (start : Int) :
    Quiet s (t.reschedule R d start) := by
  rw [RuntimeState.reschedule]
  split
  · exact h
  · exact h.setSwitches _ fun hp => hp

theorem quiet_create (n : NewRun) (c : Firing) : Quiet s (s.create n c) := by
  rw [create]
  split
  · exact .refl s
  · exact (Quiet.refl s).congr rfl rfl fun _ h => h

theorem quiet_fire {inst : Instance} {trigger : Option Trigger} {data : Json} {key : Option String}
    {extra : Json} :
    Quiet s (s.fire R d inst trigger data key extra c) := by
  rw [fire]
  split
  · exact quiet_create _ c
  · split_ifs <;> exact quiet_create _ c

theorem quiet_fireDue {now : Int} {crashes : Bool} :
    Quiet s (s.fireDue R d now c crashes) := by
  have hslot : ∀ inst due, Quiet s (s.fireSlot R d inst due now c) := by
    intro inst due
    rw [fireSlot]
    split_ifs
    · exact quiet_create _ c
    · exact quiet_fire
  by_cases hnone : d.triggersOf .schedule = []
  · rw [fireDue, if_pos hnone]
    exact .refl s
  · rw [fireDue, if_neg hnone]
    split
    · exact .refl s
    · split
      · exact (Quiet.refl s).reschedule d now
      · split_ifs
        · exact .refl s
        · exact (hslot _ _).crash
        · exact (hslot _ _).reschedule d now

theorem quiet_processEvent {e : TriggerEvent} :
    Quiet s (s.processEvent R d e c) := by
  rw [processEvent]
  split
  · exact .refl s
  · split_ifs
    · exact .refl s
    · split
      · exact .refl s
      · exact quiet_fire

theorem quiet_runNow {inputs : Json} :
    Quiet s (s.runNow R d inputs c) := by
  rw [runNow]
  split
  · exact .refl s
  · split_ifs
    · exact .refl s
    · exact quiet_fire

theorem quiet_firing {id : String} {f : Automation → RuntimeState}
    (h : s.firing R id c f = some t) (hf : ∀ d, Quiet s (f d)) : Quiet s t := by
  rw [firing, ite_none_right_eq_some] at h
  cases h.2
  cases R.automation id with
  | none => exact .refl s
  | some d => exact hf d

theorem quiet_setPass_none {p : ℕ} : Quiet s (s.setPass p none) := by
  refine ⟨fun pass h => .inr ?_, rfl, fun _ h => h⟩
  rcases mem_or_eq_of_mem_set h with h | h
  · exact h
  · cases h

/-- What a step does to the passes and to the pauses. -/
inductive PassStep (s : RuntimeState) : RuntimeLabel → RuntimeState → Prop
  | quiet {l : RuntimeLabel} {t : RuntimeState} (h : Quiet s t) : PassStep s l t
  | pause {automationId : String} :
    PassStep s (.pause automationId) (s.switch automationId fun x => { x with paused := true })
  /-- A run is advanced that was left in a page, or is the first of a new one. -/
  | advance {l : RuntimeLabel} {p fid guard : ℕ} {run : WorkflowRun} {rest : List WorkflowRun}
      {engine : State}
      (hl : (∃ pass, some pass ∈ s.passes ∧ pass.page = run :: rest) ∨
        (∃ owner now, l = .turnPage p fid owner now) ∧ s.runnable = run :: rest) :
    PassStep s l
      { s.setPass p (some { guard := guard, page := rest, awaiting := some fid }) with
        engine := engine
        advanced := s.advanced ++ [⟨run.id, s.rootPaused run⟩] }

theorem mem_of_join {α : Type*} {l : List (Option α)} {i : ℕ} {x : α}
    (h : l[i]?.join = some x) : some x ∈ l := by
  rw [join_eq_some_iff] at h
  exact mem_of_getElem? h

/-- All a step of a pass can do. -/
theorem passStep_of_perform (h : performRuntime R s l = some t) :
    PassStep s l t := by
  have hrefl := Quiet.refl s
  cases l with
  | engine a =>
    simp only [performRuntime, ite_none_right_eq_some] at h
    obtain ⟨engine, _, rfl⟩ := map_eq_some_iff.1 h.2
    exact .quiet (hrefl.congr rfl rfl fun _ h => h)
  | runSkill => cases h; exact .quiet (hrefl.congr rfl rfl fun _ h => h)
  | fireDue => exact .quiet (quiet_firing h fun _ => quiet_fireDue)
  | processEvent => exact .quiet (quiet_firing h fun _ => quiet_processEvent)
  | runNow => exact .quiet (quiet_firing h fun _ => quiet_runNow)
  | enable id now =>
    cases h
    cases R.automation id with
    | none => exact .quiet hrefl
    | some d => exact .quiet ((hrefl.switch id fun _ h => by cases h).reschedule d now)
  | disable id => cases h; exact .quiet (hrefl.switch id fun _ h => h)
  | pause id => cases h; exact .pause
  | resume id => cases h; exact .quiet (hrefl.switch id fun _ h => by cases h)
  | stop | start => cases h; exact .quiet (hrefl.congr rfl rfl fun _ h => h)
  | begin =>
    cases h
    refine .quiet ⟨fun pass h => ?_, rfl, fun _ h => h⟩
    rcases mem_append.1 h with h | h
    · exact .inr h
    · cases mem_singleton.1 h
      exact .inl rfl
  | turnPage p fid owner now =>
    obtain ⟨pass, _, h⟩ := bind_eq_some_iff.1 h
    rw [ite_none_right_eq_some] at h
    obtain ⟨_, h⟩ := h
    rw [turnPage] at h
    split_ifs at h
    · cases h
      exact .quiet quiet_setPass_none
    · split at h
      · cases h
        exact .quiet quiet_setPass_none
      · rename_i hpage
        obtain ⟨engine, _, rfl⟩ := map_eq_some_iff.1 h
        exact .advance (.inr ⟨⟨owner, now, rfl⟩, hpage⟩)
  | advanceNext p fid owner now =>
    obtain ⟨pass, hpass, h⟩ := bind_eq_some_iff.1 h
    rw [ite_none_right_eq_some] at h
    obtain ⟨_, h⟩ := h
    rw [advanceNext] at h
    split at h
    · cases h
    · rename_i hpage
      split_ifs at h
      · cases h
        exact .quiet quiet_setPass_none
      · obtain ⟨engine, _, rfl⟩ := map_eq_some_iff.1 h
        exact .advance (.inl ⟨pass, mem_of_join hpass, hpage⟩)
  | crash => cases h; exact .quiet hrefl.crash

end Passes

/-! ### What a pass holds -/

/-- A run of a page: it is still in the table, and it is not under a paused automation. -/
structure RuntimeState.MayGo (s : RuntimeState) (r : WorkflowRun) : Prop where
  row : ∃ r' ∈ s.engine.runs, r'.identity = r.identity
  unpaused : s.rootPaused r = false

/-- What is kept along all runs. -/
structure RuntimeState.Grounded (s : RuntimeState) : Prop where
  sane : s.engine.Sane
  roots : RootsSound s.engine.runs

/-- What is kept along runs whose steps meet the condition. -/
structure RuntimeState.Holding (s : RuntimeState) : Prop where
  grounded : s.Grounded
  pages : ∀ pass, some pass ∈ s.passes → ∀ r ∈ pass.page, s.MayGo r
  effective : s.PauseEffective

section Holding

variable {R : Runtime} {instances : Instances} {s t : RuntimeState} {r : WorkflowRun}

theorem grounded_init : (runtimeMachine R instances).init.Grounded where
  sane := ⟨fun _ _ h => (by cases h), fun _ _ h => (by cases h)⟩
  roots := ⟨fun _ h => absurd h (Table.not_mem_empty _), fun _ h => absurd h (Table.not_mem_empty _),
    fun _ h => absurd h (Table.not_mem_empty _), fun _ h => absurd h (Table.not_mem_empty _)⟩

theorem grounded_step (hs : s.Grounded) (h : performRuntime R s l = some t) :
    t.Grounded := by
  have hstep := runtimeStep_of_perform hs.sane h
  exact ⟨hstep.sane, hs.roots.rowsStep hs.sane hstep.rows⟩

theorem grounded_run {h : List RuntimeLabel} (hr : (runtimeMachine R instances).Run h s) :
    s.Grounded :=
  Machine.Run.invariant (I := RuntimeState.Grounded) hr grounded_init
    fun _ _ _ hs hstep => grounded_step hs hstep

theorem RowsStep.goes (h : RowsStep R s t) :
    ∀ r ∈ s.engine.runs, ∃ r' ∈ t.engine.runs, r'.identity = r.identity := by
  intro r hr
  cases h with
  | engine h _ =>
    cases h with
    | kept h => exact h.goes r hr
    | child _ hi h => exact h.goes r ((mem_of_insertRun hi).2 (.inl hr))
  | skill hi _ | automation _ _ _ _ hi _ => exact ⟨r, (mem_of_insertRun hi).2 (.inl hr), rfl⟩

theorem rootInstance_step (hs : RootsSound s.engine.runs) (h : RowsStep R s t)
    (hrow : ∃ r' ∈ s.engine.runs, r'.identity = r.identity) :
    t.rootInstance r = s.rootInstance r := by
  obtain ⟨r', hr', hid⟩ := hrow
  obtain ⟨root, hroot, hrootId⟩ := hs.present r' hr'
  have hnamed : root.id = r.rootRunId := hrootId.trans (congrArg rootRunId hid)
  obtain ⟨root', hroot', hid'⟩ := h.goes root hroot
  have hnamed' : root'.id = r.rootRunId := (congrArg RunIdentity.id hid').trans hnamed
  rw [rootInstance, rootInstance,
    Table.find_eq_some.2 ⟨hroot, hnamed⟩, Table.find_eq_some.2 ⟨hroot', hnamed'⟩,
    bind_some, bind_some]
  exact congrArg instanceId hid'

theorem isSome_find_congr {x y : Instances} (h : names x = names y) (i : String) :
    (x.find i).isSome = (y.find i).isSome := by
  have hmem : ∀ z : Instances, (z.find i).isSome = true ↔ i ∈ (names z).map Prod.fst := by
    intro z
    rw [names, List.map_map, List.mem_map]
    constructor
    · intro hz
      obtain ⟨inst, hinst⟩ := isSome_iff_exists.1 hz
      exact ⟨inst, Table.mem_of_find hinst, Table.key_of_find hinst⟩
    · rintro ⟨inst, hinst, rfl⟩
      exact isSome_iff_exists.2 ⟨inst, Table.find_key hinst⟩
  rw [Bool.eq_iff_iff, hmem, hmem, h]

theorem instancePaused_eq (s : RuntimeState) (i : String) :
    s.instancePaused i = ((s.engine.instances.find i).isSome && (s.switches i).paused) := by
  rw [instancePaused]
  cases s.engine.instances.find i <;> simp

theorem RuntimeState.MayGo.step (hr : s.MayGo r) (hs : RootsSound s.engine.runs)
    (h : RuntimeStep R s t) (hpaused : ∀ i, s.rootInstance r = some i →
      (t.switches i).paused = true → (s.switches i).paused = true) : t.MayGo r := by
  obtain ⟨⟨r', hr', hid⟩, hunpaused⟩ := hr
  constructor
  · obtain ⟨r'', hr'', hid'⟩ := h.rows.goes r' hr'
    exact ⟨r'', hr'', hid'.trans hid⟩
  · rw [rootPaused, rootInstance_step hs h.rows ⟨r', hr', hid⟩]
    rw [rootPaused] at hunpaused
    cases hi : s.rootInstance r with
    | none => rfl
    | some i =>
      rw [hi, any_some, instancePaused_eq, ← isSome_find_congr h.names] at hunpaused
      rw [any_some, instancePaused_eq]
      refine Bool.eq_false_iff.2 fun ht => Bool.eq_false_iff.1 hunpaused ?_
      rw [Bool.and_eq_true] at ht ⊢
      exact ⟨ht.1, hpaused i hi ht.2⟩

theorem mayExecute_eq (hs : RootsSound s.engine.runs) (hr : r ∈ s.engine.runs) :
    s.mayExecute r = !r.instanceId.any s.instancePaused := by
  rw [mayExecute]
  cases hinst : r.instanceId with
  | none => rfl
  | some i =>
    have hsome : r.instanceId.isSome := by rw [hinst, isSome_some]
    have hroot : r.rootRunId = r.id := hs.top r hr (hs.rooted r hr hsome)
    dsimp only
    rw [if_neg (not_not.2 hroot), bind_some, hinst]

theorem mayGo_of_runnable (hs : RootsSound s.engine.runs) {p fid : ℕ} {owner : String}
    {now : Int} (hok : s.heldBack (.turnPage p fid owner now) = true)
    (hr : r ∈ s.runnable) : s.MayGo r := by
  obtain ⟨hlisted, hmay⟩ := mem_filter.1 hr
  have hrow : r ∈ s.engine.runs := by
    have hpending := mem_of_mem_take hlisted
    rw [pendingRuns, mem_insertionSort] at hpending
    exact (mem_filter.1 hpending).1
  refine ⟨⟨r, hrow, rfl⟩, ?_⟩
  have hskill := List.all_eq_true.1 hok r hlisted
  cases hinst : r.instanceId with
  | none =>
    rw [hinst, isSome_none, Bool.false_or, Bool.not_eq_true'] at hskill
    exact hskill
  | some i =>
    have hsome : r.instanceId.isSome := by rw [hinst, isSome_some]
    have hroot : r.rootRunId = r.id := hs.top r hrow (hs.rooted r hrow hsome)
    rw [mayExecute_eq hs hrow, Bool.not_eq_true'] at hmay
    rw [rootPaused, rootInstance, hroot, Table.find_key hrow,
      bind_some]
    exact hmay

/-- A step that respects the pause keeps what is held. -/
theorem holding_step (hs : s.Holding) (hok : s.heldBack l = true)
    (h : performRuntime R s l = some t) : t.Holding := by
  have hroots := hs.grounded.roots
  have hstep := runtimeStep_of_perform hs.grounded.sane h
  have hgrounded := grounded_step hs.grounded h
  cases passStep_of_perform h with
  | quiet hq =>
    refine ⟨hgrounded, fun pass hpass r hr => ?_, ?_⟩
    · rcases hq.passes pass hpass with hnil | hold
      · rw [hnil] at hr
        cases hr
      · exact (hs.pages pass hold r hr).step hroots hstep fun i _ => hq.paused i
    · rw [RuntimeState.PauseEffective, hq.advanced]
      exact hs.effective
  | @pause automationId =>
    rw [heldBack] at hok
    rw [switch] at hstep ⊢
    cases hinst : s.instanceOf automationId with
    | none => exact hs
    | some inst =>
      rw [hinst] at hok hstep
      refine ⟨⟨hs.grounded.sane, hroots⟩, fun pass hpass r hr => ?_, hs.effective⟩
      refine (hs.pages pass hpass r hr).step hroots hstep fun i hi ht => ?_
      have hpages := List.all_eq_true.1 hok (some pass) hpass
      have hne := of_decide_eq_true (List.all_eq_true.1 hpages r hr)
      have hii : i ≠ inst.id := fun hii => hne (hii ▸ hi)
      dsimp only [elim_some, setSwitches] at ht
      rw [Function.update_of_ne hii] at ht
      exact ht
  | @advance _ p fid guard run rest engine hl =>
    have hgo : ∀ r ∈ run :: rest, s.MayGo r := by
      rcases hl with ⟨pass, hpass, hpage⟩ | ⟨⟨owner, now, rfl⟩, hpage⟩
      · exact hpage ▸ hs.pages pass hpass
      · exact fun r hr => mayGo_of_runnable hroots hok (hpage ▸ hr)
    refine ⟨hgrounded, fun pass hpass r hr => ?_, fun c hc => ?_⟩
    · rcases mem_or_eq_of_mem_set hpass with hpass | heq
      · exact (hs.pages pass hpass r hr).step hroots hstep fun _ _ ht => ht
      · cases heq
        exact (hgo r (mem_cons_of_mem _ hr)).step hroots hstep fun _ _ ht => ht
    · rcases mem_append.1 hc with hc | hc
      · exact hs.effective c hc
      · rw [mem_singleton.1 hc]
        exact (hgo run mem_cons_self).unpaused

end Holding

/-- Along runs that read no page with a run of a skill under a paused automation, and pause no
automation while a pass has runs of it left, no pass advances a run under a paused automation. -/
theorem pause_effective {R : Runtime} {instances : Instances} {h : List RuntimeLabel}
    {s : RuntimeState}
    (hr : ((runtimeMachine R instances).restrict fun s l _ => s.heldBack l = true).Run h s) :
    s.PauseEffective := by
  refine (Machine.Run.invariant (I := RuntimeState.Holding) hr ?_ ?_).effective
  · exact ⟨grounded_init (R := R), fun _ h => absurd h not_mem_nil,
      fun _ h => absurd h not_mem_nil⟩
  · exact fun s l t hs hst => holding_step hs hst.2 hst.1

/-- The automation is paused and resumed; its run is advanced after that. -/
def homeResumed : List RuntimeLabel :=
  [.runNow "home.digest" (.obj []) (homeFiring 0 "wfr_1"), .pause "home.digest", .begin,
    .turnPage 0 0 "w" 0, .resume "home.digest", .begin, .turnPage 1 0 "w" 0]

theorem homeResumed_pause_effective : ∃ s,
    ((runtimeMachine homeRuntime homeInstances).restrict fun s l _ => s.heldBack l = true).Run
      homeResumed s ∧ s.PauseEffective ∧ s.advanced = [⟨"wfr_1", false⟩] := by
  have h : (Machine.drive (performRuntime homeRuntime) heldBack
      (runtimeMachine homeRuntime homeInstances).init homeResumed).map advanced =
      some [⟨"wfr_1", false⟩] := by decide +kernel
  obtain ⟨s, hs, hview⟩ := map_eq_some_iff.1 h
  have hrun : ((runtimeMachine homeRuntime homeInstances).restrict
      fun s l _ => s.heldBack l = true).Run homeResumed s :=
    Machine.steps_drive (fun _ _ hok => hok) hs
  exact ⟨s, hrun, pause_effective hrun, hview⟩

/-- The skill of the automation proposes its letter; the automation is paused; the letter is approved
and sent. -/
def homePaused : List RuntimeLabel :=
  let tick : Tick := { now := 0, id := "wfr_2", child := 1, record := some {} }
  let letter : Tick := { tick with id := "act_1" }
  [.runNow "home.digest" (.obj []) (homeFiring 0 "wfr_1"), .begin, .turnPage 0 0 "w" 0] ++
    -- the run up to its wait for the skill, and in between the run of the skill
    replicate 7 (.engine (.proceed 0 tick)) ++
    replicate 7 (.engine (.proceed 1 letter)) ++
    [.engine (.record 1 { id := "act_1" }), .engine (.returns 1 (.ok .waiting))] ++
    replicate 3 (.engine (.proceed 1 letter)) ++
    replicate 4 (.engine (.proceed 0 tick)) ++
    [.turnPage 0 0 "w" 0, .pause "home.digest",
      .engine (.amend { id := "act_1", status := .executed }), .engine .wakeActionWaits, .begin,
      .turnPage 1 2 "w" 0]

/-- A pass advances the run of the skill although the automation is paused. -/
theorem homePaused_not_effective : ∃ s,
    (runtimeMachine homeRuntime homeInstances).Run homePaused s ∧ ¬s.PauseEffective := by
  have h : (Machine.drive (performRuntime homeRuntime) (fun _ _ => true)
      (runtimeMachine homeRuntime homeInstances).init homePaused).map advanced =
      some [⟨"wfr_1", false⟩, ⟨"wfr_2", true⟩] := by decide +kernel
  obtain ⟨s, hs, hview⟩ := map_eq_some_iff.1 h
  refine ⟨s, Machine.run_drive hs, fun heff => ?_⟩
  have hmem : (⟨"wfr_2", true⟩ : DrainAdvance) ∈ s.advanced := by
    rw [hview]
    exact mem_cons_of_mem _ mem_cons_self
  cases heff _ hmem

end U2os.Server.Packages
