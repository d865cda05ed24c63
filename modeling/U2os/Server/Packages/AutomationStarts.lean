import Mathlib.Algebra.Order.Group.Int
import U2os.Lib.Window
import U2os.Server.Packages.AutomationRuntime

/-!
# What starts automations

Triggers come from schedules, events and the owner, in any order and with repetitions; the process
may stop after any statement.  The dedupe key keeps a slot or an event from starting two runs; the
two guards of `_fire` count rows, whose statuses go on changing, but no row becomes active again
and none becomes skipped or throttled after its creation.

## Main results

* `sound_step`, `sound_run` : the invariant.
-/

namespace U2os.Server.Packages

open List Option RunIdentity RuntimeState WorkflowRun

/-- The slot of a schedule trigger. -/
def slotOf (trigger : Json) : Option String :=
  if trigger.get? "type" = some (.str "schedule") then (trigger.get? "slot").bind Json.asStr?
  else none

/-- The id of the event of an event trigger. -/
def eventIdOf (trigger : Json) : Option String :=
  if trigger.get? "type" = some (.str "event") then
    ((trigger.get? "event").bind fun e => e.get? "id").bind Json.asStr?
  else none

/-- The root runs of an automation in pending, running or waiting. -/
def activeRoots (runs : Runs) (automationId : String) : List WorkflowRun :=
  runs.rows.filter fun (r : WorkflowRun) =>
    r.kind = .automation && r.definitionId = automationId && r.parentRunId.isNone &&
      r.status.isActive

/-- The runs of an automation that were created as pending. -/
def RuntimeState.startedBy (s : RuntimeState) (automationId : String) : List WorkflowRun :=
  s.started.filter fun r => r.definitionId = automationId

/-- Starts are deduplicated, serialized and limited. -/
structure RuntimeState.Guarded (R : Runtime) (s : RuntimeState) : Prop where
  slots : ∀ r ∈ s.engine.runs, ∀ r' ∈ s.engine.runs, r.definitionId = r'.definitionId →
    ∀ slot, slotOf r.trigger = some slot → slotOf r'.trigger = some slot → r = r'
  events : ∀ r ∈ s.engine.runs, ∀ r' ∈ s.engine.runs, r.definitionId = r'.definitionId →
    ∀ eventId, eventIdOf r.trigger = some eventId → eventIdOf r'.trigger = some eventId → r = r'
  serial : ∀ d, R.automation d.id = some d → d.concurrency ≠ .parallel →
    (activeRoots s.engine.runs d.id).length ≤ 1
  hourly : ∀ automationId, Window.Bounded WorkflowRun.createdAt hourMs R.maxRunsPerHour
    (s.startedBy automationId)

/-! ### What a step does -/

/-- The key of a run for a slot or an event is that of the slot or the event. -/
structure Keyed (definitionId : String) (trigger : Json) (dedupeKey : Option String) : Prop where
  slot : ∀ slot, slotOf trigger = some slot →
    dedupeKey = some (slotKey definitionId slot)
  event : ∀ eventId, eventIdOf trigger = some eventId →
    dedupeKey = some (eventKey definitionId eventId)

variable {definitionId id : String}

theorem Keyed.of_none {trigger : Json} {dedupeKey : Option String}
    (hslot : slotOf trigger = none) (hevent : eventIdOf trigger = none) :
    Keyed definitionId trigger dedupeKey := by
  constructor
  · intro slot h
    rw [hslot] at h
    cases h
  · intro eventId h
    rw [hevent] at h
    cases h

theorem slotOf_obj (type : String) (fields : List (String × Json)) :
    slotOf (.obj (("type", .str type) :: fields)) =
      if type = "schedule" then (Json.lookup fields "slot").bind Json.asStr? else none := by
  simp [slotOf, Json.get?, Json.lookup_cons]

theorem eventIdOf_obj (type : String) (fields : List (String × Json)) :
    eventIdOf (.obj (("type", .str type) :: fields)) =
      if type = "event" then
        ((Json.lookup fields "event").bind fun e => e.get? "id").bind Json.asStr?
      else none := by
  simp [eventIdOf, Json.get?, Json.lookup_cons]

theorem keyed_other {type : String} {fields : List (String × Json)} {dedupeKey : Option String}
    (hs : type ≠ "schedule") (he : type ≠ "event") :
    Keyed definitionId (.obj (("type", .str type) :: fields)) dedupeKey :=
  .of_none (by rw [slotOf_obj, if_neg hs]) (by rw [eventIdOf_obj, if_neg he])

theorem keyed_slot {slot : String} {fields : List (String × Json)} :
    Keyed definitionId (.obj (("type", .str "schedule") :: ("slot", .str slot) :: fields))
      (some (slotKey definitionId slot)) := by
  constructor
  · intro slot' h
    rw [slotOf_obj, if_pos rfl, Json.lookup_cons, if_pos rfl] at h
    rw [← some.inj h]
  · intro eventId h
    rw [eventIdOf_obj, if_neg (by decide)] at h
    cases h

theorem keyed_eventTrigger {e : TriggerEvent} :
    Keyed definitionId (eventTrigger e)
      (some (eventKey definitionId e.id)) := by
  constructor
  · intro slot h
    rw [eventTrigger, slotOf_obj, if_neg (by decide)] at h
    cases h
  · intro eventId h
    rw [eventTrigger, eventIdOf_obj, if_pos rfl, Json.lookup_cons, if_pos rfl,
      bind_some, Json.get?, Json.lookup_cons, if_pos rfl] at h
    rw [← some.inj h]

/-- What a firing of an automation inserts. -/
structure Fired (R : Runtime) (s : RuntimeState) (d : Automation) (inst : Instance) (n : NewRun)
    (c : Firing) : Prop where
  kind : n.kind = .automation
  definitionId : n.definitionId = d.id
  instanceId : n.instanceId = some inst.id
  rootRunId : n.rootRunId = none
  parentRunId : n.parentRunId = none
  keyed : Keyed d.id n.trigger n.dedupeKey
  pending : n.status.isActive = true → n.status = .pending
  refused : n.status = .pending → n.status.isRefused = false
  limit : n.status = .pending → s.recent inst.id c.clock < R.maxRunsPerHour
  single : n.status = .pending → d.concurrency ≠ .parallel →
    ∀ r ∈ s.newestActive inst.id, r.parentRunId ≠ none

variable {now : Int}

section Firings

variable {R : Runtime} {s : RuntimeState} {d : Automation} {inst : Instance} {c : Firing}
  {trigger : Json} {key : Option String} {inputs extra : Json} {status : RunStatus}
  {error : Option String}

theorem fired_over (hinst : s.instanceOf d.id = some inst) (hkey : Keyed d.id trigger key)
    (hover : status.isActive = false) :
    Fired R s d inst (s.newRun R d trigger key inputs status error) c := by
  have hne : status ≠ .pending := by
    rintro rfl
    cases hover
  refine ⟨rfl, rfl, ?_, rfl, rfl, hkey, fun h => ?_, fun h => absurd h hne,
    fun h => absurd h hne, fun h => absurd h hne⟩
  · rw [newRun, hinst, map_some]
  · exact absurd (hover.symm.trans h) Bool.false_ne_true

theorem fire_spec {t : Option Trigger} (hinst : s.instanceOf d.id = some inst)
    (hkey : Keyed d.id trigger key) :
    ∃ n, Fired R s d inst n c ∧ s.fire R d inst t trigger key extra c = s.create n c := by
  rw [fire]
  split
  · exact ⟨_, fired_over hinst hkey rfl, rfl⟩
  · split_ifs with hlimit hsingle
    · exact ⟨_, fired_over hinst hkey rfl, rfl⟩
    · exact ⟨_, fired_over hinst hkey rfl, rfl⟩
    · refine ⟨_, ⟨rfl, rfl, ?_, rfl, rfl, hkey, fun _ => rfl, fun _ => rfl, fun _ => ?_, ?_⟩, rfl⟩
      · rw [newRun, hinst, map_some]
      · exact Nat.lt_of_not_le hlimit
      · intro _ hd r hr hparent
        refine hsingle ⟨hd, List.any_eq_true.2 ⟨r, hr, ?_⟩⟩
        rw [hparent, isNone_none]

theorem fireSlot_spec {due : Int} (hinst : s.instanceOf d.id = some inst) :
    ∃ n, Fired R s d inst n c ∧ s.fireSlot R d inst due now c = s.create n c := by
  rw [fireSlot]
  split_ifs
  · exact ⟨_, fired_over hinst keyed_slot rfl, rfl⟩
  · exact fire_spec hinst keyed_slot

end Firings

/-- What a step does to the rows and to the list of started runs. -/
inductive RowsStep (R : Runtime) (s t : RuntimeState) : Prop
  /-- The engine goes on. -/
  | engine (h : RunsStep s.engine t.engine.runs) (hs : t.started = s.started)
  /-- A skill is called from outside. -/
  | skill {skill : Skill} {packageId : Option String} {inputs : Json} {errors : List String}
      {id : String} {now : Int}
      (hi : insertRun s.engine.runs (skillRun skill packageId inputs errors) id now =
        some t.engine.runs) (hs : t.started = s.started)
  /-- An automation is fired. -/
  | automation {d : Automation} {inst : Instance} {n : NewRun} {c : Firing}
      (hd : R.automation d.id = some d) (hinst : s.instanceOf d.id = some inst)
      (hclock : c.clock ≤ c.createdAt) (hf : Fired R s d inst n c)
      (hi : insertRun s.engine.runs n c.id c.createdAt = some t.engine.runs)
      (hs : t.started =
        if n.status = .pending then s.started ++ [n.row c.id c.createdAt] else s.started)

/-- What a step does. -/
structure RuntimeStep (R : Runtime) (s t : RuntimeState) : Prop where
  sane : t.engine.Sane
  rows : RowsStep R s t
  names : names t.engine.instances = names s.engine.instances

variable {n : NewRun}

section Steps

variable {R : Runtime} {s t u : RuntimeState}

theorem RuntimeStep.refl (hs : s.engine.Sane) : RuntimeStep R s s :=
  ⟨hs, .engine (.kept (.refl _)) rfl, rfl⟩

theorem RuntimeStep.congr (h : RuntimeStep R s t) (hengine : u.engine = t.engine)
    (hstarted : u.started = t.started) : RuntimeStep R s u := by
  obtain ⟨hsane, hrows, hnames⟩ := h
  refine ⟨hengine ▸ hsane, ?_, hengine ▸ hnames⟩
  cases hrows with
  | engine h hs => exact .engine (hengine ▸ h) (hstarted.trans hs)
  | skill hi hs => exact .skill (hengine ▸ hi) (hstarted.trans hs)
  | automation hd hinst hclock hf hi hs =>
    exact .automation hd hinst hclock hf (hengine ▸ hi) (hstarted.trans hs)

theorem RuntimeStep.crash (h : RuntimeStep R s t) : RuntimeStep R s t.crash := by
  obtain ⟨hsane, hrows, hnames⟩ := h
  refine ⟨hsane.of (fun r hr => ⟨r, hr, rfl⟩) fun i g hg => (by cases hg), ?_, hnames⟩
  cases hrows with
  | engine h hs => exact .engine h hs
  | skill hi hs => exact .skill hi hs
  | automation hd hinst hclock hf hi hs => exact .automation hd hinst hclock hf hi hs

theorem RuntimeStep.reschedule (h : RuntimeStep R s t) (d : Automation) (start : Int) :
    RuntimeStep R s (t.reschedule R d start) := by
  rw [RuntimeState.reschedule]
  split
  · exact h
  · exact h.congr rfl rfl

theorem RuntimeStep.switch (h : RuntimeStep R s t) (automationId : String)
    (f : Switches → Switches) : RuntimeStep R s (t.switch automationId f) := by
  rw [RuntimeState.switch]
  cases t.instanceOf automationId with
  | none => exact h
  | some inst => exact h.congr rfl rfl

theorem mem_of_insertRun {runs runs' : Runs}
    (h : insertRun runs n id now = some runs') {r : WorkflowRun} :
    r ∈ runs' ↔ r ∈ runs ∨ r = n.row id now := by
  rw [insertRun] at h
  split_ifs at h
  exact Table.mem_of_insert? h

theorem key_of_insertRun {runs runs' : Runs}
    (h : insertRun runs n id now = some runs') (hkey : n.dedupeKey.isSome) {r : WorkflowRun}
    (hr : r ∈ runs) : r.dedupeKey ≠ n.dedupeKey := by
  rw [insertRun] at h
  split_ifs at h with htaken
  intro heq
  refine htaken ?_
  rw [hkey, Bool.true_and]
  exact List.any_eq_true.2 ⟨r, hr, decide_eq_true heq⟩

theorem id_of_insertRun {runs runs' : Runs}
    (h : insertRun runs n id now = some runs') {r : WorkflowRun} (hr : r ∈ runs) : r.id ≠ id := by
  rw [insertRun] at h
  split_ifs at h
  exact (Table.insert?_eq_some.1 h).1 r hr

theorem runtimeStep_create {d : Automation} {inst : Instance} {c : Firing}
    (hs : s.engine.Sane) (hd : R.automation d.id = some d)
    (hinst : s.instanceOf d.id = some inst) (hclock : c.clock ≤ c.createdAt)
    (hf : Fired R s d inst n c) : RuntimeStep R s (s.create n c) := by
  rw [create]
  split
  · exact .refl hs
  · rename_i runs hi
    have hgrow : ∀ r ∈ s.engine.runs, ∃ r' ∈ runs, r'.identity = r.identity :=
      fun r hr => ⟨r, (mem_of_insertRun hi).2 (.inl hr), rfl⟩
    exact ⟨hs.of_frames rfl hgrow, .automation hd hinst hclock hf hi rfl, names_elim⟩

theorem instanceOf_of_ready {d : Automation} {inst : Instance} {c : Firing}
    (h : s.ready d c = some inst) : s.instanceOf d.id = some inst :=
  (Option.filter_eq_some_iff.1 h).1

theorem runtimeStep_fireDue {d : Automation} {c : Firing} {crashes : Bool}
    (hs : s.engine.Sane) (hd : R.automation d.id = some d) (hclock : c.clock ≤ c.createdAt) :
    RuntimeStep R s (s.fireDue R d now c crashes) := by
  by_cases hnone : d.triggersOf .schedule = []
  · rw [fireDue, if_pos hnone]
    exact .refl hs
  · rw [fireDue, if_neg hnone]
    split
    · exact .refl hs
    · rename_i inst hready
      have hinst := instanceOf_of_ready hready
      split
      · exact (RuntimeStep.refl hs).reschedule d now
      · rename_i due _
        obtain ⟨n, hf, hn⟩ : ∃ n, Fired R s d inst n c ∧
            s.fireSlot R d inst due now c = s.create n c := fireSlot_spec hinst
        rw [hn]
        have hfired := runtimeStep_create hs hd hinst hclock hf
        split_ifs
        · exact .refl hs
        · exact hfired.crash
        · exact hfired.reschedule d now

theorem runtimeStep_processEvent {d : Automation} {e : TriggerEvent} {c : Firing}
    (hs : s.engine.Sane) (hd : R.automation d.id = some d) (hclock : c.clock ≤ c.createdAt) :
    RuntimeStep R s (s.processEvent R d e c) := by
  rw [processEvent]
  split
  · exact .refl hs
  · rename_i inst hready
    have hinst := instanceOf_of_ready hready
    split_ifs
    · exact .refl hs
    · split
      · exact .refl hs
      · rename_i t _
        obtain ⟨n, hf, hn⟩ : ∃ n, Fired R s d inst n c ∧
            s.fire R d inst (some t) (eventTrigger e)
              (some (eventKey d.id e.id)) (.obj []) c = s.create n c :=
          fire_spec hinst keyed_eventTrigger
        rw [hn]
        exact runtimeStep_create hs hd hinst hclock hf

theorem runtimeStep_runNow {d : Automation} {inputs : Json} {c : Firing} (hs : s.engine.Sane)
    (hd : R.automation d.id = some d) (hclock : c.clock ≤ c.createdAt) :
    RuntimeStep R s (s.runNow R d inputs c) := by
  rw [runNow]
  split
  · exact .refl hs
  · rename_i inst hinst
    split_ifs
    · exact .refl hs
    · have hkey : Keyed d.id (manualTrigger (R.toISOString c.clock)) none :=
        keyed_other (by decide) (by decide)
      obtain ⟨n, hf, hn⟩ : ∃ n, Fired R s d inst n c ∧
          s.fire R d inst (d.triggers.find? fun t => t.type = .manual)
            (manualTrigger (R.toISOString c.clock)) none inputs c = s.create n c :=
        fire_spec hinst hkey
      rw [hn]
      exact runtimeStep_create hs hd hinst hclock hf

theorem automation_id {d : Automation} (h : R.automation id = some d) :
    R.automation d.id = some d := by
  have hid : d.id = id := by simpa using find?_some h
  rw [hid, h]

theorem runtimeStep_firing {c : Firing} {f : Automation → RuntimeState}
    (hs : s.engine.Sane) (h : s.firing R id c f = some t)
    (hf : ∀ d, R.automation d.id = some d → c.clock ≤ c.createdAt → RuntimeStep R s (f d)) :
    RuntimeStep R s t := by
  rw [firing, ite_none_right_eq_some] at h
  obtain ⟨hclock, h⟩ := h
  cases h
  cases hd : R.automation id with
  | none => exact .refl hs
  | some d => exact hf d (automation_id hd) hclock

theorem runtimeStep_advance {p fid : ℕ} {owner : String} {guard : ℕ} {run : WorkflowRun}
    {rest : List WorkflowRun} (hs : s.engine.Sane)
    (h : s.advance R p fid owner now guard run rest = some t) : RuntimeStep R s t := by
  obtain ⟨engine, hstep, rfl⟩ := map_eq_some_iff.1 h
  obtain ⟨hsane, hrows, hnames⟩ := hs.step rfl hstep
  exact ⟨hsane, .engine hrows rfl, hnames⟩

/-- All a step of the runtime can do. -/
theorem runtimeStep_of_perform {l : RuntimeLabel} (hs : s.engine.Sane)
    (h : performRuntime R s l = some t) : RuntimeStep R s t := by
  have hrefl := RuntimeStep.refl (R := R) hs
  cases l with
  | engine a =>
    simp only [performRuntime, ite_none_right_eq_some] at h
    obtain ⟨hown, h⟩ := h
    obtain ⟨engine, hstep, rfl⟩ := map_eq_some_iff.1 h
    have ha : a.isCreate = false := by cases a <;> first | rfl | cases hown
    obtain ⟨hsane, hrows, hnames⟩ := hs.step ha hstep
    exact ⟨hsane, .engine hrows rfl, hnames⟩
  | runSkill skill packageId input id now =>
    cases h
    rw [runSkill]
    dsimp only
    cases hi : insertRun s.engine.runs (skillRun skill packageId
        (R.host.prepareSkillInput skill input)
        (R.host.skillInputErrors skill (R.host.prepareSkillInput skill input))) id now with
    | none => exact hrefl
    | some runs =>
      have hgrow : ∀ r ∈ s.engine.runs, ∃ r' ∈ runs, r'.identity = r.identity :=
        fun r hr => ⟨r, (mem_of_insertRun hi).2 (.inl hr), rfl⟩
      exact ⟨hs.of_frames rfl hgrow, .skill hi rfl, rfl⟩
  | fireDue id now c crashes =>
    exact runtimeStep_firing hs h fun d hd hclock => runtimeStep_fireDue hs hd hclock
  | processEvent id e c =>
    exact runtimeStep_firing hs h fun d hd hclock => runtimeStep_processEvent hs hd hclock
  | runNow id inputs c =>
    exact runtimeStep_firing hs h fun d hd hclock => runtimeStep_runNow hs hd hclock
  | enable id now =>
    cases h
    cases R.automation id with
    | none => exact hrefl
    | some d => exact (hrefl.switch id _).reschedule d now
  | disable id | pause id | resume id => cases h; exact hrefl.switch id _
  | stop | start | begin => cases h; exact hrefl.congr rfl rfl
  | turnPage p fid owner now =>
    obtain ⟨pass, _, h⟩ := bind_eq_some_iff.1 h
    rw [ite_none_right_eq_some] at h
    obtain ⟨_, h⟩ := h
    rw [turnPage] at h
    split_ifs at h
    · cases h
      exact hrefl.congr rfl rfl
    · split at h
      · cases h
        exact hrefl.congr rfl rfl
      · exact runtimeStep_advance hs h
  | advanceNext p fid owner now =>
    obtain ⟨pass, _, h⟩ := bind_eq_some_iff.1 h
    rw [ite_none_right_eq_some] at h
    obtain ⟨_, h⟩ := h
    rw [advanceNext] at h
    split at h
    · cases h
    · split_ifs at h
      · cases h
        exact hrefl.congr rfl rfl
      · exact runtimeStep_advance hs h
  | crash => cases h; exact hrefl.crash

end Steps

/-! ### The rows -/

/-- What holds of a row from its creation on, by the instance each automation has. -/
structure RunIdentity.Ok (owner : String → Option String) (i : RunIdentity) : Prop where
  keyed : Keyed i.definitionId i.trigger i.dedupeKey
  owned : i.kind = .automation → i.instanceId.isSome ∧ i.instanceId = owner i.definitionId
  rooted : i.instanceId.isSome → i.parentRunId = none

/-- An active root run of an automation. -/
def WorkflowRun.IsActiveRoot (automationId : String) (r : WorkflowRun) : Prop :=
  r.kind = .automation ∧ r.definitionId = automationId ∧ r.status.isActive = true

/-- What holds of the rows. -/
structure RowsSound (R : Runtime) (owner : String → Option String) (runs : Runs) : Prop where
  ok : ∀ r ∈ runs, r.identity.Ok owner
  unique : ∀ r ∈ runs, ∀ r' ∈ runs, r.dedupeKey.isSome → r.dedupeKey = r'.dedupeKey → r = r'
  serial : ∀ d, R.automation d.id = some d → d.concurrency ≠ .parallel →
    ∀ r ∈ runs, ∀ r' ∈ runs, r.IsActiveRoot d.id → r'.IsActiveRoot d.id → r = r'

variable {r : WorkflowRun}

section Rows

variable {R : Runtime} {owner : String → Option String} {runs runs' : Runs}

theorem eq_of_becomes {r₁ r₂ r₁' r₂' : WorkflowRun} (h₁ : r₁' ∈ runs') (h₂ : r₂' ∈ runs')
    (hb₁ : r₁.Becomes r₁') (hb₂ : r₂.Becomes r₂') (heq : r₁ = r₂) : r₁' = r₂' := by
  have hid : r₁'.identity = r₂'.identity := by rw [hb₁.identity, hb₂.identity, heq]
  exact runs'.eq_of_key h₁ h₂ (congrArg RunIdentity.id hid)

theorem WorkflowRun.Becomes.of_isActiveRoot {r' : WorkflowRun} {automationId : String}
    (hb : r.Becomes r') (h : r'.IsActiveRoot automationId) : r.IsActiveRoot automationId := by
  obtain ⟨hkind, hdef, hactive⟩ := h
  have hkind' : r'.kind = r.kind := congrArg RunIdentity.kind hb.identity
  have hdef' : r'.definitionId = r.definitionId := congrArg RunIdentity.definitionId hb.identity
  exact ⟨hkind' ▸ hkind, hdef' ▸ hdef, hb.active hactive⟩

/-- Rows stay sound as runs go on. -/
theorem RowsSound.kept (hs : RowsSound R owner runs) (h : RunsKept runs runs') :
    RowsSound R owner runs' := by
  constructor
  · intro r' hr'
    obtain ⟨r, hr, hb⟩ := h.comes hr'
    exact hb.identity ▸ hs.ok r hr
  · intro r₁' h₁' r₂' h₂' hsome heq
    obtain ⟨r₁, h₁, hb₁⟩ := h.comes h₁'
    obtain ⟨r₂, h₂, hb₂⟩ := h.comes h₂'
    have hk₁ : r₁'.dedupeKey = r₁.dedupeKey := congrArg RunIdentity.dedupeKey hb₁.identity
    have hk₂ : r₂'.dedupeKey = r₂.dedupeKey := congrArg RunIdentity.dedupeKey hb₂.identity
    rw [hk₁] at hsome
    rw [hk₁, hk₂] at heq
    exact eq_of_becomes h₁' h₂' hb₁ hb₂ (hs.unique r₁ h₁ r₂ h₂ hsome heq)
  · intro d hd hpar r₁' h₁' r₂' h₂' ha₁ ha₂
    obtain ⟨r₁, h₁, hb₁⟩ := h.comes h₁'
    obtain ⟨r₂, h₂, hb₂⟩ := h.comes h₂'
    exact eq_of_becomes h₁' h₂' hb₁ hb₂
      (hs.serial d hd hpar r₁ h₁ r₂ h₂ (hb₁.of_isActiveRoot ha₁) (hb₂.of_isActiveRoot ha₂))

/-- A row that is added belongs to its automation, and is alone where these are serial. -/
theorem RowsSound.insert (hs : RowsSound R owner runs)
    (hi : insertRun runs n id now = some runs') (hok : (n.row id now).identity.Ok owner)
    (hserial : ∀ d, R.automation d.id = some d → d.concurrency ≠ .parallel →
      (n.row id now).IsActiveRoot d.id → ∀ r ∈ runs, ¬r.IsActiveRoot d.id) :
    RowsSound R owner runs' := by
  have hmem := fun r => (mem_of_insertRun (r := r) hi).1
  constructor
  · intro r hr
    rcases hmem r hr with hr | rfl
    · exact hs.ok r hr
    · exact hok
  · intro r hr r' hr' hsome heq
    rcases hmem r hr with h | rfl <;> rcases hmem r' hr' with h' | rfl
    · exact hs.unique r h r' h' hsome heq
    · have hsome' : (n.row id now).dedupeKey.isSome := heq ▸ hsome
      exact absurd heq (key_of_insertRun hi hsome' h)
    · exact absurd heq.symm (key_of_insertRun hi hsome h')
    · rfl
  · intro d hd hpar r hr r' hr' ha ha'
    rcases hmem r hr with h | rfl <;> rcases hmem r' hr' with h' | rfl
    · exact hs.serial d hd hpar r h r' h' ha ha'
    · exact absurd ha (hserial d hd hpar ha' r h)
    · exact absurd ha' (hserial d hd hpar ha r' h')
    · rfl

theorem RowsSound.insert_skill
    (hs : RowsSound R owner runs) (hi : insertRun runs n id now = some runs')
    (hkind : n.kind = .skill) (hinst : n.instanceId = none)
    (hkey : Keyed n.definitionId n.trigger n.dedupeKey) : RowsSound R owner runs' := by
  have hne : n.kind ≠ .automation := by
    rw [hkind]
    decide
  refine hs.insert hi ⟨hkey, fun h => absurd h hne, fun h => ?_⟩ fun d _ _ h => absurd h.1 hne
  rw [show (n.row id now).identity.instanceId = n.instanceId from rfl, hinst] at h
  cases h

theorem RowsSound.step {s : State} {runs : Runs} (hs : RowsSound R owner s.runs)
    (h : RunsStep s runs) : RowsSound R owner runs := by
  cases h with
  | kept h => exact hs.kept h
  | child hf hi h =>
    exact (hs.insert_skill hi rfl rfl (keyed_other (by decide) (by decide))).kept h

end Rows

/-! ### The runs that were started -/

/-- A run that was started is a row of the table, and neither skipped nor throttled. -/
def Live (runs : Runs) (r : WorkflowRun) : Prop :=
  r.kind = .automation ∧
    ∃ r' ∈ runs, r'.identity = r.identity ∧ r'.status.isRefused = false

/-- What is kept along runs. -/
structure RuntimeState.Sound (R : Runtime) (instances : Instances) (s : RuntimeState) : Prop where
  sane : s.engine.Sane
  names : names s.engine.instances = names instances
  rows : RowsSound R (fun id => (getInstanceByAutomation instances id).map Instance.id)
    s.engine.runs
  nodup : (s.started.map WorkflowRun.id).Nodup
  live : ∀ r ∈ s.started, Live s.engine.runs r
  hourly : ∀ automationId, Window.Bounded WorkflowRun.createdAt hourMs R.maxRunsPerHour
    (s.startedBy automationId)

section Started

variable {R : Runtime} {instances : Instances} {s t : RuntimeState} {runs runs' : Runs}

theorem Live.kept (h : Live runs r) (hk : RunsKept runs runs') :
    Live runs' r := by
  obtain ⟨hkind, r', hr', hid, hstatus⟩ := h
  obtain ⟨r'', hr'', hb⟩ := Table.Evolves.goes hk r' hr'
  refine ⟨hkind, r'', hr'', hb.identity.trans hid, ?_⟩
  exact Bool.eq_false_iff.2 fun h => Bool.eq_false_iff.1 hstatus (hb.refused h)

theorem Live.insert (h : Live runs r)
    (hi : insertRun runs n id now = some runs') : Live runs' r := by
  obtain ⟨hkind, r', hr', hid, hstatus⟩ := h
  exact ⟨hkind, r', (mem_of_insertRun hi).2 (.inl hr'), hid, hstatus⟩

theorem Live.step {s : State} (h : Live s.runs r) (hs : RunsStep s runs) :
    Live runs r := by
  cases hs with
  | kept hk => exact h.kept hk
  | child hf hi hk => exact (h.insert hi).kept hk

theorem instanceId_congr {x y : Instances} (h : Packages.names x = Packages.names y)
    (automationId : String) :
    (getInstanceByAutomation x automationId).map Instance.id =
      (getInstanceByAutomation y automationId).map Instance.id := by
  have hfind : ∀ z : Instances, (getInstanceByAutomation z automationId).map Instance.id =
      ((Packages.names z).find? fun p => p.2 = automationId).map Prod.fst := by
    intro z
    rw [Packages.names, find?_map, Option.map_map]
    rfl
  rw [hfind, hfind, h]

theorem RuntimeState.Sound.recent_le (hs : s.Sound R instances) {d : Automation} {inst : Instance}
    (hinst : s.instanceOf d.id = some inst) (clock : Int) :
    (Window.recent WorkflowRun.createdAt hourMs clock (s.startedBy d.id)).length ≤
      s.recent inst.id clock := by
  have howner : (getInstanceByAutomation instances d.id).map Instance.id = some inst.id := by
    rw [← instanceId_congr hs.names, ← RuntimeState.instanceOf, hinst, map_some]
  let counted := s.engine.runs.rows.filter fun (r : WorkflowRun) =>
    r.instanceId = some inst.id && r.parentRunId.isNone && clock - hourMs < r.createdAt &&
      !r.status.isRefused
  suffices h : (Window.recent WorkflowRun.createdAt hourMs clock (s.startedBy d.id)).length ≤
      (counted.map WorkflowRun.id).length from h.trans_eq (length_map _)
  have hsub : (Window.recent WorkflowRun.createdAt hourMs clock (s.startedBy d.id)).Sublist
      s.started := filter_sublist.trans filter_sublist
  refine Window.length_recent_le (hs.nodup.sublist (hsub.map WorkflowRun.id)) fun r hr => ?_
  obtain ⟨hr, hrecent⟩ := Window.mem_recent.1 hr
  obtain ⟨hr, hdef⟩ := mem_filter.1 hr
  obtain ⟨hkind, r', hr', hid, hstatus⟩ := hs.live r hr
  have hok := hs.rows.ok r' hr'
  rw [hid] at hok
  obtain ⟨hsome, howned⟩ := hok.owned hkind
  have hinst' : r'.instanceId = some inst.id := by
    calc r'.instanceId = r.instanceId := congrArg RunIdentity.instanceId hid
      _ = _ := howned
      _ = _ := by rw [show r.identity.definitionId = d.id from of_decide_eq_true hdef, howner]
  have hparent : r'.parentRunId = none :=
    (congrArg RunIdentity.parentRunId hid).trans (hok.rooted hsome)
  have hcreated : r'.createdAt = r.createdAt := congrArg RunIdentity.createdAt hid
  refine List.mem_map.2 ⟨r', mem_filter.2 ⟨hr', ?_⟩, congrArg RunIdentity.id hid⟩
  have htime : clock - hourMs < r.createdAt := by omega
  simp [hinst', hparent, hcreated, hstatus, htime]

theorem RuntimeState.Sound.not_active (hs : s.Sound R instances) {d : Automation}
    {inst : Instance} (hinst : s.instanceOf d.id = some inst)
    (hnone : ∀ r ∈ s.newestActive inst.id, r.parentRunId ≠ none) :
    ∀ r ∈ s.engine.runs, ¬r.IsActiveRoot d.id := by
  rintro r hr ⟨hkind, hdef, hactive⟩
  have howner : (getInstanceByAutomation instances d.id).map Instance.id = some inst.id := by
    rw [← instanceId_congr hs.names, ← instanceOf, hinst, map_some]
  have hinst' : r.instanceId = some inst.id := by
    rw [show r.instanceId = _ from ((hs.rows.ok r hr).owned hkind).2,
      show r.identity.definitionId = d.id from hdef, howner]
  -- the guard reads one run of the instance, and every run of an instance is a root
  have hlisted : r ∈ (s.engine.runs.rows.filter fun (r : WorkflowRun) =>
      r.instanceId = some inst.id && r.status.isActive).insertionSort newer := by
    rw [mem_insertionSort, mem_filter, hinst', hactive]
    exact ⟨hr, by simp⟩
  obtain ⟨x, rest, hlist⟩ := exists_cons_of_ne_nil (ne_nil_of_mem hlisted)
  have hx : x ∈ s.newestActive inst.id := by
    rw [newestActive, hlist]
    exact mem_cons_self
  have hx' : x ∈ s.engine.runs ∧ x.instanceId = some inst.id := by
    have hmem : x ∈ (s.engine.runs.rows.filter fun (r : WorkflowRun) =>
        r.instanceId = some inst.id && r.status.isActive).insertionSort newer := by
      rw [hlist]
      exact mem_cons_self
    rw [mem_insertionSort, mem_filter, Bool.and_eq_true] at hmem
    exact ⟨hmem.1, of_decide_eq_true hmem.2.1⟩
  have hroot : x.parentRunId = none := (hs.rows.ok x hx'.1).rooted (by
    rw [show x.identity.instanceId = x.instanceId from rfl, hx'.2, isSome_some])
  exact hnone x hx hroot

theorem RuntimeState.Sound.of_same (hs : s.Sound R instances) (hstep : RuntimeStep R s t)
    (hrows : RowsSound R (fun id => (getInstanceByAutomation instances id).map Instance.id)
      t.engine.runs)
    (hlive : ∀ r, Live s.engine.runs r → Live t.engine.runs r) (hstarted : t.started = s.started) :
    t.Sound R instances := by
  refine ⟨hstep.sane, hstep.names.trans hs.names, hrows, ?_, ?_, ?_⟩
  · rw [hstarted]
    exact hs.nodup
  · rw [hstarted]
    exact fun r hr => hlive r (hs.live r hr)
  · intro automationId
    rw [RuntimeState.startedBy, hstarted]
    exact hs.hourly automationId

/-- A run that was started was fired as its automation says. -/
theorem RuntimeState.Sound.insert (hs : s.Sound R instances) {d : Automation} {inst : Instance}
    {n : NewRun} {c : Firing} (hd : R.automation d.id = some d)
    (hinst : s.instanceOf d.id = some inst) (hf : Fired R s d inst n c)
    (hi : insertRun s.engine.runs n c.id c.createdAt = some t.engine.runs) :
    RowsSound R (fun id => (getInstanceByAutomation instances id).map Instance.id)
      t.engine.runs := by
  have howner : (getInstanceByAutomation instances d.id).map Instance.id = some inst.id := by
    rw [← instanceId_congr hs.names, ← instanceOf, hinst, map_some]
  refine hs.rows.insert hi ⟨?_, fun _ => ?_, fun _ => hf.parentRunId⟩ ?_
  · have hkey := hf.keyed
    rw [← hf.definitionId] at hkey
    exact hkey
  · have hinst' : (n.row c.id c.createdAt).identity.instanceId = some inst.id := hf.instanceId
    have hdef : (n.row c.id c.createdAt).identity.definitionId = d.id := hf.definitionId
    rw [hinst', hdef, howner]
    exact ⟨rfl, rfl⟩
  · rintro d' hd' hpar ⟨_, hdef, hactive⟩
    have hid : d'.id = d.id := hdef.symm.trans hf.definitionId
    obtain rfl : d = d' := by
      rw [hid, hd] at hd'
      exact some.inj hd'
    exact hs.not_active hinst (hf.single (hf.pending hactive) hpar)

theorem sound_init : (runtimeMachine R instances).init.Sound R instances where
  sane := ⟨fun _ _ h => (by cases h), fun _ _ h => (by cases h)⟩
  names := rfl
  rows := ⟨fun _ h => absurd h (Table.not_mem_empty _), fun _ h => absurd h (Table.not_mem_empty _),
    fun _ _ _ _ h => absurd h (Table.not_mem_empty _)⟩
  nodup := nodup_nil
  live _ h := absurd h not_mem_nil
  hourly _ := Window.bounded_nil

/-- Every step keeps the starts sound. -/
theorem sound_step {l : RuntimeLabel} (hs : s.Sound R instances)
    (h : performRuntime R s l = some t) : t.Sound R instances := by
  have hstep := runtimeStep_of_perform hs.sane h
  cases hstep.rows with
  | engine hrows hstarted =>
    exact hs.of_same hstep (hs.rows.step hrows) (fun r hr => hr.step hrows) hstarted
  | skill hi hstarted =>
    have hrows := hs.rows.insert_skill hi rfl rfl (keyed_other (by decide) (by decide))
    exact hs.of_same hstep hrows (fun r hr => hr.insert hi) hstarted
  | @automation d inst n c hd hinst hclock hf hi hstarted =>
    have hrows := hs.insert hd hinst hf hi
    by_cases hpending : n.status = .pending
    · rw [if_pos hpending] at hstarted
      refine ⟨hstep.sane, hstep.names.trans hs.names, hrows, ?_, ?_, ?_⟩
      · rw [hstarted, map_append, map_singleton]
        refine nodup_append.2 ⟨hs.nodup, nodup_singleton _, ?_⟩
        intro i hmem j hj hij
        obtain ⟨r, hr, rfl⟩ := List.mem_map.1 hmem
        obtain ⟨_, r', hr', hid, _⟩ := hs.live r hr
        refine id_of_insertRun hi hr' ?_
        calc r'.id = r.id := congrArg RunIdentity.id hid
          _ = j := hij
          _ = c.id := mem_singleton.1 hj
      · intro r hr
        rw [hstarted, List.mem_append, mem_singleton] at hr
        rcases hr with hr | rfl
        · exact (hs.live r hr).insert hi
        · exact ⟨hf.kind, _, (mem_of_insertRun hi).2 (.inr rfl), rfl, hf.refused hpending⟩
      · intro automationId
        rw [RuntimeState.startedBy, hstarted, filter_append]
        have hdef : (n.row c.id c.createdAt).definitionId = d.id := hf.definitionId
        by_cases hid : d.id = automationId
        · -- the guard counted at least what was started within the hour
          subst hid
          have hown : [n.row c.id c.createdAt].filter (fun r => r.definitionId = d.id) =
              [n.row c.id c.createdAt] := filter_cons_of_pos (decide_eq_true hdef)
          rw [hown]
          have hroom : (Window.recent WorkflowRun.createdAt hourMs c.clock
              (s.startedBy d.id)).length < R.maxRunsPerHour :=
            (hs.recent_le hinst c.clock).trans_lt (hf.limit hpending)
          exact (hs.hourly d.id).push hroom hclock
        · have hother : [n.row c.id c.createdAt].filter (fun r => r.definitionId = automationId) =
              [] := filter_cons_of_neg (by rw [hdef, decide_eq_true_eq]; exact hid)
          rw [hother, append_nil]
          exact hs.hourly automationId
    · rw [if_neg hpending] at hstarted
      exact hs.of_same hstep hrows (fun r hr => hr.insert hi) hstarted

theorem sound_run {h : List RuntimeLabel} (hr : (runtimeMachine R instances).Run h s) :
    s.Sound R instances :=
  Machine.Run.invariant (I := fun s => s.Sound R instances) hr sound_init
    fun _ _ _ hs hstep => sound_step hs hstep

theorem RowsSound.eq_of_key {owner : String → Option String} (hs : RowsSound R owner runs)
    {r r' : WorkflowRun} {key : String} (hr : r ∈ runs) (hr' : r' ∈ runs)
    (hk : r.dedupeKey = some key) (hk' : r'.dedupeKey = some key) : r = r' :=
  hs.unique r hr r' hr' (by rw [hk, isSome_some]) (hk.trans hk'.symm)

theorem RuntimeState.Sound.guarded (hs : s.Sound R instances) : s.Guarded R := by
  refine ⟨?_, ?_, ?_, hs.hourly⟩
  · intro r hr r' hr' hdef slot h h'
    have hk := (hs.rows.ok r hr).keyed.slot slot h
    have hk' := (hs.rows.ok r' hr').keyed.slot slot h'
    rw [show r'.identity.definitionId = r.identity.definitionId from hdef.symm] at hk'
    exact hs.rows.eq_of_key hr hr' hk hk'
  · intro r hr r' hr' hdef eventId h h'
    have hk := (hs.rows.ok r hr).keyed.event eventId h
    have hk' := (hs.rows.ok r' hr').keyed.event eventId h'
    rw [show r'.identity.definitionId = r.identity.definitionId from hdef.symm] at hk'
    exact hs.rows.eq_of_key hr hr' hk hk'
  · intro d hd hpar
    have hroot : ∀ r ∈ activeRoots s.engine.runs d.id,
        r ∈ s.engine.runs ∧ r.IsActiveRoot d.id := by
      intro r hr
      simp only [activeRoots, mem_filter, Bool.and_eq_true, decide_eq_true_eq] at hr
      exact ⟨hr.1, hr.2.1.1.1, hr.2.1.1.2, hr.2.2⟩
    have hnodup : (activeRoots s.engine.runs d.id).Nodup :=
      (s.engine.runs.nodup.of_map _).filter _
    match hl : activeRoots s.engine.runs d.id with
    | [] => exact Nat.zero_le 1
    | [r] => exact le_rfl
    | r :: r' :: rest =>
      rw [hl] at hroot hnodup
      have h := hroot r mem_cons_self
      have h' := hroot r' (mem_cons_of_mem _ mem_cons_self)
      have heq := hs.rows.serial d hd hpar r h.1 r' h'.1 h.2 h'.2
      exact absurd (heq ▸ mem_cons_self) (nodup_cons.1 hnodup).1

end Started

/-- Along every run of the runtime, starts are deduplicated, serialized and limited. -/
theorem starts_guarded {R : Runtime} {instances : Instances} {h : List RuntimeLabel}
    {s : RuntimeState} (hr : (runtimeMachine R instances).Run h s) : s.Guarded R :=
  (sound_run hr).guarded

/-- Mail is delivered twice, the process stops between a slot and the next one, and the owner asks
for a run. -/
def homeTriggers : List RuntimeLabel :=
  [.enable "home.digest" 0,
    .processEvent "home.digest" { type := "mail.received", id := "evt_1" } (homeFiring 0 "wfr_1"),
    .processEvent "home.digest" { type := "mail.received", id := "evt_1" } (homeFiring 0 "wfr_2"),
    .fireDue "home.digest" 3600000 (homeFiring 3600000 "wfr_3") true,
    .fireDue "home.digest" 3600000 (homeFiring 3600000 "wfr_4") false,
    .runNow "home.digest" (.obj []) (homeFiring 3600000 "wfr_5")]

theorem homeTriggers_guarded : ∃ s,
    (runtimeMachine homeRuntime homeInstances).Run homeTriggers s ∧ s.Guarded homeRuntime ∧
      s.engine.runs.rows.map (fun r => (r.id, r.status)) =
        [("wfr_1", .pending), ("wfr_3", .skipped), ("wfr_5", .skipped)] := by
  have h : (Machine.drive (performRuntime homeRuntime) (fun _ _ => true)
      (runtimeMachine homeRuntime homeInstances).init homeTriggers).map
        (fun s => s.engine.runs.rows.map fun r => (r.id, r.status)) =
      some [("wfr_1", .pending), ("wfr_3", .skipped), ("wfr_5", .skipped)] := by decide +kernel
  obtain ⟨s, hs, hview⟩ := map_eq_some_iff.1 h
  exact ⟨s, Machine.run_drive hs, starts_guarded (Machine.run_drive hs), hview⟩

end U2os.Server.Packages
