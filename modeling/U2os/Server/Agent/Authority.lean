import U2os.Server.Agent.ExecutedActions
import U2os.Server.Agent.Gate

/-!
# Authority at the call

What a worker's checks read besides the rows of the action: the policy files, the registries of
tools and packages, the grants, the runs, the goals and the clock, here together the *world*.  The
world may change in every way between two steps of the queue, with one exception: from its checks
to its call a worker awaits nothing, so nothing of the process comes in between.  The files count
as the policy engine has loaded them, which it does before every decision.
-/

namespace U2os.Server.Agent

open Policy List Option

/-! ### Packages -/

/-- `(.+)$` : a scope is not empty and is one line. -/
def isScope (scope : List Char) : Bool :=
  scope ≠ [] && scope.all fun c => !(['\n', '\r', '\u2028', '\u2029'].contains c)

/-- The mode and the scope of a permission on files. -/
def fileScope (permission : String) : Option (String × List Char) :=
  (["read", "write"].filterMap fun mode =>
    ((("filesystem." ++ mode ++ ":").toList.isPrefixOf? permission.toList).filter isScope).map
      fun scope => (mode, scope)).head?

def covers (held required : String) : Bool :=
  held = required ||
    match fileScope held, fileScope required with
    | some (mode, scope), some (mode', scope') =>
      mode = mode' && ".*".toList.isSuffixOf scope && scope.dropLast.isPrefixOf scope'
    | _, _ => false

/-- The permissions that no held one covers. -/
def missing (required held : List String) : List String :=
  required.filter fun permission => !held.any fun h => covers h permission

def checkPermissions (required declared granted : List String) : Permission where
  allowed := (missing required declared).isEmpty && (missing required granted).isEmpty
  missingDeclared := missing required declared
  missingGrant := missing required granted

/-- A package of the registry. -/
structure PackageState where
  enabled : Bool
  /-- `manifest.permissions`. -/
  permissions : List String

structure PackageRuntime where
  /-- `registries.packages`. -/
  packages : String → Option PackageState
  /-- `listGrants`. -/
  grants : String → List String
  /-- `requiredPermissions` of the capabilities. -/
  capability : String → Option (List String)

def permissionFor (P : PackageRuntime) (package : String) (required : List String) : Permission :=
  match P.packages package with
  | none => { allowed := false, reason := some "package is not installed" }
  | some record =>
    if record.enabled then checkPermissions required record.permissions (P.grants package)
    else { allowed := false, reason := some "package is disabled" }

def recheck (P : PackageRuntime) (tool package : String) : Option String :=
  match P.packages package with
  | none => some ("Package " ++ package ++ " is no longer installed")
  | some record =>
    if record.enabled then
      match P.capability tool with
      | none => some ("Capability " ++ tool ++ " is no longer available")
      | some required =>
        let permission := permissionFor P package required
        if permission.allowed then none
        else
          let lost := permission.missingDeclared ++ permission.missingGrant
          some ("Package " ++ package ++ " no longer holds " ++
            if lost.isEmpty then "the required permission" else ", ".intercalate lost)
    else some ("Package " ++ package ++ " is disabled")

/-- The package is installed and enabled, and both what it declares and what it was granted cover
what the capability requires. -/
def PackageRuntime.Holds (P : PackageRuntime) (tool package : String) : Prop :=
  ∃ record required, P.packages package = some record ∧ record.enabled = true ∧
    P.capability tool = some required ∧
    ∀ permission ∈ required, (∃ h ∈ record.permissions, covers h permission = true) ∧
      ∃ h ∈ P.grants package, covers h permission = true

theorem missing_eq_nil {required held : List String} :
    missing required held = [] ↔ ∀ p ∈ required, ∃ h ∈ held, covers h p = true := by
  simp [missing, filter_eq_nil_iff]

theorem recheck_eq_none {P : PackageRuntime} {tool package : String} :
    recheck P tool package = none ↔ P.Holds tool package := by
  unfold recheck PackageRuntime.Holds
  cases hp : P.packages package with
  | none => simp
  | some record =>
    cases he : record.enabled with
    | false => simp [he]
    | true =>
      cases hc : P.capability tool with
      | none => simp [he]
      | some required =>
        have hallowed : (permissionFor P package required).allowed = true ↔
            ∀ p ∈ required, (∃ h ∈ record.permissions, covers h p = true) ∧
              ∃ h ∈ P.grants package, covers h p = true := by
          simp only [permissionFor, hp, he, if_true, checkPermissions, Bool.and_eq_true,
            List.isEmpty_iff, missing_eq_nil]
          exact ⟨fun ⟨hd, hg⟩ p hm => ⟨hd p hm, hg p hm⟩,
            fun h => ⟨fun p hm => (h p hm).1, fun p hm => (h p hm).2⟩⟩
        simp only [he, if_true]
        constructor
        · intro h
          split_ifs at h with ha
          exact ⟨record, required, rfl, he, rfl, hallowed.1 ha⟩
        · rintro ⟨_, _, ⟨⟩, -, ⟨⟩, hall⟩
          exact if_pos (hallowed.2 hall)

/-! ### The world -/

/-- What the checks of a worker read besides the rows of the action. -/
structure World where
  now : ℕ
  /-- The home policy; none where it cannot be parsed. -/
  home : Option Yaml
  vault : VaultFile
  /-- `toolRegistry`. -/
  tools : String → Option Tool
  /-- `getCachedCalendarEvent`, with the category of the event. -/
  event : Json → Option (Option String)
  runtime : Option PackageRuntime
  runs : AgentRuns
  steps : RunSteps
  goals : Goals
  /-- What `getProviderForBinding`, `assertSmtpIdentity` and `assertCalendarTarget` throw, for a
  tool, a binding and arguments. -/
  accountError : String → Option Json → Json → Option String

/-- The table in force. -/
def World.policies (w : World) : Except String Policies :=
  match w.home with
  | some home => .ok (loadPolicies home w.vault)
  | none => .error "The home policy cannot be read"

/-- A value that counts as true. -/
def isTruthy : Json → Bool
  | .null | .bool false | .str "" | .num "0" => false
  | _ => true

/-- `buildEvalContext`. -/
def World.evalContext (w : World) (tool : Tool) (arguments : Json) : EvalContext :=
  match (arguments.get? "eventId").filter isTruthy with
  | some eventId =>
    if tool.name = "calendar.reschedule" then
      (w.event eventId).elim {} fun category => { category, eventCategory := category }
    else {}
  | none => {}

/-- `resolve`, and then `evaluate`. -/
def World.evaluate (L : Library grants) (w : World) (tool : String) (arguments : Json) :
    Except String Evaluation :=
  match w.tools tool with
  | none => .error ("Unknown tool: " ++ tool)
  | some t => w.policies.bind fun policies => policies.evaluate L t (w.evalContext t arguments)

def World.findRunByAction (w : World) (actionId : String) : Option AgentRun :=
  (w.steps.rows.find? fun x => x.actionId = some actionId).bind fun x => w.runs.find x.runId

/-- The column `status` of a goal, as a text. -/
def GoalStatus.text : GoalStatus → String
  | .draft => "draft"
  | .active => "active"
  | .paused => "paused"
  | .cancelled => "cancelled"

def World.getGoalForRun (w : World) (run : AgentRun) : Option GoalState :=
  run.goalId.map fun goalId =>
    match w.goals.find goalId with
    | some goal =>
      { status := some goal.status.text, revision := some goal.revision
        runRevision := run.goalRevision, domains := goal.domains }
    | none => { status := some "missing", revision := none, runRevision := none, domains := [] }

/-- What the checks of a worker see. -/
def World.view (L : Library grants) (w : World) (a : AgentAction) (item : QueueItem) : View :=
  let run := w.findRunByAction a.id
  { now := w.now
    runCancelled := run.any fun r => r.cancelRequestedAt.isSome
    deadlineExpired := run.any fun r => r.deadlineAt ≤ w.now
    evaluation := w.evaluate L item.tool item.arguments
    goalBlocked := (run.bind w.getGoalForRun).any fun goal =>
      (w.tools item.tool).any goal.excludes
    packageProblem := a.packageContext.bind fun package =>
      w.runtime.elim (some "Package runtime is not available") fun P => recheck P a.tool package
    accountError := w.accountError item.tool a.accountBinding item.arguments }

/-- The world authorizes the action, as far as the owner's approval does not decide. -/
structure World.Authorizes (C : WorkerConfig) (L : Library grants) (w : World) (a : AgentAction)
    (item : QueueItem) : Prop where
  /-- The policy does not block the action, and asks for no approval, or there is one. -/
  policy : ∃ e, w.evaluate L item.tool item.arguments = .ok e ∧ e.blocked = false ∧
    (e.requiresApproval = true → a.approvedAt.isSome = true)
  /-- What was queued is what was audited. -/
  payload : item.arguments = a.arguments
  fresh : w.now - a.createdAt ≤ C.maxActionAgeMs
  /-- The run is neither cancelled nor past its deadline. -/
  run : ∀ r, w.findRunByAction a.id = some r → r.cancelRequestedAt = none ∧ w.now < r.deadlineAt
  package : ∀ package, a.packageContext = some package →
    ∃ P, w.runtime = some P ∧ P.Holds a.tool package
  /-- The goal of the run is active at the revision of the run, and covers the tool. -/
  goal : ∀ r goal, w.findRunByAction a.id = some r → w.getGoalForRun r = some goal →
    ∃ tool, w.tools item.tool = some tool ∧ goal.status = some "active" ∧
      goal.revision = goal.runRevision ∧ tool.isRead = true ∧ tool.domain ∈ goal.domains

theorem GoalState.excludes_eq_false {goal : GoalState} {tool : Tool} :
    goal.excludes tool = false ↔ goal.status = some "active" ∧ goal.revision = goal.runRevision ∧
      tool.isRead = true ∧ tool.domain ∈ goal.domains := by
  simp [GoalState.excludes, and_assoc]

theorem World.exists_tool {L : Library grants} {w : World} {tool : String} {arguments : Json}
    {e : Evaluation} (h : w.evaluate L tool arguments = .ok e) : ∃ t, w.tools tool = some t := by
  unfold World.evaluate at h
  cases ht : w.tools tool with
  | none => rw [ht] at h; cases h
  | some t => exact ⟨t, rfl⟩

variable {item : QueueItem}

theorem authorizes_of_attempt {C : WorkerConfig} {L : Library grants} {w : World} {a : AgentAction}
    {attempts : List Attempt}
    (h : executeLeased C (some a) item attempts (w.view L a item) = .attempt) :
    w.Authorizes C L a item := by
  obtain ⟨b, hb, hc⟩ := cleared_of_attempt h
  cases hb
  obtain ⟨e, he, hblocked, happ⟩ := hc.policy
  refine ⟨⟨e, he, hblocked, happ⟩, hc.payload, hc.fresh, fun r hr => ?_, fun package hp => ?_,
    fun r goal hr hg => ?_⟩
  · have hrun := hc.running
    have htime := hc.inTime
    simp only [World.view, hr, any_some] at hrun htime
    exact ⟨by simpa using hrun, by simpa using htime⟩
  · have hpack := hc.package (by simp [hp])
    simp only [World.view, hp, bind_some] at hpack
    cases hP : w.runtime with
    | none => rw [hP] at hpack; cases hpack
    | some P =>
      rw [hP] at hpack
      exact ⟨P, rfl, recheck_eq_none.1 hpack⟩
  · obtain ⟨tool, ht⟩ := World.exists_tool he
    have hgoal := hc.goal
    simp only [World.view, hr, hg, ht, bind_some, any_some] at hgoal
    exact ⟨tool, ht, GoalState.excludes_eq_false.1 hgoal⟩

theorem World.Authorizes.patch {C : WorkerConfig} {L : Library grants} {w : World}
    {a : AgentAction} (h : w.Authorizes C L a item) (patch : ActionPatch) :
    w.Authorizes C L (patch.apply a) item := by
  obtain ⟨e, he, hb, happ⟩ := h.policy
  refine ⟨⟨e, he, hb, fun hr => ?_⟩, h.payload, h.fresh, h.run, h.package, h.goal⟩
  have hat := happ hr
  cases hp : patch.approvedAt <;> simp [ActionPatch.apply, hp, hat]

/-- The queue and the world. -/
structure AuthorityState where
  queue : QueueState
  world : World

/-- What can happen. -/
inductive AuthorityLabel where
  /-- A step of the queue, the checks of a worker apart. -/
  | queue (l : QueueLabel)
  /-- The checks of a worker. -/
  | check (t : ℕ)
  /-- Policy files, packages, grants, runs, goals and the clock change. -/
  | world (w : World)

/-- The checks of a worker. -/
def QueueLabel.isCheck : QueueLabel → Bool
  | .turn _ (.check _) => true
  | _ => false

/-- The turn has passed its checks and has not called its tool. -/
def Turn.isCleared : Turn → Bool
  | .work _ _ .beginning | .work _ _ (.calling _) => true
  | _ => false

/-- The view of a turn that checks its item. -/
def AuthorityState.view (L : Library grants) (s : AuthorityState) (t : ℕ) : Option View :=
  match s.queue.turns t with
  | .work _ item _ => (s.queue.db.actions.find item.actionId).map fun a => s.world.view L a item
  | _ => none

/-- A view, where there is no row to check. -/
def View.blank : View where
  now := 0
  evaluation := .error ""

/-- What a step of the machine does to the queue, as a step of the queue. -/
def AuthorityLabel.queue? (L : Library grants) (s : AuthorityState) :
    AuthorityLabel → Option QueueLabel
  | .queue l => if l.isCheck then none else some l
  | .check t => some (.turn t (.check ((s.view L t).getD .blank)))
  | .world _ => none

/-- All a step can do. -/
inductive AuthorityStep (C : WorkerConfig) (L : Library grants) (s : AuthorityState) :
    AuthorityLabel → AuthorityState → Prop
  | queue {l : AuthorityLabel} {k : QueueLabel} {q : QueueState} (hk : l.queue? L s = some k)
      (h : (queueMachine C).step s.queue k q) : AuthorityStep C L s l { s with queue := q }
  | world {w : World} (h : ∀ t, (s.queue.turns t).isCleared = false) :
    AuthorityStep C L s (.world w) { s with world := w }

/-- The queue in a world that changes. -/
def authorityMachine (C : WorkerConfig) (L : Library grants) (w : World) :
    Machine AuthorityState AuthorityLabel where
  init := { queue := (queueMachine C).init, world := w }
  step := AuthorityStep C L

variable {C : WorkerConfig} {L : Library grants} {a : String}

theorem patch?_approvedAt {u : Turn} {act : Act} {id : String} {patch : ActionPatch}
    (h : u.patch? act = some (id, patch)) : patch.approvedAt = none := by
  unfold Turn.patch? at h
  split at h <;> cases h
  · rfl
  · rename_i note _
    rcases note with _ | ⟨_, _⟩ <;> rfl
  · rfl
  · rfl

variable {l : QueueLabel}

theorem QueueStep.approves {s s' : QueueState} (h : QueueStep C s l s')
    {r' : AgentAction} (hr' : s'.db.actions.find a = some r') (hat : r'.approvedAt.isSome = true) :
    (∃ r, s.db.actions.find a = some r ∧ r.approvedAt.isSome = true) ∨
      ∃ t by_ rule now, l = .turn t (.approve a by_ rule now) := by
  have hkeep : ∀ {r : AgentAction} {patch : ActionPatch}, patch.approvedAt = none →
      (patch.apply r).approvedAt = r.approvedAt := by
    intro r patch hp
    simp [ActionPatch.apply, hp]
  have hpatch : ∀ {id patch}, s'.db.actions = (s.db.patch id patch).actions →
      patch.approvedAt = none → ∃ r, s.db.actions.find a = some r ∧ r.approvedAt.isSome = true := by
    intro id patch hdb hp
    rw [hdb, find_patch, map_eq_some_iff] at hr'
    obtain ⟨r, hr, rfl⟩ := hr'
    refine ⟨r, hr, ?_⟩
    split_ifs at hat
    · rwa [hkeep hp] at hat
    · exact hat
  cases h with
  | @turn t act db u _ h =>
    cases h.actionWrite with
    | @insert p now hu hact h =>
      rw [QueueState.put_db, Table.find_insert? h] at hr'
      split_ifs at hr'
      · cases hr'
        cases hat
      · exact .inl ⟨r', hr', hat⟩
    | @approve id by_ rule now b hact hb hs hdb =>
      subst hact
      by_cases hid : a = id
      · subst hid
        exact .inr ⟨t, by_, rule, now, rfl⟩
      · rw [QueueState.put_db, hdb, find_updateAgentAction_of_ne hid] at hr'
        exact .inl ⟨r', hr', hat⟩
    | patch hp h => exact .inl (hpatch h (patch?_approvedAt hp))
    | keep h =>
      rw [QueueState.put_db, h] at hr'
      exact .inl ⟨r', hr', hat⟩
  | @deny id d b hb hs => exact .inl (hpatch rfl (by cases d <;> rfl))
  | cancelUnstarted id =>
    rcases cancelUnstartedAction_cases s.db id with h | ⟨q, b, -, -, -, -, h⟩
    · exact .inl ⟨r', (congrArg (fun db : ActionDb => db.actions.find a) h).symm.trans hr', hat⟩
    · have hdb : (cancelUnstartedAction s.db id).actions =
          (s.db.patch id { status := some .cancelled }).actions := by rw [h]; rfl
      exact .inl (hpatch hdb rfl)
  | repropose => exact .inl (hpatch rfl rfl)

/-- The tool of an item, and of a turn that may enqueue one, is that of its action. -/
structure QueueState.Named (s : QueueState) : Prop where
  items : ∀ a q, s.db.queue.find a = some q → ∃ r, s.db.actions.find a = some r ∧ q.tool = r.tool
  proposed : ∀ t p, s.turns t = .proposed p →
    ∃ r, s.db.actions.find p.id = some r ∧ p.tool = r.tool
  approved : ∀ t x, s.turns t = .approved x →
    ∃ r, s.db.actions.find x.actionId = some r ∧ x.tool = r.tool

theorem QueueStep.tool {s s' : QueueState} (h : QueueStep C s l s') {tool : String}
    (hr : ∃ r, s.db.actions.find a = some r ∧ tool = r.tool) :
    ∃ r, s'.db.actions.find a = some r ∧ tool = r.tool := by
  obtain ⟨r, hr, ht⟩ := hr
  obtain ⟨patch, hp⟩ := h.row_patched hr
  exact ⟨_, hp, ht⟩

theorem QueueState.Named.step {s s' : QueueState} (hN : s.Named)
    (h : QueueStep C s l s') : s'.Named := by
  refine ⟨fun a q' hq' => ?_, fun t' p ht' => ?_, fun t' x ht' => ?_⟩
  · cases hq : s.db.queue.find a with
    | some q =>
      obtain ⟨p, hp, hc⟩ := h.stepWrite.itemChange hq
      obtain rfl : p = q' := some_inj.1 (hp.symm.trans hq')
      rw [hc.fixed.2.1]
      exact h.tool (hN.items a q hq)
    | none =>
      cases id h with
      | @turn t act db u _ hm =>
        obtain ⟨x, now, rfl, rfl, hu⟩ := hm.enqueues hq hq'
        rcases hu with hu | ⟨p, hu, rfl⟩
        · exact h.tool (hN.approved t x hu)
        · exact h.tool (hN.proposed t p hu)
      | cancelUnstarted id =>
        rcases cancelUnstartedAction_cases s.db id with hdb | ⟨p, b, hp, -, -, -, hdb⟩
        · have hq₀ := (congrArg (fun db : ActionDb => db.queue.find a) hdb).symm.trans hq'
          rw [hq] at hq₀
          cases hq₀
        · have hput := (congrArg (fun db : ActionDb => db.queue.find a) hdb).symm.trans hq'
          have hnone : (s.db.queue.put p.unstarted).find a = none := find_put_of_none hp rfl hq
          cases hnone.symm.trans hput
      | _ => cases hq.symm.trans hq'
  · cases id h with
    | @turn t act db u _ hm =>
      rcases put_turns_cases ht' with ⟨rfl, rfl⟩ | ⟨-, ht⟩
      · generalize s.turns t' = v at hm
        generalize hu : Turn.proposed p = u at hm
        cases hm with
        | @propose p' now actions hi =>
          cases hu
          exact ⟨p.row now, Table.find_key ((Table.mem_of_insert? hi).2 (.inr rfl)), rfl⟩
        | work hw => cases hw <;> cases hu
        | _ => cases hu
      · exact h.tool (hN.proposed t' p ht)
    | _ => exact h.tool (hN.proposed t' p ht')
  · cases id h with
    | @turn t act db u _ hm =>
      rcases put_turns_cases ht' with ⟨rfl, rfl⟩ | ⟨-, ht⟩
      · generalize s.turns t' = v at hm
        generalize hu : Turn.approved x = u at hm
        cases hm with
        | @approve id by_ rule now b hb hs =>
          cases hu
          have hid : b.id = id := Table.key_of_find hb
          refine h.tool ⟨b, ?_, rfl⟩
          rw [AgentAction.enqueue, hid]
          exact hb
        | work hw => cases hw <;> cases hu
        | _ => cases hu
      · exact h.tool (hN.approved t' x ht)
    | _ => exact h.tool (hN.approved t' x ht')

/-! ### Calls -/

/-- Whoever is past its checks has the authority of the world, as it is. -/
def AuthorityState.Cleared (C : WorkerConfig) (L : Library grants) (s : AuthorityState) : Prop :=
  ∀ t w item phase, s.queue.turns t = .work w item phase →
    (s.queue.turns t).isCleared = true →
    ∃ r, s.queue.db.actions.find item.actionId = some r ∧ s.world.Authorizes C L r item

theorem Work.isCleared {db db' : ActionDb} {w : String} {phase phase' : Phase} {act : Act}
    (h : Work C db w item phase act db' (.work w item phase'))
    (hc : (Turn.work w item phase').isCleared = true) :
    (Turn.work w item phase).isCleared = true ∨ ∃ v, phase = .checking ∧ act = .check v ∧
      executeLeased C (db.actions.find item.actionId) item
        (listActionAttempts db.attempts item.actionId) v = .attempt := by
  generalize hu : Turn.work w item phase' = u at h hc
  cases h with
  | check v =>
    refine .inr ⟨v, rfl, rfl, ?_⟩
    cases hd : executeLeased C (db.actions.find item.actionId) item
      (listActionAttempts db.attempts item.actionId) v with
    | attempt => rfl
    | settle => rw [hd] at hc; cases hc
    | stop note x => rw [hd] at hc; cases note <;> cases hc
  | begin => exact .inl rfl
  | _ => cases hc

theorem view_of_check {s : AuthorityState} {l : AuthorityLabel} {t : ℕ} {v : View} {w : String}
    {phase : Phase} {r : AgentAction}
    (hk : l.queue? L s = some (.turn t (.check v))) (ht : s.queue.turns t = .work w item phase)
    (hr : s.queue.db.actions.find item.actionId = some r) : v = s.world.view L r item := by
  cases l with
  | queue l =>
    simp only [AuthorityLabel.queue?] at hk
    split_ifs at hk with hl
    cases hk
    exact absurd rfl hl
  | check t' =>
    simp only [AuthorityLabel.queue?, some.injEq, QueueLabel.turn.injEq,
      Act.check.injEq] at hk
    obtain ⟨rfl, rfl⟩ := hk
    simp [AuthorityState.view, ht, hr]
  | world => cases hk

/-- A worker that comes to its call has passed all checks. -/
theorem AuthorityState.Cleared.step {s s' : AuthorityState} {l : AuthorityLabel}
    (hA : s.Cleared C L) (h : AuthorityStep C L s l s') : s'.Cleared C L := by
  intro t w item phase ht hc
  cases h with
  | world hno =>
    rw [hno t] at hc
    cases hc
  | @queue l k q hk h =>
    have hq := queueStep_of_step h
    have hold : (∃ r, s.queue.db.actions.find item.actionId = some r ∧
        s.world.Authorizes C L r item) →
        ∃ r, q.db.actions.find item.actionId = some r ∧ s.world.Authorizes C L r item := by
      rintro ⟨r, hr, hauth⟩
      obtain ⟨patch, hp⟩ := hq.row_patched hr
      exact ⟨_, hp, hauth.patch patch⟩
    apply hold
    have hlift : s.queue.turns t = .work w item phase →
        ∃ r, s.queue.db.actions.find item.actionId = some r ∧ s.world.Authorizes C L r item := by
      intro ht₀
      refine hA t w item phase ht₀ ?_
      rw [ht₀, ← ht]
      exact hc
    cases hq with
    | @turn t' act db u _ hm =>
      rcases put_turns_cases ht with ⟨rfl, rfl⟩ | ⟨-, ht⟩
      · generalize hv : s.queue.turns t = v at hm
        generalize hu : Turn.work w item phase = u at hm
        rw [QueueState.put_turns_self] at hc
        cases hm with
        | lease | tick =>
          cases hu
          cases hc
        | work hw =>
          subst hu
          obtain ⟨rfl, rfl⟩ := hw.same
          rcases hw.isCleared hc with hc₀ | ⟨v, rfl, rfl, hatt⟩
          · exact hA t _ _ _ hv (hv ▸ hc₀)
          · obtain ⟨r, hr, -⟩ := cleared_of_attempt hatt
            rw [hr, view_of_check hk hv hr] at hatt
            exact ⟨r, hr, authorizes_of_attempt hatt⟩
        | _ => cases hu
      · exact hlift ht
    | _ => exact hlift ht

/-- The invariants of the machine. -/
structure AuthorityState.Lawful (C : WorkerConfig) (L : Library grants) (h : List AuthorityLabel)
    (s : AuthorityState) : Prop where
  sound : s.queue.Sound
  named : s.queue.Named
  cleared : s.Cleared C L
  /-- An approval is the owner's. -/
  approved : ∀ a r, s.queue.db.actions.find a = some r → r.approvedAt.isSome = true →
    ∃ t by_ rule now, .queue (.turn t (.approve a by_ rule now)) ∈ h

theorem named_init (C : WorkerConfig) : (queueMachine C).init.Named where
  items := fun _ _ h => by cases h
  proposed := fun _ _ h => by cases h
  approved := fun _ _ h => by cases h

theorem lawful_init (C : WorkerConfig) (L : Library grants) (w : World) :
    (authorityMachine C L w).init.Lawful C L [] where
  sound := sound_init C
  named := named_init C
  cleared := fun _ _ _ _ h => by cases h
  approved := fun _ _ h => by cases h

/-- Every call was lawful when it was made. -/
theorem AuthorityState.Lawful.step {h : List AuthorityLabel} {s s' : AuthorityState}
    {l : AuthorityLabel} (hS : s.Lawful C L h) (hst : AuthorityStep C L s l s') :
    s'.Lawful C L (h ++ [l]) := by
  have hmem : ∀ {a r}, s.queue.db.actions.find a = some r → r.approvedAt.isSome = true →
      ∃ t by_ rule now, .queue (.turn t (.approve a by_ rule now)) ∈ h ++ [l] := by
    intro a r hr hat
    obtain ⟨t, by_, rule, now, hm⟩ := hS.approved a r hr hat
    exact ⟨t, by_, rule, now, mem_append_left _ hm⟩
  have hcleared := hS.cleared.step hst
  cases hst with
  | world => exact ⟨hS.sound, hS.named, hcleared, fun a r => hmem⟩
  | queue hk hst =>
    have hq := queueStep_of_step hst
    refine ⟨hS.sound.step hq.stepWrite, hS.named.step hq, hcleared, fun a r' hr' hat => ?_⟩
    rcases hq.approves hr' hat with ⟨r, hr, hat₀⟩ | ⟨t, by_, rule, now, rfl⟩
    · exact hmem hr hat₀
    · refine ⟨t, by_, rule, now, mem_append_right _ ?_⟩
      cases l with
      | queue l =>
        simp only [AuthorityLabel.queue?] at hk
        split_ifs at hk
        cases hk
        exact mem_singleton_self _
      | check => cases hk
      | world => cases hk

/-- The authority of a call: that of the world, with the owner's approval where the policy asks for
one, for the tool and the arguments that were audited. -/
structure InForce (C : WorkerConfig) (L : Library grants) (h : List AuthorityLabel)
    (s : AuthorityState) (item : QueueItem) (r : AgentAction) : Prop where
  row : s.queue.db.actions.find item.actionId = some r
  tool : item.tool = r.tool
  queued : ∃ q, s.queue.db.queue.find item.actionId = some q ∧ q.tool = r.tool ∧
    q.arguments = r.arguments
  world : s.world.Authorizes C L r item
  approval : ∀ e, s.world.evaluate L item.tool item.arguments = .ok e →
    e.requiresApproval = true →
    ∃ t by_ rule now, .queue (.turn t (.approve item.actionId by_ rule now)) ∈ h

/-- Whenever a worker stands before its call, the authority for the call is in force. -/
theorem authority_in_force (C : WorkerConfig) (L : Library grants) (w₀ : World)
    {h : List AuthorityLabel} {s : AuthorityState} (hr : (authorityMachine C L w₀).Run h s) {t : ℕ}
    {w : String} {item : QueueItem} {i : String}
    (ht : s.queue.turns t = .work w item (.calling i)) : ∃ r, InForce C L h s item r := by
  have hS : s.Lawful C L h := hr.history (I := fun h s => s.Lawful C L h) (lawful_init C L w₀)
    fun _ _ _ _ _ hS hst => hS.step hst
  obtain ⟨r, hrow, hauth⟩ := hS.cleared t w item _ ht (by rw [ht]; rfl)
  obtain ⟨q, hq, htool, hargs⟩ := hS.sound.item t w item _ ht
  obtain ⟨r', hr', hnamed⟩ := hS.named.items _ q hq
  obtain rfl : r' = r := some_inj.1 (hr'.symm.trans hrow)
  refine ⟨r', hrow, htool.trans hnamed, ⟨q, hq, hnamed, hargs ▸ hauth.payload⟩, hauth,
    fun e he hreq => ?_⟩
  obtain ⟨e', he', -, happ⟩ := hauth.policy
  obtain rfl : e' = e := by rw [he'] at he; exact Except.ok.inj he
  exact hS.approved _ r' hrow (happ hreq)

/-- Steps of the queue one after another, in one world. -/
def driveAuthority (C : WorkerConfig) (L : Library grants) (n : ℕ) (s : AuthorityState) :
    List AuthorityLabel → Option AuthorityState
  | [] => some s
  | l :: h =>
    (l.queue? L s).bind fun k => (driveQueue C n s.queue [k]).bind fun q =>
      driveAuthority C L n { s with queue := q } h

theorem steps_driveAuthority {n : ℕ} {s s' : AuthorityState} {w₀ : World}
    {h : List AuthorityLabel} (hs : ∀ t, n ≤ t → s.queue.turns t = .idle)
    (hd : driveAuthority C L n s h = some s') : (authorityMachine C L w₀).Steps s h s' := by
  induction h generalizing s with
  | nil =>
    cases hd
    exact .nil
  | cons l h ih =>
    simp only [driveAuthority, bind_eq_some_iff] at hd
    obtain ⟨k, hk, q, hq, hd⟩ := hd
    obtain ⟨hsteps, hidle⟩ := steps_driveQueue hs hq
    obtain ⟨s₀, h₀, hst⟩ := hsteps.last (h := [])
    obtain rfl := h₀.eq_of_nil
    exact .cons (.queue hk hst) (ih hidle hd)

/-- A world in which e-mails may be sent without asking. -/
def emailWorld : World where
  now := 0
  home := some (.map [("email", .map [("send", .str "autonomous")])])
  vault := .absent
  tools name :=
    if name = "email.send" then
      some { name := "email.send", domain := "email", category := "consequential" }
    else none
  event _ := none
  runtime := none
  runs := .empty
  steps := .empty
  goals := .empty
  accountError _ _ _ := none

/-- The e-mail, up to its call. -/
def authorizedEmail : List AuthorityLabel :=
  [.queue (.turn 0 (.propose (emailProposal allowed) 0)), .queue (.turn 0 (.enqueue 0)),
    .queue (.turn 0 (.lease "w-1" 30_000 0)), .queue (.turn 0 (.expire 0)), .check 0,
    .queue (.turn 0 (.begin "att-1" 0))]

/-- The e-mail is sent with authority. -/
theorem authority_in_force_email : ∃ s item r, item.actionId = "act-1" ∧
    InForce plainWorkers plainLibrary authorizedEmail s item r := by
  have h₀ : (driveAuthority plainWorkers plainLibrary 1
      (authorityMachine plainWorkers plainLibrary emailWorld).init authorizedEmail).map (fun s =>
        s.queue.calls (.turn 0 .call)) = some (some "act-1") := by
    decide +kernel
  obtain ⟨s, hd, hc⟩ := map_eq_some_iff.1 h₀
  obtain ⟨t, w, item, i, -, ht, ha⟩ := calling_of_calls hc
  obtain ⟨r, hr⟩ := authority_in_force plainWorkers plainLibrary emailWorld
    (steps_driveAuthority (fun _ _ => rfl) hd) ht
  exact ⟨s, item, r, ha, hr⟩

end U2os.Server.Agent
