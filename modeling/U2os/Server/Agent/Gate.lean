import Mathlib.Algebra.Order.Field.Rat
import Mathlib.Algebra.Order.Floor.Defs
import Mathlib.Data.Rat.Floor
import Mathlib.Order.WithBot
import U2os.Server.Policy.PolicyEngine

/-!
# The action gate

`Agent.evaluateAndMaybeExecute` (`agent/agent.js`) up to the queue: the decision of the policy
engine, then four overlays in a row (`voice/authorize.js`, the goal scope, the account binding and
`packages/authority.js`), the audit row, and the answer.

What an overlay may do is stated over *verdicts*: an action is allowed, or the owner is asked, or
it is blocked, in this order.

## Main results

* `Overlay.tightens` : no overlay takes a restriction back.
-/

namespace U2os.Server.Agent

open Policy

/-- What becomes of an action. -/
inductive Verdict where
  | allow
  | ask
  | block
  deriving DecidableEq, Repr

namespace Verdict

/-- The rank of a verdict. -/
def rank : Verdict → ℕ
  | allow => 0
  | ask => 1
  | block => 2

theorem rank_injective : Function.Injective rank := by
  intro v w h
  cases v <;> cases w <;> first | rfl | cases h

/-- Verdicts are ordered by how much they withhold. -/
instance : LinearOrder Verdict := LinearOrder.lift' rank rank_injective

@[simp] theorem allow_le (v : Verdict) : allow ≤ v := Nat.zero_le v.rank

@[simp] theorem le_block (v : Verdict) : v ≤ block := by cases v <;> decide

end Verdict

/-- The verdict of a decision. -/
def verdict (e : Evaluation) : Verdict :=
  if e.blocked then .block else if e.requiresApproval then .ask else .allow

variable {e : Evaluation}

theorem verdict_eq_allow :
    verdict e = .allow ↔ e.blocked = false ∧ e.requiresApproval = false := by
  unfold verdict
  cases e.blocked <;> cases e.requiresApproval <;> simp

theorem verdict_of_blocked (h : e.blocked = true) : verdict e = .block := by
  simp [verdict, h]

theorem verdict_of_requires (h : e.requiresApproval = true) :
    Verdict.ask ≤ verdict e := by
  unfold verdict
  cases e.blocked <;> simp [h]

/-- An overlay never takes a restriction back. -/
def Tightens (f : Evaluation → Evaluation) : Prop := ∀ e, verdict e ≤ verdict (f e)

theorem tightens_id : Tightens id := fun _ => le_rfl

theorem tightens_foldl {fs : List (Evaluation → Evaluation)} (h : ∀ f ∈ fs, Tightens f) :
    Tightens fun e => fs.foldl (fun e f => f e) e := by
  induction fs with
  | nil => exact tightens_id
  | cons f fs ih =>
    intro e
    have htail := ih (fun g hg => h g (List.mem_cons_of_mem _ hg)) (f e)
    exact (h f List.mem_cons_self e).trans htail

/-- A number of the configuration: its text and its value, which may be infinite. -/
structure Threshold where
  text : String
  value : WithBot (WithTop ℚ)

/-- `ensureVoiceConfig`. -/
structure VoiceConfig where
  standard : Threshold
  private_ : Threshold
  privateDomains : List String

/-- `voice`; the confidence is none where it is no finite number. -/
structure Voice where
  confidence : Option ℚ

def normalizeConfidence : Option ℚ → ℚ
  | none => 0
  | some q => max 0 (min 1 q)

/-- `toFixed(2)`, for a confidence. -/
def toFixed2 (q : ℚ) : String :=
  let n := ⌊q * 100 + 1 / 2⌋.toNat
  toString (n / 100) ++ "." ++ toString (n / 10 % 10) ++ toString (n % 10)

/-- `confidence < threshold`. -/
def Threshold.above (t : Threshold) (q : ℚ) : Prop := ((q : WithTop ℚ) : WithBot (WithTop ℚ)) < t.value

instance (t : Threshold) (q : ℚ) : Decidable (t.above q) := inferInstanceAs (Decidable (_ < _))

def applyVoiceAuthorization (config : VoiceConfig) (voice : Option Voice) (e : Evaluation) :
    Evaluation :=
  match voice with
  | none => e
  | some v =>
    if e.blocked then e
    else if e.autonomyLevel = .level 0 then e
    else
      let confidence := normalizeConfidence v.confidence
      if e.domain ∈ config.privateDomains ∧ config.private_.above confidence then
        { e with
          blocked := true
          requiresApproval := true
          rule := e.rule ++ "+voice:private-domain-low-confidence"
          reason := e.reason ++ " Blocked by voice authorization: \"" ++ e.domain ++
            "\" is a private domain and voice confidence " ++ toFixed2 confidence ++
            " is below the private threshold (" ++ config.private_.text ++ ")." }
      else if e.requiresApproval = false ∧ config.standard.above confidence then
        { e with
          requiresApproval := true
          rule := e.rule ++ "+voice:low-confidence"
          reason := e.reason ++
            " Forced to require approval by voice authorization: confidence " ++
            toFixed2 confidence ++ " is below the standard threshold (" ++
            config.standard.text ++ ")." }
      else e

/-- `getGoalForRun`. -/
structure GoalState where
  /-- The status, none where the goal is missing. -/
  status : Option String
  revision : Option ℕ
  runRevision : Option ℕ
  /-- `permittedScope.domains`. -/
  domains : List String
  deriving DecidableEq, Repr

/-- The goal does not cover the tool. -/
def GoalState.excludes (goal : GoalState) (tool : Tool) : Bool :=
  goal.status ≠ some "active" || goal.revision ≠ goal.runRevision || !tool.isRead ||
    !goal.domains.contains tool.domain

/-- `scopedEvaluation`. -/
def applyGoalScope (goal : Option GoalState) (tool : Tool) (e : Evaluation) : Evaluation :=
  if goal.any (·.excludes tool) ∧ e.blocked = false then
    { e with
      blocked := true
      requiresApproval := false
      reason := "Tool is outside this goal’s read-only permitted scope"
      rule := "goal-scope" }
  else e

/-- `boundEvaluation`; the error is that of the captured account. -/
def applyAccountBinding (error : Option String) (e : Evaluation) : Evaluation :=
  match error.filter (· ≠ "") with
  | some message =>
    if e.blocked then e
    else
      { e with blocked := true, requiresApproval := false, reason := message, rule := "account-binding" }
  | none => e

/-- A permission decision. -/
structure Permission where
  allowed : Bool
  missingDeclared : List String := []
  missingGrant : List String := []
  reason : Option String := none

/-- A decision of a package policy. -/
structure PackagePolicy where
  name : String
  decision : String
  reasons : List String := []

/-- `(policy.reasons || []).join('; ') || 'denied'`. -/
def PackagePolicy.denial (p : PackagePolicy) : String :=
  let reasons := "; ".intercalate p.reasons
  if reasons = "" then "denied" else reasons

structure Authority where
  packageId : String
  permission : Option Permission
  policy : Option PackagePolicy

def describeMissing : Option Permission → String
  | none => "no permission decision was made"
  | some p =>
    let part (title : String) : List String → List String
      | [] => []
      | names => [title ++ ", ".intercalate names]
    match part "not declared: " p.missingDeclared ++ part "not granted: " p.missingGrant with
    | [] => "permission denied"
    | parts => "; ".intercalate parts

/-- `Math.max(evaluation.autonomyLevel ?? 3, 3)`, where it is a number. -/
def AutonomyLevel.raise : AutonomyLevel → AutonomyLevel
  | .level n => .level (max n 3)
  | .native => .native

def applyPackageAuthority (authority : Option Authority) (e : Evaluation) : Evaluation :=
  match authority with
  | none => e
  | some a =>
    if e.blocked then e
    else if a.permission.any (·.allowed) = false then
      { e with
        blocked := true
        requiresApproval := false
        rule := "package-permission"
        reason := "Package " ++ a.packageId ++ " may not do this: " ++
          (((a.permission.bind (·.reason)).filter (· ≠ "")).getD (describeMissing a.permission)) ++
          "." }
    else
      match a.policy with
      | none => e
      | some p =>
        if p.decision = "deny" then
          { e with
            blocked := true
            requiresApproval := false
            rule := "package-policy:" ++ p.name
            reason := "Package policy " ++ p.name ++ " does not allow this action (" ++
              p.denial ++ ")." }
        else if p.decision ≠ "automatic" ∧ e.requiresApproval = false then
          { e with
            requiresApproval := true
            autonomyLevel := AutonomyLevel.raise e.autonomyLevel
            rule := e.rule ++ "+package-policy:" ++ p.name
            reason := e.reason ++ " Package policy " ++ p.name ++ " requires your approval." }
        else e

/-- What the gate reads besides the policy table. -/
structure GateInput where
  voiceConfig : VoiceConfig
  voice : Option Voice
  /-- The goal of the run, if it has one. -/
  goal : Option GoalState
  /-- `accountState?.error`. -/
  bindingError : Option String
  authority : Option Authority
  /-- `isCancellationRequested(runId)`. -/
  cancelled : Bool

/-- The four overlays in their order. -/
def GateInput.overlay (x : GateInput) (tool : Tool) (e : Evaluation) : Evaluation :=
  applyPackageAuthority x.authority <| applyAccountBinding x.bindingError <|
    applyGoalScope x.goal tool <| applyVoiceAuthorization x.voiceConfig x.voice e

/-- What the gate does with an action, after its audit row is written. -/
inductive GateOutcome where
  | cancelled
  | blocked
  | pending
  /-- `enqueueAction({ approvalReference: 'autonomous' })`. -/
  | enqueued
  deriving DecidableEq, Repr

/-- `recordAudit`: a level that is no number cannot be stored. -/
def recordAudit (e : Evaluation) : Except String Unit :=
  match e.autonomyLevel with
  | .level _ => .ok ()
  | .native => .error "Provided value cannot be bound to SQLite parameter"

/-- `evaluateAndMaybeExecute`, up to the queue. -/
def evaluateAndMaybeExecute (L : Library grants) (policies : Policies) (tool : Tool)
    (context : EvalContext) (x : GateInput) : Except String GateOutcome := do
  let raw ← policies.evaluate L tool context
  let e := x.overlay tool raw
  recordAudit e
  if x.cancelled then return .cancelled
  if e.blocked then return .blocked
  if e.requiresApproval then return .pending
  return .enqueued

/-- One of the four overlays. -/
inductive Overlay (tool : Tool) : (Evaluation → Evaluation) → Prop
  | voice (config : VoiceConfig) (voice : Option Voice) :
    Overlay tool (applyVoiceAuthorization config voice)
  | goal (goal : Option GoalState) : Overlay tool (applyGoalScope goal tool)
  | binding (error : Option String) : Overlay tool (applyAccountBinding error)
  | package (authority : Option Authority) : Overlay tool (applyPackageAuthority authority)

theorem le_verdict_of_blocked {e' : Evaluation} (h : e'.blocked = true) :
    verdict e ≤ verdict e' := by
  rw [verdict_of_blocked h]
  exact Verdict.le_block _

theorem le_verdict_of_requires {e' : Evaluation} (hb : e.blocked = false)
    (he : e'.requiresApproval = true) : verdict e ≤ verdict e' := by
  refine le_trans ?_ (verdict_of_requires he)
  unfold verdict
  simp only [hb, Bool.false_eq_true, if_false]
  split_ifs
  · exact le_rfl
  · exact Verdict.allow_le _

theorem applyVoiceAuthorization_tightens (config : VoiceConfig) (voice : Option Voice) :
    Tightens (applyVoiceAuthorization config voice) := by
  intro e
  unfold applyVoiceAuthorization
  split
  · exact le_rfl
  · split_ifs with hb
    · exact le_rfl
    · exact le_rfl
    · dsimp only
      split_ifs
      · exact le_verdict_of_blocked rfl
      · exact le_verdict_of_requires (by simpa using hb) rfl
      · exact le_rfl

theorem applyGoalScope_tightens (goal : Option GoalState) (tool : Tool) :
    Tightens (applyGoalScope goal tool) := by
  intro e
  unfold applyGoalScope
  split_ifs
  · exact le_verdict_of_blocked rfl
  · exact le_rfl

theorem applyAccountBinding_tightens (error : Option String) :
    Tightens (applyAccountBinding error) := by
  intro e
  unfold applyAccountBinding
  split
  · split_ifs
    · exact le_rfl
    · exact le_verdict_of_blocked rfl
  · exact le_rfl

/-- The authority of a package tightens every decision. -/
theorem applyPackageAuthority_tightens (authority : Option Authority) :
    Tightens (applyPackageAuthority authority) := by
  intro e
  unfold applyPackageAuthority
  split
  · exact le_rfl
  · split_ifs with hb
    · exact le_rfl
    · exact le_verdict_of_blocked rfl
    · split
      · exact le_rfl
      · split_ifs
        · exact le_verdict_of_blocked rfl
        · exact le_verdict_of_requires (by simpa using hb) rfl
        · exact le_rfl

theorem Overlay.tightens {tool : Tool} {f : Evaluation → Evaluation} (h : Overlay tool f) :
    Tightens f := by
  cases h with
  | voice config voice => exact applyVoiceAuthorization_tightens config voice
  | goal goal => exact applyGoalScope_tightens goal tool
  | binding error => exact applyAccountBinding_tightens error
  | package authority => exact applyPackageAuthority_tightens authority

/-- No overlay objects to a decision: the voice overlay leaves it as it is, the goal covers the
tool, the account was captured, and the package is permitted and its policy automatic. -/
structure GateInput.Unopposed (x : GateInput) (tool : Tool) (e : Evaluation) : Prop where
  voice : applyVoiceAuthorization x.voiceConfig x.voice e = e
  goal : x.goal.any (·.excludes tool) = false
  binding : x.bindingError.filter (· ≠ "") = none
  package : ∀ a, x.authority = some a →
    a.permission.any (·.allowed) = true ∧ ∀ p, a.policy = some p → p.decision = "automatic"

theorem voice_eq_of_allow {config : VoiceConfig} {voice : Option Voice}
    (h : verdict (applyVoiceAuthorization config voice e) = .allow) :
    applyVoiceAuthorization config voice e = e := by
  rw [verdict_eq_allow] at h
  unfold applyVoiceAuthorization at h ⊢
  split at h
  · rfl
  · split_ifs at h ⊢ with hb hl
    · rfl
    · rfl
    · dsimp only at h ⊢
      split_ifs at h ⊢
      · cases h.1
      · cases h.2
      · rfl

theorem goal_of_allow {goal : Option GoalState} {tool : Tool}
    (h : verdict (applyGoalScope goal tool e) = .allow) :
    applyGoalScope goal tool e = e ∧ goal.any (·.excludes tool) = false := by
  rw [verdict_eq_allow] at h
  unfold applyGoalScope at h ⊢
  split_ifs at h ⊢ with hg
  · cases h.1
  · exact ⟨rfl, Bool.eq_false_iff.2 fun hx => hg ⟨hx, h.1⟩⟩

theorem binding_of_allow {error : Option String}
    (h : verdict (applyAccountBinding error e) = .allow) :
    applyAccountBinding error e = e ∧ error.filter (· ≠ "") = none := by
  rw [verdict_eq_allow] at h
  unfold applyAccountBinding at h ⊢
  split at h
  · split_ifs at h with hb
    · rw [hb] at h
      cases h.1
    · cases h.1
  · next hnone => exact ⟨rfl, hnone⟩

/-- What is allowed in the end was allowed by the authority as it is. -/
theorem package_of_allow {authority : Option Authority}
    (h : verdict (applyPackageAuthority authority e) = .allow) :
    applyPackageAuthority authority e = e ∧ ∀ a, authority = some a →
      a.permission.any (·.allowed) = true ∧ ∀ p, a.policy = some p → p.decision = "automatic" := by
  rw [verdict_eq_allow] at h
  unfold applyPackageAuthority at h ⊢
  split at h
  · exact ⟨rfl, by simp⟩
  · next a =>
    split_ifs at h ⊢ with hb hperm
    · rw [hb] at h
      cases h.1
    · cases h.1
    · rw [Bool.not_eq_false] at hperm
      split at h
      · next hnone =>
        refine ⟨rfl, ?_⟩
        rintro _ ⟨⟩
        exact ⟨hperm, by simp [hnone]⟩
      · next p hp =>
        split_ifs at h with hdeny hauto
        · cases h.1
        · cases h.2
        · -- neither denied nor asked about, so the policy is automatic
          have hdec : p.decision = "automatic" := by
            by_contra hne
            exact hauto ⟨hne, h.2⟩
          refine ⟨by simp [hdec], ?_⟩
          rintro _ ⟨⟩
          refine ⟨hperm, fun q hq => ?_⟩
          obtain rfl : p = q := Option.some_inj.1 (hp.symm.trans hq)
          exact hdec

theorem GateInput.unopposed_of_allow {x : GateInput} {tool : Tool}
    (h : verdict (x.overlay tool e) = .allow) : x.Unopposed tool e ∧ verdict e = .allow := by
  unfold GateInput.overlay at h
  obtain ⟨hp, hpackage⟩ := package_of_allow h
  rw [hp] at h
  obtain ⟨hb, hbinding⟩ := binding_of_allow h
  rw [hb] at h
  obtain ⟨hg, hgoal⟩ := goal_of_allow h
  rw [hg] at h
  have hv := voice_eq_of_allow h
  rw [hv] at h
  exact ⟨⟨hv, hgoal, hbinding, hpackage⟩, h⟩

section Promise

variable {L : Library grants} {policies : Policies} {tool : Tool} {context : EvalContext}

/-- An action is enqueued at once just where nothing asks and nobody has cancelled. -/
theorem enqueued_iff {x : GateInput} :
    evaluateAndMaybeExecute L policies tool context x = .ok .enqueued ↔
      ∃ e, policies.evaluate L tool context = .ok e ∧ recordAudit (x.overlay tool e) = .ok () ∧
        x.cancelled = false ∧ verdict (x.overlay tool e) = .allow := by
  unfold evaluateAndMaybeExecute
  cases heval : policies.evaluate L tool context with
  | error message => simp [bind, Except.bind]
  | ok e =>
    simp only [bind, Except.bind, Except.ok.injEq, exists_eq_left', verdict_eq_allow]
    cases haudit : recordAudit (x.overlay tool e) with
    | error message => simp
    | ok =>
      cases x.cancelled <;> cases (x.overlay tool e).blocked <;>
        cases (x.overlay tool e).requiresApproval <;> simp [pure, Except.pure]

variable (L policies tool context)

/-- What the gate promises for a tool under a table: it enqueues an action without asking only for
a read tool or where a valid table says so and no overlay objects, and overlays tighten in any
order. -/
structure OnlyTightens : Prop where
  granted : ∀ x, evaluateAndMaybeExecute L policies tool context x = .ok .enqueued →
    tool.isRead = true ∨ policies.vaultInvalid = false ∧ policies.Granted L tool context
  unopposed : ∀ x, evaluateAndMaybeExecute L policies tool context x = .ok .enqueued →
    ∃ e, policies.evaluate L tool context = .ok e ∧ x.Unopposed tool e
  overlays : ∀ fs : List (Evaluation → Evaluation), (∀ f ∈ fs, Overlay tool f) →
    Tightens fun e => fs.foldl (fun e f => f e) e

/-- An action of the owner, with nothing that could object. -/
def GateInput.plain : GateInput where
  voiceConfig := ⟨⟨"0.85", ((85 / 100 : ℚ) : WithTop ℚ)⟩, ⟨"0.95", ((95 / 100 : ℚ) : WithTop ℚ)⟩, []⟩
  voice := none
  goal := none
  bindingError := none
  authority := none
  cancelled := false

@[simp] theorem GateInput.plain_overlay (tool : Tool) (e : Evaluation) :
    GateInput.plain.overlay tool e = e := by
  simp [GateInput.overlay, GateInput.plain, applyVoiceAuthorization, applyGoalScope,
    applyAccountBinding, applyPackageAuthority]

/-- **The gate only tightens, but for misread entries.**  The gate keeps its promise for a tool
and a category if and only if the tool is a read tool or the entry of the table is not misread. -/
theorem gate_only_tightens :
    OnlyTightens L policies tool context ↔
      (tool.isRead = true ∨ ¬policies.Misread L tool context) := by
  constructor
  · intro h
    by_contra hcon
    obtain ⟨hread, hmis⟩ := not_or.1 hcon
    rw [not_not] at hmis
    obtain ⟨e, heval, hb, hask, n, hn⟩ :=
      policies.evaluate_misread (by simpa using hread) hmis
    have henq : evaluateAndMaybeExecute L policies tool context .plain = .ok .enqueued := by
      refine enqueued_iff.2 ⟨e, heval, ?_, rfl, ?_⟩
      · simp [recordAudit, hn]
      · rw [GateInput.plain_overlay, verdict_eq_allow]
        exact ⟨hb, hask⟩
    obtain ⟨place, value, hentry, hgrant, _⟩ := hmis
    rcases h.granted _ henq with hr | ⟨_, place', value', hentry', hgrant'⟩
    · exact hread hr
    · obtain ⟨rfl, rfl⟩ : place = place' ∧ value = value' := by
        simpa using hentry.symm.trans hentry'
      rw [hgrant] at hgrant'
      cases hgrant'
  · intro hmis
    constructor
    · intro x hx
      obtain ⟨e, heval, _, _, hallow⟩ := enqueued_iff.1 hx
      have hask := (verdict_eq_allow.1 (GateInput.unopposed_of_allow hallow).2).2
      rcases policies.evaluate_allows heval hask with hr | hg | hm
      · exact .inl hr
      · exact .inr hg
      · exact hmis.imp id fun hn => absurd hm hn
    · intro x hx
      obtain ⟨e, heval, _, _, hallow⟩ := enqueued_iff.1 hx
      exact ⟨e, heval, (GateInput.unopposed_of_allow hallow).1⟩
    · exact fun fs hfs => tightens_foldl fun f hf => (hfs f hf).tightens

end Promise

/-- A plain object of the language.  The name of a function is left out of its text. -/
def plainLibrary : Library grants where
  get v k :=
    match v with
    | .undefined | .data .null => .undefined
    | _ =>
      if k = "__proto__" then .native "[object Object]" false
      else if k ∈ objectPrototype then .native "function () { [native code] }" true
      else .undefined
  plain v k t h := by
    -- the three texts that can be read are none of the two words
    suffices ht : t = "undefined" ∨ t = "[object Object]" ∨ t = "function () { [native code] }" by
      rcases ht with rfl | rfl | rfl <;> decide
    split at h
    · exact .inl (Option.some_inj.1 h).symm
    · exact .inl (Option.some_inj.1 h).symm
    · split_ifs at h
      · exact .inr (.inl (Option.some_inj.1 h).symm)
      · exact .inr (.inr (Option.some_inj.1 h).symm)
      · exact .inl (Option.some_inj.1 h).symm
  inherited es k := by
    dsimp only
    split_ifs
    · exact .inr ⟨_, _, rfl⟩
    · exact .inr ⟨_, _, rfl⟩
    · exact .inl rfl

/-- `calendar: { reschedule: { default: [always] } }`. -/
def listedHome : Yaml :=
  .map [("calendar", .map [("reschedule", .map [("default", .seq [.str "always"])])])]

/-- The vault file cannot be parsed, the home file has a list where a level belongs: the action is
enqueued without asking. -/
theorem listed_level_enqueued :
    let policies := loadPolicies listedHome .unreadable
    let tool : Tool :=
      { name := "calendar.reschedule", domain := "calendar", category := "consequential" }
    let context : EvalContext := { category := some "personal" }
    policies.vaultInvalid = true ∧
      evaluateAndMaybeExecute plainLibrary policies tool context .plain = .ok .enqueued ∧
      ¬OnlyTightens plainLibrary policies tool context := by
  intro policies tool context
  have henq : evaluateAndMaybeExecute plainLibrary policies tool context .plain = .ok .enqueued := by
    decide
  refine ⟨rfl, henq, fun h => ?_⟩
  rcases h.granted _ henq with hread | ⟨hvalid, _⟩
  · cases hread
  · cases hvalid

end U2os.Server.Agent
