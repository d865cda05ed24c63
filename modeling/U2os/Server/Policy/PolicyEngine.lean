import U2os.Lib.Property

/-!
# The policy engine

`policy/policies-loader.js` and the decision of `policy/policy-engine.js`: the home policy is
overlaid by the vault policy, and the rule of a tool is found by indexing the table with the
domain and the operation of the tool and the category of its target.

Both files arrive parsed.  Reading them, the default home policy and the status for the vault API
are left out.
-/

namespace U2os.Server.Policy

/-- The words that let a tool run without asking. -/
def grants : List String := ["always", "autonomous"]

/-- The keys of `LEVELS`. -/
def levelKeys : List String := ["always", "autonomous", "confirm", "never"]

/-- The vault policy file. -/
inductive VaultFile where
  | absent
  /-- No regular file, too large, or no YAML. -/
  | unreadable
  | content (v : Yaml)

/-- The levels of a rule: its own, or those of its sub-categories. -/
def ruleLevels : Yaml → List Yaml
  | .str s => [.str s]
  | v => if v.isMapping then v.entries.map Prod.snd else [.null]

/-- The value is one of the four levels. -/
def isLevel : Yaml → Bool
  | .str s => levelKeys.contains s
  | _ => false

def validatePolicies (policies : Yaml) : Except String Unit := do
  unless policies.isMapping do throw "policies.yaml must map domains to operations"
  for (domain, operations) in policies.entries do
    unless operations.isMapping do throw (domain ++ ": must map operations to policy levels")
    for (operation, rule) in operations.entries do
      unless (ruleLevels rule).all isLevel do
        throw (domain ++ "." ++ operation ++ ": use always, autonomous, confirm or never")

/-- The policy table in force. -/
structure Policies where
  value : Yaml
  /-- The entries of the prototype that a vault domain `__proto__` installs. -/
  proto : List (String × Yaml) := []
  /-- `VAULT_POLICY_INVALID`. -/
  vaultInvalid : Bool := false

/-- One domain of the vault policy replaces the operations it names. -/
def overlayDomain (home : Yaml) (merged : Policies) (domain : String) (operations : Yaml) :
    Policies :=
  let own := (Yaml.lookup home.entries domain).elim [] fun v =>
    if v.isMapping then v.entries else []
  let both := Yaml.spread own operations.entries
  -- an assignment to `__proto__` creates no entry
  if domain = "__proto__" ∧ (Yaml.lookup merged.value.entries domain).isNone then
    { merged with proto := both }
  else { merged with value := .map (Yaml.assign domain (.map both) merged.value.entries) }

def loadPolicies (home : Yaml) (vault : VaultFile) : Policies :=
  let home := if home.truthy then home else .map []
  let invalid : Policies := { value := .map home.entries, vaultInvalid := true }
  match vault with
  | .absent => { value := home }
  | .unreadable => invalid
  | .content v =>
    let v := match v with
      | .null => .map []
      | v => v
    match validatePolicies v with
    | .error _ => invalid
    | .ok () =>
      v.entries.foldl (fun merged p => overlayDomain home merged p.1 p.2)
        { value := .map home.entries }

/-- `policies?.[k]`. -/
def Policies.get (L : Library grants) (policies : Policies) (k : String) : JsValue :=
  match policies.value with
  | .map es =>
    match Yaml.lookup es k <|> Yaml.lookup policies.proto k with
    | some v => .data v
    | none => L.get (.data (.map es)) k
  | v => (JsValue.data v).get L k

/-- A tool, as the decision reads it. -/
structure Tool where
  name : String
  domain : String
  category : String
  /-- `supportsIdempotency === true`. -/
  supportsIdempotency : Bool := false
  deriving DecidableEq, Repr

/-- The tool only reads. -/
def Tool.isRead (tool : Tool) : Bool := tool.category = "read"

/-- `tool.name.split('.')[1]`, as a property name. -/
def Tool.operation (tool : Tool) : String :=
  ((tool.name.toList.splitOn '.')[1]?.map String.ofList).getD "undefined"

/-- `domain.operation`. -/
def Tool.path (tool : Tool) : String := tool.domain ++ "." ++ tool.operation

/-- What the server knows about the target of an action. -/
structure EvalContext where
  category : Option String := none
  /-- `event.category`. -/
  eventCategory : Option String := none

/-- `resolveSubCategory`: an empty category is none. -/
def EvalContext.subCategory (context : EvalContext) : Option String :=
  (context.category.filter (· ≠ "")) <|> (context.eventCategory.filter (· ≠ ""))

/-- A property that is there. -/
def defined? : JsValue → Option JsValue
  | .undefined => none
  | v => some v

/-- What the table has for a tool and a category. -/
inductive TableEntry where
  /-- No policy is configured. -/
  | missing
  /-- Sub-categories, none of which applies, or no rule at all. -/
  | fallback
  /-- A level key, and what its place adds to the path of the tool. -/
  | key (place : String) (value : JsValue)

/-- The entry of a tool: a level for the operation, or one for the category of the target. -/
def tableEntry (L : Library grants) (policies : Policies) (tool : Tool) (context : EvalContext) :
    TableEntry :=
  let opPolicy := (policies.get L tool.domain).get L tool.operation
  match opPolicy with
  | .undefined => .missing
  | .data (.str s) => .key "" (.str s)
  | _ =>
    if opPolicy.isObject then
      match context.subCategory with
      | none => .fallback
      | some sub =>
        match defined? (opPolicy.get L sub), defined? (opPolicy.get L "default") with
        | some value, _ => .key ("." ++ sub) value
        | none, some value => .key ".default" value
        | none, none => .fallback
    else .fallback

/-- The level key of a tool and its rule; none where no policy is configured.  A rule whose key
has no text cannot be named, and the evaluation throws. -/
def resolveRule (L : Library grants) (policies : Policies) (tool : Tool) (context : EvalContext) :
    Except String (Option (JsValue × String)) :=
  match tableEntry L policies tool context with
  | .missing => .ok none
  | .fallback => .ok (some (.str "confirm", tool.path ++ ":fallback-confirm"))
  | .key place value =>
    match value.text with
    | some t => .ok (some (value, tool.path ++ place ++ ":" ++ t))
    | none => .error "Cannot convert object to primitive value"

/-- `autonomyLevel`: a key such as `constructor` finds a function in `LEVELS`. -/
inductive AutonomyLevel where
  | level (n : ℕ)
  | native
  deriving DecidableEq, Repr

/-- A decision about an action; `requiresApproval` is what a condition makes of it. -/
structure Evaluation where
  autonomyLevel : AutonomyLevel
  requiresApproval : Bool
  blocked : Bool
  domain : String
  rule : String
  reason : String
  deriving DecidableEq, Repr

/-- `LEVELS[levelKey] ?? 3`. -/
def autonomyLevel (L : Library grants) (key : String) : AutonomyLevel :=
  match key with
  | "always" => .level 0
  | "autonomous" => .level 4
  | "confirm" => .level 3
  | "never" => .level 5
  | key =>
    match L.get (.data (.map [])) key with
    | .undefined => .level 3
    | _ => .native

/-- `REQUIRES_APPROVAL[levelKey] ?? true`. -/
def requiresApproval (key : String) : Bool :=
  match key with
  | "always" | "autonomous" => false
  | _ => true

/-- `describeReason`; the switch compares without conversion. -/
def describeReason (key : JsValue) (path : String) : String :=
  match key with
  | .data (.str "always") => path ++ " is always allowed."
  | .data (.str "autonomous") => path ++ " is configured for delegated autonomy."
  | .data (.str "confirm") => path ++ " requires explicit confirmation per policy."
  | .data (.str "never") => path ++ " is blocked by policy (never)."
  | key => path ++ " defaulted to confirm (unrecognized policy value \"" ++ key.text.getD "" ++ "\")."

/-- The decision about a read tool. -/
def readEvaluation (tool : Tool) : Evaluation where
  autonomyLevel := .level 0
  requiresApproval := false
  blocked := false
  domain := tool.domain
  rule := "read:always"
  reason := "Read-only tools are always allowed in Phase 1."

/-- The decision where no policy is configured. -/
def missingEvaluation (tool : Tool) : Evaluation where
  autonomyLevel := .level 3
  requiresApproval := true
  blocked := false
  domain := tool.domain
  rule := tool.path ++ ":missing"
  reason := "No policy configured for " ++ tool.path ++ "; defaulting to confirm."

/-- `levelKey === 'always' || levelKey === 'autonomous'`. -/
def isGrant : JsValue → Bool
  | .data (.str s) => grants.contains s
  | _ => false

/-- `levelKey === 'never'`. -/
def isNever : JsValue → Bool
  | .data (.str s) => s = "never"
  | _ => false

/-- The mark of a rule that a broken vault policy replaced. -/
def invalidMark : String := ":vault-policy-invalid"

/-- Where the vault policy is broken, a level that asks for nothing is replaced. -/
def guardInvalid (vaultInvalid : Bool) (key : JsValue) (rule : String) : JsValue × String :=
  if vaultInvalid ∧ isGrant key then (.str "confirm", rule ++ invalidMark) else (key, rule)

/-- The decision of a rule. -/
def ruleEvaluation (L : Library grants) (vaultInvalid : Bool) (tool : Tool) (key : JsValue)
    (rule : String) : Evaluation :=
  let (key, rule) := guardInvalid vaultInvalid key rule
  { autonomyLevel := autonomyLevel L (key.text.getD "")
    requiresApproval := requiresApproval (key.text.getD "")
    blocked := isNever key
    domain := tool.domain
    rule := rule
    reason :=
      if invalidMark.toList.isSuffixOf rule.toList then
        "Your vault policies.yaml is invalid, so " ++ tool.path ++
          " requires confirmation until it is fixed."
      else describeReason key tool.path }

/-- `PolicyEngine.evaluate`, after `refresh`. -/
def Policies.evaluate (L : Library grants) (policies : Policies) (tool : Tool)
    (context : EvalContext) : Except String Evaluation :=
  if tool.isRead then .ok (readEvaluation tool)
  else
    (resolveRule L policies tool context).map fun r =>
      match r with
      | none => missingEvaluation tool
      | some (key, rule) => ruleEvaluation L policies.vaultInvalid tool key rule

/-- The entry of a tool is one of the two levels that ask for nothing. -/
def Policies.Granted (L : Library grants) (policies : Policies) (tool : Tool)
    (context : EvalContext) : Prop :=
  ∃ place value, tableEntry L policies tool context = .key place value ∧ isGrant value = true

/-- The entry of a tool is no string, but it reads as one of the two levels: in YAML, a list
around the level, or a list around such a list. -/
def Policies.Misread (L : Library grants) (policies : Policies) (tool : Tool)
    (context : EvalContext) : Prop :=
  ∃ place value, tableEntry L policies tool context = .key place value ∧
    isGrant value = false ∧ ∃ t ∈ grants, value.text = some t

variable {L : Library grants} {policies : Policies} {tool : Tool} {context : EvalContext}

theorem requiresApproval_eq_false {key : String} (h : requiresApproval key = false) :
    key ∈ grants := by
  unfold requiresApproval at h
  split at h
  · exact List.mem_cons_self
  · exact List.mem_cons_of_mem _ List.mem_cons_self
  · cases h

theorem requiresApproval_of_mem {key : String} (h : key ∈ grants) :
    requiresApproval key = false := by
  simp only [grants, List.mem_cons, List.not_mem_nil, or_false] at h
  rcases h with rfl | rfl <;> rfl

theorem autonomyLevel_of_mem {key : String} (h : key ∈ grants) :
    ∃ n, autonomyLevel L key = .level n := by
  simp only [grants, List.mem_cons, List.not_mem_nil, or_false] at h
  rcases h with rfl | rfl
  · exact ⟨0, rfl⟩
  · exact ⟨4, rfl⟩

theorem isNever_eq_false {value : JsValue} {t : String} (ht : t ∈ grants)
    (htext : value.text = some t) : isNever value = false := by
  unfold isNever
  split
  · next s =>
    obtain rfl : s = t := by simpa [JsValue.text, Yaml.text] using htext
    simp only [grants, List.mem_cons, List.not_mem_nil, or_false] at ht
    rcases ht with rfl | rfl <;> rfl
  · rfl

/-- **A decision that asks for nothing** is about a read tool, or comes from a level of a table
with a valid vault policy, or from a misread entry. -/
theorem Policies.evaluate_allows {e : Evaluation}
    (h : policies.evaluate L tool context = .ok e) (hask : e.requiresApproval = false) :
    tool.isRead = true ∨ (policies.vaultInvalid = false ∧ policies.Granted L tool context) ∨
      policies.Misread L tool context := by
  unfold Policies.evaluate at h
  split_ifs at h with hread
  · exact .inl hread
  · refine .inr ?_
    unfold resolveRule at h
    split at h
    · cases h
      cases hask
    · cases h
      simp [ruleEvaluation, guardInvalid, isGrant, grants, JsValue.text, Yaml.text,
        requiresApproval] at hask
    · next place value hentry =>
      split at h
      · next t ht =>
        cases h
        dsimp only [ruleEvaluation, guardInvalid] at hask
        split_ifs at hask with hinvalid
        · simp [JsValue.text, Yaml.text, requiresApproval] at hask
        have hmem : t ∈ grants := requiresApproval_eq_false (by simpa [ht] using hask)
        cases hgrant : isGrant value with
        | true =>
          refine .inl ⟨?_, place, value, hentry, hgrant⟩
          exact Bool.eq_false_iff.2 fun hv => hinvalid ⟨hv, hgrant⟩
        | false => exact .inr ⟨place, value, hentry, hgrant, t, hmem, ht⟩
      · cases h

/-- A level that is misread lets the tool run. -/
theorem Policies.evaluate_misread (hread : tool.isRead = false)
    (h : policies.Misread L tool context) :
    ∃ e, policies.evaluate L tool context = .ok e ∧ e.blocked = false ∧
      e.requiresApproval = false ∧ ∃ n, e.autonomyLevel = .level n := by
  obtain ⟨place, value, hentry, hgrant, t, hmem, ht⟩ := h
  refine ⟨ruleEvaluation L policies.vaultInvalid tool value (tool.path ++ place ++ ":" ++ t), ?_⟩
  have heval : policies.evaluate L tool context =
      .ok (ruleEvaluation L policies.vaultInvalid tool value (tool.path ++ place ++ ":" ++ t)) := by
    simp [Policies.evaluate, hread, resolveRule, hentry, ht, Except.map]
  have hrule : ¬(policies.vaultInvalid = true ∧ isGrant value = true) := by simp [hgrant]
  rw [ruleEvaluation, guardInvalid, if_neg hrule] at heval ⊢
  exact ⟨heval, isNever_eq_false hmem ht, by simp [ht, requiresApproval_of_mem hmem],
    by simpa [ht] using autonomyLevel_of_mem hmem⟩

end U2os.Server.Policy
