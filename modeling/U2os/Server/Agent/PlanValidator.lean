import U2os.Lib.Fallible
import U2os.Lib.ParsedJson

/-!
# Validation of plans

No plan of a model reaches the policy unless it passes here (`agent/plan-validator.js`): each action
names a registered tool, its arguments are those that the tool declares, and the plan is bounded in
breadth and depth.  A plan that fails may be repaired once, at its top level.

The members of a plan and the properties of a schema are looked up with `in`, so the members of
`Object.prototype` count as declared and as given.  What is admitted is what the plan promises just
where no argument is named like one of these.
-/

namespace U2os.Server.Agent.PlanValidator

open Fallible ParsedJson List Option Assoc

/-- The type of a property: its name, or the text of a value that is no text. -/
inductive SchemaType where
  | name (s : String)
  | other (text : String)

/-- The schema of the arguments of a tool. -/
structure Schema where
  required : List String
  /-- Each property with its type, if it has one. -/
  properties : List (String × Option SchemaType)

/-- A tool: its schema and its own check. -/
structure Tool where
  schema : Schema
  validateArguments : List (String × ParsedJson) → Except String Unit

structure Registry where
  tools : List (String × Tool)
  hidden : List String

def Registry.get (registry : Registry) (name : String) : Except String Tool :=
  match Assoc.get? registry.tools name with
  | some tool => .ok tool
  | none => .error ("Unknown tool: " ++ name)

def maxActions : ℕ := 10

def maxArgDepth : ℕ := 4

def maxMemoryCandidates : ℕ := 20

def knownPlanKeys : List String :=
  ["reasoning_summary", "actions", "memoryCandidates", "response", "continue"]

def knownActionKeys : List String :=
  ["tool", "arguments", "reason", "dependsOn", "resultRefs", "priorResultRefs"]

def confidenceLevels : List String := ["low", "medium", "high"]

/-- The names that no reference has. -/
def reservedNames : List String := ["__proto__", "prototype", "constructor"]

/-- What must hold, or an error. -/
def ensure (p : Prop) [Decidable p] (message : String) : Except String Unit :=
  if p then .ok () else .error message

/-- Every key is a known one, or an error about the first that is not. -/
def ensureKnown (known keys : List String) (message : String → String) : Except String Unit :=
  match keys.find? fun key => !known.contains key with
  | some key => .error (message key)
  | none => .ok ()

/-- The value is absent, or passes. -/
def optionally (v : Option ParsedJson) (check : ParsedJson → Except String Unit) : Except String Unit :=
  match v with
  | none => .ok ()
  | some v => check v

/-- The value is a text. -/
def isStr (v : ParsedJson) : Bool := v.typeOf == "string"

mutual
/-- `exceedsDepth`, of a value at a depth. -/
def exceedsDepth (limit depth : ℕ) : ParsedJson → Bool
  | .arr items => limit < depth || exceedsDepthItems limit depth items
  | .obj entries => limit < depth || exceedsDepthEntries limit depth entries
  | _ => limit < depth
/-- That of the items of an array. -/
def exceedsDepthItems (limit depth : ℕ) : List ParsedJson → Bool
  | [] => false
  | v :: vs => exceedsDepth limit (depth + 1) v || exceedsDepthItems limit depth vs
/-- That of the values of an object. -/
def exceedsDepthEntries (limit depth : ℕ) : List (String × ParsedJson) → Bool
  | [] => false
  | e :: es => exceedsDepthEntry limit depth e || exceedsDepthEntries limit depth es
/-- That of one value of an object. -/
def exceedsDepthEntry (limit depth : ℕ) : String × ParsedJson → Bool
  | (_, v) => exceedsDepth limit (depth + 1) v
end

/-- `matchesType`, for the type of a property: none and the empty name match all. -/
def matchesType (value : ParsedJson) : Option SchemaType → Bool
  | none | some (.name "") => true
  | some (.name "array") => match value with
    | .arr _ => true
    | _ => false
  | some (.name "object") => value.isObject
  | some (.name "number") => match value with
    | .num (.finite _) => true
    | _ => false
  | some (.name "integer") => value.integer?.isSome
  | some (.name type) => value.typeOf == type
  | some (.other _) => false

def typeText : Option SchemaType → String
  | none => ""
  | some (.name s) | some (.other s) => s

def validateArguments (args : List (String × ParsedJson)) (schema : Schema) (toolName : String) :
    Except String Unit := do
  ensureKnown ((args.map Prod.fst) ++ objectPrototype) schema.required fun key =>
    "Model action " ++ toolName ++ " is missing required argument " ++ key
  args.forM fun e => do
    ensure (hasProperty schema.properties e.1)
      ("Model action " ++ toolName ++ " contains unknown argument " ++ e.1)
    -- an inherited member has no type
    let type := (Assoc.get? schema.properties e.1).join
    ensure (matchesType e.2 type)
      ("Model action " ++ toolName ++ "." ++ e.1 ++ " must be " ++ typeText type)

/-- `[a-zA-Z_][a-zA-Z0-9_]*`. -/
def isName : List Char → Bool
  | c :: cs => (c.isAlpha || c == '_') && cs.all fun d => d.isAlphanum || d == '_'
  | [] => false

/-- The path of a reference, of at most three parts. -/
def isPath (path : String) : Bool :=
  match path.toList.splitOn '.' with
  | first :: rest =>
    decide (path.length ≤ 128) && decide (rest.length ≤ 2) && isName first &&
      (rest.all fun part => isName part || (part ≠ [] && part.all Char.isDigit)) &&
      (first :: rest).all fun part => !reservedNames.contains (String.ofList part)
  | [] => false

/-- The value is the text of a path. -/
def hasPath (ref : ParsedJson) : Bool :=
  match ref.get? "path" with
  | some (.str path) => isPath path
  | _ => false

/-- The value of a key is an integer of the range. -/
def hasInteger (ref : ParsedJson) (key : String) (p : ℤ → Bool) : Bool :=
  ((ref.get? key).bind integer?).any p

/-- `^act_[a-zA-Z0-9_]{1,100}$`. -/
def isActionId (v : Option ParsedJson) : Bool :=
  match v with
  | some (.str s) =>
    let rest := s.toList.drop 4
    s.toList.take 4 == "act_".toList && decide (1 ≤ rest.length ∧ rest.length ≤ 100) &&
      rest.all fun c => c.isAlphanum || c == '_'
  | _ => false

/-- Every reference of an object stands for an own argument and passes the check. -/
def validateRefs (field : String) (most : ℕ) (known : List String) (check : ParsedJson → Bool)
    (args : List (String × ParsedJson)) (toolName : String) (refs : ParsedJson) :
    Except String Unit := do
  ensure (refs.isObject ∧ refs.keys.length ≤ most)
    ("Model action " ++ toolName ++ "." ++ field ++ " must be a bounded object")
  let entries := match refs with
    | .obj entries => entries
    | _ => []
  entries.forM fun e =>
    ensure ((Assoc.get? args e.1).isSome ∧ e.1 ∉ reservedNames ∧ e.2.isObject ∧
        (∀ key ∈ e.2.keys, key ∈ known) ∧ check e.2)
      ("Model action " ++ toolName ++ "." ++ field ++ " contains an invalid reference")

def validateResultRefs : List (String × ParsedJson) → String → ParsedJson → Except String Unit :=
  validateRefs "resultRefs" 8 ["stepIndex", "itemIndex", "path"] fun ref =>
    hasInteger ref "stepIndex" (0 ≤ ·) && hasInteger ref "itemIndex" (0 ≤ ·) && hasPath ref

def validatePriorResultRefs : List (String × ParsedJson) → String → ParsedJson → Except String Unit :=
  validateRefs "priorResultRefs" 2 ["actionId", "itemIndex", "path"] fun ref =>
    isActionId (ref.get? "actionId") &&
      hasInteger ref "itemIndex" (fun n => 0 ≤ n && n ≤ 11) && hasPath ref

/-! ### Actions and plans -/

/-- The `dependsOn` of an action. -/
def validateDependsOn (index : ℕ) (toolName : String) (deps : ParsedJson) : Except String Unit :=
  match deps with
  | .arr deps => do
    ensure (deps.length ≤ maxActions)
      ("Model action " ++ toolName ++ ".dependsOn must be a bounded array")
    deps.forM fun dep =>
      ensure (dep.integer?.any fun n : ℤ => 0 ≤ n && n < index)
        ("Model action " ++ toolName ++ ".dependsOn contains an invalid reference " ++
          "(must be an earlier action's index)")
  | _ => .error ("Model action " ++ toolName ++ ".dependsOn must be a bounded array")

def validateAction (registry : Registry) (index : ℕ) (action : ParsedJson) : Except String Unit := do
  ensure action.isObject "Model returned a malformed action"
  ensureKnown knownActionKeys action.keys fun key =>
    "Model action contains an unrecognized field \"" ++ key ++ "\""
  match action.get? "tool", action.get? "arguments" with
  | some (.str name), some (.obj args) => do
    let tool ← registry.get name
    ensure (name ∉ registry.hidden) ("Unknown tool: " ++ name)
    ensure (exceedsDepth maxArgDepth 0 (.obj args) = false)
      ("Model action " ++ name ++ " arguments exceed the maximum nesting depth (4)")
    validateArguments args tool.schema name
    (tool.validateArguments args).mapError fun e => "Model action " ++ name ++ ": " ++ e
    optionally (action.get? "resultRefs") (validateResultRefs args name)
    optionally (action.get? "priorResultRefs") (validatePriorResultRefs args name)
    ensure (∀ key ∈ ((action.get? "resultRefs").map ParsedJson.keys).getD [],
        key ∉ ((action.get? "priorResultRefs").map ParsedJson.keys).getD [])
      ("Model action " ++ name ++ " cannot use two references for one argument")
    optionally (action.get? "reason") fun v =>
      ensure (isStr v) ("Model action " ++ name ++ ".reason must be a string")
    optionally (action.get? "dependsOn") (validateDependsOn index name)
  | _, _ => .error "Model returned a malformed action"

/-- A text that is not blank. -/
def hasContent : Option ParsedJson → Bool
  | some (.str s) => JsText.trim s ≠ ""
  | _ => false

/-- One of the levels, or none. -/
def hasConfidence : Option ParsedJson → Bool
  | none => true
  | some (.str s) => confidenceLevels.contains s
  | some _ => false

def validateMemoryCandidates : ParsedJson → Except String Unit
  | .arr candidates => do
    ensure (candidates.length ≤ maxMemoryCandidates)
      "Model plan exceeds the 20-memoryCandidates limit"
    candidates.forM fun candidate => do
      ensure candidate.isObject "Model plan memoryCandidates entries must be objects"
      ensure (hasContent (candidate.get? "content"))
        "Model plan memoryCandidates entry requires non-empty string content"
      ensure (hasConfidence (candidate.get? "confidence"))
        "Model plan memoryCandidates entry confidence must be one of: low, medium, high"
  | _ => .error "Model plan memoryCandidates must be an array"

def returnedAction : ParsedJson → ParsedJson
  | .obj entries => .obj (pick knownActionKeys entries)
  | v => v

def validatePlan (registry : Registry) : ParsedJson → Except String ParsedJson
  | .obj plan => do
    ensureKnown knownPlanKeys (plan.map Prod.fst) fun key =>
      "Model plan contains an unrecognized field \"" ++ key ++ "\""
    ensure ((Assoc.get? plan "reasoning_summary").any isStr) "Model plan requires reasoning_summary"
    match Assoc.get? plan "actions" with
    | some (.arr actions) => do
      ensure (actions.length ≤ maxActions) "Model plan exceeds the 10-action limit"
      actions.zipIdx.forM fun a => validateAction registry a.2 a.1
      optionally (Assoc.get? plan "response") fun v =>
        ensure (isStr v) "Model plan response must be a string"
      optionally (Assoc.get? plan "continue") fun v =>
        ensure (v.typeOf == "boolean") "Model plan continue must be boolean"
      optionally (Assoc.get? plan "memoryCandidates") validateMemoryCandidates
      .ok (.obj (pick ["reasoning_summary"] plan ++
        ("actions", .arr (actions.map returnedAction)) ::
          pick ["response", "continue", "memoryCandidates"] plan))
    | _ => .error "Model plan requires an actions array"
  | _ => .error "Model returned an invalid plan object"

def boundedRepair : ParsedJson → Option ParsedJson
  | .obj plan =>
    let repaired := pick knownPlanKeys plan
    let repaired := match Assoc.get? repaired "actions" with
      | none | some .null => assign "actions" (.arr []) repaired
      | some (.obj action) => assign "actions" (.arr [.obj action]) repaired
      | some _ => repaired
    let repaired := match Assoc.get? repaired "reasoning_summary" with
      | some (.str _) => repaired
      | _ => assign "reasoning_summary" (.str "") repaired
    some (.obj repaired)
  | _ => none

def validatePlanWithRepair (registry : Registry) (attemptRepair : Bool) (plan : ParsedJson) :
    Except String ParsedJson :=
  match validatePlan registry plan with
  | .ok result => .ok result
  | .error original =>
    if attemptRepair then
      match boundedRepair plan with
      | none => .error original
      | some repaired =>
        match validatePlan registry repaired with
        | .ok result => .ok result
        | .error _ => .error original
    else .error original

section

variable {p : Prop} [Decidable p] {message : String} {u : Unit}

theorem ensure_ok : ensure p message = .ok u ↔ p := by
  unfold ensure
  split_ifs with h
  · exact ⟨fun _ => h, fun _ => rfl⟩
  · exact ⟨nofun, fun hp => absurd hp h⟩

theorem ensureKnown_ok {known keys : List String} {message : String → String} :
    ensureKnown known keys message = .ok u ↔ ∀ key ∈ keys, key ∈ known := by
  unfold ensureKnown
  cases h : keys.find? fun key => !known.contains key with
  | none => exact ⟨fun _ => by simpa using h, fun _ => rfl⟩
  | some key =>
    refine ⟨nofun, fun hall => ?_⟩
    have hbad := find?_some h
    simp [hall key (mem_of_find?_eq_some h)] at hbad

end

theorem mem_keys_iff {V : Type} {es : List (String × V)} {key : String} :
    key ∈ es.map Prod.fst ↔ (Assoc.get? es key).isSome = true := by
  rw [← not_iff_not, ← get?_eq_none_iff]
  simp

mutual
theorem exceedsDepth_iff {limit depth : ℕ} (h : depth ≤ limit) :
    ∀ v : ParsedJson, exceedsDepth limit depth v = true ↔ limit < depth + v.height
  | .null | .bool _ | .num _ | .str _ => by simp [exceedsDepth, height]
  | .arr items => by
    have hitems := exceedsDepthItems_iff h items
    simp only [exceedsDepth, height, Bool.or_eq_true, hitems, decide_eq_true_eq]
    omega
  | .obj entries => by
    have hentries := exceedsDepthEntries_iff h entries
    simp only [exceedsDepth, height, Bool.or_eq_true, hentries, decide_eq_true_eq]
    omega
theorem exceedsDepthItems_iff {limit depth : ℕ} (h : depth ≤ limit) :
    ∀ vs : List ParsedJson, exceedsDepthItems limit depth vs = true ↔
      limit < depth + heightItems vs
  | [] => by simp [exceedsDepthItems, heightItems, h]
  | v :: vs => by
    have htail := exceedsDepthItems_iff h vs
    have hhead := exceedsDepth_below h v
    simp only [exceedsDepthItems, heightItems, Bool.or_eq_true, htail, hhead]
    omega
theorem exceedsDepthEntries_iff {limit depth : ℕ} (h : depth ≤ limit) :
    ∀ es : List (String × ParsedJson), exceedsDepthEntries limit depth es = true ↔
      limit < depth + heightEntries es
  | [] => by simp [exceedsDepthEntries, heightEntries, h]
  | (_, v) :: es => by
    have htail := exceedsDepthEntries_iff h es
    have hhead := exceedsDepth_below h v
    simp only [exceedsDepthEntries, exceedsDepthEntry, heightEntries, heightEntry,
      Bool.or_eq_true, htail, hhead]
    omega
theorem exceedsDepth_below {limit depth : ℕ} (h : depth ≤ limit) (v : ParsedJson) :
    exceedsDepth limit (depth + 1) v = true ↔ limit < depth + (v.height + 1) := by
  rcases Nat.lt_or_ge depth limit with hlt | hge
  · rw [exceedsDepth_iff hlt v]
    omega
  · have hlimit : limit < depth + 1 := by omega
    have htrue : exceedsDepth limit (depth + 1) v = true := by
      cases v <;> simp [exceedsDepth, hlimit]
    exact iff_of_true htrue (by omega)
end

section

variable {schema : Schema} {args : List (String × ParsedJson)} {toolName : String} {u : Unit}

/-- The arguments are those that the schema declares. -/
structure Fits (schema : Schema) (args : List (String × ParsedJson)) : Prop where
  declared : ∀ e ∈ args, ∃ type, Assoc.get? schema.properties e.1 = some type ∧
    matchesType e.2 type = true
  required : ∀ key ∈ schema.required, key ∈ args.map Prod.fst

/-- No argument is named like a member that every object inherits, unless the schema declares it,
and a required one that is so named is given. -/
structure Clean (schema : Schema) (args : List (String × ParsedJson)) : Prop where
  declared : ∀ e ∈ args, e.1 ∈ objectPrototype → e.1 ∈ schema.properties.map Prod.fst
  required : ∀ key ∈ schema.required, key ∈ objectPrototype → key ∈ args.map Prod.fst

theorem validateArguments_ok : validateArguments args schema toolName = .ok u ↔
    (∀ key ∈ schema.required, key ∈ args.map Prod.fst ++ objectPrototype) ∧
      ∀ e ∈ args, hasProperty schema.properties e.1 = true ∧
        matchesType e.2 (Assoc.get? schema.properties e.1).join = true := by
  unfold validateArguments
  rw [bind_eq_ok]
  simp only [ensureKnown_ok, forM_eq_ok, bind_eq_ok, ensure_ok, exists_and_left,
    exists_const]

/-- Valid arguments fit the schema just where they are clean. -/
theorem fits_iff (h : validateArguments args schema toolName = .ok u) :
    Fits schema args ↔ Clean schema args := by
  obtain ⟨hrequired, hargs⟩ := validateArguments_ok.1 h
  constructor
  · intro hfits
    refine ⟨fun e he _ => ?_, fun key hkey _ => hfits.required key hkey⟩
    obtain ⟨type, htype, -⟩ := hfits.declared e he
    rw [mem_keys_iff, htype]
    rfl
  · intro hclean
    refine ⟨fun e he => ?_, fun key hkey => ?_⟩
    · obtain ⟨hhas, hmatches⟩ := hargs e he
      have hown : (Assoc.get? schema.properties e.1).isSome = true := by
        rcases Bool.or_eq_true_iff.1 hhas with hown | hinherited
        · exact hown
        · exact mem_keys_iff.1 (hclean.declared e he (by simpa using hinherited))
      obtain ⟨type, htype⟩ := isSome_iff_exists.1 hown
      rw [htype] at hmatches
      exact ⟨type, htype, hmatches⟩
    · rcases mem_append.1 (hrequired key hkey) with hown | hinherited
      · exact hown
      · exact hclean.required key hkey hinherited

end

/-! ### Actions -/

variable {registry : Registry} {index : ℕ} {action plan out : ParsedJson} {u : Unit}

/-- The action at an index keeps what it promises: its tool is registered and not hidden, its
arguments are declared and not too deep, and it depends on earlier actions. -/
def Admitted (registry : Registry) (index : ℕ) (action : ParsedJson) : Prop :=
  ∃ name tool args, action.get? "tool" = some (.str name) ∧
    Assoc.get? registry.tools name = some tool ∧ name ∉ registry.hidden ∧
    action.get? "arguments" = some (.obj args) ∧ Fits tool.schema args ∧
    (obj args).height ≤ maxArgDepth ∧
    ∀ deps, action.get? "dependsOn" = some deps → ∃ items, deps = .arr items ∧
      ∀ dep ∈ items, ∃ n : ℕ, dep.integer? = some (n : ℤ) ∧ n < index

/-- No name of the arguments is inherited. -/
def CleanAction (registry : Registry) (action : ParsedJson) : Prop :=
  ∀ name tool args, action.get? "tool" = some (.str name) →
    Assoc.get? registry.tools name = some tool → action.get? "arguments" = some (.obj args) →
    Clean tool.schema args

theorem optionally_ok {v : Option ParsedJson} {check : ParsedJson → Except String Unit} :
    optionally v check = .ok u ↔ ∀ w, v = some w → check w = .ok u := by
  cases v with
  | none => exact ⟨fun _ => nofun, fun _ => rfl⟩
  | some v => exact ⟨fun h w hw => some_inj.1 hw ▸ h, fun h => h v rfl⟩

theorem get_ok {name : String} {tool : Tool} :
    registry.get name = .ok tool ↔ Assoc.get? registry.tools name = some tool := by
  unfold Registry.get
  cases Assoc.get? registry.tools name with
  | none => exact ⟨nofun, nofun⟩
  | some t => exact ⟨fun h => congrArg _ (Except.ok.inj h), fun h => congrArg _ (some_inj.1 h)⟩

theorem validateDependsOn_ok {toolName : String} {deps : ParsedJson}
    (h : validateDependsOn index toolName deps = .ok u) : ∃ items, deps = .arr items ∧
      ∀ dep ∈ items, ∃ n : ℕ, dep.integer? = some (n : ℤ) ∧ n < index := by
  unfold validateDependsOn at h
  split at h
  · rename_i items
    refine ⟨items, rfl, fun dep hdep => ?_⟩
    obtain ⟨-, -, h⟩ := bind_eq_ok.1 h
    have hrange := ensure_ok.1 (forM_eq_ok.1 h dep hdep)
    obtain ⟨n, hn, hrange⟩ := (Option.any_eq_true _ _).1 hrange
    obtain ⟨hpos, hlt⟩ : 0 ≤ n ∧ n < index := by simpa using hrange
    exact ⟨n.toNat, by rw [Int.toNat_of_nonneg hpos]; exact hn, by omega⟩
  · cases h

/-- An action of a valid plan names a tool that is shown, with arguments that its schema lets pass.
-/
theorem validateAction_ok (h : validateAction registry index action = .ok u) :
    (∃ entries, action = .obj entries ∧ ∀ e ∈ entries, e.1 ∈ knownActionKeys) ∧
      ∃ name tool args, action.get? "tool" = some (.str name) ∧
        Assoc.get? registry.tools name = some tool ∧ name ∉ registry.hidden ∧
        action.get? "arguments" = some (.obj args) ∧
        validateArguments args tool.schema name = .ok () ∧
        (obj args).height ≤ maxArgDepth ∧
        ∀ deps, action.get? "dependsOn" = some deps → ∃ items, deps = .arr items ∧
          ∀ dep ∈ items, ∃ n : ℕ, dep.integer? = some (n : ℤ) ∧ n < index := by
  obtain ⟨_, hobject, h⟩ := bind_eq_ok.1 h
  obtain ⟨_, hkeys, h⟩ := bind_eq_ok.1 h
  rw [ensureKnown_ok] at hkeys
  have hknown : ∃ entries, action = .obj entries ∧ ∀ e ∈ entries, e.1 ∈ knownActionKeys := by
    obtain ⟨entries, rfl⟩ := isObject_iff.1 (ensure_ok.1 hobject)
    exact ⟨entries, rfl, fun e he => hkeys e.1 (List.mem_map_of_mem he)⟩
  refine ⟨hknown, ?_⟩
  split at h
  · rename_i name args hname hargs
    obtain ⟨tool, htool, h⟩ := bind_eq_ok.1 h
    obtain ⟨_, hhidden, h⟩ := bind_eq_ok.1 h
    obtain ⟨_, hdepth, h⟩ := bind_eq_ok.1 h
    obtain ⟨_, harguments, h⟩ := bind_eq_ok.1 h
    obtain ⟨-, -, h⟩ := bind_eq_ok.1 h
    obtain ⟨-, -, h⟩ := bind_eq_ok.1 h
    obtain ⟨-, -, h⟩ := bind_eq_ok.1 h
    obtain ⟨-, -, h⟩ := bind_eq_ok.1 h
    obtain ⟨_, -, hdeps⟩ := bind_eq_ok.1 h
    refine ⟨name, tool, args, hname, get_ok.1 htool, ensure_ok.1 hhidden, hargs, harguments, ?_,
      fun deps hd => validateDependsOn_ok (optionally_ok.1 hdeps deps hd)⟩
    have hnot := ensure_ok.1 hdepth
    by_contra hdeep
    rw [(exceedsDepth_iff (Nat.zero_le _) _).2 (by omega)] at hnot
    cases hnot
  · cases h

/-- **A valid action keeps its promises where none of its names is inherited.** -/
theorem admitted_iff (h : validateAction registry index action = .ok u) :
    Admitted registry index action ↔ CleanAction registry action := by
  obtain ⟨-, name, tool, args, hname, htool, hhidden, hargs, harguments, hdepth, hdeps⟩ :=
    validateAction_ok h
  constructor
  · rintro ⟨name', tool', args', hname', htool', -, hargs', hfits, -, -⟩
    intro n t a hn ht ha
    obtain rfl : name' = n := by simpa using hname'.symm.trans hn
    obtain rfl : tool' = t := some_inj.1 (htool'.symm.trans ht)
    obtain rfl : args' = a := by simpa using hargs'.symm.trans ha
    obtain rfl : name = name' := by simpa using hname.symm.trans hn
    obtain rfl : tool = tool' := some_inj.1 (htool.symm.trans ht)
    obtain rfl : args = args' := by simpa using hargs.symm.trans ha
    exact (fits_iff harguments).1 hfits
  · intro hclean
    exact ⟨name, tool, args, hname, htool, hhidden, hargs,
      (fits_iff harguments).2 (hclean name tool args hname htool hargs), hdepth, hdeps⟩

/-! ### Plans -/

/-- The actions that a plan proposes; one that stands alone is an action too. -/
def actionsOf (plan : ParsedJson) : List ParsedJson :=
  match plan.get? "actions" with
  | some (.arr actions) => actions
  | some (.obj action) => [.obj action]
  | _ => []

/-- The two values have the same fields. -/
def SameFields (a b : ParsedJson) : Prop := ∀ key, b.get? key = a.get? key

/-- What is returned for a plan is what the plan proposes, and every action keeps its promises. -/
def PlanAdmitted (registry : Registry) (plan out : ParsedJson) : Prop :=
  (∀ a ∈ (actionsOf plan).zipIdx, Admitted registry a.2 a.1) ∧
    List.Forall₂ SameFields (actionsOf plan) (actionsOf out)

theorem sameFields_returnedAction (h : validateAction registry index action = .ok u) :
    SameFields action (returnedAction action) := by
  obtain ⟨⟨entries, rfl, hknown⟩, -⟩ := validateAction_ok h
  exact fun key => get?_pick_of_subset hknown

theorem validatePlan_ok (h : validatePlan registry plan = .ok out) :
    (∀ a ∈ (actionsOf plan).zipIdx, validateAction registry a.2 a.1 = .ok ()) ∧
      actionsOf out = (actionsOf plan).map returnedAction := by
  unfold validatePlan at h
  split at h
  · rename_i entries
    obtain ⟨_, -, h⟩ := bind_eq_ok.1 h
    obtain ⟨_, -, h⟩ := bind_eq_ok.1 h
    split at h
    · rename_i actions hactions
      obtain ⟨_, -, h⟩ := bind_eq_ok.1 h
      obtain ⟨_, hvalid, h⟩ := bind_eq_ok.1 h
      obtain ⟨_, -, h⟩ := bind_eq_ok.1 h
      obtain ⟨_, -, h⟩ := bind_eq_ok.1 h
      obtain ⟨_, -, h⟩ := bind_eq_ok.1 h
      have hplan : actionsOf (.obj entries) = actions := by
        unfold actionsOf ParsedJson.get?
        dsimp only
        rw [hactions]
      have hout : out.get? "actions" = some (.arr (actions.map returnedAction)) := by
        rw [← Except.ok.inj h]
        show Assoc.get? (_ ++ _) "actions" = _
        rw [Assoc.get?_append, Assoc.get?_pick, if_neg (by decide), Assoc.get?_cons, if_pos rfl]
        rfl
      refine ⟨by rw [hplan]; exact fun a ha => forM_eq_ok.1 hvalid a ha, ?_⟩
      rw [hplan, actionsOf, hout]
    · cases h
  · cases h

theorem sameFields_validatePlan (h : validatePlan registry plan = .ok out) :
    List.Forall₂ SameFields (actionsOf plan) (actionsOf out) := by
  obtain ⟨hvalid, hout⟩ := validatePlan_ok h
  rw [hout, forall₂_map_right_iff, forall₂_same]
  intro a ha
  obtain ⟨i, hi, rfl⟩ := mem_iff_getElem.1 ha
  exact sameFields_returnedAction (hvalid _ (mk_mem_zipIdx_iff_getElem?.2
    (getElem?_eq_getElem hi)))

/-- A repair leaves the actions as they are. -/
theorem actionsOf_boundedRepair {repaired : ParsedJson} (h : boundedRepair plan = some repaired) :
    actionsOf repaired = actionsOf plan := by
  unfold boundedRepair at h
  split at h
  · rename_i entries
    have hpick : Assoc.get? (Assoc.pick knownPlanKeys entries) "actions" =
        Assoc.get? entries "actions" := by
      rw [Assoc.get?_pick, if_pos (by decide)]
    have hsummary : ∀ es : List (String × ParsedJson), Assoc.get?
        (match Assoc.get? es "reasoning_summary" with
          | some (.str _) => es
          | _ => Assoc.assign "reasoning_summary" (.str "") es) "actions" =
        Assoc.get? es "actions" := by
      intro es
      split
      · rfl
      · rw [Assoc.get?_assign, if_neg (by decide)]
    rw [← some_inj.1 h]
    unfold actionsOf ParsedJson.get?
    dsimp only
    rw [hsummary, hpick]
    -- an object is wrapped, nothing becomes an empty list, and the rest stays
    cases hactions : Assoc.get? entries "actions" with
    | none => simp only [Assoc.get?_assign, if_pos]
    | some v =>
      cases v with
      | null | obj action => simp only [Assoc.get?_assign, if_pos]
      | bool _ | num _ | str _ | arr _ => simp only [hpick, hactions]
  · cases h

theorem sameFields_withRepair {attempt : Bool}
    (h : validatePlanWithRepair registry attempt plan = .ok out) :
    List.Forall₂ SameFields (actionsOf plan) (actionsOf out) := by
  unfold validatePlanWithRepair at h
  split at h
  · rename_i hvalid
    cases h
    exact sameFields_validatePlan hvalid
  · split_ifs at h
    split at h
    · cases h
    · rename_i repaired hrepaired
      split at h
      · rename_i hvalid
        cases h
        rw [← actionsOf_boundedRepair hrepaired]
        exact sameFields_validatePlan hvalid
      · cases h

/-- **A valid plan is what it promises just where none of its names is inherited, and no repair
changes an action.** -/
theorem plan_admitted (registry : Registry) (plan : ParsedJson) :
    (∀ out, validatePlan registry plan = .ok out →
      (PlanAdmitted registry plan out ↔ ∀ action ∈ actionsOf plan, CleanAction registry action)) ∧
    ∀ attempt out, validatePlanWithRepair registry attempt plan = .ok out →
      List.Forall₂ SameFields (actionsOf plan) (actionsOf out) := by
  refine ⟨fun out h => ?_, fun attempt out h => sameFields_withRepair h⟩
  obtain ⟨hvalid, -⟩ := validatePlan_ok h
  have hadmitted : PlanAdmitted registry plan out ↔
      ∀ a ∈ (actionsOf plan).zipIdx, CleanAction registry a.1 :=
    (and_iff_left (sameFields_validatePlan h)).trans
      (forall₂_congr fun a ha => admitted_iff (hvalid a ha))
  rw [hadmitted]
  refine ⟨fun hclean action haction => ?_, fun hclean a ha => ?_⟩
  · obtain ⟨i, hi, rfl⟩ := mem_iff_getElem.1 haction
    exact hclean _ (mk_mem_zipIdx_iff_getElem?.2 (getElem?_eq_getElem hi))
  · exact hclean a.1 (fst_mem_of_mem_zipIdx ha)

/-- A registry whose one tool takes a title. -/
def taskRegistry : Registry where
  tools := [("tasks.create", ⟨⟨["title"], [("title", some (.name "string"))]⟩, fun _ => .ok ()⟩)]
  hidden := []

/-- A plan of one task with the arguments given. -/
def taskPlan (args : List (String × ParsedJson)) : ParsedJson :=
  .obj [("reasoning_summary", .str "Create a task"),
    ("actions", .arr [.obj [("tool", .str "tasks.create"), ("arguments", .obj args)]])]

/-- A task with its title is what it promises. -/
theorem plan_admitted_task : PlanAdmitted taskRegistry (taskPlan [("title", .str "Call")])
    (taskPlan [("title", .str "Call")]) := by
  refine ((plan_admitted taskRegistry (taskPlan [("title", .str "Call")])).1 _ rfl).2 ?_
  intro action haction name tool args hname htool hargs
  obtain rfl := mem_singleton.1 haction
  cases hname
  cases htool
  cases hargs
  exact ⟨by decide, by decide⟩

/-- An argument named `constructor` is no property of the schema, and is admitted. -/
theorem constructor_admitted :
    validatePlan taskRegistry (taskPlan [("title", .str "Call"), ("constructor", .str "x")]) =
        .ok (taskPlan [("title", .str "Call"), ("constructor", .str "x")]) ∧
      ¬PlanAdmitted taskRegistry (taskPlan [("title", .str "Call"), ("constructor", .str "x")])
        (taskPlan [("title", .str "Call"), ("constructor", .str "x")]) := by
  refine ⟨rfl, ?_⟩
  rintro ⟨h, -⟩
  obtain ⟨name, tool, args, hname, htool, -, hargs, hfits, -⟩ := h _ mem_cons_self
  cases hname
  cases htool
  cases hargs
  obtain ⟨type, htype, -⟩ := hfits.declared _ (mem_cons_of_mem _ mem_cons_self)
  cases htype

end U2os.Server.Agent.PlanValidator
