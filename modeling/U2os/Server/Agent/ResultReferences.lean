import U2os.Server.Agent.PlanValidator

/-!
# References to results

An action may name the result of an earlier step in place of an argument
(`agent/result-references.js`).  A reference is looked up in what the model was shown, first those
to earlier runs and then those to the run at hand, and an action with a reference that cannot be
verified is refused.

A table that is read by a name that every object inherits answers as the language does; what it
answers is a parameter.  The references of a plan are plain objects.
-/

namespace U2os.Server.Agent.ResultReferences

open PlanValidator ParsedJson Fallible List Option

/-- An item of an observation. -/
structure Item where
  index : ℕ
  data : ParsedJson

/-- An observation that the model was shown. -/
structure Observation where
  stepIndex : ℕ
  tool : String
  actionId : Option String
  status : String
  items : List Item

/-- What the run knows of an artifact of an earlier run. -/
structure PriorArtifact where
  actionId : String
  accountBinding : Option ParsedJson

/-- An action of a plan.  Its references to this run are those of `action.resultRefs || {}`. -/
structure PlanAction where
  tool : String
  arguments : List (String × ParsedJson)
  resultRefs : List (String × ParsedJson)
  priorResultRefs : Option (List (String × ParsedJson))
  sourceAccountBinding : Option ParsedJson := none

/-- Why an action is refused. -/
inductive Refusal where
  /-- `clarificationError()`. -/
  | unverified
  /-- The language refuses to go on. -/
  | typeError
  /-- `validatePlan`. -/
  | invalid (message : String)

def idArguments : List (String × List String) :=
  [("email.read", ["id"]), ("email.draft", ["inReplyTo"]), ("email.send", ["inReplyTo", "draftId"]),
    ("calendar.reschedule", ["eventId"]), ("tasks.complete", ["id"])]

def referenceSources : List (String × List (String × List String)) :=
  [("email.read", [("id", ["email.search", "email.read"])]),
    ("email.draft", [("to", ["email.search", "email.read"]),
      ("inReplyTo", ["email.search", "email.read"])]),
    ("email.send", [("inReplyTo", ["email.search", "email.read"]), ("draftId", ["email.draft"])]),
    ("calendar.reschedule", [("eventId", ["calendar.list"])]),
    ("tasks.complete", [("id", ["tasks.list"])])]

def supported : List (String × String) :=
  [("email.read", "id"), ("tasks.complete", "id"), ("calendar.reschedule", "eventId")]

/-- The sources that the table lists for an argument. -/
def listedSources (tool argument : String) : Option (List String) :=
  (Assoc.get? referenceSources tool).bind fun sources => Assoc.get? sources argument

/-- What a table answers to a name that it does not have: nothing, or a member that every object
inherits, with what its `includes` says if it has one. -/
inductive Member where
  | absent
  | includes (p : Option String → Bool)
  | other

/-- `REFERENCE_SOURCES[action.tool]?.[argument]`, and whether the tool of the observation passes. -/
def passesSources (member : String → String → Member) (tool argument : String)
    (source : Option String) : Except Refusal Unit :=
  match listedSources tool argument with
  | some sources => if source.any (· ∈ sources) then .ok () else .error .unverified
  | none =>
    match member tool argument with
    | .absent => .ok ()
    | .includes p => if p source then .ok () else .error .unverified
    | .other => .error .typeError

/-- The number of items of an array. -/
def lengthNumber (n : ℕ) : ParsedJson :=
  .num (.finite ⟨false, n % 2 ^ 53, 0, Nat.mod_lt _ (by positivity), by omega, by omega⟩)

/-- The value of an own property of an object or an array. -/
def ownProperty : ParsedJson → String → Option ParsedJson
  | .obj entries, part => Assoc.get? entries part
  | .arr items, part =>
    if part = "length" then some (lengthNumber items.length)
    else (arrayIndex part).bind fun i => items[i]?
  | _, _ => none

/-- The parts of a path. -/
def parts (path : String) : List String := (path.toList.splitOn '.').map String.ofList

/-- The value that a path leads to through own properties. -/
def follow (value : ParsedJson) (path : String) : Option ParsedJson :=
  (parts path).foldlM ownProperty value

/-- The value is neither missing nor `null` nor an object. -/
def isPrimitive : ParsedJson → Bool
  | .bool _ | .num _ | .str _ => true
  | _ => false

/-- `Boolean(value)`. -/
def isTruthy : Option ParsedJson → Bool
  | none | some .null | some (.bool false) | some (.str "") => false
  | some (.num (.finite f)) => f.value ≠ 0
  | _ => true

/-- The natural number of a key. -/
def numberOf (ref : ParsedJson) (key : String) : Option ℤ := (ref.get? key).bind integer?

/-- `args[argument] = value`: the key of the prototype is set only where there is one already. -/
def setArgument (argument : String) (value : ParsedJson) (args : List (String × ParsedJson)) :
    List (String × ParsedJson) :=
  if argument = "__proto__" ∧ Assoc.get? args argument = none then args
  else Assoc.assign argument value args

/-- The observation of a reference. -/
def observationOf (allowed : List Observation) (ref : ParsedJson) : Option Observation :=
  allowed.find? fun o => numberOf ref "stepIndex" = some (o.stepIndex : ℤ) ∧ o.status = "executed"

/-- The data of the item of a reference. -/
def dataOf (observation : Option Observation) (ref : ParsedJson) : Option ParsedJson :=
  (observation.bind fun o => o.items.find? fun item =>
    numberOf ref "itemIndex" = some (item.index : ℤ)).map Item.data

/-- The value of a reference. -/
def resolveRef (member : String → String → Member) (tool : String) (allowed : List Observation)
    (argument : String) (ref : ParsedJson) : Except Refusal ParsedJson := do
  let observation := observationOf allowed ref
  passesSources member tool argument (observation.map Observation.tool)
  match ref.get? "path" with
  | some (.str path) =>
    match (dataOf observation ref).bind fun data => follow data path with
    | some value => if isPrimitive value then .ok value else .error .unverified
    | none => .error .unverified
  | _ => .error .typeError

/-- The loop of `resolveActionReferences` over the references. -/
def resolveRefs (member : String → String → Member) (tool : String) (allowed : List Observation) :
    List (String × ParsedJson) → List (String × ParsedJson) →
      Except Refusal (List (String × ParsedJson))
  | [], args => .ok args
  | e :: refs, args => do
    let value ← resolveRef member tool allowed e.1 e.2
    resolveRefs member tool allowed refs (setArgument e.1 value args)

/-- The arguments of a tool that take an id; none for a name that every object inherits, whose
member cannot be iterated. -/
def idArgumentsOf (tool : String) : Except Refusal (List String) :=
  match Assoc.get? idArguments tool with
  | some ids => .ok ids
  | none => if tool ∈ objectPrototype then .error .typeError else .ok []

/-- The check of a plan with one action. -/
def validateResolved (registry : Registry) (tool : String) (args : List (String × ParsedJson)) :
    Except Refusal Unit :=
  match validatePlan registry (.obj [("reasoning_summary", .str ""),
      ("actions", .arr [.obj [("tool", .str tool), ("arguments", .obj args)]])]) with
  | .ok _ => .ok ()
  | .error message => .error (.invalid message)

/-- An argument is not given as a literal: it is missing, or it has a reference. -/
def isReferred (action : PlanAction) (args : List (String × ParsedJson)) (argument : String) :
    Bool :=
  (Assoc.get? args argument).isNone || isTruthy (Assoc.get? action.resultRefs argument) ||
    isTruthy (action.priorResultRefs.bind fun refs => Assoc.get? refs argument)

/-- What must hold, or a clarification is asked for. -/
def ensureVerified (p : Prop) [Decidable p] : Except Refusal Unit :=
  if p then .ok () else .error .unverified

/-- In a continuation, no argument that takes an id is a literal. -/
def checkLiterals (action : PlanAction) (args : List (String × ParsedJson)) (continuation : Bool) :
    Except Refusal Unit :=
  if continuation then do
    let ids ← idArgumentsOf action.tool
    ensureVerified (∀ argument ∈ ids, isReferred action args argument = true)
  else .ok ()

def resolveActionReferences (member : String → String → Member) (registry : Registry)
    (action : PlanAction) (allowed : List Observation) (continuation : Bool) :
    Except Refusal PlanAction := do
  let args ← resolveRefs member action.tool allowed action.resultRefs action.arguments
  checkLiterals action args continuation
  validateResolved registry action.tool args
  .ok { action with arguments := args }

/-- The tool needs an account. -/
def needsAccount (tool : String) : Bool := tool = "email.read" || tool = "calendar.reschedule"

/-- The text of a key. -/
def textOf (v : ParsedJson) (key : String) : Option String :=
  match v.get? key with
  | some (.str s) => some s
  | _ => none

/-- The observation of a reference to an earlier run. -/
def priorObservationOf (allowedPrior : List Observation) (ref : ParsedJson) : Option Observation :=
  allowedPrior.find? fun o =>
    o.actionId.isSome ∧ o.actionId = textOf ref "actionId" ∧ o.status = "executed"

/-- The artifact of a reference. -/
def sourceOf (rawPrior : List PriorArtifact) (ref : ParsedJson) : Option PriorArtifact :=
  rawPrior.find? fun entry => some entry.actionId = textOf ref "actionId"

def resolvePriorActionReferences (registry : Registry) (action : PlanAction)
    (allowedPrior : List Observation) (rawPrior : List PriorArtifact) :
    Except Refusal PlanAction :=
  match action.priorResultRefs with
  | none => .ok action
  | some refs =>
    match Assoc.get? supported action.tool with
    | none => .error .unverified
    | some argument =>
      match (Assoc.get? refs argument).filter fun ref => isTruthy (some ref) with
      | none => .error .unverified
      | some ref => do
        let observation := priorObservationOf allowedPrior ref
        ensureVerified (refs.length = 1 ∧ textOf ref "path" = some "id" ∧
          (observation.map Observation.tool).any (fun tool =>
            ((listedSources action.tool argument).getD []).contains tool) = true)
        match (dataOf observation ref).bind fun data => textOf data "id", sourceOf rawPrior ref with
        | some value, some source =>
          ensureVerified (value ≠ "" ∧ (needsAccount action.tool = true →
            isTruthy source.accountBinding = true))
          let args := Assoc.assign argument (.str value) action.arguments
          validateResolved registry action.tool args
          .ok { action with
            arguments := args
            sourceAccountBinding :=
              if needsAccount action.tool then source.accountBinding
              else action.sourceAccountBinding }
        | _, _ => .error .unverified

/-- The references of an action as a run resolves them. -/
def resolveReferences (member : String → String → Member) (registry : Registry)
    (action : PlanAction) (allowedPrior : List Observation) (rawPrior : List PriorArtifact)
    (allowed : List Observation) (continuation : Bool) : Except Refusal PlanAction := do
  let action ← resolvePriorActionReferences registry action allowedPrior rawPrior
  resolveActionReferences member registry action allowed continuation

/-! ### What a resolved action has -/

/-- The value was shown at the place of a reference: in an item of an observation of the run, from a
tool that is listed for the argument if the table lists some. -/
def Shown (tool : String) (allowed : List Observation) (argument : String)
    (ref value : ParsedJson) : Prop :=
  ∃ o ∈ allowed, o.status = "executed" ∧ numberOf ref "stepIndex" = some (o.stepIndex : ℤ) ∧
    (∀ sources, listedSources tool argument = some sources → o.tool ∈ sources) ∧
    ∃ item ∈ o.items, numberOf ref "itemIndex" = some (item.index : ℤ) ∧
      ∃ path, textOf ref "path" = some path ∧ follow item.data path = some value ∧
        isPrimitive value = true

/-- The value was shown at the place of a reference to an earlier run. -/
def ShownPrior (tool : String) (allowedPrior : List Observation) (argument : String)
    (ref value : ParsedJson) : Prop :=
  ∃ o ∈ allowedPrior, o.status = "executed" ∧ o.actionId.isSome = true ∧
    o.actionId = textOf ref "actionId" ∧
    (∃ sources, listedSources tool argument = some sources ∧ o.tool ∈ sources) ∧
    ∃ item ∈ o.items, numberOf ref "itemIndex" = some (item.index : ℤ) ∧
      textOf ref "path" = some "id" ∧ follow item.data "id" = some value ∧
        isPrimitive value = true

variable {argument : String} {args : List (String × ParsedJson)}

section

variable {member : String → String → Member} {registry : Registry} {tool : String}
  {allowed : List Observation}

theorem dataOf_eq_some {o : Option Observation} {ref data : ParsedJson}
    (h : dataOf o ref = some data) : ∃ o' item, o = some o' ∧ item ∈ o'.items ∧
      numberOf ref "itemIndex" = some (item.index : ℤ) ∧ item.data = data := by
  obtain ⟨item, hitem, rfl⟩ := map_eq_some_iff.1 h
  obtain ⟨o', rfl, hfind⟩ := bind_eq_some_iff.1 hitem
  exact ⟨o', item, rfl, mem_of_find?_eq_some hfind, by simpa using find?_some hfind, rfl⟩

theorem passesSources_ok {source : Option String} {u : Unit}
    (h : passesSources member tool argument source = .ok u) {sources : List String}
    (hlisted : listedSources tool argument = some sources) :
    ∃ t, source = some t ∧ t ∈ sources := by
  rw [passesSources, hlisted] at h
  dsimp only at h
  split_ifs at h with hany
  simpa [Option.any_eq_true] using hany

/-- A reference resolves to a value that was shown. -/
theorem resolveRef_ok {ref value : ParsedJson}
    (h : resolveRef member tool allowed argument ref = .ok value) :
    Shown tool allowed argument ref value := by
  obtain ⟨_, hpass, h⟩ := bind_eq_ok.1 h
  split at h
  next path hpath =>
    split at h
    next v hvalue =>
      split_ifs at h with hprim
      obtain rfl := Except.ok.inj h
      obtain ⟨data, hdata, hfollow⟩ := bind_eq_some_iff.1 hvalue
      obtain ⟨o, item, ho, hitem, hindex, rfl⟩ := dataOf_eq_some hdata
      have hfound := find?_some ho
      simp only [decide_eq_true_eq] at hfound
      refine ⟨o, mem_of_find?_eq_some ho, hfound.2, hfound.1, fun sources hlisted => ?_, item,
        hitem, hindex, path, by rw [textOf, hpath], hfollow, hprim⟩
      obtain ⟨t, ht, hmem⟩ := passesSources_ok hpass hlisted
      rw [ho] at ht
      exact some.inj ht ▸ hmem
    next => exact absurd h nofun
  next => exact absurd h nofun

theorem get?_setArgument {other : String} {value : ParsedJson} (h : argument ≠ "__proto__") :
    Assoc.get? (setArgument argument value args) other =
      if argument = other then some value else Assoc.get? args other := by
  rw [setArgument, if_neg fun hp => h hp.1, Assoc.get?_assign]

/-- What the references of an action do to its arguments: each names a value that was shown, and the
other arguments stay. -/
theorem get?_resolveRefs {refs out : List (String × ParsedJson)}
    (h : resolveRefs member tool allowed refs args = .ok out)
    (hunique : (refs.map Prod.fst).Nodup) (hproto : ∀ e ∈ refs, e.1 ≠ "__proto__") :
    (∀ e ∈ refs, ∃ value, Assoc.get? out e.1 = some value ∧ Shown tool allowed e.1 e.2 value) ∧
      ∀ argument, argument ∉ refs.map Prod.fst →
        Assoc.get? out argument = Assoc.get? args argument := by
  induction refs generalizing args with
  | nil =>
    obtain rfl := Except.ok.inj h
    exact ⟨nofun, fun _ _ => rfl⟩
  | cons e refs ih =>
    obtain ⟨value, hvalue, h⟩ := bind_eq_ok.1 h
    rw [map_cons, nodup_cons] at hunique
    obtain ⟨hshown, hother⟩ := ih h hunique.2 fun e' he' => hproto e' (mem_cons_of_mem _ he')
    have hset : ∀ other, Assoc.get? (setArgument e.1 value args) other =
        if e.1 = other then some value else Assoc.get? args other :=
      fun _ => get?_setArgument (hproto e mem_cons_self)
    refine ⟨fun e' he' => ?_, fun argument harg => ?_⟩
    · obtain rfl | he' := mem_cons.1 he'
      · refine ⟨value, ?_, resolveRef_ok hvalue⟩
        rw [hother _ hunique.1, hset, if_pos rfl]
      · exact hshown e' he'
    · rw [map_cons, mem_cons, not_or] at harg
      rw [hother _ harg.2, hset, if_neg (Ne.symm harg.1)]

theorem ensureVerified_ok {p : Prop} [Decidable p] {u : Unit} : ensureVerified p = .ok u ↔ p := by
  unfold ensureVerified
  split_ifs with h
  · exact ⟨fun _ => h, fun _ => rfl⟩
  · exact ⟨nofun, fun hp => absurd hp h⟩

theorem resolveActionReferences_ok {action out : PlanAction} {continuation : Bool}
    (h : resolveActionReferences member registry action allowed continuation = .ok out) :
    resolveRefs member action.tool allowed action.resultRefs action.arguments = .ok out.arguments ∧
      out = { action with arguments := out.arguments } ∧
      (continuation = true → ∀ ids, Assoc.get? idArguments action.tool = some ids →
        ∀ argument ∈ ids, isReferred action out.arguments argument = true) := by
  obtain ⟨args, hargs, h⟩ := bind_eq_ok.1 h
  obtain ⟨_, hcheck, h⟩ := bind_eq_ok.1 h
  obtain ⟨_, -, h⟩ := bind_eq_ok.1 h
  obtain rfl := Except.ok.inj h
  refine ⟨hargs, rfl, fun hcontinue ids hids => ?_⟩
  rw [checkLiterals, if_pos hcontinue] at hcheck
  obtain ⟨ids', hids', hcheck⟩ := bind_eq_ok.1 hcheck
  rw [idArgumentsOf, hids] at hids'
  obtain rfl := Except.ok.inj hids'
  exact ensureVerified_ok.1 hcheck

theorem follow_id {v : ParsedJson} {s : String} (h : textOf v "id" = some s) :
    follow v "id" = some (.str s) := by
  have hparts : parts "id" = ["id"] := by decide
  have hget : v.get? "id" = some (.str s) := by
    unfold textOf at h
    split at h
    next t ht => rw [ht, Option.some.inj h]
    next => exact absurd h nofun
  have hown : ownProperty v "id" = some (.str s) := by
    cases v with
    | obj entries => exact hget
    | _ => exact absurd hget nofun
  rw [follow, hparts, foldlM_cons, hown]
  rfl

theorem supported_listed (h : Assoc.get? supported tool = some argument) :
    argument ≠ "__proto__" ∧ ∃ sources, listedSources tool argument = some sources := by
  have hmem := Assoc.mem_of_get? h
  have hall : ∀ e ∈ supported, e.2 ≠ "__proto__" ∧ (listedSources e.1 e.2).isSome = true := by
    decide
  obtain ⟨hproto, hsome⟩ := hall _ hmem
  exact ⟨hproto, isSome_iff_exists.1 hsome⟩

/-- References to earlier actions resolve to values that were shown. -/
theorem resolvePriorActionReferences_ok {action out : PlanAction} {allowedPrior : List Observation}
    {rawPrior : List PriorArtifact} {refs : List (String × ParsedJson)}
    (hrefs : action.priorResultRefs = some refs)
    (h : resolvePriorActionReferences registry action allowedPrior rawPrior = .ok out) :
    ∃ argument ref value source, refs = [(argument, ref)] ∧
      Assoc.get? supported action.tool = some argument ∧
      ShownPrior action.tool allowedPrior argument ref (.str value) ∧
      sourceOf rawPrior ref = some source ∧
      (needsAccount action.tool = true → isTruthy source.accountBinding = true) ∧
      out = { action with
        arguments := Assoc.assign argument (.str value) action.arguments
        sourceAccountBinding := if needsAccount action.tool then source.accountBinding
          else action.sourceAccountBinding } := by
  rw [resolvePriorActionReferences, hrefs] at h
  dsimp only at h
  split at h
  next => exact absurd h nofun
  next argument hargument =>
    split at h
    next => exact absurd h nofun
    next ref href =>
      obtain ⟨_, hcheck, h⟩ := bind_eq_ok.1 h
      obtain ⟨hone, hpath, htool⟩ := ensureVerified_ok.1 hcheck
      split at h
      next value source hvalue hsource =>
        obtain ⟨_, hcheck, h⟩ := bind_eq_ok.1 h
        obtain ⟨hnonempty, haccount⟩ := ensureVerified_ok.1 hcheck
        obtain ⟨_, -, h⟩ := bind_eq_ok.1 h
        have hget := (Option.filter_eq_some_iff.1 href).1
        obtain ⟨e, rfl⟩ := length_eq_one_iff.1 hone
        have he : e = (argument, ref) := (mem_singleton.1 (Assoc.mem_of_get? hget)).symm
        subst he
        refine ⟨argument, ref, value, source, rfl, hargument, ?_, hsource, haccount,
          by rw [← Except.ok.inj h, hrefs]⟩
        obtain ⟨data, hdata, hid⟩ := bind_eq_some_iff.1 hvalue
        obtain ⟨o, item, ho, hitem, hindex, rfl⟩ := dataOf_eq_some hdata
        have hfound := find?_some ho
        simp only [decide_eq_true_eq] at hfound
        obtain ⟨-, sources, hlisted⟩ := supported_listed hargument
        refine ⟨o, mem_of_find?_eq_some ho, hfound.2.2, hfound.1, hfound.2.1,
          ⟨sources, hlisted, ?_⟩, item, hitem, hindex, hpath, ?_, rfl⟩
        · rw [ho, hlisted] at htool
          simpa using htool
        · exact follow_id hid
      next => exact absurd h nofun

end

/-! ### Actions of plans -/

/-- The entries of an object. -/
def entriesOf : ParsedJson → List (String × ParsedJson)
  | .obj entries => entries
  | _ => []

def PlanAction.ofPlan (raw : ParsedJson) : Option PlanAction :=
  match raw.get? "tool", raw.get? "arguments" with
  | some (.str tool), some (.obj args) =>
    some ⟨tool, args, ((raw.get? "resultRefs").map entriesOf).getD [],
      (raw.get? "priorResultRefs").map entriesOf, none⟩
  | _, _ => none

/-- The names of the arguments with references to earlier runs. -/
def PlanAction.priorNames (action : PlanAction) : List String :=
  (action.priorResultRefs.getD []).map Prod.fst

section

variable {registry : Registry} {index : ℕ} {raw : ParsedJson} {u : Unit}

theorem validateRefs_ok {field toolName : String} {most : ℕ} {known : List String}
    {check : ParsedJson → Bool} {refs : ParsedJson}
    (h : validateRefs field most known check args toolName refs = .ok u) :
    ∀ e ∈ entriesOf refs, e.1 ∉ reservedNames ∧ e.2.isObject = true := by
  obtain ⟨_, hobject, h⟩ := bind_eq_ok.1 h
  obtain ⟨entries, rfl⟩ := isObject_iff.1 (ensure_ok.1 hobject).1
  intro e he
  obtain ⟨-, hname, hplain, -⟩ := ensure_ok.1 (forM_eq_ok.1 h e he)
  exact ⟨hname, hplain⟩

theorem keys_eq (refs : ParsedJson) : refs.keys = (entriesOf refs).map Prod.fst := by
  cases refs <;> rfl

/-- What the validation of a plan says of the references of its actions: no name is reserved, and an
argument has one reference. -/
theorem validateAction_refs (hvalid : validateAction registry index raw = .ok u)
    {action : PlanAction} (hplan : PlanAction.ofPlan raw = some action) :
    (∀ e ∈ action.resultRefs, e.1 ∉ reservedNames) ∧
      ∀ argument ∈ action.resultRefs.map Prod.fst, argument ∉ action.priorNames := by
  obtain ⟨_, -, h⟩ := bind_eq_ok.1 hvalid
  obtain ⟨_, -, h⟩ := bind_eq_ok.1 h
  unfold PlanAction.ofPlan at hplan
  split at hplan
  next name args hname hargs =>
    obtain rfl := Option.some.inj hplan
    rw [hname, hargs] at h
    obtain ⟨_, -, h⟩ := bind_eq_ok.1 h
    obtain ⟨_, -, h⟩ := bind_eq_ok.1 h
    obtain ⟨_, -, h⟩ := bind_eq_ok.1 h
    obtain ⟨_, -, h⟩ := bind_eq_ok.1 h
    obtain ⟨_, -, h⟩ := bind_eq_ok.1 h
    obtain ⟨_, hrefs, h⟩ := bind_eq_ok.1 h
    obtain ⟨_, -, h⟩ := bind_eq_ok.1 h
    obtain ⟨_, hapart, -⟩ := bind_eq_ok.1 h
    have hapart := ensure_ok.1 hapart
    constructor
    · intro e he
      cases hget : raw.get? "resultRefs" with
      | none => simp [hget] at he
      | some refs =>
        simp only [hget, map_some, getD_some] at he
        exact (validateRefs_ok (optionally_ok.1 hrefs refs hget) e he).1
    · intro argument harg hprior
      refine hapart argument ?_ ?_
      · cases hget : raw.get? "resultRefs" with
        | none => simp [hget] at harg
        | some refs => simpa [hget, keys_eq] using harg
      · cases hget : raw.get? "priorResultRefs" with
        | none => simp [PlanAction.priorNames, hget] at hprior
        | some refs => simpa [PlanAction.priorNames, hget, keys_eq] using hprior
  next => exact absurd hplan nofun

/-- Artifacts of the same action have the same account. -/
def BindingsAgree (rawPrior : List PriorArtifact) : Prop :=
  ∀ a ∈ rawPrior, ∀ b ∈ rawPrior, a.actionId = b.actionId → a.accountBinding = b.accountBinding

/-- The artifact that a reference points to. -/
def PointsTo (ref : ParsedJson) (source : PriorArtifact) : Prop :=
  some source.actionId = textOf ref "actionId"

/-- Resolving replaces arguments only, each by a value that was shown. -/
theorem resolvePrior_spec {action mid : PlanAction} {allowedPrior : List Observation}
    {rawPrior : List PriorArtifact}
    (h : resolvePriorActionReferences registry action allowedPrior rawPrior = .ok mid) :
    (mid.tool = action.tool ∧ mid.resultRefs = action.resultRefs ∧
      mid.priorResultRefs = action.priorResultRefs) ∧
    (∀ e ∈ action.priorResultRefs.getD [], ∃ value, Assoc.get? mid.arguments e.1 = some value ∧
      ShownPrior action.tool allowedPrior e.1 e.2 value) ∧
    (∀ argument, argument ∉ action.priorNames →
      Assoc.get? mid.arguments argument = Assoc.get? action.arguments argument) ∧
    ∀ e ∈ action.priorResultRefs.getD [], needsAccount action.tool = true →
      (∃ source ∈ rawPrior, PointsTo e.2 source ∧ isTruthy source.accountBinding = true ∧
        mid.sourceAccountBinding = source.accountBinding) ∧
      (BindingsAgree rawPrior → ∀ source ∈ rawPrior, PointsTo e.2 source →
        mid.sourceAccountBinding = source.accountBinding) := by
  cases hprior : action.priorResultRefs with
  | none =>
    rw [resolvePriorActionReferences, hprior] at h
    obtain rfl := Except.ok.inj h
    exact ⟨⟨rfl, rfl, hprior⟩, nofun, fun _ _ => rfl, nofun⟩
  | some refs =>
    obtain ⟨argument, ref, value, source, rfl, hargument, hshown, hsource, haccount, rfl⟩ :=
      resolvePriorActionReferences_ok hprior h
    have hmem := mem_of_find?_eq_some hsource
    have hpoints : PointsTo ref source := by simpa [PointsTo] using find?_some hsource
    refine ⟨⟨rfl, rfl, hprior⟩, fun e he => ?_, fun other hother => ?_, fun e he hneeds => ?_⟩
    · obtain rfl := mem_singleton.1 he
      exact ⟨.str value, Assoc.get?_assign.trans (if_pos rfl), hshown⟩
    · refine Assoc.get?_assign.trans (if_neg fun he => hother ?_)
      simp [PlanAction.priorNames, hprior, he]
    · obtain rfl := mem_singleton.1 he
      refine ⟨⟨source, hmem, hpoints, haccount hneeds, if_pos hneeds⟩,
        fun hagree other hother hto => ?_⟩
      exact (if_pos hneeds).trans
        (hagree source hmem other hother (Option.some.inj (hpoints.trans hto.symm)))

theorem mem_keys_of_isTruthy {es : List (String × ParsedJson)} {key : String}
    (h : isTruthy (Assoc.get? es key) = true) : key ∈ es.map Prod.fst := by
  cases hget : Assoc.get? es key with
  | none => rw [hget] at h; exact absurd h nofun
  | some v => exact mem_keys_iff.2 (by rw [hget]; rfl)

/-- References resolve only to what the model was shown: each argument with a reference has a value
that was shown at its place; the other arguments are those of the plan; in a continuation an
argument that takes an id has a reference; and an action that needs an account has that of the
artifact its reference points to. -/
theorem references_shown {member : String → String → Member} {action out : PlanAction}
    {allowedPrior allowed : List Observation} {rawPrior : List PriorArtifact} {continuation : Bool}
    (hvalid : validateAction registry index raw = .ok u)
    (hplan : PlanAction.ofPlan raw = some action)
    (hunique : (action.resultRefs.map Prod.fst).Nodup)
    (h : resolveReferences member registry action allowedPrior rawPrior allowed continuation =
      .ok out) :
    (∀ e ∈ action.resultRefs, ∃ value, Assoc.get? out.arguments e.1 = some value ∧
      Shown action.tool allowed e.1 e.2 value) ∧
    (∀ e ∈ action.priorResultRefs.getD [], ∃ value, Assoc.get? out.arguments e.1 = some value ∧
      ShownPrior action.tool allowedPrior e.1 e.2 value) ∧
    (∀ argument, argument ∉ action.resultRefs.map Prod.fst → argument ∉ action.priorNames →
      Assoc.get? out.arguments argument = Assoc.get? action.arguments argument) ∧
    (continuation = true → ∀ ids, Assoc.get? idArguments action.tool = some ids →
      ∀ argument ∈ ids, Assoc.get? out.arguments argument ≠ none →
        argument ∈ action.resultRefs.map Prod.fst ∨ argument ∈ action.priorNames) ∧
    ∀ e ∈ action.priorResultRefs.getD [], needsAccount action.tool = true →
      (∃ source ∈ rawPrior, PointsTo e.2 source ∧ isTruthy source.accountBinding = true ∧
        out.sourceAccountBinding = source.accountBinding) ∧
      (BindingsAgree rawPrior → ∀ source ∈ rawPrior, PointsTo e.2 source →
        out.sourceAccountBinding = source.accountBinding) := by
  obtain ⟨hreserved, hapart⟩ := validateAction_refs hvalid hplan
  obtain ⟨mid, hmid, h⟩ := bind_eq_ok.1 h
  obtain ⟨⟨htool, hrefs, hprior⟩, hshownPrior, hsame, haccount⟩ := resolvePrior_spec hmid
  obtain ⟨hargs, hout, hids⟩ := resolveActionReferences_ok h
  rw [hrefs, htool] at hargs
  obtain ⟨hshown, hother⟩ := get?_resolveRefs hargs hunique fun e he hproto =>
    hreserved e he (by rw [hproto]; decide)
  have hbinding : out.sourceAccountBinding = mid.sourceAccountBinding := by rw [hout]
  refine ⟨hshown, fun e he => ?_, fun argument hres hpr => ?_, fun hcontinue ids hlist argument hin
    hgiven => ?_, hbinding ▸ haccount⟩
  · obtain ⟨value, hvalue, hat⟩ := hshownPrior e he
    refine ⟨value, ?_, hat⟩
    rw [hother _ fun hmem => hapart _ hmem (List.mem_map_of_mem he), hvalue]
  · rw [hother _ hres, hsame _ hpr]
  · have hreferred := hids hcontinue ids (htool ▸ hlist) argument hin
    rw [isReferred, hrefs, hprior, Bool.or_eq_true, Bool.or_eq_true] at hreferred
    obtain (hnone | hres) | hpr := hreferred
    · exact absurd (isNone_iff_eq_none.1 hnone) hgiven
    · exact .inl (mem_keys_of_isTruthy hres)
    · refine .inr ?_
      cases hrefs' : action.priorResultRefs with
      | none => rw [hrefs'] at hpr; exact absurd hpr nofun
      | some refs =>
        rw [hrefs', bind_some] at hpr
        simpa [PlanAction.priorNames, hrefs'] using mem_keys_of_isTruthy hpr

end

/-- The number zero. -/
def zero : ParsedJson := .num (.finite ⟨false, 0, 0, by norm_num, by norm_num, by norm_num⟩)

/-- A registry with the tool that reads a mail. -/
def sampleRegistry : Registry :=
  ⟨[("email.read", ⟨⟨["id"], [("id", some (.name "string"))]⟩, fun _ => .ok ()⟩)], []⟩

/-- The mail of the first item of the first step. -/
def sampleRef : ParsedJson := .obj [("stepIndex", zero), ("itemIndex", zero), ("path", .str "id")]

/-- The arguments that the model fills in. -/
def sampleArguments : List (String × ParsedJson) := [("id", .str "unknown")]

/-- The action of the plan. -/
def samplePlan : ParsedJson :=
  .obj [("tool", .str "email.read"), ("arguments", .obj sampleArguments),
    ("resultRefs", .obj [("id", sampleRef)])]

/-- What the search found. -/
def sampleObservation : Observation :=
  ⟨0, "email.search", none, "executed", [⟨0, .obj [("id", .str "m1")]⟩]⟩

/-- The action of the plan as the run takes it. -/
def sampleAction : PlanAction :=
  ⟨"email.read", sampleArguments, [("id", sampleRef)], none, none⟩

theorem sample_unique : (sampleAction.resultRefs.map Prod.fst).Nodup := by simp [sampleAction]

theorem sample_validated : validateAction sampleRegistry 0 samplePlan = .ok () := by decide +kernel

theorem sample_resolved :
    resolveReferences (fun _ _ => .absent) sampleRegistry sampleAction [] [] [sampleObservation]
      true = .ok { sampleAction with arguments := [("id", .str "m1")] } := by
  -- paths are split by a recursion that only unfolds on demand
  with_unfolding_all rfl

theorem sample_references_shown : ∃ value,
    Assoc.get? [("id", ParsedJson.str "m1")] "id" = some value ∧
      Shown "email.read" [sampleObservation] "id" sampleRef value :=
  (references_shown sample_validated (rfl : PlanAction.ofPlan samplePlan = some sampleAction)
    sample_unique sample_resolved).1 ("id", sampleRef) (mem_singleton_self _)

end U2os.Server.Agent.ResultReferences
