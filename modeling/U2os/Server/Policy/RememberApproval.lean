import Mathlib.Data.List.Perm.Subperm
import Mathlib.Data.Set.Basic
import U2os.Server.Agent.Gate
import U2os.Server.Policy.Overlay
import U2os.Server.Vault.Render

/-!
# Approve and always allow

`policy/remember-approval.js` with `previewRemember` of `agent/approval-manager.js`: an approval is
planned from the rule that stopped the action, the action is approved and runs, and then the plan is
written into the vault policy file, as an edit of its text.

The file may be edited while the action runs, and the plan is not looked at again.  The YAML parser
is a parameter.
-/

namespace U2os.Server.Policy

open JsText List
open Vault (deepEq YamlLibrary)
open Fallible (bind_eq_ok map_eq_ok)
open Yaml (lookup)

/-! ### The plan -/

/-- A name that a plan may write: `/^[A-Za-z0-9_-]+$/`. -/
def isName (s : String) : Bool := s ≠ "" && s.toList.all fun c => isWord c || c = '-'

/-- A rule to be remembered. -/
structure RememberPlan where
  domain : String
  operation : String
  subCategory : Option String
  domain_isName : isName domain = true
  operation_isName : isName operation = true
  subCategory_isName : ∀ sub ∈ subCategory, isName sub = true ∧ sub ≠ "default"
  deriving DecidableEq

def RememberPlan.level : String := "autonomous"

/-- An action, as the plan reads it. -/
structure PendingAction where
  /-- `status === 'pending'`. -/
  pending : Bool := true
  /-- The action is a package's. -/
  packageContext : Bool := false
  policyRule : Option String := none

/-- What a rule ends in. -/
inductive RuleKind where
  | confirm
  | missing
  deriving DecidableEq

/-- A segment of the path of a rule: `[^.:\s]+`. -/
def isSegment (cs : List Char) : Bool := cs ≠ [] && cs.all fun c => !isSpace c

/-- The last part of a rule. -/
def ruleKind (cs : List Char) : Option RuleKind :=
  if cs = "confirm".toList then some .confirm
  else if cs = "missing".toList then some .missing
  else none

/-- `RULE`: the domain, the operation and the sub-category, and the kind. -/
def parseRule (rule : String) : Option (String × String × Option String × RuleKind) :=
  match rule.toList.splitOn ':' with
  | [path, kind] =>
    (ruleKind kind).bind fun kind =>
      let segments := path.splitOn '.'
      if segments.all isSegment then
        match segments.map String.ofList with
        | [domain, operation] => some (domain, operation, none, kind)
        | [domain, operation, sub] => some (domain, operation, some sub, kind)
        | _ => none
      else none
  | _ => none

def isMapping : JsValue → Bool
  | .data v => v.isMapping
  | .native _ callable => !callable
  | .undefined => false

/-- `value === level`. -/
def reads (value : JsValue) (level : String) : Bool :=
  match value with
  | .data (.str s) => s = level
  | _ => false

/-- The rule of the plan is the one in the table. -/
def planned (current : JsValue) (L : Library grants) (sub : Option String) : RuleKind → Bool
  | .missing => (defined? current).isNone && sub.isNone
  | .confirm =>
    match sub with
    | none => reads current "confirm"
    | some sub => isMapping current && reads (current.get L sub) "confirm"

/-- The text of most refusals. -/
def cannotRemember : String := "This rule cannot be remembered automatically."

/-- The plan for a rule that stopped an action. -/
def planRule (L : Library grants) (policies : Policies) (rule : String) :
    Except String RememberPlan :=
  match parseRule rule with
  | none => .error cannotRemember
  | some (domain, operation, sub, kind) =>
    if hnames : isName domain = true ∧ isName operation = true ∧ ∀ s ∈ sub, isName s = true then
      if hdefault : sub = some "default" then
        .error ("This applies to every category without its own rule. " ++
          "Edit policies.yaml deliberately to change it.")
      else if planned (policies.rule L domain operation) L sub kind then
        .ok ⟨domain, operation, sub, hnames.1, hnames.2.1,
          fun s hs => ⟨hnames.2.2 s hs, fun h => hdefault (h ▸ hs)⟩⟩
      else .error cannotRemember
    else .error cannotRemember

def planRemember (L : Library grants) (action : PendingAction) (evaluation : Option Evaluation)
    (policies : Policies) : Except String RememberPlan :=
  if !action.pending then .error "Only an action that is waiting for approval can be remembered."
  else if action.packageContext then
    .error "Package actions follow the package policy and cannot be remembered here."
  else if policies.vaultInvalid then
    .error "Your vault policies.yaml is invalid. Fix it before remembering approvals."
  else
    match evaluation.filter fun e => !e.blocked && e.requiresApproval with
    | none => .error "This action is not waiting on a plain confirm rule."
    | some e =>
      -- a stricter gate changed the rule when the action was proposed
      if (action.policyRule.filter (· ≠ "")).any (· ≠ e.rule) then
        .error "A stricter rule applied when this was proposed, so it cannot be remembered."
      else planRule L policies e.rule

/-- `previewRemember`, of an action whose tool is registered or not. -/
def previewRemember (L : Library grants) (action : PendingAction) (tool : Option Tool)
    (context : EvalContext) (policies : Policies) : Except String RememberPlan :=
  match tool.bind fun tool => (policies.evaluate L tool context).toOption with
  | none => planRemember L action none { value := .null }
  | some e => planRemember L action (some e) policies

/-! ### The text -/

/-- The rest of a line that starts so. -/
def after? (start : String) (line : List Char) : Option (List Char) :=
  if start.toList.isPrefixOf line then some (line.drop start.toList.length) else none

/-- `#.*$`. -/
def isComment : List Char → Bool
  | [] => false
  | c :: cs => c = '#' && cs.all fun c => !isLineTerminator c

/-- `^\s*(#.*)?$`. -/
def isBlankOrComment (cs : List Char) : Bool :=
  let rest := cs.dropWhile isSpace
  rest.isEmpty || isComment rest

/-- A line of a block, or an empty line or a comment inside it. -/
def inBlock : List Char → Bool
  | [] => true
  | c :: _ => isSpace c || c = '#'

/-- An empty line or a comment at the margin. -/
def isLoose : List Char → Bool
  | [] => true
  | c :: _ => c = '#'

/-- The lines of a domain, from those that follow its name. -/
def blockOf (lines : List (List Char)) : List (List Char) :=
  ((lines.takeWhile inBlock).reverse.dropWhile isLoose).reverse

/-- `^( +)\S`. -/
def indentOf (line : List Char) : Option (List Char) :=
  let indent := line.takeWhile (· = ' ')
  if indent ≠ [] && (line.drop indent.length).head?.any fun c => !isSpace c then some indent
  else none

/-- The indentation of a block. -/
def childIndent (block : List (List Char)) : List Char :=
  (block.findSome? indentOf).getD "  ".toList

/-- What follows the name of the operation on its line. -/
def operationRest (operation : String) (line : List Char) : Option (List Char) :=
  (after? ("  " ++ operation ++ ":") line).filter fun rest =>
    rest.all fun c => !isLineTerminator c

/-- `(\s+)[A-Za-z]+(\s+#.*)?$`: the spaces before the word, and the comment after it. -/
def scalar (rest : List Char) : Option (List Char × List Char) :=
  let spaces := rest.takeWhile isSpace
  let word := rest.dropWhile isSpace
  let comment := word.dropWhile Char.isAlpha
  if spaces ≠ [] && (word.head?.any Char.isAlpha) &&
      (comment.isEmpty || comment.head?.any isSpace && isComment (comment.dropWhile isSpace)) then
    some (spaces, comment)
  else none

/-- A line of the block of an operation. -/
def inOperation (line : List Char) : Bool :=
  line.isEmpty || "   ".toList.isPrefixOf line || (line.dropWhile isSpace).head? = some '#'

/-- What stands around the level on the line of a sub-category. -/
def subRest (sub : String) (line : List Char) : Option (List Char × List Char) :=
  (after? ("    " ++ sub ++ ":") line).bind scalar

/-- `renderOperation`; a level without a text throws. -/
def renderOperation (indent operation : String) (value : Yaml) : Option String :=
  if value.isMapping then
    (value.entries.mapM fun (p : String × Yaml) => p.2.text.map fun level =>
      indent ++ "  " ++ p.1 ++ ": " ++ level ++ "\n").map fun lines =>
        indent ++ operation ++ ":\n" ++ String.join lines
  else value.text.map fun level => indent ++ operation ++ ": " ++ level ++ "\n"

def renderDomain (domain operation : String) (value : Yaml) : Option String :=
  (renderOperation "  " operation value).map fun lines => domain ++ ":\n" ++ lines

/-- What separates a new domain from the text before it. -/
def separator (text : List Char) : String :=
  if text = [] ∨ "\n\n".toList.isSuffixOf text then ""
  else if "\n".toList.isSuffixOf text then "\n"
  else "\n\n"

/-- `lines.join('\n')`. -/
def joinLines (lines : List (List Char)) : String := String.ofList (['\n'].intercalate lines)

/-- The lines of a text, without an empty one after the last newline. -/
def textLines (text : String) : List (List Char) :=
  let lines := text.toList.splitOn '\n'
  if lines.getLast? = some [] then lines.dropLast else lines

/-- The line of a level is replaced. -/
def patchLevel (plan : RememberPlan) (lines : List (List Char)) (index : ℕ)
    (block : List (List Char)) (rest : List Char) : Option String :=
  match plan.subCategory with
  | none =>
    (scalar rest).map fun (_, comment) =>
      joinLines (lines.set index
        (("  " ++ plan.operation ++ ": " ++ RememberPlan.level).toList ++ comment))
  | some sub =>
    if isBlankOrComment rest then
      let inner := block.takeWhile inOperation
      (inner.findIdx? fun line => (subRest sub line).isSome).bind fun j =>
        (subRest sub (inner.getD j [])).map fun (spaces, comment) =>
          joinLines (lines.set (index + 1 + j)
            (("    " ++ sub ++ ":").toList ++ spaces ++ RememberPlan.level.toList ++ comment))
    else none

/-- A conversion to a string throws. -/
def orThrow {α : Type*} (x : Option α) : Except String α :=
  x.elim (.error "Cannot convert object to primitive value") .ok

/-- `patchPoliciesText`; none where the layout is not understood. -/
def patchPoliciesText (L : Library grants) (text : String) (plan : RememberPlan) (value parsed : Yaml) :
    Except String (Option String) := do
  let lines := text.toList.splitOn '\n'
  match lines.findIdx? fun line => (after? (plan.domain ++ ":") line).any isBlankOrComment with
  | none =>
    if (defined? ((JsValue.data parsed).get L plan.domain)).isSome then return none
    let rendered ← orThrow (renderDomain plan.domain plan.operation value)
    return some (text ++ separator text.toList ++ rendered)
  | some i =>
    let block := blockOf (lines.drop (i + 1))
    if childIndent block ≠ "  ".toList then return none
    match block.findIdx? fun line => (operationRest plan.operation line).isSome with
    | none =>
      if (defined? (((JsValue.data parsed).get L plan.domain).get L plan.operation)).isSome then
        return none
      let rendered ← orThrow (renderOperation "  " plan.operation value)
      return some (joinLines (lines.take (i + 1) ++ (textLines rendered ++ lines.drop (i + 1))))
    | some j =>
      return (operationRest plan.operation (block.getD j [])).bind fun rest =>
        patchLevel plan lines (i + 1 + j) (block.drop (j + 1)) rest

/-! ### The file -/

/-- What stands under the path of the vault policy file. -/
inductive VaultDisk where
  | absent
  /-- No regular file, or one that cannot be read. -/
  | unreadable
  | regular (size : ℕ) (text : String)

/-- The largest policy file: 64 KiB. -/
def sizeLimit : ℕ := 64 * 1024

/-- The file, as `loadPolicies` reads it. -/
def VaultDisk.read (Y : YamlLibrary) : VaultDisk → VaultFile
  | .absent => .absent
  | .unreadable => .unreadable
  | .regular size text =>
    if size > sizeLimit then .unreadable
    else match Y.load text with
      | .ok v => .content v
      | .error _ => .unreadable

/-- The text of the file; none where there is no file. -/
def VaultDisk.text : VaultDisk → Except String (Option String)
  | .absent => .ok none
  | .unreadable => .error "policies.yaml in your vault is not a regular file under 64 KiB"
  | .regular size text =>
    if size > sizeLimit then
      .error "policies.yaml in your vault is not a regular file under 64 KiB"
    else .ok (some text)

/-- `?? {}`. -/
def orEmpty : Yaml → Yaml
  | .null => .map []
  | v => v

/-- `before[domain]?.[operation] !== undefined ? … : effective?.[domain]?.[operation]`. -/
def RememberPlan.base (L : Library grants) (plan : RememberPlan) (before : Yaml)
    (effective : Policies) : JsValue :=
  (defined? (((JsValue.data before).get L plan.domain).get L plan.operation)).getD
    (effective.rule L plan.domain plan.operation)

/-- The sub-categories that a rule for one of them carries along. -/
def siblings : JsValue → List (String × Yaml)
  | .data v => if v.isMapping then v.entries else []
  | _ => []

/-- `operationValue`. -/
def RememberPlan.value (plan : RememberPlan) (base : JsValue) : Yaml :=
  match plan.subCategory with
  | none => .str RememberPlan.level
  | some sub => .map (Yaml.assign sub (.str RememberPlan.level) (siblings base))

/-- `expected`; none where no document equals it: an assignment to `__proto__` creates no entry. -/
def RememberPlan.expected (plan : RememberPlan) (value : Yaml) : Yaml → Option Yaml
  | .map vault =>
    let operations := (lookup vault plan.domain).elim [] fun v => if v.isMapping then v.entries else []
    if plan.domain = "__proto__" ∧ lookup vault plan.domain = none then none
    else some (.map (Yaml.assign plan.domain (.map (Yaml.assign plan.operation value operations)) vault))
  | _ => none

def header : String :=
  "# What U2OS may do on your behalf (docs/policies.md).\n" ++
    "# Levels: always, autonomous (act without asking), confirm (ask first), never.\n" ++
    "# This file overrides U2OS_HOME/policies/policies.yaml per domain operation.\n\n"

/-- The file, parsed and checked. -/
def VaultDisk.before (Y : YamlLibrary) (file : VaultDisk) : Except String Yaml := do
  let text ← file.text
  let before ← text.elim (.ok (.map [])) fun t => (Y.load t).map orEmpty
  validatePolicies before
  return before

/-- The file with the edit. -/
def editedText (L : Library grants) (Y : YamlLibrary) (plan : RememberPlan)
    (effective : Policies) (file : VaultDisk) : Except String String := do
  let before ← file.before Y
  let value := plan.value (plan.base L before effective)
  let patched ← match ← file.text with
    | none => (orThrow (renderDomain plan.domain plan.operation value)).map fun t => some (header ++ t)
    | some t => patchPoliciesText L t plan value before
  match patched with
  | none =>
    throw "policies.yaml has a layout U2OS will not edit automatically; set the rule there by hand"
  | some text => return text

/-- The new text of the file: it is parsed again and compared with the change that was meant. -/
def rememberedText (L : Library grants) (Y : YamlLibrary) (plan : RememberPlan)
    (effective : Policies) (file : VaultDisk) : Except String String := do
  let before ← file.before Y
  let patched ← editedText L Y plan effective file
  let after ← (Y.load patched).map orEmpty
  validatePolicies after
  if (plan.expected (plan.value (plan.base L before effective)) before).any (deepEq after) then
    return patched
  else throw "Refused to edit policies.yaml: the change would not be exactly the remembered rule"

/-- The steps of the write that can fail. -/
inductive WriteStep where
  | mkdir
  | stat
  | write
  | rename
  deriving DecidableEq

/-- The directory of the vault. -/
structure VaultDir where
  policies : VaultDisk
  /-- What the temporary file beside it was last written with. -/
  temp : Option String := none

/-- The text is written beside the file and renamed over it; a step may fail. -/
def VaultDir.replace (dir : VaultDir) (fails : Option WriteStep) (text : String) :
    Except String Unit × VaultDir :=
  match fails with
  | some .mkdir | some .stat => (.error "EACCES: permission denied", dir)
  | some .write => (.error "ENOSPC: no space left on device", { dir with temp := some "" })
  | some .rename => (.error "EACCES: permission denied", { dir with temp := some text })
  | none => (.ok (), { policies := .regular text.utf8ByteSize text, temp := none })

def applyRememberedRule (L : Library grants) (Y : YamlLibrary) (plan : RememberPlan)
    (effective : Policies) (fails : Option WriteStep) (dir : VaultDir) :
    Except String Unit × VaultDir :=
  match rememberedText L Y plan effective dir.policies with
  | .error reason => (.error reason, dir)
  | .ok text => dir.replace fails text

variable {L : Library grants} {Y : YamlLibrary} {es es' : List (String × Yaml)} {v w : Yaml}
  {k : String}

theorem deepEqIn_iff : Vault.deepEqIn es es' = true ↔
    ∀ e ∈ es, ∃ w, lookup es' e.1 = some w ∧ deepEq e.2 w = true := by
  induction es with
  | nil => simp [Vault.deepEqIn]
  | cons e es ih =>
    obtain ⟨k, v⟩ := e
    rw [Vault.deepEqIn, Bool.and_eq_true, ih, forall_mem_cons]
    refine and_congr_left fun _ => ?_
    change (lookup es' k).any (deepEq v) = true ↔ _
    cases lookup es' k <;> simp

theorem lookup_of_deepEq (hnodup : (es.map Prod.fst).Nodup)
    (h : deepEq (.map es) (.map es') = true) (k : String) :
    Option.Rel (fun v w => deepEq v w = true) (lookup es k) (lookup es' k) := by
  rw [deepEq, Bool.and_eq_true, decide_eq_true_iff, deepEqIn_iff] at h
  obtain ⟨hlength, hin⟩ := h
  have hsub : es.map Prod.fst ⊆ es'.map Prod.fst := by
    intro k hk
    obtain ⟨e, he, rfl⟩ := mem_map.1 hk
    obtain ⟨w, hw, -⟩ := hin e he
    exact Yaml.lookup_isSome_iff.1 (by rw [hw]; rfl)
  have hperm : (es.map Prod.fst).Perm (es'.map Prod.fst) :=
    (Nodup.subperm hnodup hsub).perm_of_length_le (by simp [hlength])
  cases hv : lookup es k with
  | none =>
    have hk : k ∉ es.map Prod.fst := Yaml.lookup_eq_none_iff.1 hv
    rw [Yaml.lookup_eq_none_iff.2 fun hmem => hk (hperm.mem_iff.2 hmem)]
    exact .none
  | some v =>
    obtain ⟨w, hw, heq⟩ := hin (k, v) (Yaml.mem_of_lookup hv)
    rw [hw]
    exact .some heq

theorem same_map_of_deepEq (hd : (Yaml.map es).Distinct) (h : deepEq (.map es) w = true)
    (hvalues : ∀ e ∈ es, ∀ w, deepEq e.2 w = true → e.2.Same w) : (Yaml.map es).Same w := by
  cases w with
  | map es' =>
    refine Yaml.same_map_iff.2 fun k => ?_
    have hk := lookup_of_deepEq hd.nodup h k
    cases hv : lookup es k <;> cases hw : lookup es' k <;> rw [hv, hw] at hk <;> cases hk
    · exact .none
    · exact .some (hvalues (k, _) (Yaml.mem_of_lookup hv) _ ‹_›)
  | _ => simp [deepEq] at h

theorem same_of_isLevel (hv : isLevel v = true) (h : deepEq v w = true) : v.Same w := by
  cases v <;> simp [isLevel] at hv
  cases w <;> simp [deepEq] at h
  rw [h]
  exact .refl _

theorem same_of_isMapping (hv : v.isMapping = true) (hmap : ∀ es, v ≠ .map es)
    (h : deepEq v w = true) : v.Same w := by
  cases v <;> simp [Yaml.isMapping] at hv
  · cases w <;> simp [deepEq] at h
    rw [h]
    exact .refl _
  · cases w <;> simp [deepEq] at h
    rw [h]
    exact .refl _
  · exact absurd rfl (hmap _)

theorem same_of_ruleLevels (hd : v.Distinct) (hv : (ruleLevels v).all isLevel = true)
    (h : deepEq v w = true) : v.Same w := by
  cases v with
  | str s => exact same_of_isLevel (by simpa [ruleLevels] using hv) h
  | map es =>
    refine same_map_of_deepEq hd h fun e he w heq => same_of_isLevel ?_ heq
    exact all_eq_true.1 hv e.2 (mem_map_of_mem he)
  | date t | bytes bs => exact same_of_isMapping rfl (fun _ => nofun) h
  | null | bool b | num t | seq items => cases hv

theorem same_of_operations (hd : v.Distinct) (hmap : v.isMapping = true)
    (hv : ∀ q ∈ v.entries, (ruleLevels q.2).all isLevel = true) (h : deepEq v w = true) :
    v.Same w := by
  by_cases hes : ∃ es, v = .map es
  · obtain ⟨es, rfl⟩ := hes
    refine same_map_of_deepEq hd h fun e he w heq => ?_
    exact same_of_ruleLevels (hd.of_mem he) (hv e he) heq
  · exact same_of_isMapping hmap (fun es hes' => hes ⟨es, hes'⟩) h

theorem same_of_deepEq (hd : (Yaml.map es).Distinct) (hv : validatePolicies (.map es) = .ok ())
    (h : deepEq (.map es) w = true) : (Yaml.map es).Same w := by
  refine same_map_of_deepEq hd h fun e he w heq => ?_
  obtain ⟨hmap, hrules⟩ := (validatePolicies_ok hv).2 e he
  exact same_of_operations (hd.of_mem he) hmap hrules heq

/-- The rule of the plan asks: it is `confirm`, or the operation has none. -/
def Asks (L : Library grants) (policies : Policies) (plan : RememberPlan) : Prop :=
  let current := policies.rule L plan.domain plan.operation
  current = .undefined ∨
    match plan.subCategory with
    | none => current = .str "confirm"
    | some sub => current.isObject = true ∧ current.get L sub = .str "confirm"

/-- The plan is about the operation of the tool. -/
def RememberPlan.Names (plan : RememberPlan) (tool : Tool) : Prop :=
  tool.domain = plan.domain ∧ tool.operation = plan.operation

/-- The plan is about this decision. -/
def RememberPlan.Covers (plan : RememberPlan) (tool : Tool) (context : EvalContext) : Prop :=
  tool.isRead = false ∧ plan.Names tool ∧ ∀ sub ∈ plan.subCategory, context.subCategory = some sub

/-- The decision of a remembered rule. -/
def RememberPlan.evaluation (plan : RememberPlan) (tool : Tool) : Evaluation where
  autonomyLevel := .level 4
  requiresApproval := false
  blocked := false
  domain := tool.domain
  rule := tool.path ++ plan.subCategory.elim "" ("." ++ ·) ++ ":autonomous"
  reason := tool.path ++ " is configured for delegated autonomy."

/-- Between two tables, the rule of the plan is loosened, and nothing else changes. -/
structure Loosens (L : Library grants) (tools : Set Tool) (plan : RememberPlan)
    (before after : Policies) : Prop where
  asked : Asks L before plan
  remembered : ∀ tool context, plan.Covers tool context →
    after.evaluate L tool context = .ok (plan.evaluation tool)
  others : ∀ tool ∈ tools, ∀ context, ¬plan.Covers tool context →
    after.evaluate L tool context = before.evaluate L tool context

/-- The domains of the vault policy file. -/
def VaultDisk.domains (Y : YamlLibrary) (file : VaultDisk) : List (String × Yaml) :=
  match file.read Y with
  | .content v => (orEmpty v).entries
  | _ => []

/-- The operations of the vault policy under the domain of the plan. -/
def RememberPlan.operations (plan : RememberPlan) (vault : List (String × Yaml)) : Yaml :=
  (lookup vault plan.domain).getD (.map [])

/-- The vault policy with the domain of the plan, where need be without an operation. -/
def RememberPlan.naming (plan : RememberPlan) (vault : List (String × Yaml)) :
    List (String × Yaml) := Yaml.assign plan.domain (plan.operations vault) vault

/-- The files still are what the plan was made from. -/
structure Current (L : Library grants) (Y : YamlLibrary) (tools : Set Tool) (home : Yaml)
    (plan : RememberPlan) (effective : Policies) (file : VaultDisk) : Prop where
  /-- The rule still asks. -/
  asks : Asks L (loadPolicies home (file.read Y)) plan
  /-- The sub-categories that are carried along decide as those of the files. -/
  carries : ∀ tool ∈ tools, tool.isRead = false → plan.Names tool →
    ∀ sub ∈ plan.subCategory, ∀ context, context.subCategory ≠ some sub →
      decideRule L false tool
        (.data (.map (siblings (plan.base L (.map (file.domains Y)) effective)))) context =
      (loadPolicies home (file.read Y)).evaluate L tool context
  /-- To name the domain in the vault file changes nothing by itself. -/
  names : ∀ tool ∈ tools, tool.isRead = false → ¬plan.Names tool → ∀ context,
    (overlay home (plan.naming (file.domains Y))).evaluate L tool context =
      (loadPolicies home (file.read Y)).evaluate L tool context
  /-- The patched file is not too large to be read again. -/
  fits : ∀ text, editedText L Y plan effective file = .ok text → text.utf8ByteSize ≤ sizeLimit

/-! ### What a plan is made from -/

variable {es operations vault : List (String × Yaml)}

section Written

variable {plan : RememberPlan} {effective : Policies} {file : VaultDisk} {text : String}
  {home : Yaml} {tools : Set Tool}

/-- What a successful edit says about the file before and after it. -/
structure Written (L : Library grants) (Y : YamlLibrary) (plan : RememberPlan)
    (effective : Policies) (file : VaultDisk) (vault' : List (String × Yaml)) : Prop where
  before_valid : validatePolicies (.map (file.domains Y)) = .ok ()
  before_table : ∀ home,
    file.domains Y = [] ∧ loadPolicies home (file.read Y) = { value := homeTable home } ∨
      loadPolicies home (file.read Y) = overlay home (file.domains Y)
  before_distinct : (Yaml.map (file.domains Y)).Distinct
  after_valid : validatePolicies (.map vault') = .ok ()
  after_distinct : (Yaml.map vault').Distinct
  same : (Yaml.map vault').Same (.map (Yaml.assign plan.domain (.map (Yaml.assign plan.operation
    (plan.value (plan.base L (.map (file.domains Y)) effective))
    (plan.operations (file.domains Y)).entries)) (file.domains Y)))

theorem distinct_orEmpty (hd : v.Distinct) : (orEmpty v).Distinct := by
  cases v with
  | null => exact .nil
  | _ => exact hd

theorem loadPolicies_orEmpty (hv : orEmpty v = .map vault)
    (hvalid : validatePolicies (.map vault) = .ok ()) :
    loadPolicies home (.content v) = overlay home vault := by
  cases v with
  | null =>
    cases hv
    exact loadPolicies_content hvalid
  | map es =>
    cases hv
    exact loadPolicies_content hvalid
  | _ => cases hv

/-- A file that can be edited holds valid policies, with each key once. -/
theorem before_ok (hY : ∀ t v, Y.load t = .ok v → v.Distinct)
    (h : file.before Y = .ok (.map vault)) :
    file.domains Y = vault ∧ validatePolicies (.map vault) = .ok () ∧ (Yaml.map vault).Distinct ∧
      ∀ home, vault = [] ∧ loadPolicies home (file.read Y) = { value := homeTable home } ∨
        loadPolicies home (file.read Y) = overlay home vault := by
  obtain ⟨text, htext, h⟩ := bind_eq_ok.1 h
  obtain ⟨before, hbefore, h⟩ := bind_eq_ok.1 h
  obtain ⟨_, hvalid, h⟩ := bind_eq_ok.1 h
  cases h
  cases file with
  | absent =>
    cases htext
    cases hbefore
    exact ⟨rfl, hvalid, .nil, fun home => .inl ⟨rfl, rfl⟩⟩
  | unreadable => cases htext
  | regular size content =>
    unfold VaultDisk.text at htext
    dsimp only at htext
    split_ifs at htext with hsize
    cases htext
    obtain ⟨v, hload, hv⟩ := map_eq_ok.1 hbefore
    have hread : (VaultDisk.regular size content).read Y = .content v := by
      rw [VaultDisk.read, if_neg hsize, hload]
    refine ⟨?_, hvalid, hv ▸ distinct_orEmpty (hY _ _ hload), fun home => .inr ?_⟩
    · rw [VaultDisk.domains, hread]
      dsimp only
      rw [hv]
      rfl
    · rw [hread]
      exact loadPolicies_orEmpty hv hvalid

theorem expected_eq_some {before value expected : Yaml} (hvalid : validatePolicies before = .ok ())
    (h : plan.expected value before = some expected) :
    ∃ vault, before = .map vault ∧ expected = .map (Yaml.assign plan.domain
      (.map (Yaml.assign plan.operation value (plan.operations vault).entries)) vault) := by
  cases before with
  | map vault =>
    unfold RememberPlan.expected at h
    dsimp only at h
    split_ifs at h
    refine ⟨vault, rfl, (Option.some_inj.1 h).symm.trans ?_⟩
    rw [RememberPlan.operations]
    cases hv : lookup vault plan.domain with
    | none => rfl
    | some operations =>
      have hmap : operations.isMapping = true :=
        ((validatePolicies_ok hvalid).2 (plan.domain, operations) (Yaml.mem_of_lookup hv)).1
      simp [hmap]
  | _ => cases h

/-- A remembered text is read as the edited policies. -/
theorem rememberedText_ok (hY : ∀ t v, Y.load t = .ok v → v.Distinct)
    (h : rememberedText L Y plan effective file = .ok text) :
    editedText L Y plan effective file = .ok text ∧
      ∃ v vault', Y.load text = .ok v ∧ orEmpty v = .map vault' ∧
        Written L Y plan effective file vault' := by
  obtain ⟨before, hbefore, h⟩ := bind_eq_ok.1 h
  obtain ⟨patched, hpatched, h⟩ := bind_eq_ok.1 h
  obtain ⟨after, hafter, h⟩ := bind_eq_ok.1 h
  obtain ⟨_, hvalid, h⟩ := bind_eq_ok.1 h
  split_ifs at h with hany
  cases h
  obtain ⟨v, hload, hv⟩ := map_eq_ok.1 hafter
  cases hexpected : plan.expected (plan.value (plan.base L before effective)) before with
  | none => simp [hexpected] at hany
  | some expected =>
    rw [hexpected] at hany
    have hbefore_valid : validatePolicies before = .ok () := by
      obtain ⟨_, -, h⟩ := bind_eq_ok.1 hbefore
      obtain ⟨_, -, h⟩ := bind_eq_ok.1 h
      obtain ⟨_, hvalid, h⟩ := bind_eq_ok.1 h
      cases h
      exact hvalid
    obtain ⟨vault, rfl, rfl⟩ := expected_eq_some hbefore_valid hexpected
    obtain ⟨rfl, -, hdistinct, htable⟩ := before_ok hY hbefore
    have hafter_distinct : after.Distinct := hv ▸ distinct_orEmpty (hY _ _ hload)
    cases after with
    | map vault' =>
      exact ⟨hpatched, v, vault', hload, hv, hbefore_valid, htable, hdistinct, hvalid,
        hafter_distinct, same_of_deepEq hafter_distinct hvalid hany⟩
    | _ => simp [deepEq] at hany

section After

variable {vault' : List (String × Yaml)} (hw : Written L Y plan effective file vault')
  (hL : L.Uniform) (hdomain : plan.domain ≠ "__proto__")

include hw

theorem Written.operations_distinct : (plan.operations (file.domains Y)).Distinct := by
  rw [RememberPlan.operations]
  cases hv : lookup (file.domains Y) plan.domain with
  | none => exact .nil
  | some operations => exact hw.before_distinct.of_lookup _ hv

theorem Written.nodup_operations :
    ((plan.operations (file.domains Y)).entries.map Prod.fst).Nodup := by
  rw [RememberPlan.operations]
  cases hv : lookup (file.domains Y) plan.domain with
  | none => exact nodup_nil
  | some operations =>
    obtain ⟨hmap, hrules⟩ :=
      (validatePolicies_ok hw.before_valid).2 (plan.domain, operations) (Yaml.mem_of_lookup hv)
    exact Policy.nodup_operations (hw.before_distinct.of_lookup _ hv) hmap hrules

theorem Written.naming_distinct : (Yaml.map (plan.naming (file.domains Y))).Distinct :=
  hw.before_distinct.assign hw.operations_distinct _

theorem Written.lookup_other {k : String} (hk : plan.domain ≠ k) :
    Option.Rel Yaml.Same (lookup vault' k) (lookup (plan.naming (file.domains Y)) k) := by
  have hsame := Yaml.same_map_iff.1 hw.same k
  rw [Yaml.lookup_assign, if_neg hk] at hsame
  rwa [RememberPlan.naming, Yaml.lookup_assign, if_neg hk]

theorem Written.lookup_domain : ∃ es, lookup vault' plan.domain = some (.map es) ∧
    (Yaml.map es).Distinct ∧ (Yaml.map es).Same (.map (Yaml.assign plan.operation
      (plan.value (plan.base L (.map (file.domains Y)) effective))
      (plan.operations (file.domains Y)).entries)) := by
  have hsame := Yaml.same_map_iff.1 hw.same plan.domain
  rw [Yaml.lookup_assign, if_pos rfl] at hsame
  cases hv : lookup vault' plan.domain with
  | none =>
    rw [hv] at hsame
    cases hsame
  | some v =>
    rw [hv] at hsame
    cases hsame with
    | some hsame =>
      have hd := hw.after_distinct.of_lookup _ hv
      cases hsame with
      | refl _ => exact ⟨_, rfl, hd, .refl _⟩
      | map keys values => exact ⟨_, rfl, hd, .map keys values⟩

include hL hdomain

theorem Written.get_other {k : String} (hk : plan.domain ≠ k) :
    ((overlay home vault').get L k).Same
      ((overlay home (plan.naming (file.domains Y))).get L k) :=
  overlay_get_same hw.after_distinct hw.naming_distinct (hw.lookup_other hdomain) hL
    (hw.lookup_other hk)

theorem Written.rule_other {operation : String} (hop : plan.operation ≠ operation) :
    ((overlay home vault').rule L plan.domain operation).Same
      ((overlay home (plan.naming (file.domains Y))).rule L plan.domain operation) := by
  obtain ⟨es, hes, hd, hsame⟩ := hw.lookup_domain
  have hnamed : lookup (plan.naming (file.domains Y)) plan.domain =
      some (plan.operations (file.domains Y)) := by
    rw [RememberPlan.naming, Yaml.lookup_assign, if_pos rfl]
  rw [Policies.rule, Policies.rule, overlay_get hL hw.after_distinct.nodup,
    overlay_get hL hw.naming_distinct.nodup, overlaidAt_of_lookup hdomain hes,
    overlaidAt_of_lookup hdomain hnamed]
  refine JsValue.get_map_same hL ?_
  rw [Yaml.entries_map, Yaml.lookup_spread hd.nodup, Yaml.lookup_spread hw.nodup_operations]
  refine rel_or ?_ (rel_refl _)
  have hk := Yaml.same_map_iff.1 hsame operation
  rwa [Yaml.lookup_assign, if_neg hop] at hk

theorem Written.rule_plan : ((overlay home vault').rule L plan.domain plan.operation).Same
    (.data (plan.value (plan.base L (.map (file.domains Y)) effective))) := by
  obtain ⟨es, hes, hd, hsame⟩ := hw.lookup_domain
  rw [Policies.rule, overlay_get hL hw.after_distinct.nodup, overlaidAt_of_lookup hdomain hes]
  have hk := Yaml.same_map_iff.1 hsame plan.operation
  rw [Yaml.lookup_assign, if_pos rfl] at hk
  cases hv : lookup es plan.operation with
  | none =>
    rw [hv] at hk
    cases hk
  | some v =>
    rw [hv] at hk
    cases hk with
    | some hk =>
      have hfound : lookup (Yaml.spread (homeDomain home plan.domain) (Yaml.map es).entries)
          plan.operation = some v := by
        rw [Yaml.entries_map, Yaml.lookup_spread hd.nodup, hv]
        rfl
      rw [found, overlaid, JsValue.get, hfound]
      exact .data hk

/-- An operation that the plan does not name is decided as before, but that the file names the
domain. -/
theorem Written.evaluate_other {tool : Tool} (hnames : ¬plan.Names tool) (context : EvalContext) :
    (overlay home vault').evaluate L tool context =
      (overlay home (plan.naming (file.domains Y))).evaluate L tool context := by
  cases hread : tool.isRead with
  | true => rw [Policies.evaluate_read _ hread, Policies.evaluate_read _ hread]
  | false =>
    rw [Policies.evaluate_eq _ hread, Policies.evaluate_eq _ hread, overlay_vaultInvalid,
      overlay_vaultInvalid]
    refine decideRule_same hL ?_ false
    by_cases hd : plan.domain = tool.domain
    · rw [← hd]
      exact hw.rule_other hL hdomain fun hop => hnames ⟨hd.symm, hop.symm⟩
    · exact (hw.get_other hL hdomain hd).get hL _

theorem Written.evaluate_plan {tool : Tool} (hread : tool.isRead = false) (hnames : plan.Names tool)
    (context : EvalContext) : (overlay home vault').evaluate L tool context =
      decideRule L false tool
        (.data (plan.value (plan.base L (.map (file.domains Y)) effective))) context := by
  rw [Policies.evaluate_eq _ hread, overlay_vaultInvalid, hnames.1, hnames.2]
  exact decideRule_same hL (hw.rule_plan hL hdomain) false

end After

theorem not_invalidMark (path : String) :
    invalidMark.toList.isSuffixOf (path ++ ":autonomous").toList = false := by
  have hrev : invalidMark.toList.reverse.isPrefixOf (path ++ ":autonomous").toList.reverse =
      false := by
    rw [String.toList_append, reverse_append]
    rfl
  exact hrev

theorem ruleEvaluation_autonomous {tool : Tool} :
    ruleEvaluation L false tool (.str "autonomous")
      (tool.path ++ plan.subCategory.elim "" ("." ++ ·) ++ ":" ++ "autonomous") =
        plan.evaluation tool := by
  have hrule : tool.path ++ plan.subCategory.elim "" ("." ++ ·) ++ ":" ++ "autonomous" =
      tool.path ++ plan.subCategory.elim "" ("." ++ ·) ++ ":autonomous" := by
    rw [String.append_assoc]
    rfl
  have hguard : ∀ rule, guardInvalid false (.str "autonomous") rule = (.str "autonomous", rule) :=
    fun rule => if_neg (by simp)
  rw [hrule, ruleEvaluation, hguard, RememberPlan.evaluation]
  dsimp only
  rw [not_invalidMark]
  rfl

variable {tool : Tool} {context : EvalContext} {base : JsValue}

theorem decideRule_value (hcovers : plan.Covers tool context) :
    decideRule L false tool (.data (plan.value base)) context = .ok (plan.evaluation tool) := by
  obtain ⟨-, -, hsub⟩ := hcovers
  rw [← ruleEvaluation_autonomous (L := L)]
  cases hplan : plan.subCategory with
  | none =>
    rw [RememberPlan.value, hplan]
    simp [decideRule, ruleEntry, JsValue.text, Yaml.text, RememberPlan.level]
  | some sub =>
    have hlookup : (JsValue.data (.map (Yaml.assign sub (.str RememberPlan.level)
        (siblings base)))).get L sub = .str RememberPlan.level := by
      rw [JsValue.get, Yaml.lookup_assign, if_pos rfl]
    rw [decideRule, RememberPlan.value, hplan, ruleEntry_object rfl, hsub sub hplan]
    dsimp only
    rw [hlookup]
    rfl

theorem decideRule_sibling (hL : L.Uniform) {sub : String} (hsub : plan.subCategory = some sub)
    (hcontext : context.subCategory ≠ some sub) :
    decideRule L false tool (.data (plan.value base)) context =
      decideRule L false tool (.data (.map (siblings base))) context := by
  have hsame : ∀ k, sub ≠ k → ((JsValue.data (.map (Yaml.assign sub (.str RememberPlan.level)
      (siblings base)))).get L k).Same ((JsValue.data (.map (siblings base))).get L k) := by
    intro k hk
    refine JsValue.get_map_same hL ?_
    rw [Yaml.lookup_assign, if_neg hk]
    exact rel_refl _
  have hdefault : sub ≠ "default" := (plan.subCategory_isName sub hsub).2
  rw [RememberPlan.value, hsub]
  refine decideRule_of_entry false (ruleEntry_object_same rfl rfl fun other hother => ?_)
  exact ⟨hsame other fun h => hcontext (h ▸ hother), hsame "default" hdefault⟩

/-- Where the file can be read again, its table loosens the rule just where the files are current. -/
theorem Written.loosens_iff {vault' : List (String × Yaml)}
    (hw : Written L Y plan effective file vault') (hL : L.Uniform)
    (hdomain : plan.domain ≠ "__proto__")
    (hfits : ∀ text, editedText L Y plan effective file = .ok text →
      text.utf8ByteSize ≤ sizeLimit) :
    Loosens L tools plan (loadPolicies home (file.read Y)) (overlay home vault') ↔
      Current L Y tools home plan effective file := by
  constructor
  · intro h
    refine ⟨h.asked, ?_, ?_, hfits⟩
    · intro tool htool hread hnames sub hsub context hcontext
      have hcovers : ¬plan.Covers tool context := fun hc => hcontext (hc.2.2 sub hsub)
      rw [← h.others tool htool context hcovers, hw.evaluate_plan hL hdomain hread hnames]
      exact (decideRule_sibling hL hsub hcontext).symm
    · intro tool htool hread hnames context
      have hcovers : ¬plan.Covers tool context := fun hc => hnames hc.2.1
      rw [← h.others tool htool context hcovers]
      exact (hw.evaluate_other hL hdomain hnames context).symm
  · intro h
    refine ⟨h.asks, fun tool context hcovers => ?_, fun tool htool context hcovers => ?_⟩
    · rw [hw.evaluate_plan hL hdomain hcovers.1 hcovers.2.1]
      exact decideRule_value hcovers
    · cases hread : tool.isRead with
      | true => rw [Policies.evaluate_read _ hread, Policies.evaluate_read _ hread]
      | false =>
        by_cases hnames : plan.Names tool
        · -- the operation of the plan, for another category
          obtain ⟨sub, hsub, hcontext⟩ : ∃ sub, plan.subCategory = some sub ∧
              context.subCategory ≠ some sub := by
            by_contra hall
            exact hcovers ⟨hread, hnames, fun sub hsub => by_contra fun hc => hall ⟨sub, hsub, hc⟩⟩
          rw [hw.evaluate_plan hL hdomain hread hnames, decideRule_sibling hL hsub hcontext]
          exact h.carries tool htool hread hnames sub hsub context hcontext
        · rw [hw.evaluate_other hL hdomain hnames]
          exact h.names tool htool hread hnames context

/-- Naming the domain in the vault leaves what is overlaid as it is. -/
theorem overlaidAt_naming (hproto : plan.domain ≠ "__proto__") (hhome : homeTable home = .map es)
    (hdomain : lookup es plan.domain = some (.map operations)) (k : String) :
    overlaidAt home (plan.naming vault) k = overlaidAt home vault k := by
  have hlookup : lookup (homeTable home).entries plan.domain = some (.map operations) := by
    rw [hhome]
    exact hdomain
  have hown : homeDomain home plan.domain = operations := by
    rw [homeDomain, hlookup]
    rfl
  have hprotos : overlaidProto home (plan.naming vault) = overlaidProto home vault := by
    rw [overlaidProto, RememberPlan.naming, Yaml.lookup_assign, if_neg hproto]
    rfl
  rw [overlaidAt, overlaidAt, hprotos, RememberPlan.naming, Yaml.lookup_assign]
  by_cases hk : plan.domain = k
  · subst hk
    rw [if_pos rfl, hlookup, RememberPlan.operations]
    cases lookup vault plan.domain with
    | some v => rfl
    | none =>
      have hempty : overlaid home plan.domain (.map []) = .map operations := by
        rw [overlaid, hown]
        rfl
      simp [hempty]
  · rw [if_neg hk]

theorem evaluate_naming (hL : L.Uniform)
    (hd : (Yaml.map vault).Distinct) (hproto : plan.domain ≠ "__proto__")
    (hhome : homeTable home = .map es) (hdomain : lookup es plan.domain = some (.map operations))
    (tool : Tool) (context : EvalContext) :
    (overlay home (plan.naming vault)).evaluate L tool context =
      (overlay home vault).evaluate L tool context := by
  have hnaming : (Yaml.map (plan.naming vault)).Distinct := by
    refine hd.assign ?_ _
    rw [RememberPlan.operations]
    cases hv : lookup vault plan.domain with
    | none => exact .nil
    | some v => exact hd.of_lookup _ hv
  cases hread : tool.isRead with
  | true => rw [Policies.evaluate_read _ hread, Policies.evaluate_read _ hread]
  | false =>
    rw [Policies.evaluate_eq _ hread, Policies.evaluate_eq _ hread, overlay_vaultInvalid,
      overlay_vaultInvalid, Policies.rule, Policies.rule, overlay_get hL hd.nodup,
      overlay_get hL hnaming.nodup, overlaidAt_naming hproto hhome hdomain]

/-- Where the home policy maps the domain, the files are current if the rule still asks and what is
carried along is the rule in force. -/
theorem Written.current {vault' : List (String × Yaml)}
    (hw : Written L Y plan effective file vault') (hL : L.Uniform)
    (hproto : plan.domain ≠ "__proto__") (hhome : homeTable home = .map es)
    (hdomain : lookup es plan.domain = some (.map operations))
    (hasks : Asks L (loadPolicies home (file.read Y)) plan)
    (hbase : ∀ sub ∈ plan.subCategory, ∃ rule,
      plan.base L (.map (file.domains Y)) effective = .data (.map rule) ∧
        (loadPolicies home (file.read Y)).rule L plan.domain plan.operation = .data (.map rule))
    (hfits : ∀ text, editedText L Y plan effective file = .ok text →
      text.utf8ByteSize ≤ sizeLimit) :
    Current L Y tools home plan effective file := by
  have htable : loadPolicies home (file.read Y) = overlay home (file.domains Y) := by
    rcases hw.before_table home with ⟨hempty, h⟩ | h
    · rw [h, hempty, hhome, overlay, homeCopy, hhome]
      rfl
    · exact h
  rw [htable] at hasks hbase
  refine ⟨htable ▸ hasks, ?_, ?_, hfits⟩
  · intro tool _ hread hnames sub hsub context _
    obtain ⟨rule, hcarried, hrule⟩ := hbase sub hsub
    rw [htable, Policies.evaluate_eq _ hread, overlay_vaultInvalid, hnames.1, hnames.2, hrule,
      hcarried]
    rfl
  · intro tool _ _ _ context
    rw [htable]
    exact evaluate_naming hL hw.before_distinct hproto hhome hdomain tool context

/-- A tool that the plan is about. -/
def RememberPlan.namedTool (plan : RememberPlan) : Tool where
  name := "tool." ++ plan.operation
  domain := plan.domain
  category := "consequential"

theorem dot_notMem_of_isName {s : String} (h : isName s = true) : '.' ∉ s.toList := by
  intro hmem
  simp only [isName, Bool.and_eq_true, all_eq_true] at h
  exact absurd (h.2 '.' hmem) (by decide)

theorem namedTool_operation (plan : RememberPlan) :
    plan.namedTool.operation = plan.operation := by
  have hnone : ∀ c ∈ plan.operation.toList, (c == '.') = false := fun c hc =>
    beq_eq_false_iff_ne.2 fun h => dot_notMem_of_isName plan.operation_isName (h ▸ hc)
  have hname : plan.namedTool.name.toList = "tool".toList ++ '.' :: plan.operation.toList := by
    rw [RememberPlan.namedTool, String.toList_append]
    rfl
  rw [Tool.operation, hname, splitOn_eq_splitOnP,
    splitOnP_append_cons _ _ (by rfl), splitOnP_eq_singleton hnone]
  simp [splitOnP_eq_singleton]

/-- Every plan covers some call of its tool. -/
theorem exists_covers (plan : RememberPlan) : ∃ context, plan.Covers plan.namedTool context := by
  refine ⟨{ category := plan.subCategory }, rfl, ⟨rfl, namedTool_operation plan⟩, fun sub hsub => ?_⟩
  have hempty : sub ≠ "" := by
    rintro rfl
    exact absurd (plan.subCategory_isName "" hsub).1 (by decide)
  rw [EvalContext.subCategory, Option.mem_def.1 hsub]
  simp [hempty]

theorem describeReason_ne {value : JsValue} (hstring : ∀ s, value ≠ .str s) {path : String} :
    describeReason value path ≠ path ++ " is configured for delegated autonomy." := by
  unfold describeReason
  split
  · exact absurd rfl (hstring _)
  · exact absurd rfl (hstring _)
  · exact absurd rfl (hstring _)
  · exact absurd rfl (hstring _)
  · intro h
    rw [String.append_assoc, String.append_assoc] at h
    replace h := congrArg String.toList h
    simp only [String.toList_append, append_cancel_left_eq] at h
    simp at h

theorem evaluate_vaultInvalid_ne {policies : Policies} (hinvalid : policies.vaultInvalid = true)
    (hcovers : plan.Covers tool context) :
    policies.evaluate L tool context ≠ .ok (plan.evaluation tool) := by
  intro h
  rcases policies.evaluate_allows h rfl with hread | ⟨hvalid, -⟩ |
    ⟨place, value, hentry, hgrant, t, ht, htext⟩
  · exact absurd (hread.symm.trans hcovers.1) (by decide)
  · exact absurd (hvalid.symm.trans hinvalid) (by decide)
  · -- a misread entry gives another reason
    have hguard : ∀ rule, guardInvalid policies.vaultInvalid value rule = (value, rule) :=
      fun rule => if_neg (by simp [hgrant])
    have hread : ¬tool.isRead = true := by simp [hcovers.1]
    rw [Policies.evaluate, if_neg hread, resolveRule, hentry] at h
    simp only [htext, Except.map, ruleEvaluation, hguard, RememberPlan.evaluation, Except.ok.injEq,
      Evaluation.mk.injEq] at h
    obtain ⟨-, -, -, -, hrule, hreason⟩ := h
    rw [hrule, not_invalidMark, if_neg (by decide)] at hreason
    have hstring : ∀ s, value ≠ .str s := by
      rintro s rfl
      have hs : s = t := Option.some_inj.1 htext
      exact absurd hgrant (by simpa [isGrant, hs] using ht)
    exact describeReason_ne hstring hreason

end Written

/-- **Remembering an approval** loosens the rule of the plan and nothing else, if and only if the
files at the write still are what the plan was made from; where it fails, the file is left. -/
theorem applyRememberedRule_loosens_iff (hL : L.Uniform)
    (hY : ∀ t v, Y.load t = .ok v → v.Distinct) (tools : Set Tool) (home : Yaml)
    (plan : RememberPlan) (hdomain : plan.domain ≠ "__proto__") (effective : Policies)
    (fails : Option WriteStep) (dir : VaultDir) :
    let r := applyRememberedRule L Y plan effective fails dir
    (r.1 = .ok () →
      (Loosens L tools plan (loadPolicies home (dir.policies.read Y))
          (loadPolicies home (r.2.policies.read Y)) ↔
        Current L Y tools home plan effective dir.policies)) ∧
      ∀ reason, r.1 = .error reason → r.2.policies = dir.policies := by
  dsimp only
  rw [applyRememberedRule]
  cases htext : rememberedText L Y plan effective dir.policies with
  | error reason => exact ⟨nofun, fun _ _ => rfl⟩
  | ok text =>
    cases fails with
    | some step => cases step <;> exact ⟨nofun, fun _ _ => rfl⟩
    | none =>
      refine ⟨fun _ => ?_, nofun⟩
      obtain ⟨hedited, v, vault', hload, hv, hw⟩ := rememberedText_ok hY htext
      have hread : (VaultDisk.regular text.utf8ByteSize text).read Y =
          if text.utf8ByteSize > sizeLimit then .unreadable else .content v := by
        rw [VaultDisk.read, hload]
      change Loosens L tools plan _ (loadPolicies home
        ((VaultDisk.regular text.utf8ByteSize text).read Y)) ↔ _
      rw [hread]
      split_ifs with hsize
      · -- the patched file is too large: it is not read again
        refine iff_of_false (fun h => ?_) fun h => absurd (h.fits text hedited) (by omega)
        obtain ⟨context, hcovers⟩ := exists_covers plan
        exact evaluate_vaultInvalid_ne rfl hcovers (h.remembered _ context hcovers)
      · rw [loadPolicies_orEmpty hv hw.after_valid]
        refine hw.loosens_iff hL hdomain fun text' htext' => ?_
        rw [hedited] at htext'
        cases htext'
        omega

/-- A policy with one rule. -/
def jobsPolicy (level : String) : Yaml := .map [("jobs", .map [("apply", .str level)])]

/-- The text of such a policy. -/
def jobsText (level : String) : String := "jobs:\n  apply: " ++ level ++ "\n"

/-- A YAML library that knows the policies of one rule. -/
def jobsYaml : YamlLibrary where
  load text :=
    match levelKeys.find? fun level => text = jobsText level with
    | some level => .ok (jobsPolicy level)
    | none => .error "unexpected end of the stream"
  dump _ := ""

theorem jobsYaml_distinct (t : String) (v : Yaml) (h : jobsYaml.load t = .ok v) : v.Distinct := by
  unfold jobsYaml at h
  dsimp only at h
  split at h
  · next level _ =>
    cases h
    exact (Yaml.Distinct.nil.assign (Yaml.Distinct.nil.assign (.str level) "apply") "jobs")
  · cases h

theorem plainLibrary_uniform : Agent.plainLibrary.Uniform := fun _ _ _ => rfl

/-- `jobs.apply`. -/
def applyTool : Tool where
  name := "jobs.apply"
  domain := "jobs"
  category := "consequential"

/-- The plan for `jobs.apply`. -/
def applyPlan : RememberPlan where
  domain := "jobs"
  operation := "apply"
  subCategory := none
  domain_isName := by decide
  operation_isName := by decide
  subCategory_isName := nofun

/-- A vault with one rule. -/
def jobsVault (level : String) : VaultDir where
  policies := .regular (jobsText level).utf8ByteSize (jobsText level)

theorem rememberedText_jobs (level : String) (hlevel : level ∈ ["confirm", "never"]) :
    rememberedText Agent.plainLibrary jobsYaml applyPlan
      (loadPolicies (jobsPolicy "confirm") .absent) (jobsVault level).policies =
        .ok (jobsText "autonomous") := by
  simp only [mem_cons, not_mem_nil, or_false] at hlevel
  rcases hlevel with rfl | rfl
  · decide +kernel
  · decide +kernel

theorem applyRememberedRule_jobs (level : String) (hlevel : level ∈ ["confirm", "never"]) :
    applyRememberedRule Agent.plainLibrary jobsYaml applyPlan
      (loadPolicies (jobsPolicy "confirm") .absent) none (jobsVault level) =
        (.ok (), jobsVault "autonomous") := by
  rw [applyRememberedRule, rememberedText_jobs level hlevel]
  rfl

/-- The files are left alone while the action runs. -/
theorem remembers_confirm :
    Loosens Agent.plainLibrary Set.univ applyPlan
      (loadPolicies (jobsPolicy "confirm") ((jobsVault "confirm").policies.read jobsYaml))
      (loadPolicies (jobsPolicy "confirm") ((jobsVault "autonomous").policies.read jobsYaml)) := by
  have happly := applyRememberedRule_jobs "confirm" (by decide)
  have hiff := (applyRememberedRule_loosens_iff plainLibrary_uniform jobsYaml_distinct Set.univ
    (jobsPolicy "confirm") applyPlan (by decide) (loadPolicies (jobsPolicy "confirm") .absent) none
    (jobsVault "confirm")).1
  rw [happly] at hiff
  obtain ⟨hedited, -, vault', -, -, hw⟩ :=
    rememberedText_ok jobsYaml_distinct (rememberedText_jobs "confirm" (by decide))
  refine (hiff rfl).2 (hw.current plainLibrary_uniform (by decide) rfl rfl (.inr rfl) nofun ?_)
  intro text htext
  cases hedited.symm.trans htext
  decide

/-- The owner forbids the operation while the action runs, and the plan is written over it. -/
theorem remembers_over_never :
    let home := jobsPolicy "confirm"
    let policies := loadPolicies home .absent
    let r := applyRememberedRule Agent.plainLibrary jobsYaml applyPlan policies none
      (jobsVault "never")
    previewRemember Agent.plainLibrary {} (some applyTool) {} policies = .ok applyPlan ∧
      r.1 = .ok () ∧
      ¬Loosens Agent.plainLibrary Set.univ applyPlan
        (loadPolicies home ((jobsVault "never").policies.read jobsYaml))
        (loadPolicies home (r.2.policies.read jobsYaml)) := by
  intro home policies r
  have happly : r = (.ok (), jobsVault "autonomous") := applyRememberedRule_jobs "never" (by decide)
  refine ⟨by decide +kernel, by rw [happly], fun h => ?_⟩
  rcases h.asked with hmissing | hconfirm
  · cases hmissing
  · have hlevel : JsValue.str "never" = .str "confirm" := hconfirm
    simp at hlevel

end U2os.Server.Policy
