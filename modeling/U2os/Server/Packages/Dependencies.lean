import U2os.Lib.Search
import U2os.Server.Packages.Semver

/-!
# Dependencies of packages

Validated packages as the loader reads them, and `packages/dependencies.js`: what a package requires
of the registries.  Of a definition only what the registries and the checks read is kept; a workflow
is the list of what its steps use.
-/

namespace U2os.Server.Packages

open JsText List Option

/-- `requires`: ranges by id. -/
structure Requires where
  u2os : Option String := none
  capabilities : List (String × String) := []
  skills : List (String × String) := []

/-- The ids of `exports`. -/
structure Exports where
  capabilities : List String := []
  skills : List String := []
  automations : List String := []

/-- A normalized manifest. -/
structure Manifest where
  id : String
  version : String
  requires : Requires := {}
  exports : Exports := {}
  permissions : List String := []

/-- `implementation`, by its type. -/
inductive Implementation where
  | static
  /-- A file of data, which is JSON or is not. -/
  | fixture (parses : Bool)
  | module
deriving DecidableEq

/-- A capability definition of a package. -/
structure CapabilityDefinition where
  id : String
  version : String
  implements : Option String := none
  requiredPermissions : List String := []
  implementation : Implementation := .static

/-- A workflow, by the `use` of each step. -/
abbrev Uses := List String

/-- A skill definition of a package. -/
structure SkillDefinition where
  id : String
  version : String
  requires : Requires := {}
  workflow : Option Uses := none

/-- An automation definition of a package. -/
structure AutomationDefinition where
  id : String
  workflow : Uses := []

/-- `[a-z]`. -/
def isLower (c : Char) : Bool := 'a' ≤ c && c ≤ 'z'

/-- `PACKAGE_ID`. -/
def isPackageId (id : String) : Bool :=
  match id.toList.splitOn '.' with
  | first :: more =>
    first.head?.any isLower && more.length ∈ List.range' 1 7 &&
      more.all (fun part => part.head?.any fun c => isLower c || c.isDigit) &&
      (first :: more).all fun part => part.all fun c => isLower c || c.isDigit || c = '-'
  | [] => false

/-- A package as the loader has validated it: the files define what the manifest exports. -/
structure Bundle where
  manifest : Manifest
  capabilities : List CapabilityDefinition := []
  skills : List SkillDefinition := []
  automations : List AutomationDefinition := []
  id_valid : isPackageId manifest.id = true
  capabilities_exported : manifest.exports.capabilities = capabilities.map (·.id)
  skills_exported : manifest.exports.skills = skills.map (·.id)
  automations_exported : manifest.exports.automations = automations.map (·.id)
  capabilities_nodup : (capabilities.map (·.id)).Nodup
  skills_nodup : (skills.map (·.id)).Nodup
  automations_nodup : (automations.map (·.id)).Nodup

abbrev Bundle.id (b : Bundle) : String := b.manifest.id

/-- `source` of a contract. -/
inductive Source where
  | core
  | package (id : String)
deriving DecidableEq

def Source.text : Source → String
  | .core => "core"
  | .package id => "package:" ++ id

/-- A registered contract. -/
structure CapabilityContract where
  id : String
  version : String
  requiredPermissions : List String
  source : Source

/-- What a package has registered. -/
structure Registered (α : Type) where
  packageId : String
  definition : α

/-- What the checks read of the registries. -/
structure View where
  contract : String → Option CapabilityContract
  skill : String → Option (Registered SkillDefinition)
  automation : String → Option (Registered AutomationDefinition)
  /-- The ids of the registered skills. -/
  skillIds : List String
  mem_skillIds : ∀ id s, skill id = some s → id ∈ skillIds

/-- The registered version of a capability. -/
def View.capabilityVersion (v : View) (id : String) : Option String :=
  (v.contract id).map (·.version)

/-- The registered version of a skill. -/
def View.skillVersion (v : View) (id : String) : Option String :=
  (v.skill id).map (·.definition.version)

/-- `/^filesystem\.(read|write):(.+)$/`: the mode and the scope. -/
def filesystemScope (permission : String) : Option (Bool × List Char) :=
  let scope (lead : String) : Option (List Char) :=
    if lead.toList.isPrefixOf permission.toList then
      some (permission.toList.drop lead.length)
    else none
  let valid (cs : List Char) : Bool := cs ≠ [] && !cs.any isLineTerminator
  match scope "filesystem.read:", scope "filesystem.write:" with
  | some cs, _ => if valid cs then some (true, cs) else none
  | none, some cs => if valid cs then some (false, cs) else none
  | none, none => none

def covers (held required : String) : Bool :=
  held = required ||
    match filesystemScope held, filesystemScope required with
    | some (mode, h), some (mode', r) =>
      mode = mode' && ['.', '*'].isSuffixOf h && h.dropLast.isPrefixOf r
    | _, _ => false

/-- `parseUse`, for what a step invokes: whether it is a skill, and its id. -/
def parseUse (use : String) : Option (Bool × String) :=
  let target (lead : String) : Option String :=
    let rest := use.toList.drop lead.length
    if lead.toList.isPrefixOf use.toList && rest ≠ [] && !rest.any isLineTerminator then
      some (String.ofList rest)
    else none
  match target "capability:", target "skill:" with
  | some id, _ => some (false, id)
  | none, some id => some (true, id)
  | none, none => none

/-- `workflowReferences`, of one kind. -/
def references (skill : Bool) (w : Uses) : List String :=
  (w.filterMap fun use => (parseUse use).bind fun r => if r.1 = skill then some r.2 else none).eraseDups

/-- The skills a workflow invokes. -/
def usedSkills (w : Uses) : List String := references true w

/-- The capabilities a workflow invokes. -/
def usedCapabilities (w : Uses) : List String := references false w

/-- `capabilityClosure`, by the workflows of the skills that are known. -/
def capabilityClosure (known : List String) (workflowOf : String → Option Uses) (w : Uses) :
    List String :=
  (usedCapabilities w ++
    (Search.search workflowOf usedSkills (known.length + 1) (usedSkills w) []).flatMap fun id =>
      ((workflowOf id).map usedCapabilities).getD []).eraseDups

def u2osVersion : String := "0.1.0"

/-- `required[kind][id] ??= range`, for each range: a property that every object has is there too. -/
def require (required ranges : List (String × String)) : List (String × String) :=
  ranges.foldl (fun r e =>
    if e.1 ∈ r.map Prod.fst ∨ e.1 ∈ objectPrototype then r else r ++ [e]) required

namespace Bundle

variable (b : Bundle) (v : View)

/-- `ownCapabilities`: the versions of the contracts the package declares. -/
def ownCapabilities : List (String × String) :=
  (b.capabilities.filter fun c => c.implements = none).map fun c => (c.id, c.version)

def ownSkills : List (String × String) := b.skills.map fun s => (s.id, s.version)

/-- `required.capabilities`: the ranges of the manifest, and of the skills. -/
def requiredCapabilities : List (String × String) :=
  b.skills.foldl (fun r s => require r s.requires.capabilities) b.manifest.requires.capabilities

def requiredSkills : List (String × String) :=
  b.skills.foldl (fun r s => require r s.requires.skills) b.manifest.requires.skills

/-- The version of the system is not the one that is required. -/
def u2osErrors : List String :=
  match b.manifest.requires.u2os with
  | some range =>
    if satisfies u2osVersion range then []
    else ["requires U2OS " ++ range ++ ", but this is " ++ u2osVersion]
  | none => []

/-- What is wrong with a required range: it is met by the package itself, or by what is registered. -/
def requirementError (label : String) (own : List (String × String))
    (registered : String → Option String) (e : String × String) : Option String :=
  match Assoc.get? own e.1 with
  | some version =>
    if satisfies version e.2 then none
    else some (label ++ " " ++ e.1 ++ " is " ++ version ++ " in this package, but " ++ e.2 ++
      " is required")
  | none =>
    match registered e.1 with
    | none => some ("missing " ++ label ++ " " ++ e.1 ++ " (" ++ e.2 ++ ")")
    | some version =>
      if satisfies version e.2 then none
      else some ("incompatible " ++ label ++ " " ++ e.1 ++ ": " ++ version ++ " is installed, " ++
        e.2 ++ " is required")

def requirementErrors : List String :=
  b.requiredCapabilities.filterMap
    (requirementError "capability" b.ownCapabilities v.capabilityVersion) ++
  b.requiredSkills.filterMap (requirementError "skill" b.ownSkills v.skillVersion)

/-- A provider of a contract needs the contract, and one that is not of the core. -/
def implementsError (c : CapabilityDefinition) : Option String :=
  c.implements.bind fun contract =>
    if (Assoc.get? b.ownCapabilities contract).isNone ∧ (v.contract contract).isNone then
      some ("capability " ++ c.id ++ " implements unknown capability " ++ contract)
    else if (v.contract contract).any fun found => found.source = .core then
      some ("capability " ++ c.id ++ ": packages cannot yet provide core capability " ++ contract)
    else none

/-- The errors of the providers. -/
def implementsErrors : List String := b.capabilities.filterMap (b.implementsError v)

/-- The workflows of a package, and where they are. -/
def workflows : List (String × Uses) :=
  b.skills.filterMap (fun s => s.workflow.map fun w => ("skill " ++ s.id, w)) ++
  b.automations.map fun a => ("automation " ++ a.id, a.workflow)

/-- `id in required.capabilities`: the id is required, or a property every object has. -/
def isDeclared (required : List (String × String)) (id : String) : Bool :=
  id ∈ required.map Prod.fst || id ∈ objectPrototype

/-- Everything a workflow uses is declared or exported. -/
def workflowErrors : List String :=
  b.workflows.flatMap fun w =>
    ((usedCapabilities w.2).filter fun id =>
      (Assoc.get? b.ownCapabilities id).isNone && !isDeclared b.requiredCapabilities id).map
        (fun id => w.1 ++ " uses capability " ++ id ++
          ", which is not declared in requires.capabilities") ++
    ((usedSkills w.2).filter fun id =>
      (Assoc.get? b.ownSkills id).isNone && !isDeclared b.requiredSkills id).map
        (fun id => w.1 ++ " uses skill " ++ id ++ ", which is not declared in requires.skills")

/-- The workflow of a skill: of the package, or of a registered one. -/
def workflowOf (id : String) : Option Uses :=
  match b.skills.find? fun s => s.id = id with
  | some s => s.workflow
  | none => (v.skill id).bind (·.definition.workflow)

/-- `used`: the capabilities the package requires or reaches by its workflows. -/
def used : List String :=
  (b.requiredCapabilities.map Prod.fst ++ b.workflows.flatMap fun w =>
    capabilityClosure (b.skills.map (·.id) ++ v.skillIds) (b.workflowOf v) w.2).eraseDups

/-- The capabilities that a workflow leads to, with the skills of the package. -/
def closure (w : Uses) : List String :=
  capabilityClosure (b.skills.map (·.id) ++ v.skillIds) (b.workflowOf v) w

/-- The skills that the workflows of the package lead to. -/
def reached : List String :=
  b.workflows.flatMap fun w => Search.search (b.workflowOf v) usedSkills
    ((b.skills.map (·.id) ++ v.skillIds).length + 1) (usedSkills w.2) []

/-- The permissions a capability requires. -/
def permissionsOf (id : String) : List String :=
  match b.capabilities.find? fun c => c.id = id ∧ c.implements = none with
  | some c => c.requiredPermissions
  | none => ((v.contract id).map (·.requiredPermissions)).getD []

/-- The permissions of what the package uses are declared. -/
def permissionErrors : List String :=
  (b.used v).flatMap fun id =>
    ((b.permissionsOf v id).filter fun permission =>
      !b.manifest.permissions.any fun held => covers held permission).map fun permission =>
        "capability " ++ id ++ " requires permission " ++ permission ++
          ", which the package does not declare"

/-- `validateDependencies`: the errors. -/
def validateDependencies : List String :=
  b.u2osErrors ++ b.requirementErrors v ++ b.implementsErrors v ++ b.workflowErrors ++
    b.permissionErrors v

end Bundle

/-- A range is met: by the package itself where it has the id, else by what is registered. -/
def Met (own : List (String × String)) (registered : String → Option String)
    (e : String × String) : Prop :=
  ∃ version, (Assoc.get? own e.1).or (registered e.1) = some version ∧
    satisfies version e.2 = true

/-- A range stays met where what is registered is replaced by what meets it. -/
theorem Met.replace {own : List (String × String)} {registered registered' : String → Option String}
    {e : String × String} (h : Met own registered e)
    (hkeep : Assoc.get? own e.1 = none → ∀ version, registered e.1 = some version →
      satisfies version e.2 = true →
        ∃ version, registered' e.1 = some version ∧ satisfies version e.2 = true) :
    Met own registered' e := by
  obtain ⟨version, hver, hsat⟩ := h
  cases hown : Assoc.get? own e.1 with
  | some v =>
    -- what the package has itself hides what is registered
    rw [hown] at hver
    exact ⟨version, by rw [hown]; exact hver, hsat⟩
  | none =>
    rw [hown, none_or] at hver
    obtain ⟨v, hv, hvs⟩ := hkeep hown version hver hsat
    exact ⟨v, by rw [hown, none_or, hv], hvs⟩

/-- What is registered in one view is registered in the other. -/
structure View.Sub (v v' : View) : Prop where
  contract : ∀ id c, v.contract id = some c → v'.contract id = some c
  skill : ∀ id s, v.skill id = some s → v'.skill id = some s

section Checks

variable {b : Bundle} {v v' : View}

theorem requirementError_eq_none {label : String} {own : List (String × String)}
    {registered : String → Option String} {e : String × String} :
    Bundle.requirementError label own registered e = none ↔ Met own registered e := by
  rw [Bundle.requirementError, Met]
  cases Assoc.get? own e.1 with
  | some version => simp
  | none => cases registered e.1 <;> simp

theorem validateDependencies_eq_nil : b.validateDependencies v = [] ↔ b.u2osErrors = [] ∧
    b.requirementErrors v = [] ∧ b.implementsErrors v = [] ∧ b.workflowErrors = [] ∧
    b.permissionErrors v = [] := by
  simp only [Bundle.validateDependencies, append_eq_nil_iff, and_assoc]

theorem requirementErrors_eq_nil : b.requirementErrors v = [] ↔
    (∀ e ∈ b.requiredCapabilities, Met b.ownCapabilities v.capabilityVersion e) ∧
    ∀ e ∈ b.requiredSkills, Met b.ownSkills v.skillVersion e := by
  rw [Bundle.requirementErrors, append_eq_nil_iff, filterMap_eq_nil_iff,
    filterMap_eq_nil_iff]
  simp only [requirementError_eq_none]

theorem implementsErrors_eq_nil : b.implementsErrors v = [] ↔
    ∀ c ∈ b.capabilities, ∀ contract, c.implements = some contract →
      ((Assoc.get? b.ownCapabilities contract).isSome ∨ (v.contract contract).isSome) ∧
      ∀ found, v.contract contract = some found → found.source ≠ .core := by
  rw [Bundle.implementsErrors, filterMap_eq_nil_iff]
  refine forall₂_congr fun c _ => ?_
  cases hc : c.implements with
  | none => simp [Bundle.implementsError, hc]
  | some contract =>
    rw [Bundle.implementsError, hc]
    cases hv : v.contract contract <;> cases ho : Assoc.get? b.ownCapabilities contract <;>
      simp [hv, ho]

theorem workflowOf_of_sub (h : v.Sub v') {id : String} {w : Uses}
    (hw : b.workflowOf v id = some w) : b.workflowOf v' id = some w := by
  rw [Bundle.workflowOf] at hw ⊢
  cases hs : b.skills.find? fun s => s.id = id with
  | some s =>
    rw [hs] at hw
    exact hw
  | none =>
    rw [hs] at hw
    obtain ⟨s, hs, hw⟩ := bind_eq_some_iff.1 hw
    exact bind_eq_some_iff.2 ⟨s, h.skill id s hs, hw⟩

/-- A workflow that is found is that of a known skill. -/
theorem mem_known_of_workflowOf {id : String} {w : Uses} (hw : b.workflowOf v id = some w) :
    id ∈ b.skills.map (·.id) ++ v.skillIds := by
  rw [Bundle.workflowOf] at hw
  cases hs : b.skills.find? fun s => s.id = id with
  | some s =>
    have hid : s.id = id := by simpa using find?_some hs
    exact mem_append_left _ (List.mem_map.2 ⟨s, mem_of_find?_eq_some hs, hid⟩)
  | none =>
    rw [hs] at hw
    obtain ⟨s, hs, -⟩ := bind_eq_some_iff.1 hw
    exact mem_append_right _ (v.mem_skillIds id s hs)

theorem mem_capabilityClosure {known : List String} {workflowOf : String → Option Uses}
    (hknown : ∀ id w, workflowOf id = some w → id ∈ known) {w : Uses} {c : String} :
    c ∈ capabilityClosure known workflowOf w ↔
      c ∈ usedCapabilities w ∨
        ∃ id, Search.Reached workflowOf usedSkills (usedSkills w) id ∧
          ∃ w', workflowOf id = some w' ∧ c ∈ usedCapabilities w' := by
  rw [capabilityClosure, mem_eraseDups, List.mem_append, mem_flatMap]
  refine or_congr_right (exists_congr fun id => and_congr (Search.mem_search hknown) ?_)
  cases workflowOf id <;> simp

/-- More skills with a workflow lead to more capabilities. -/
theorem capabilityClosure_subset {known known' : List String}
    {workflowOf workflowOf' : String → Option Uses}
    (hknown : ∀ id w, workflowOf id = some w → id ∈ known)
    (hknown' : ∀ id w, workflowOf' id = some w → id ∈ known')
    (h : ∀ id w, workflowOf id = some w → workflowOf' id = some w) {w : Uses} :
    ∀ c ∈ capabilityClosure known workflowOf w, c ∈ capabilityClosure known' workflowOf' w := by
  intro c hc
  rw [mem_capabilityClosure hknown] at hc
  exact (mem_capabilityClosure hknown').2
    (hc.imp_right fun ⟨s, hreach, w', hw', hc⟩ => ⟨s, hreach.mono h, w', h s w' hw', hc⟩)

theorem mem_used {c : String} : c ∈ b.used v ↔ c ∈ b.requiredCapabilities.map Prod.fst ∨
    ∃ w ∈ b.workflows, c ∈ b.closure v w.2 := by
  rw [Bundle.used, mem_eraseDups, List.mem_append, mem_flatMap]
  rfl

theorem mem_reached {id : String} : id ∈ b.reached v ↔
    ∃ w ∈ b.workflows, Search.Reached (b.workflowOf v) usedSkills (usedSkills w.2) id := by
  rw [Bundle.reached, mem_flatMap]
  exact exists_congr fun w => and_congr_right fun _ =>
    Search.mem_search fun _ _ => mem_known_of_workflowOf

/-- A skill leads to what its workflow leads to. -/
theorem closure_of_reached {w w' : Uses} {id c : String}
    (h : Search.Reached (b.workflowOf v) usedSkills (usedSkills w) id)
    (hw : b.workflowOf v id = some w') (hc : c ∈ b.closure v w') : c ∈ b.closure v w := by
  rw [Bundle.closure, mem_capabilityClosure fun _ _ => mem_known_of_workflowOf] at hc ⊢
  rcases hc with hc | ⟨s, hreach, hs⟩
  · exact .inr ⟨id, h, w', hw, hc⟩
  · exact .inr ⟨s, h.trans hw hreach, hs⟩

theorem used_subset (h : ∀ id w, b.workflowOf v id = some w → b.workflowOf v' id = some w) :
    ∀ id ∈ b.used v, id ∈ b.used v' := fun _ hid => mem_used.2 <| (mem_used.1 hid).imp_right
  fun ⟨w, hw, hc⟩ => ⟨w, hw, capabilityClosure_subset (fun _ _ => mem_known_of_workflowOf)
    (fun _ _ => mem_known_of_workflowOf) h _ hc⟩

theorem permissionsOf_subset (h : v.Sub v') (id : String) :
    ∀ p ∈ b.permissionsOf v id, p ∈ b.permissionsOf v' id := by
  intro p hp
  rw [Bundle.permissionsOf] at hp ⊢
  cases hf : b.capabilities.find? fun c => c.id = id ∧ c.implements = none with
  | some c =>
    rw [hf] at hp
    exact hp
  | none =>
    rw [hf] at hp
    cases hc : v.contract id with
    | none =>
      rw [hc] at hp
      cases hp
    | some c =>
      rw [hc] at hp
      dsimp only
      rw [h.contract id c hc]
      exact hp

theorem permissionErrors_eq_nil : b.permissionErrors v = [] ↔
    ∀ id ∈ b.used v, ∀ permission ∈ b.permissionsOf v id,
      b.manifest.permissions.any (fun held => covers held permission) = true := by
  rw [Bundle.permissionErrors, flatMap_eq_nil_iff]
  refine forall₂_congr fun id _ => ?_
  rw [map_eq_nil_iff, filter_eq_nil_iff]
  refine forall₂_congr fun p _ => ?_
  cases b.manifest.permissions.any (fun held => covers held p) <;> simp

theorem permissionErrors_mono
    (hworkflow : ∀ id w, b.workflowOf v id = some w → b.workflowOf v' id = some w)
    (hpermissions : ∀ id, ∀ p ∈ b.permissionsOf v id, p ∈ b.permissionsOf v' id)
    (hp : b.permissionErrors v' = []) : b.permissionErrors v = [] := by
  rw [permissionErrors_eq_nil] at hp ⊢
  exact fun id hid p hmem => hp id (used_subset hworkflow id hid) p (hpermissions id p hmem)

theorem permissionErrors_of_sub (h : v.Sub v') (hp : b.permissionErrors v' = []) :
    b.permissionErrors v = [] :=
  permissionErrors_mono (fun _ _ => workflowOf_of_sub h) (permissionsOf_subset h) hp

end Checks

end U2os.Server.Packages
