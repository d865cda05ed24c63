import U2os.Lib.Fallible
import U2os.Server.Packages.Dependencies

/-!
# Registries of packages

`packages/capability-registry.js` and `packages/registries.js`: the contracts, their providers and
the owner's selection, and the registries a package is registered in and removed from as a whole.
The record of a package is the package it was registered with.
-/

namespace U2os.Server.Packages

open Fallible List

/-- A provider of a contract. -/
structure Provider where
  id : String
  packageId : Option String
deriving DecidableEq

/-- The contracts, the providers of each, and the selected ones. -/
structure CapabilityRegistry where
  contracts : List (String × CapabilityContract) := []
  providers : List (String × List Provider) := []
  selections : List (String × String) := []

namespace CapabilityRegistry

variable (r : CapabilityRegistry)

def registerContract (c : CapabilityContract) : Except String CapabilityRegistry :=
  match Assoc.get? r.contracts c.id with
  | some existing =>
    if existing.source ≠ c.source then
      .error ("Capability " ++ c.id ++ " is already provided by " ++ existing.source.text)
    else .ok { r with contracts := Assoc.assign c.id c r.contracts }
  | none => .ok { r with contracts := Assoc.assign c.id c r.contracts }

/-- `providers`. -/
def providersOf (id : String) : List Provider := (Assoc.get? r.providers id).getD []

def registerProvider (capability : String) (p : Provider) : Except String CapabilityRegistry :=
  if (r.providersOf capability).any fun existing => existing.id = p.id then
    .error ("Provider " ++ p.id ++ " already registered for " ++ capability)
  else .ok { r with providers := Assoc.assign capability (r.providersOf capability ++ [p]) r.providers }

/-- The selected provider of a capability. -/
def selected (id : String) : Option String := Assoc.get? r.selections id

def select (id : String) : Option String → Except String CapabilityRegistry
  | none => .ok { r with selections := r.selections.filter fun e => e.1 ≠ id }
  | some providerId =>
    if (r.providersOf id).any fun p => p.id = providerId then
      .ok { r with selections := Assoc.assign id providerId r.selections }
    else .error ("No provider " ++ providerId ++ " for " ++ id)

def resolveProvider (id : String) : Option Provider :=
  ((r.providersOf id).find? fun p => some p.id = r.selected id).or <|
    ((r.providersOf id).find? fun p => p.id = "core").or (r.providersOf id).head?

/-- `kept`: the providers of a contract that are not those of a package. -/
def kept (packageId : String) (list : List Provider) : List Provider :=
  list.filter fun p => p.packageId ≠ some packageId

/-- `unregisterPackage`.  A selection goes with its provider. -/
def unregisterPackage (packageId : String) : CapabilityRegistry where
  contracts := r.contracts.filter fun e => e.2.source ≠ .package packageId
  providers := r.providers.filterMap fun e =>
    if kept packageId e.2 = [] then none else some (e.1, kept packageId e.2)
  selections := r.selections.filter fun e =>
    match Assoc.get? r.providers e.1 with
    | some list => (kept packageId list).any fun p => p.id = e.2
    | none => true

end CapabilityRegistry

/-! ### All registries -/

/-- The registries together. -/
structure Registries where
  packages : List (String × Bundle) := []
  capabilities : CapabilityRegistry := {}
  skills : List (String × Registered SkillDefinition) := []
  automations : List (String × Registered AutomationDefinition) := []

/-- `register` of a definition. -/
def registerDefinition {α : Type} (kind id : String) (r : Registered α)
    (items : List (String × Registered α)) : Except String (List (String × Registered α)) :=
  match Assoc.get? items id with
  | some existing =>
    if existing.packageId ≠ r.packageId then
      .error (kind ++ " " ++ id ++ " is already provided by package " ++ existing.packageId)
    else .ok (Assoc.assign id r items)
  | none => .ok (Assoc.assign id r items)

namespace Bundle

variable (b : Bundle)

/-- The contract a definition declares. -/
def contract (c : CapabilityDefinition) : CapabilityContract :=
  ⟨c.id, c.version, c.requiredPermissions, .package b.id⟩

/-- The id of the provider of a definition. -/
def providerId (c : CapabilityDefinition) : String :=
  if c.implements.isSome then b.id ++ "/" ++ c.id else b.id

/-- The provider of a definition. -/
def provider (c : CapabilityDefinition) : Provider := ⟨b.providerId c, some b.id⟩

end Bundle

/-- The contract a definition provides. -/
def CapabilityDefinition.contractId (c : CapabilityDefinition) : String := c.implements.getD c.id

def registerCapability (b : Bundle) (r : CapabilityRegistry) (c : CapabilityDefinition) :
    Except String CapabilityRegistry := do
  let r ← if c.implements = none then r.registerContract (b.contract c) else .ok r
  r.registerProvider c.contractId (b.provider c)

namespace Registries

variable (r : Registries)

/-- What the checks read. -/
def view : View where
  contract := Assoc.get? r.capabilities.contracts
  skill := Assoc.get? r.skills
  automation := Assoc.get? r.automations
  skillIds := r.skills.map Prod.fst
  mem_skillIds id s h := List.mem_map.2 ⟨(id, s), Assoc.mem_of_get? h, rfl⟩

/-- The registered packages. -/
def bundles : List Bundle := r.packages.map Prod.snd

def dependentsOf (packageId : String) : List String :=
  match Assoc.get? r.packages packageId with
  | none => []
  | some target => (r.bundles.filter fun b => b.id ≠ packageId ∧
      ((b.manifest.requires.capabilities.any fun e => e.1 ∈ target.manifest.exports.capabilities) ∨
        b.manifest.requires.skills.any fun e => e.1 ∈ target.manifest.exports.skills)).map (·.id)

/-- What another package has of the ids of a package. -/
def conflicts (b : Bundle) : List String :=
  b.capabilities.filterMap (fun c =>
    if c.implements.isSome then none
    else match r.view.contract c.id with
      | some existing =>
        if existing.source ≠ .package b.id then
          some ("capability " ++ c.id ++ " is already provided by " ++ existing.source.text)
        else none
      | none => none) ++
  b.skills.filterMap (fun s =>
    match r.view.skill s.id with
    | some existing =>
      if existing.packageId ≠ b.id then
        some ("skill " ++ s.id ++ " is already provided by package " ++ existing.packageId)
      else none
    | none => none) ++
  b.automations.filterMap fun a =>
    match r.view.automation a.id with
    | some existing =>
      if existing.packageId ≠ b.id then
        some ("automation " ++ a.id ++ " is already provided by package " ++ existing.packageId)
      else none
    | none => none

def check (b : Bundle) : List String := r.conflicts b ++ b.validateDependencies r.view

def unregisterPackage (packageId : String) : Registries where
  packages := r.packages.filter fun e => e.1 ≠ packageId
  capabilities := r.capabilities.unregisterPackage packageId
  skills := r.skills.filter fun e => e.2.packageId ≠ packageId
  automations := r.automations.filter fun e => e.2.packageId ≠ packageId

/-- The registration of a package that has been checked and removed. -/
def register (b : Bundle) : Except String Registries := do
  let capabilities ← b.capabilities.foldlM (registerCapability b) r.capabilities
  let skills ← b.skills.foldlM (fun items s => registerDefinition "skill" s.id ⟨b.id, s⟩ items)
    r.skills
  let automations ← b.automations.foldlM
    (fun items a => registerDefinition "automation" a.id ⟨b.id, a⟩ items) r.automations
  return ⟨Assoc.assign b.id b r.packages, capabilities, skills, automations⟩

def registerBundle (b : Bundle) : Except String Registries :=
  if r.check b ≠ [] then
    .error ("Cannot register " ++ b.id ++ ":\n- " ++ "\n- ".intercalate (r.check b))
  else (r.unregisterPackage b.id).register b

end Registries

/-- The contracts and the providers of the core. -/
structure Core where
  contracts : List (String × CapabilityContract)
  providers : List (String × List Provider)
  contracts_nodup : (contracts.map Prod.fst).Nodup
  providers_nodup : (providers.map Prod.fst).Nodup
  source_eq : ∀ id c, Assoc.get? contracts id = some c → c.source = .core
  packageId_eq : ∀ id ps, Assoc.get? providers id = some ps → ∀ p ∈ ps, p.packageId = none
  contract_of_providers : ∀ id ps, Assoc.get? providers id = some ps →
    (Assoc.get? contracts id).isSome

/-- The registries of the core alone. -/
def Core.registries (core : Core) : Registries :=
  { capabilities := { contracts := core.contracts, providers := core.providers } }

namespace Bundle

variable (b : Bundle)

/-- The contract a package declares under an id. -/
def contract? (id : String) : Option CapabilityContract :=
  (b.capabilities.find? fun c => c.id = id ∧ c.implements = none).map b.contract

/-- The skill a package registers under an id. -/
def skill? (id : String) : Option (Registered SkillDefinition) :=
  (b.skills.find? fun s => s.id = id).map fun s => ⟨b.id, s⟩

/-- The automation a package registers under an id. -/
def automation? (id : String) : Option (Registered AutomationDefinition) :=
  (b.automations.find? fun a => a.id = id).map fun a => ⟨b.id, a⟩

/-- The providers a package has for a contract. -/
def offers (id : String) : List Provider :=
  (b.capabilities.filter fun c => c.contractId = id).map b.provider

end Bundle

/-- What is registered is what the core has, and the registered packages. -/
structure Assembled (core : Core) (r : Registries) : Prop where
  ids_nodup : (r.bundles.map (·.id)).Nodup
  keys : r.packages.map Prod.fst = r.bundles.map (·.id)
  contracts_nodup : (r.capabilities.contracts.map Prod.fst).Nodup
  providers_nodup : (r.capabilities.providers.map Prod.fst).Nodup
  skills_nodup : (r.skills.map Prod.fst).Nodup
  automations_nodup : (r.automations.map Prod.fst).Nodup
  contract : ∀ id c, r.view.contract id = some c ↔
    Assoc.get? core.contracts id = some c ∨ ∃ b ∈ r.bundles, b.contract? id = some c
  skill : ∀ id s, r.view.skill id = some s ↔ ∃ b ∈ r.bundles, b.skill? id = some s
  automation : ∀ id a, r.view.automation id = some a ↔ ∃ b ∈ r.bundles, b.automation? id = some a
  providers : ∀ id, r.capabilities.providersOf id =
    (Assoc.get? core.providers id).getD [] ++ r.bundles.flatMap fun b => b.offers id

section Lookups

variable {b : Bundle} {id : String}

theorem source_of_contract? {c : CapabilityContract} (h : b.contract? id = some c) :
    c.source = .package b.id ∧ c.id = id := by
  obtain ⟨d, hd, rfl⟩ := Option.map_eq_some_iff.1 h
  have hid : d.id = id ∧ d.implements = none := by simpa using find?_some hd
  exact ⟨rfl, hid.1⟩

theorem packageId_of_skill? {s : Registered SkillDefinition} (h : b.skill? id = some s) :
    s.packageId = b.id := by
  obtain ⟨d, -, rfl⟩ := Option.map_eq_some_iff.1 h
  rfl

theorem packageId_of_automation? {a : Registered AutomationDefinition}
    (h : b.automation? id = some a) : a.packageId = b.id := by
  obtain ⟨d, -, rfl⟩ := Option.map_eq_some_iff.1 h
  rfl

theorem packageId_of_mem_offers {p : Provider} (h : p ∈ b.offers id) : p.packageId = some b.id := by
  obtain ⟨c, -, rfl⟩ := mem_map.1 h
  rfl

end Lookups

theorem Core.assembled (core : Core) : Assembled core core.registries where
  ids_nodup := List.nodup_nil
  keys := rfl
  contracts_nodup := core.contracts_nodup
  providers_nodup := core.providers_nodup
  skills_nodup := List.nodup_nil
  automations_nodup := List.nodup_nil
  contract id c := by simp [Registries.view, Core.registries, Registries.bundles]
  skill id s := by simp [Registries.view, Core.registries, Registries.bundles, Assoc.get?]
  automation id a := by simp [Registries.view, Core.registries, Registries.bundles, Assoc.get?]
  providers id := by
    simp [CapabilityRegistry.providersOf, Core.registries, Registries.bundles]

/-! ### Removing a package -/

section Unregister

variable {core : Core} {r : Registries} {p : String}

theorem bundles_unregisterPackage (h : Assembled core r) :
    (r.unregisterPackage p).bundles = r.bundles.filter fun b => b.id ≠ p := by
  have hkeys : ∀ e ∈ r.packages, e.1 = e.2.id := by
    have hk := h.keys
    rw [Registries.bundles, map_map] at hk
    exact map_inj_left.1 hk
  rw [Registries.bundles, Registries.bundles, Registries.unregisterPackage, filter_map]
  refine congrArg (List.map Prod.snd) (filter_congr fun e he => ?_)
  rw [hkeys e he]
  rfl

theorem keys_unregisterPackage (h : Assembled core r) :
    (r.unregisterPackage p).packages.map Prod.fst =
      (r.unregisterPackage p).bundles.map (·.id) := by
  have hk := h.keys
  rw [Registries.bundles, map_map] at hk ⊢
  exact map_congr_left fun e he =>
    map_inj_left.1 hk e (mem_of_mem_filter he)

theorem providersOf_unregisterPackage
    (h : (r.capabilities.providers.map Prod.fst).Nodup) (id : String) :
    (r.capabilities.unregisterPackage p).providersOf id =
      CapabilityRegistry.kept p (r.capabilities.providersOf id) := by
  rw [CapabilityRegistry.providersOf, CapabilityRegistry.unregisterPackage,
    Assoc.get?_filterMap _ h, CapabilityRegistry.providersOf]
  · cases Assoc.get? r.capabilities.providers id with
    | none => rfl
    | some list =>
      rw [Option.bind_some]
      split_ifs with hk
      · exact hk.symm
      · rfl
  · intro e e' he
    split_ifs at he
    cases he
    rfl

theorem kept_flatMap_offers (bundles : List Bundle) (id : String) :
    CapabilityRegistry.kept p (bundles.flatMap fun b => b.offers id) =
      (bundles.filter fun b => b.id ≠ p).flatMap fun b => b.offers id := by
  induction bundles with
  | nil => rfl
  | cons b bundles ih =>
    rw [flatMap_cons, CapabilityRegistry.kept, filter_append]
    change CapabilityRegistry.kept p (b.offers id) ++ CapabilityRegistry.kept p _ = _
    rw [ih, CapabilityRegistry.kept]
    by_cases hb : b.id = p
    · have hnil : (b.offers id).filter (fun q => q.packageId ≠ some p) = [] := by
        refine filter_eq_nil_iff.2 fun q hq => ?_
        rw [packageId_of_mem_offers hq, hb]
        simp
      rw [hnil, filter_cons_of_neg (by simpa using hb), nil_append]
    · have hall : (b.offers id).filter (fun q => q.packageId ≠ some p) = b.offers id := by
        refine filter_eq_self.2 fun q hq => ?_
        rw [packageId_of_mem_offers hq]
        simpa using hb
      rw [hall, filter_cons_of_pos (by simpa using hb), flatMap_cons]

theorem kept_core (core : Core) (id : String) :
    CapabilityRegistry.kept p ((Assoc.get? core.providers id).getD []) =
      (Assoc.get? core.providers id).getD [] := by
  refine filter_eq_self.2 fun q hq => ?_
  cases hg : Assoc.get? core.providers id with
  | none =>
    rw [hg] at hq
    cases hq
  | some ps =>
    rw [hg] at hq
    rw [core.packageId_eq id ps hg q hq]
    rfl

theorem filter_eq_some_iff {α : Type} {o : Option α} {q : α → Bool} {x : α} :
    o.filter q = some x ↔ o = some x ∧ q x = true := by
  cases o with
  | none => simp
  | some y =>
    rw [Option.filter_some]
    split_ifs with hy
    · constructor
      · rintro ⟨⟩
        exact ⟨rfl, hy⟩
      · exact fun h => h.1
    · constructor
      · nofun
      · rintro ⟨⟨⟩, hx⟩
        exact absurd hx hy

/-- Unregistering keeps the registries assembled. -/
theorem Assembled.unregisterPackage (h : Assembled core r) (p : String) :
    Assembled core (r.unregisterPackage p) where
  ids_nodup := by
    rw [bundles_unregisterPackage h]
    exact h.ids_nodup.sublist (filter_sublist.map _)
  keys := keys_unregisterPackage h
  contracts_nodup := Assoc.nodup_filter h.contracts_nodup
  providers_nodup := by
    refine Assoc.nodup_filterMap (fun e e' he => ?_) h.providers_nodup
    split_ifs at he
    cases he
    rfl
  skills_nodup := Assoc.nodup_filter h.skills_nodup
  automations_nodup := Assoc.nodup_filter h.automations_nodup
  contract id c := by
    have hget : (r.unregisterPackage p).view.contract id =
        (r.view.contract id).filter fun c => c.source ≠ .package p :=
      Assoc.get?_filter h.contracts_nodup
    rw [hget, filter_eq_some_iff, h.contract, bundles_unregisterPackage h]
    constructor
    · rintro ⟨hc | ⟨b, hb, hc⟩, hs⟩
      · exact .inl hc
      · refine .inr ⟨b, mem_filter.2 ⟨hb, ?_⟩, hc⟩
        rw [(source_of_contract? hc).1] at hs
        simpa using hs
    · rintro (hc | ⟨b, hb, hc⟩)
      · refine ⟨.inl hc, ?_⟩
        rw [core.source_eq id c hc]
        rfl
      · obtain ⟨hb, hid⟩ := mem_filter.1 hb
        refine ⟨.inr ⟨b, hb, hc⟩, ?_⟩
        rw [(source_of_contract? hc).1]
        simpa using hid
  skill id s := by
    have hget : (r.unregisterPackage p).view.skill id =
        (r.view.skill id).filter fun s => s.packageId ≠ p :=
      Assoc.get?_filter h.skills_nodup
    rw [hget, filter_eq_some_iff, h.skill, bundles_unregisterPackage h]
    constructor
    · rintro ⟨⟨b, hb, hs⟩, hne⟩
      rw [packageId_of_skill? hs] at hne
      exact ⟨b, mem_filter.2 ⟨hb, hne⟩, hs⟩
    · rintro ⟨b, hb, hs⟩
      obtain ⟨hb, hid⟩ := mem_filter.1 hb
      refine ⟨⟨b, hb, hs⟩, ?_⟩
      rw [packageId_of_skill? hs]
      exact hid
  automation id a := by
    have hget : (r.unregisterPackage p).view.automation id =
        (r.view.automation id).filter fun a => a.packageId ≠ p :=
      Assoc.get?_filter h.automations_nodup
    rw [hget, filter_eq_some_iff, h.automation, bundles_unregisterPackage h]
    constructor
    · rintro ⟨⟨b, hb, hs⟩, hne⟩
      rw [packageId_of_automation? hs] at hne
      exact ⟨b, mem_filter.2 ⟨hb, hne⟩, hs⟩
    · rintro ⟨b, hb, hs⟩
      obtain ⟨hb, hid⟩ := mem_filter.1 hb
      refine ⟨⟨b, hb, hs⟩, ?_⟩
      rw [packageId_of_automation? hs]
      exact hid
  providers id := by
    change (r.capabilities.unregisterPackage p).providersOf id = _
    rw [providersOf_unregisterPackage h.providers_nodup, h.providers, CapabilityRegistry.kept,
      filter_append]
    change CapabilityRegistry.kept p _ ++ CapabilityRegistry.kept p _ = _
    rw [kept_core, kept_flatMap_offers, bundles_unregisterPackage h]

end Unregister

section ProviderIds

variable {b b' : Bundle} {c c' : CapabilityDefinition}

theorem mem_intercalate {sep : List Char} {parts : List (List Char)} {x : Char}
    (h : x ∈ sep.intercalate parts) : x ∈ sep ∨ ∃ part ∈ parts, x ∈ part := by
  induction parts with
  | nil => cases h
  | cons part parts ih =>
    by_cases hne : parts = []
    · rw [hne, intercalate_singleton] at h
      exact .inr ⟨part, mem_cons_self, h⟩
    · rw [intercalate_cons_of_ne_nil hne, append_assoc, List.mem_append,
        List.mem_append] at h
      rcases h with h | h | h
      · exact .inr ⟨part, mem_cons_self, h⟩
      · exact .inl h
      · exact (ih h).imp_right fun ⟨q, hq, hx⟩ => ⟨q, mem_cons_of_mem part hq, hx⟩

theorem slash_notMem_id (b : Bundle) : '/' ∉ b.id.toList := by
  have hvalid := b.id_valid
  rw [isPackageId] at hvalid
  intro hmem
  have hparts : ['.'].intercalate (b.id.toList.splitOn '.') = b.id.toList :=
    intercalate_splitOn '.'
  rw [← hparts] at hmem
  rcases mem_intercalate hmem with hslash | ⟨part, hpart, hslash⟩
  · simp at hslash
  · cases hsplit : b.manifest.id.toList.splitOn '.' with
    | nil =>
      rw [hsplit] at hpart
      cases hpart
    | cons first more =>
      rw [hsplit] at hvalid hpart
      have hall := (Bool.and_eq_true_iff.1 hvalid).2
      have hchar := all_eq_true.1 (all_eq_true.1 hall part hpart) '/' hslash
      exact absurd hchar (by decide)

theorem toList_providerId : (b.providerId c).toList =
    if c.implements.isSome then b.id.toList ++ '/' :: c.id.toList else b.id.toList := by
  rw [Bundle.providerId]
  split_ifs
  · rw [String.toList_append, String.toList_append, append_assoc]
    rfl
  · rfl

theorem id_of_providerId (h : b.providerId c = b'.providerId c') : b.id = b'.id := by
  have htake : ∀ (b : Bundle) (c : CapabilityDefinition),
      (b.providerId c).toList.takeWhile (· ≠ '/') = b.id.toList := by
    intro b c
    have hid : ∀ x ∈ b.id.toList, decide (x ≠ '/') = true := fun x hx =>
      decide_eq_true fun e => slash_notMem_id b (e ▸ hx)
    rw [toList_providerId]
    split_ifs
    · rw [takeWhile_append_of_pos hid, takeWhile_cons_of_neg (by simp), append_nil]
    · have happ : (b.id.toList ++ []).takeWhile (· ≠ '/') = b.id.toList ++ [] :=
        takeWhile_append_of_pos hid
      rwa [append_nil] at happ
  exact String.toList_injective (by rw [← htake b c, ← htake b' c', h])

theorem id_of_providerId_self (h : b.providerId c = b.providerId c')
    (hc : c.contractId = c'.contractId) : c.id = c'.id := by
  have hlist := congrArg String.toList h
  rw [toList_providerId, toList_providerId] at hlist
  cases hi : c.implements with
  | none =>
    cases hi' : c'.implements with
    | none => simpa [CapabilityDefinition.contractId, hi, hi'] using hc
    | some x' =>
      rw [hi, hi'] at hlist
      have hlen := congrArg List.length hlist
      simp at hlen
  | some x =>
    cases hi' : c'.implements with
    | none =>
      rw [hi, hi'] at hlist
      have hlen := congrArg List.length hlist
      simp at hlen
    | some x' =>
      rw [hi, hi'] at hlist
      simp only [Option.isSome_some, if_true, append_cancel_left_eq, List.cons.injEq,
        true_and] at hlist
      exact String.toList_injective hlist

end ProviderIds

/-! ### Registering a package -/

section Register

variable {core : Core} {r : Registries} {b : Bundle}

theorem foldlM_registerDefinition {α : Type} (kind pid : String) (key : α → String) (ds : List α)
    (items : List (String × Registered α)) (hnodup : (ds.map key).Nodup)
    (hfree : ∀ d ∈ ds, key d ∉ items.map Prod.fst) :
    ds.foldlM (fun items d => registerDefinition kind (key d) ⟨pid, d⟩ items) items =
      .ok (items ++ ds.map fun d => (key d, ⟨pid, d⟩)) := by
  induction ds generalizing items with
  | nil => rw [map_nil, append_nil]; rfl
  | cons d ds ih =>
    rw [map_cons, nodup_cons] at hnodup
    have hd : key d ∉ items.map Prod.fst := hfree d mem_cons_self
    have hstep : registerDefinition kind (key d) ⟨pid, d⟩ items =
        .ok (items ++ [(key d, ⟨pid, d⟩)]) := by
      rw [registerDefinition, Assoc.get?_eq_none_iff.2 hd]
      dsimp only
      rw [Assoc.assign_of_notMem hd]
    rw [foldlM_cons, hstep]
    change ds.foldlM _ _ = _
    rw [ih _ hnodup.2]
    · rw [map_cons, append_assoc]
      rfl
    · intro d' hd'
      rw [map_append, List.mem_append, not_or]
      refine ⟨hfree d' (mem_cons_of_mem d hd'), ?_⟩
      simp only [map_cons, map_nil, mem_singleton]
      exact fun he => hnodup.1 (mem_map.2 ⟨d', hd', he⟩)

/-- The contracts and providers of some definitions have been added. -/
structure CapabilitiesAdded (b : Bundle) (cs : List CapabilityDefinition)
    (r r' : CapabilityRegistry) : Prop where
  contracts : r'.contracts = r.contracts ++
    (cs.filter fun c => c.implements = none).map fun c => (c.id, b.contract c)
  providers : ∀ id, r'.providersOf id =
    r.providersOf id ++ (cs.filter fun c => c.contractId = id).map b.provider
  providers_nodup : (r'.providers.map Prod.fst).Nodup
  selections : r'.selections = r.selections

theorem registerProvider_eq (r : CapabilityRegistry) {capability : String} {p : Provider}
    (hproviders : (r.providers.map Prod.fst).Nodup)
    (hnew : ∀ q ∈ r.providersOf capability, q.id ≠ p.id) :
    ∃ r', r.registerProvider capability p = .ok r' ∧ r'.contracts = r.contracts ∧
      (∀ id, r'.providersOf id = r.providersOf id ++ if capability = id then [p] else []) ∧
      (r'.providers.map Prod.fst).Nodup ∧ r'.selections = r.selections := by
  have hany : ¬ (r.providersOf capability).any (fun q => q.id = p.id) = true := by
    rw [any_eq_true]
    rintro ⟨q, hq, he⟩
    exact hnew q hq (by simpa using he)
  refine ⟨⟨r.contracts, Assoc.assign capability (r.providersOf capability ++ [p]) r.providers,
      r.selections⟩,
    by rw [CapabilityRegistry.registerProvider, if_neg hany], rfl, fun id => ?_,
    Assoc.nodup_assign hproviders, rfl⟩
  rw [CapabilityRegistry.providersOf, Assoc.get?_assign]
  split_ifs with hid
  · rw [hid]
    rfl
  · rw [append_nil]
    rfl

theorem registerCapability_eq (r : CapabilityRegistry) (c : CapabilityDefinition)
    (hproviders : (r.providers.map Prod.fst).Nodup)
    (hfree : c.implements = none → c.id ∉ r.contracts.map Prod.fst)
    (hnew : ∀ p ∈ r.providersOf c.contractId, p.id ≠ b.providerId c) :
    ∃ r', registerCapability b r c = .ok r' ∧ CapabilitiesAdded b [c] r r' := by
  have hofferOf : ∀ id, (if c.contractId = id then [b.provider c] else []) =
      (([c].filter fun c => c.contractId = id).map b.provider) := by
    intro id
    by_cases hid : c.contractId = id <;> simp [hid]
  rw [registerCapability]
  by_cases hi : c.implements = none
  · have hcontract : r.registerContract (b.contract c) =
        .ok { r with contracts := r.contracts ++ [(c.id, b.contract c)] } := by
      rw [CapabilityRegistry.registerContract]
      change (match Assoc.get? r.contracts c.id with | some _ => _ | none => _) = _
      rw [Assoc.get?_eq_none_iff.2 (hfree hi)]
      change Except.ok { r with contracts := Assoc.assign c.id (b.contract c) r.contracts } = _
      rw [Assoc.assign_of_notMem (hfree hi)]
    obtain ⟨r', hr', hcontracts, hprov, hnodup, hsel⟩ :=
      registerProvider_eq { r with contracts := r.contracts ++ [(c.id, b.contract c)] }
        (p := b.provider c) hproviders hnew
    refine ⟨r', ?_, ?_, fun id => (hprov id).trans ?_, hnodup, hsel⟩
    · rw [if_pos hi, hcontract]
      exact hr'
    · rw [hcontracts, filter_cons_of_pos (by simpa using hi)]
      rfl
    · rw [hofferOf]
      rfl
  · obtain ⟨r', hr', hcontracts, hprov, hnodup, hsel⟩ :=
      registerProvider_eq r (p := b.provider c) hproviders hnew
    refine ⟨r', ?_, ?_, fun id => (hprov id).trans ?_, hnodup, hsel⟩
    · rw [if_neg hi]
      exact hr'
    · rw [hcontracts, filter_cons_of_neg (by simpa using hi)]
      simp
    · rw [hofferOf]

theorem foldlM_registerCapability (cs : List CapabilityDefinition) (r : CapabilityRegistry)
    (hnodup : (cs.map (·.id)).Nodup) (hproviders : (r.providers.map Prod.fst).Nodup)
    (hfree : ∀ c ∈ cs, c.implements = none → c.id ∉ r.contracts.map Prod.fst)
    (hnew : ∀ c ∈ cs, ∀ p ∈ r.providersOf c.contractId, p.id ≠ b.providerId c) :
    ∃ r', cs.foldlM (registerCapability b) r = .ok r' ∧ CapabilitiesAdded b cs r r' := by
  induction cs generalizing r with
  | nil => exact ⟨r, rfl, by simp, by simp, hproviders, rfl⟩
  | cons c cs ih =>
    rw [map_cons, nodup_cons] at hnodup
    -- The first definition.
    obtain ⟨r₁, hstep, hadd⟩ := registerCapability_eq r c hproviders
      (hfree c mem_cons_self) (hnew c mem_cons_self)
    obtain ⟨r', hrest, hadd'⟩ := ih r₁ hnodup.2 hadd.providers_nodup
      (by
        intro c' hc' hi
        rw [hadd.contracts, map_append, List.mem_append, not_or]
        refine ⟨hfree c' (mem_cons_of_mem c hc') hi, ?_⟩
        intro hmem
        obtain ⟨e, he, hid⟩ := mem_map.1 hmem
        obtain ⟨d, hd, rfl⟩ := mem_map.1 he
        obtain rfl : d = c := mem_singleton.1 (mem_of_mem_filter hd)
        exact hnodup.1 (mem_map.2 ⟨c', hc', hid.symm⟩))
      (by
        intro c' hc' p hp
        rw [hadd.providers, List.mem_append] at hp
        rcases hp with hp | hp
        · exact hnew c' (mem_cons_of_mem c hc') p hp
        · obtain ⟨d, hd, rfl⟩ := mem_map.1 hp
          obtain ⟨hd, hcid⟩ := mem_filter.1 hd
          obtain rfl : d = c := mem_singleton.1 hd
          intro he
          have hid : d.id = c'.id := id_of_providerId_self he (by simpa using hcid)
          exact hnodup.1 (mem_map.2 ⟨c', hc', hid.symm⟩))
    refine ⟨r', ?_, ?_, ?_, hadd'.providers_nodup, hadd'.selections.trans hadd.selections⟩
    · rw [foldlM_cons, hstep]
      exact hrest
    · rw [hadd'.contracts, hadd.contracts, append_assoc, ← map_append,
        ← filter_append]
      rfl
    · intro id
      rw [hadd'.providers, hadd.providers, append_assoc, ← map_append,
        ← filter_append]
      rfl

theorem conflicts_eq_nil : r.conflicts b = [] ↔
    (∀ c ∈ b.capabilities, c.implements = none →
      ∀ e, r.view.contract c.id = some e → e.source = .package b.id) ∧
    (∀ s ∈ b.skills, ∀ e, r.view.skill s.id = some e → e.packageId = b.id) ∧
    ∀ a ∈ b.automations, ∀ e, r.view.automation a.id = some e → e.packageId = b.id := by
  rw [Registries.conflicts, append_eq_nil_iff, append_eq_nil_iff, and_assoc,
    filterMap_eq_nil_iff, filterMap_eq_nil_iff, filterMap_eq_nil_iff]
  refine and_congr (forall₂_congr fun c _ => ?_) (and_congr (forall₂_congr fun s _ => ?_)
    (forall₂_congr fun a _ => ?_))
  · cases c.implements with
    | none => cases r.view.contract c.id <;> simp
    | some x => simp
  · cases r.view.skill s.id <;> simp
  · cases r.view.automation a.id <;> simp

theorem contract?_eq_get? (b : Bundle) (id : String) :
    Assoc.get? ((b.capabilities.filter fun c => c.implements = none).map
      fun c => (c.id, b.contract c)) id = b.contract? id := by
  rw [Assoc.get?_map, Bundle.contract?, find?_filter]
  congr 2
  funext c
  simp [and_comm]

/-- A package that declares a contract or implements one has no contract of the core under its id. -/
theorem core_of_check (h : Assembled core r) (hcheck : r.check b = []) :
    ∀ c ∈ b.capabilities, Assoc.get? core.contracts c.contractId = none := by
  obtain ⟨hconflicts, hvalid⟩ := append_eq_nil_iff.1 hcheck
  obtain ⟨hown, -, -⟩ := conflicts_eq_nil.1 hconflicts
  obtain ⟨-, -, himpl, -⟩ := validateDependencies_eq_nil.1 hvalid
  intro c hc
  cases hg : Assoc.get? core.contracts c.contractId with
  | none => rfl
  | some e =>
    have hview : r.view.contract c.contractId = some e := (h.contract _ _).2 (.inl hg)
    have hsource : e.source = .core := core.source_eq _ _ hg
    cases hi : c.implements with
    | none =>
      have hid : c.contractId = c.id := by rw [CapabilityDefinition.contractId, hi]; rfl
      rw [hid] at hview
      rw [hown c hc hi e hview] at hsource
      cases hsource
    | some x =>
      have hid : c.contractId = x := by rw [CapabilityDefinition.contractId, hi]; rfl
      rw [hid] at hview
      exact absurd hsource ((implementsErrors_eq_nil.1 himpl c hc x hi).2 e hview)

theorem skill?_eq_get? (b : Bundle) (id : String) :
    Assoc.get? (b.skills.map fun s => (s.id, (⟨b.id, s⟩ : Registered SkillDefinition))) id =
      b.skill? id := Assoc.get?_map

theorem automation?_eq_get? (b : Bundle) (id : String) :
    Assoc.get? (b.automations.map fun a => (a.id, (⟨b.id, a⟩ : Registered AutomationDefinition)))
      id = b.automation? id := Assoc.get?_map

theorem get?_append_iff {V : Type} {es es' : List (String × V)} {k : String} {v : V}
    (h : ∀ e ∈ es', e.1 ∉ es.map Prod.fst) :
    Assoc.get? (es ++ es') k = some v ↔ Assoc.get? es k = some v ∨ Assoc.get? es' k = some v := by
  rw [Assoc.get?_append]
  cases hg : Assoc.get? es k with
  | none => simp
  | some w =>
    rw [Option.some_or]
    refine ⟨.inl, fun hor => hor.resolve_right fun hv => ?_⟩
    have hnone := Assoc.get?_eq_none_iff.2 (h _ (Assoc.mem_of_get? hv))
    rw [hg] at hnone
    cases hnone

theorem nodup_append_keys {V : Type} {es es' : List (String × V)}
    (hes : (es.map Prod.fst).Nodup) (hes' : (es'.map Prod.fst).Nodup)
    (h : ∀ e ∈ es', e.1 ∉ es.map Prod.fst) : ((es ++ es').map Prod.fst).Nodup := by
  rw [map_append, nodup_append]
  refine ⟨hes, hes', fun k hk k' hk' he => ?_⟩
  obtain ⟨e, hmem, rfl⟩ := mem_map.1 hk'
  exact h e hmem (he ▸ hk)

/-- A package whose names are new may be added. -/
theorem Assembled.add {capabilities : CapabilityRegistry} (h : Assembled core r)
    (hother : ∀ b' ∈ r.bundles, b'.id ≠ b.id)
    (hcontract : ∀ c ∈ b.capabilities, c.implements = none →
      c.id ∉ r.capabilities.contracts.map Prod.fst)
    (hskill : ∀ s ∈ b.skills, s.id ∉ r.skills.map Prod.fst)
    (hautomation : ∀ a ∈ b.automations, a.id ∉ r.automations.map Prod.fst)
    (hadd : CapabilitiesAdded b b.capabilities r.capabilities capabilities) :
    Assembled core ⟨r.packages ++ [(b.id, b)], capabilities,
      r.skills ++ b.skills.map fun s => (s.id, ⟨b.id, s⟩),
      r.automations ++ b.automations.map fun a => (a.id, ⟨b.id, a⟩)⟩ := by
  have hall : (r.packages ++ [(b.id, b)]).map Prod.snd = r.bundles ++ [b] := by
    rw [map_append]
    rfl
  have hcs : ∀ e ∈ (b.capabilities.filter fun c => c.implements = none).map
      fun c => (c.id, b.contract c), e.1 ∉ r.capabilities.contracts.map Prod.fst := by
    intro e he
    obtain ⟨c, hc, rfl⟩ := mem_map.1 he
    exact hcontract c (mem_of_mem_filter hc) (by simpa using (mem_filter.1 hc).2)
  have hss : ∀ e ∈ b.skills.map fun s => (s.id, (⟨b.id, s⟩ : Registered SkillDefinition)),
      e.1 ∉ r.skills.map Prod.fst := by
    intro e he
    obtain ⟨s, hs, rfl⟩ := mem_map.1 he
    exact hskill s hs
  have has : ∀ e ∈ b.automations.map
      fun a => (a.id, (⟨b.id, a⟩ : Registered AutomationDefinition)),
      e.1 ∉ r.automations.map Prod.fst := by
    intro e he
    obtain ⟨a, ha, rfl⟩ := mem_map.1 he
    exact hautomation a ha
  have hexists : ∀ q : Bundle → Prop, (∃ b' ∈ r.bundles ++ [b], q b') ↔
      (∃ b' ∈ r.bundles, q b') ∨ q b := by
    intro q
    simp [or_and_right, exists_or]
  constructor
  case ids_nodup =>
    rw [Registries.bundles, hall, map_append, nodup_append]
    refine ⟨h.ids_nodup, by simp, fun i hi j hj he => ?_⟩
    obtain ⟨b', hb', rfl⟩ := mem_map.1 hi
    exact hother b' hb' (he.trans (mem_singleton.1 hj))
  case keys =>
    rw [Registries.bundles, hall, map_append, map_append, h.keys]
    rfl
  case contracts_nodup =>
    change (capabilities.contracts.map Prod.fst).Nodup
    rw [hadd.contracts]
    refine nodup_append_keys h.contracts_nodup ?_ hcs
    rw [map_map]
    exact b.capabilities_nodup.sublist (filter_sublist.map _)
  case providers_nodup => exact hadd.providers_nodup
  case skills_nodup =>
    refine nodup_append_keys h.skills_nodup ?_ hss
    rw [map_map]
    exact b.skills_nodup
  case automations_nodup =>
    refine nodup_append_keys h.automations_nodup ?_ has
    rw [map_map]
    exact b.automations_nodup
  case contract =>
    intro id c
    change Assoc.get? capabilities.contracts id = some c ↔ _
    rw [hadd.contracts, get?_append_iff hcs, contract?_eq_get?, Registries.bundles, hall, hexists,
      ← or_assoc, ← h.contract]
    rfl
  case skill =>
    intro id s
    change Assoc.get? (r.skills ++ _) id = some s ↔ _
    rw [get?_append_iff hss, skill?_eq_get?, Registries.bundles, hall, hexists, ← h.skill]
    rfl
  case automation =>
    intro id a
    change Assoc.get? (r.automations ++ _) id = some a ↔ _
    rw [get?_append_iff has, automation?_eq_get?, Registries.bundles, hall, hexists,
      ← h.automation]
    rfl
  case providers =>
    intro id
    change capabilities.providersOf id = _
    rw [hadd.providers, h.providers, Registries.bundles, Registries.bundles, hall,
      flatMap_append, append_assoc, flatMap_singleton]
    rfl

/-- A package that passes the check is registered. -/
theorem registerBundle_of_check (h : Assembled core r) (hcheck : r.check b = []) :
    ∃ r', r.registerBundle b = .ok r' ∧ Assembled core r' ∧
      r'.bundles = (r.bundles.filter fun b' => b'.id ≠ b.id) ++ [b] ∧
      r'.capabilities.selections = (r.unregisterPackage b.id).capabilities.selections := by
  obtain ⟨hown, hskills, hautomations⟩ :=
    conflicts_eq_nil.1 (append_eq_nil_iff.1 hcheck).1
  have hcore := core_of_check h hcheck
  set u := r.unregisterPackage b.id with hu
  have hA : Assembled core u := h.unregisterPackage b.id
  have hbundles : u.bundles = r.bundles.filter fun b' => b'.id ≠ b.id :=
    bundles_unregisterPackage h
  have hother : ∀ b' ∈ u.bundles, b'.id ≠ b.id := fun b' hb' => by
    rw [hbundles] at hb'
    simpa using (mem_filter.1 hb').2
  -- The ids are free, once the old version is gone.
  have hcontract : ∀ c ∈ b.capabilities, c.implements = none →
      c.id ∉ u.capabilities.contracts.map Prod.fst := by
    intro c hc hi
    rw [← Assoc.get?_eq_none_iff]
    change (Assoc.get? (r.capabilities.contracts.filter _) c.id) = none
    rw [Assoc.get?_filter h.contracts_nodup, Option.filter_eq_none_iff]
    intro e he hne
    rw [hown c hc hi e he] at hne
    simp at hne
  have hskill : ∀ s ∈ b.skills, s.id ∉ u.skills.map Prod.fst := by
    intro s hs
    rw [← Assoc.get?_eq_none_iff]
    change (Assoc.get? (r.skills.filter _) s.id) = none
    rw [Assoc.get?_filter h.skills_nodup, Option.filter_eq_none_iff]
    intro e he hne
    rw [hskills s hs e he] at hne
    simp at hne
  have hautomation : ∀ a ∈ b.automations, a.id ∉ u.automations.map Prod.fst := by
    intro a ha
    rw [← Assoc.get?_eq_none_iff]
    change (Assoc.get? (r.automations.filter _) a.id) = none
    rw [Assoc.get?_filter h.automations_nodup, Option.filter_eq_none_iff]
    intro e he hne
    rw [hautomations a ha e he] at hne
    simp at hne
  have hnew : ∀ c ∈ b.capabilities, ∀ p ∈ u.capabilities.providersOf c.contractId,
      p.id ≠ b.providerId c := by
    intro c hc p hp
    have hnone : Assoc.get? core.providers c.contractId = none := by
      cases hps : Assoc.get? core.providers c.contractId with
      | none => rfl
      | some ps =>
        have hsome := core.contract_of_providers _ _ hps
        rw [hcore c hc] at hsome
        cases hsome
    rw [hA.providers, hnone] at hp
    obtain ⟨b', hb', hp⟩ := mem_flatMap.1 hp
    obtain ⟨c', -, rfl⟩ := mem_map.1 hp
    exact fun he => hother b' hb' (id_of_providerId he)
  have hpackage : b.id ∉ u.packages.map Prod.fst := by
    rw [hA.keys]
    intro hmem
    obtain ⟨b', hb', hid⟩ := mem_map.1 hmem
    exact hother b' hb' hid
  -- Each loop adds its definitions.
  obtain ⟨capabilities, hcap, hadd⟩ := foldlM_registerCapability b.capabilities u.capabilities
    b.capabilities_nodup hA.providers_nodup hcontract hnew
  have hreg : r.registerBundle b = .ok ⟨u.packages ++ [(b.id, b)], capabilities,
      u.skills ++ b.skills.map fun s => (s.id, ⟨b.id, s⟩),
      u.automations ++ b.automations.map fun a => (a.id, ⟨b.id, a⟩)⟩ := by
    rw [Registries.registerBundle, if_neg (not_not_intro hcheck), Registries.register, ← hu, hcap,
      foldlM_registerDefinition "skill" b.id (·.id) b.skills u.skills b.skills_nodup hskill,
      foldlM_registerDefinition "automation" b.id (·.id) b.automations u.automations
        b.automations_nodup hautomation, ← Assoc.assign_of_notMem hpackage]
    rfl
  have hall : (u.packages ++ [(b.id, b)]).map Prod.snd = u.bundles ++ [b] := by
    rw [map_append]
    rfl
  refine ⟨_, hreg, ?_, ?_, hadd.selections⟩
  · exact hA.add hother hcontract hskill hautomation hadd
  · rw [Registries.bundles, hall, hbundles]

theorem check_of_registerBundle {r' : Registries} (h : r.registerBundle b = .ok r') :
    r.check b = [] := by
  by_contra hne
  rw [Registries.registerBundle, if_pos hne] at h
  cases h

theorem registerBundle_eq_ok {r' : Registries} (h : Assembled core r)
    (hr : r.registerBundle b = .ok r') : Assembled core r' ∧
      r'.bundles = (r.bundles.filter fun b' => b'.id ≠ b.id) ++ [b] ∧
      r'.capabilities.selections = (r.unregisterPackage b.id).capabilities.selections := by
  obtain ⟨r'', hr'', hspec⟩ := registerBundle_of_check h (check_of_registerBundle hr)
  rw [hr] at hr''
  cases hr''
  exact hspec

end Register

theorem Assembled.withSelections {core : Core} {r : Registries} (h : Assembled core r)
    (selections : List (String × String)) :
    Assembled core { r with capabilities := { r.capabilities with selections } } :=
  ⟨h.ids_nodup, h.keys, h.contracts_nodup, h.providers_nodup, h.skills_nodup, h.automations_nodup,
    h.contract, h.skill, h.automation, h.providers⟩

theorem select_eq_ok {r r' : CapabilityRegistry} {id : String} {provider : Option String}
    (h : r.select id provider = .ok r') :
    r' = { r with selections := r'.selections } ∧
      match provider with
      | none => r'.selections = r.selections.filter fun e => e.1 ≠ id
      | some p => (∃ q ∈ r.providersOf id, q.id = p) ∧
          r'.selections = Assoc.assign id p r.selections := by
  cases provider with
  | none =>
    cases h
    exact ⟨rfl, rfl⟩
  | some p =>
    rw [CapabilityRegistry.select] at h
    split_ifs at h with hany
    cases h
    obtain ⟨q, hq, hid⟩ := any_eq_true.1 hany
    exact ⟨rfl, ⟨q, hq, by simpa using hid⟩, rfl⟩

end U2os.Server.Packages
