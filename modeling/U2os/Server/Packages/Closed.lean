import Mathlib.Data.List.Find
import Mathlib.Data.List.Nodup
import U2os.Server.Packages.Manager
import U2os.Server.Packages.Reach

/-!
# Closed registries

The check runs for the package that is installed.  What other packages require may go all the same:
an upgrade takes away what the old version had, and an uninstallation looks at what the manifests
require, not at what the skills require nor at the contracts that are implemented.  And a version may
ask for permissions that those who use it have not declared.
-/

namespace U2os.Server.Packages

open List Option Assoc CapabilityRegistry Store

/-! ### Closed -/

/-- A package finds what it requires, and the contracts it implements. -/
def Bundle.Supplied (b : Bundle) (v : View) : Prop :=
  b.requirementErrors v = [] ∧ b.implementsErrors v = []

/-- Every registered package finds what it requires. -/
def Provided (r : Registries) : Prop := ∀ b ∈ r.bundles, b.Supplied r.view

/-- Every registered package still passes the check. -/
def Closed (r : Registries) : Prop := ∀ b ∈ r.bundles, b.validateDependencies r.view = []

/-- What the package `q` needs of `o` is there in other versions, of capabilities and of skills. -/
structure Kept (capability skill : String → Option String) (o q : Bundle) : Prop where
  capabilities : ∀ e ∈ q.requiredCapabilities, get? q.ownCapabilities e.1 = none →
    (get? o.ownCapabilities e.1).isSome →
    ((capability e.1).any fun version => satisfies version e.2) = true
  skills : ∀ e ∈ q.requiredSkills, get? q.ownSkills e.1 = none →
    (get? o.ownSkills e.1).isSome →
    ((skill e.1).any fun version => satisfies version e.2) = true
  contracts : ∀ c ∈ q.capabilities, ∀ x ∈ c.implements, get? q.ownCapabilities x = none →
    (get? o.ownCapabilities x).isSome → (capability x).isSome

/-- What the package `q` needs of the old version `o`, the new version `n` has. -/
abbrev KeptBy (n o q : Bundle) : Prop :=
  Kept (get? n.ownCapabilities) (get? n.ownSkills) o q

/-- The package `q` needs nothing of `o` but what its manifest requires. -/
structure OnlyByManifest (o q : Bundle) : Prop where
  capabilities : ∀ e ∈ q.requiredCapabilities,
    e.1 ∉ q.manifest.requires.capabilities.map Prod.fst →
    get? q.ownCapabilities e.1 = none → get? o.ownCapabilities e.1 = none
  skills : ∀ e ∈ q.requiredSkills, e.1 ∉ q.manifest.requires.skills.map Prod.fst →
    get? q.ownSkills e.1 = none → get? o.ownSkills e.1 = none
  contracts : ∀ c ∈ q.capabilities, ∀ x ∈ c.implements,
    get? q.ownCapabilities x = none → get? o.ownCapabilities x = none

/-- What the registered packages, and the new version itself, need of its old version, it has. -/
def Upgrades (r : Registries) (n : Bundle) : Prop :=
  ∀ o ∈ r.bundles, o.id = n.id → KeptBy n o n ∧ ∀ q ∈ r.bundles, q.id ≠ n.id → KeptBy n o q

/-- What a package has, no skill and no provider of another one needs. -/
def Removes (r : Registries) (id : String) : Prop :=
  ∀ o ∈ r.bundles, o.id = id → ∀ q ∈ r.bundles, q.id ≠ id → OnlyByManifest o q

/-- An operation, where it goes through, takes away nothing that a package needs, and asks for no
permission that it has not. -/
def Operation.Keeps (r : Registries) : Operation → Prop
  | .install n => r.check n = [] → n.builds = true →
    Upgrades r n ∧ ∀ q ∈ r.bundles, q.id ≠ n.id → Permits r n q
  | .uninstall id force => force = true ∨ r.dependentsOf id = [] →
    r.dependentsOf id = [] ∧ Removes r id
  | .select _ _ => True

section Decidable

variable {capability skill : String → Option String} {o q : Bundle}

instance : Decidable (Kept capability skill o q) :=
  decidable_of_iff
    ((∀ e ∈ q.requiredCapabilities, get? q.ownCapabilities e.1 = none →
        (get? o.ownCapabilities e.1).isSome →
        ((capability e.1).any fun version => satisfies version e.2) = true) ∧
      (∀ e ∈ q.requiredSkills, get? q.ownSkills e.1 = none →
        (get? o.ownSkills e.1).isSome →
        ((skill e.1).any fun version => satisfies version e.2) = true) ∧
      ∀ c ∈ q.capabilities, ∀ x ∈ c.implements, get? q.ownCapabilities x = none →
        (get? o.ownCapabilities x).isSome → (capability x).isSome)
    ⟨fun h => ⟨h.1, h.2.1, h.2.2⟩, fun h => ⟨h.capabilities, h.skills, h.contracts⟩⟩

instance : Decidable (OnlyByManifest o q) :=
  decidable_of_iff
    ((∀ e ∈ q.requiredCapabilities, e.1 ∉ q.manifest.requires.capabilities.map Prod.fst →
        get? q.ownCapabilities e.1 = none → get? o.ownCapabilities e.1 = none) ∧
      (∀ e ∈ q.requiredSkills, e.1 ∉ q.manifest.requires.skills.map Prod.fst →
        get? q.ownSkills e.1 = none → get? o.ownSkills e.1 = none) ∧
      ∀ c ∈ q.capabilities, ∀ x ∈ c.implements, get? q.ownCapabilities x = none →
        get? o.ownCapabilities x = none)
    ⟨fun h => ⟨h.1, h.2.1, h.2.2⟩, fun h => ⟨h.capabilities, h.skills, h.contracts⟩⟩

instance (r : Registries) : DecidablePred (Upgrades r) := fun _ => decidableBAll ..

instance (r : Registries) : DecidablePred (Removes r) := fun _ => decidableBAll ..

instance (r : Registries) : DecidablePred (Operation.Keeps r)
  | .install n => inferInstanceAs (Decidable (r.check n = [] → n.builds = true →
      Upgrades r n ∧ ∀ q ∈ r.bundles, q.id ≠ n.id → Permits r n q))
  | .uninstall id force => inferInstanceAs (Decidable (force = true ∨ r.dependentsOf id = [] →
      r.dependentsOf id = [] ∧ Removes r id))
  | .select _ _ => inferInstanceAs (Decidable True)

end Decidable

variable {id' version : String}

section Lookups

variable {b : Bundle} {id : String}

theorem get?_ownCapabilities : get? b.ownCapabilities id = (b.contract? id).map (·.version) := by
  rw [← contract?_eq_get?, Bundle.ownCapabilities, get?_map, get?_map, Option.map_map]
  rfl

theorem get?_ownSkills :
    get? b.ownSkills id = (b.skill? id).map (·.definition.version) := by
  rw [Bundle.ownSkills, get?_map, Bundle.skill?, Option.map_map]
  rfl

theorem mem_exports_of_ownCapabilities
    (h : get? b.ownCapabilities id = some version) : id ∈ b.manifest.exports.capabilities := by
  obtain ⟨c, hc, he⟩ := List.mem_map.1 (mem_of_get? h)
  rw [b.capabilities_exported]
  cases he
  exact List.mem_map.2 ⟨c, mem_of_mem_filter hc, rfl⟩

theorem mem_exports_of_ownSkills
    (h : get? b.ownSkills id = some version) : id ∈ b.manifest.exports.skills := by
  obtain ⟨s, hs, he⟩ := List.mem_map.1 (mem_of_get? h)
  rw [b.skills_exported]
  cases he
  exact List.mem_map.2 ⟨s, hs, rfl⟩

end Lookups

/-! ### What an operation keeps -/

section Steps

variable {core : Core} {r r' : Registries} {n q : Bundle}

/-- What was registered still is, but for what one package had; of that there are other versions. -/
structure Replaced (r r' : Registries) (id : String) (capability skill : String → Option String) :
    Prop where
  contracts : ∀ x c, r.view.contract x = some c → r'.view.contract x = some c ∨
    ∃ o ∈ r.bundles, o.id = id ∧ (get? o.ownCapabilities x).isSome
  skills : ∀ x s, r.view.skill x = some s → r'.view.skill x = some s ∨
    ∃ o ∈ r.bundles, o.id = id ∧ (get? o.ownSkills x).isSome
  capability_new : ∀ x version, capability x = some version →
    r'.view.capabilityVersion x = some version
  skill_new : ∀ x version, skill x = some version → r'.view.skillVersion x = some version
  source : ∀ x c, r'.view.contract x = some c → c.source = .core → r.view.contract x = some c

/-- A package keeps its supply when another one is replaced, if what it used is kept. -/
theorem Bundle.Supplied.replace {id : String} {capability skill : String → Option String}
    (hrep : Replaced r r' id capability skill) (hs : q.Supplied r.view)
    (hkept : ∀ o ∈ r.bundles, o.id = id → Kept capability skill o q) : q.Supplied r'.view := by
  obtain ⟨hreq, himpl⟩ := hs
  rw [requirementErrors_eq_nil] at hreq
  rw [implementsErrors_eq_nil] at himpl
  refine ⟨requirementErrors_eq_nil.2 ⟨fun e he => ?_, fun e he => ?_⟩,
    implementsErrors_eq_nil.2 fun c hc x hx => ⟨?_, fun found hf hcore => ?_⟩⟩
  · refine (hreq.1 e he).replace fun hown version hver hsat => ?_
    obtain ⟨c, hc, rfl⟩ := map_eq_some_iff.1 hver
    rcases hrep.contracts _ _ hc with hc' | ⟨o, ho, hid, hoc⟩
    · exact ⟨c.version, by rw [View.capabilityVersion, hc']; rfl, hsat⟩
    · obtain ⟨v, hv, hvs⟩ := (Option.any_eq_true _ _).1
        ((hkept o ho hid).capabilities e he hown hoc)
      exact ⟨v, hrep.capability_new _ _ hv, hvs⟩
  · refine (hreq.2 e he).replace fun hown version hver hsat => ?_
    obtain ⟨s, hs, rfl⟩ := map_eq_some_iff.1 hver
    rcases hrep.skills _ _ hs with hs' | ⟨o, ho, hid, hos⟩
    · exact ⟨s.definition.version, by rw [View.skillVersion, hs']; rfl, hsat⟩
    · obtain ⟨v, hv, hvs⟩ := (Option.any_eq_true _ _).1 ((hkept o ho hid).skills e he hown hos)
      exact ⟨v, hrep.skill_new _ _ hv, hvs⟩
  · cases hown : get? q.ownCapabilities x with
    | some v => exact .inl rfl
    | none =>
      have hsome := (himpl c hc x hx).1
      rw [hown] at hsome
      obtain ⟨found, hf⟩ := isSome_iff_exists.1 (hsome.resolve_left Bool.noConfusion)
      rcases hrep.contracts _ _ hf with hf' | ⟨o, ho, hid, hof⟩
      · exact .inr (by rw [hf']; rfl)
      · obtain ⟨v, hv⟩ :=
          isSome_iff_exists.1 ((hkept o ho hid).contracts c hc x hx hown hof)
        have hnew := hrep.capability_new _ _ hv
        obtain ⟨c', hc', -⟩ := map_eq_some_iff.1 hnew
        exact .inr (by rw [hc']; rfl)
  · exact (himpl c hc x hx).2 found (hrep.source x found hf hcore) hcore

theorem replaced_of_bundles {id : String} {capability skill : String → Option String}
    (h : Assembled core r) (h' : Assembled core r')
    (hothers : ∀ b ∈ r.bundles, b.id ≠ id → b ∈ r'.bundles)
    (hcap : ∀ x version, capability x = some version →
      ∃ b ∈ r'.bundles, get? b.ownCapabilities x = some version)
    (hskill : ∀ x version, skill x = some version →
      ∃ b ∈ r'.bundles, get? b.ownSkills x = some version) :
    Replaced r r' id capability skill where
  contracts x c hc := by
    rcases (h.contract x c).1 hc with hcore | ⟨b, hb, hbc⟩
    · exact .inl ((h'.contract x c).2 (.inl hcore))
    · by_cases hid : b.id = id
      · exact .inr ⟨b, hb, hid, by rw [get?_ownCapabilities, hbc]; rfl⟩
      · exact .inl ((h'.contract x c).2 (.inr ⟨b, hothers b hb hid, hbc⟩))
  skills x s hs := by
    obtain ⟨b, hb, hbs⟩ := (h.skill x s).1 hs
    by_cases hid : b.id = id
    · exact .inr ⟨b, hb, hid, by rw [get?_ownSkills, hbs]; rfl⟩
    · exact .inl ((h'.skill x s).2 ⟨b, hothers b hb hid, hbs⟩)
  capability_new x version hx := by
    obtain ⟨b, hb, hbx⟩ := hcap x version hx
    rw [get?_ownCapabilities] at hbx
    obtain ⟨c, hc, rfl⟩ := map_eq_some_iff.1 hbx
    rw [View.capabilityVersion, (h'.contract x c).2 (.inr ⟨b, hb, hc⟩)]
    rfl
  skill_new x version hx := by
    obtain ⟨b, hb, hbx⟩ := hskill x version hx
    rw [get?_ownSkills] at hbx
    obtain ⟨s, hs, rfl⟩ := map_eq_some_iff.1 hbx
    rw [View.skillVersion, (h'.skill x s).2 ⟨b, hb, hs⟩]
    rfl
  source x c hc hs := by
    rcases (h'.contract x c).1 hc with hcore | ⟨b, -, hbc⟩
    · exact (h.contract x c).2 (.inl hcore)
    · rw [(source_of_contract? hbc).1] at hs
      cases hs

theorem Closed.provided (h : Closed r) : Provided r := fun b hb => by
  obtain ⟨-, hreq, himpl, -⟩ := validateDependencies_eq_nil.1 (h b hb)
  exact ⟨hreq, himpl⟩

theorem provided_registerBundle (h : Assembled core r) (hc : Provided r)
    (hr : r.registerBundle n = .ok r') (hkeep : Upgrades r n) : Provided r' := by
  obtain ⟨h', hbundles, -⟩ := registerBundle_eq_ok h hr
  have hn : n ∈ r'.bundles := by simp [hbundles]
  have hrep : Replaced r r' n.id (get? n.ownCapabilities) (get? n.ownSkills) :=
    replaced_of_bundles h h' (fun b hb hid => by simp [hbundles, hb, hid])
      (fun x version hx => ⟨n, hn, hx⟩) (fun x version hx => ⟨n, hn, hx⟩)
  intro q hq
  rw [hbundles] at hq
  rcases mem_append.1 hq with hq | hq
  · obtain ⟨hq, hid⟩ := mem_filter.1 hq
    exact (hc q hq).replace hrep fun o ho hoid => (hkeep o ho hoid).2 q hq (by simpa using hid)
  · -- The package itself was supplied by the registries that had its old version.
    cases mem_singleton.1 hq
    obtain ⟨-, hreq, himpl, -⟩ := validateDependencies_eq_nil.1
      (append_eq_nil_iff.1 (check_of_registerBundle hr)).2
    have hsupplied : n.Supplied r.view := ⟨hreq, himpl⟩
    exact hsupplied.replace hrep fun o ho hoid => (hkeep o ho hoid).1

/-- A package stays valid where it finds what it requires and declares what it uses. -/
theorem validateDependencies_of_supplied {v v' : View} (hvalid : q.validateDependencies v = [])
    (hsupplied : q.Supplied v') (hperm : q.permissionErrors v' = []) :
    q.validateDependencies v' = [] := by
  obtain ⟨hu2os, -, -, hworkflow, -⟩ := validateDependencies_eq_nil.1 hvalid
  exact validateDependencies_eq_nil.2 ⟨hu2os, hsupplied.1, hsupplied.2, hworkflow, hperm⟩

theorem closed_registerBundle (h : Assembled core r) (hc : Closed r)
    (hr : r.registerBundle n = .ok r') (hkeep : Upgrades r n)
    (hpermits : ∀ q ∈ r.bundles, q.id ≠ n.id → Permits r n q) : Closed r' := by
  obtain ⟨-, hbundles, -⟩ := registerBundle_eq_ok h hr
  have hsupplied := provided_registerBundle h hc.provided hr hkeep
  intro q hq
  have hsupplied := hsupplied q hq
  rw [hbundles] at hq
  rcases mem_append.1 hq with hq | hq
  · obtain ⟨hq, hid⟩ := mem_filter.1 hq
    have hid : q.id ≠ n.id := by simpa using hid
    have hperm := (validateDependencies_eq_nil.1 (hc q hq)).2.2.2.2
    exact validateDependencies_of_supplied (hc q hq) hsupplied
      (permissionErrors_register h hr hq hid hperm (hpermits q hq hid))
  · cases mem_singleton.1 hq
    have hvalid := (append_eq_nil_iff.1 (check_of_registerBundle hr)).2
    exact validateDependencies_of_supplied hvalid hsupplied
      (permissionErrors_registered h hr (validateDependencies_eq_nil.1 hvalid).2.2.2.2)

theorem get?_packages (h : Assembled core r) {o : Bundle} (ho : o ∈ r.bundles) :
    get? r.packages o.id = some o := by
  obtain ⟨e, he, rfl⟩ := List.mem_map.1 ho
  have hkey : e.1 = e.2.id := by
    have hk := h.keys
    rw [Registries.bundles, List.map_map] at hk
    exact map_inj_left.1 hk e he
  refine get?_eq_some_of_mem (h.keys ▸ h.ids_nodup) ?_
  rw [← hkey]
  exact he

theorem provided_unregisterPackage {id : String} (h : Assembled core r) (hc : Provided r)
    (hdep : r.dependentsOf id = []) (hkeep : Removes r id) :
    Provided (r.unregisterPackage id) := by
  have hbundles : (r.unregisterPackage id).bundles = r.bundles.filter fun b => b.id ≠ id :=
    bundles_unregisterPackage h
  have hrep : Replaced r (r.unregisterPackage id) id (fun _ => none) fun _ => none :=
    replaced_of_bundles h (h.unregisterPackage id) (fun b hb hid => by simp [hbundles, hb, hid])
      nofun nofun
  intro q hq
  rw [hbundles] at hq
  obtain ⟨hq, hid⟩ := mem_filter.1 hq
  have hid : q.id ≠ id := by simpa using hid
  refine (hc q hq).replace hrep fun o ho hoid => ?_
  have honly := hkeep o ho hoid q hq hid
  -- What the manifest requires would have made `q` a dependent.
  have hmanifest : ¬ ((q.manifest.requires.capabilities.any
      fun e => e.1 ∈ o.manifest.exports.capabilities) = true ∨
      (q.manifest.requires.skills.any fun e => e.1 ∈ o.manifest.exports.skills) = true) := by
    intro hor
    rw [Registries.dependentsOf, ← hoid, get?_packages h ho] at hdep
    have hmem : q ∈ r.bundles.filter fun b => b.id ≠ o.id ∧
        ((b.manifest.requires.capabilities.any fun e => e.1 ∈ o.manifest.exports.capabilities) ∨
          b.manifest.requires.skills.any fun e => e.1 ∈ o.manifest.exports.skills) :=
      mem_filter.2 ⟨hq, decide_eq_true ⟨hoid ▸ hid, hor⟩⟩
    rw [map_eq_nil_iff.1 hdep] at hmem
    cases hmem
  constructor
  · intro e he hown ho'
    obtain ⟨version, hv⟩ := isSome_iff_exists.1 ho'
    by_cases hm : e.1 ∈ q.manifest.requires.capabilities.map Prod.fst
    · obtain ⟨e', he', hk⟩ := List.mem_map.1 hm
      refine absurd (.inl (List.any_eq_true.2 ⟨e', he', ?_⟩)) hmanifest
      rw [hk]
      simpa using mem_exports_of_ownCapabilities hv
    · rw [honly.capabilities e he hm hown] at hv
      cases hv
  · intro e he hown ho'
    obtain ⟨version, hv⟩ := isSome_iff_exists.1 ho'
    by_cases hm : e.1 ∈ q.manifest.requires.skills.map Prod.fst
    · obtain ⟨e', he', hk⟩ := List.mem_map.1 hm
      refine absurd (.inr (List.any_eq_true.2 ⟨e', he', ?_⟩)) hmanifest
      rw [hk]
      simpa using mem_exports_of_ownSkills hv
    · rw [honly.skills e he hm hown] at hv
      cases hv
  · intro c hcmem x hx hown ho'
    rw [honly.contracts c hcmem x hx hown] at ho'
    cases ho'

theorem closed_unregisterPackage {id : String} (h : Assembled core r) (hc : Closed r)
    (hdep : r.dependentsOf id = []) (hkeep : Removes r id) :
    Closed (r.unregisterPackage id) := by
  intro q hq
  have hsupplied := provided_unregisterPackage h hc.provided hdep hkeep q hq
  rw [bundles_unregisterPackage h] at hq
  have hq := mem_of_mem_filter hq
  exact validateDependencies_of_supplied (hc q hq) hsupplied
    (permissionErrors_of_sub (sub_unregisterPackage h id)
      (validateDependencies_eq_nil.1 (hc q hq)).2.2.2.2)

theorem keptBy_self {o : Bundle} (h : Assembled core r) (hc : Provided r) (ho : o ∈ r.bundles)
    (hq : q ∈ r.bundles) : KeptBy o o q := by
  obtain ⟨hreq, himpl⟩ := hc q hq
  rw [requirementErrors_eq_nil] at hreq
  constructor
  · intro e he hown hoe
    obtain ⟨version, hver, hsat⟩ := hreq.1 e he
    rw [hown, none_or, View.capabilityVersion] at hver
    rw [get?_ownCapabilities, isSome_map] at hoe
    obtain ⟨c, hoc⟩ := isSome_iff_exists.1 hoe
    rw [(h.contract _ c).2 (.inr ⟨o, ho, hoc⟩)] at hver
    refine (Option.any_eq_true _ _).2 ⟨version, ?_, hsat⟩
    rw [get?_ownCapabilities, hoc]
    exact hver
  · intro e he hown hoe
    obtain ⟨version, hver, hsat⟩ := hreq.2 e he
    rw [hown, none_or, View.skillVersion] at hver
    rw [get?_ownSkills, isSome_map] at hoe
    obtain ⟨s, hos⟩ := isSome_iff_exists.1 hoe
    rw [(h.skill _ s).2 ⟨o, ho, hos⟩] at hver
    refine (Option.any_eq_true _ _).2 ⟨version, ?_, hsat⟩
    rw [get?_ownSkills, hos]
    exact hver
  · exact fun c _ x _ _ hox => hox

theorem eq_of_mem_bundles {o o' : Bundle} (h : Assembled core r) (ho : o ∈ r.bundles)
    (ho' : o' ∈ r.bundles) (hid : o.id = o'.id) : o = o' :=
  inj_on_of_nodup_map h.ids_nodup ho ho' hid

theorem keeps_self {o : Bundle} (h : Assembled core r) (hc : Provided r) (ho : o ∈ r.bundles) :
    Upgrades r o := by
  intro o' ho' hid
  cases eq_of_mem_bundles h ho' ho hid
  exact ⟨keptBy_self h hc ho ho, fun q hq _ => keptBy_self h hc ho hq⟩

end Steps

/-! ### Runs -/

/-- The registries are closed, and the files of an installed package are those of the registered
version, or cannot be registered. -/
structure Kempt (core : Core) (s : Store) : Prop where
  assembled : Assembled core s.registries
  closed : Closed s.registries
  row_id : ∀ id row, get? s.rows id = some row → row.manifest.id = id
  files_id : ∀ id version b, s.files id version = some b → b.id = id
  stored : ∀ id row version b, s.installedRow id = some row → row.installPath = some version →
    s.files id version = some b → b ∈ s.registries.bundles ∨ b.builds = false

variable {enabled : Bool}

section Runs

variable {core : Core} {s : Store} {b : Bundle}

theorem installedRow_upsertPackage {m : Manifest} {id : String} :
    (s.upsertPackage m version enabled).installedRow id =
      if m.id = id then some ⟨m, some version, true, enabled⟩ else s.installedRow id := by
  rw [installedRow, upsertPackage, get?_assign]
  split_ifs <;> rfl

theorem get?_markUninstalled {id : String} :
    get? (s.markUninstalled id).rows id' = (get? s.rows id').map fun row =>
      if id' = id then { row with installed := false, enabled := false, installPath := none }
      else row := by
  rw [markUninstalled]
  induction s.rows with
  | nil => rfl
  | cons e es ih =>
    rw [map_cons, get?_cons, get?_cons, ih]
    by_cases hid : e.1 = id
    · rw [if_pos hid]
      by_cases hk : e.1 = id'
      · simp [hk, hk ▸ hid]
      · simp [hk]
    · rw [if_neg hid]
      by_cases hk : e.1 = id'
      · simp [hk, hk ▸ hid]
      · simp [hk]

theorem installedRow_markUninstalled {id : String} :
    (s.markUninstalled id).installedRow id' = if id' = id then none else s.installedRow id' := by
  rw [installedRow, get?_markUninstalled, installedRow]
  cases get? s.rows id' with
  | none => simp
  | some row => by_cases hid : id' = id <;> simp [hid]

/-- A package that is registered with its permissions keeps the packages in order. -/
theorem Kempt.registered {registries : Registries} {files : String → String → Option Bundle}
    (h : Kempt core s)
    (hr : s.registries.registerBundle b = .ok registries)
    (hkeep : Upgrades s.registries b ∧ ∀ q ∈ s.registries.bundles, q.id ≠ b.id →
      Permits s.registries b q) {row : Manifest} {version : String}
    (hrow : row.id = b.id) (hb : files b.id version = some b)
    (hfiles : ∀ id v o, files id v = some o → o.id = id)
    (hothers : ∀ id, id ≠ b.id → files id = s.files id) :
    Kempt core { s.upsertPackage row version enabled with registries, files } := by
  obtain ⟨hA, hbundles, -⟩ := registerBundle_eq_ok h.assembled hr
  refine ⟨hA, closed_registerBundle h.assembled h.closed hr hkeep.1 hkeep.2, ?_, hfiles, ?_⟩
  · intro id r hg
    rw [upsertPackage] at hg
    rw [get?_assign] at hg
    split_ifs at hg with hid
    · cases hg
      exact hid
    · exact h.row_id id r hg
  · intro id r v o hg hv ho
    have hg : (s.upsertPackage row version enabled).installedRow id = some r := hg
    rw [installedRow_upsertPackage, hrow] at hg
    rw [hbundles]
    split_ifs at hg with hid
    · cases hg
      cases hv
      subst hid
      change files b.id version = some o at ho
      rw [hb] at ho
      cases ho
      exact .inl (by simp)
    · change files id v = some o at ho
      rw [hothers id (Ne.symm hid)] at ho
      refine (h.stored id r v o hg hv ho).imp_left fun hmem => ?_
      have hoid : o.id ≠ b.id := h.files_id id v o ho ▸ Ne.symm hid
      simp [hmem, hoid]

theorem Kempt.written {files : String → String → Option Bundle} {row : Manifest} (h : Kempt core s)
    (hfiles : ∀ id v o, files id v = some o → o.id = id)
    (hothers : ∀ id, id ≠ row.id → files id = s.files id)
    (hnew : ∀ o, files row.id version = some o → o ∈ s.registries.bundles ∨ o.builds = false) :
    Kempt core { s.upsertPackage row version enabled with files } := by
  refine ⟨h.assembled, h.closed, ?_, hfiles, ?_⟩
  · intro id r hg
    rw [upsertPackage] at hg
    rw [get?_assign] at hg
    split_ifs at hg with hid
    · cases hg
      exact hid
    · exact h.row_id id r hg
  · intro id r v o hg hv ho
    have hg : (s.upsertPackage row version enabled).installedRow id = some r := hg
    rw [installedRow_upsertPackage] at hg
    split_ifs at hg with hid
    · cases hg
      cases hv
      subst hid
      exact hnew o ho
    · change files id v = some o at ho
      rw [hothers id (Ne.symm hid)] at ho
      exact h.stored id r v o hg hv ho

theorem Kempt.markUninstalled (h : Kempt core s) (id : String) :
    Kempt core (s.markUninstalled id) := by
  refine ⟨h.assembled, h.closed, ?_, h.files_id, ?_⟩
  · intro id' r hg
    rw [get?_markUninstalled] at hg
    obtain ⟨r', hr', rfl⟩ := map_eq_some_iff.1 hg
    split_ifs <;> exact h.row_id id' r' hr'
  · intro id' r v o hg
    rw [installedRow_markUninstalled] at hg
    split_ifs at hg
    exact h.stored id' r v o hg

theorem registerBuilt_eq_ok {r r' : Registries} (h : r.registerBuilt b = .ok r') :
    b.builds = true ∧ r.registerBundle b = .ok r' := by
  rw [Registries.registerBuilt] at h
  split_ifs at h with hb
  exact ⟨hb, h⟩

/-- Putting the previous row back keeps the packages in order. -/
theorem Kempt.restorePrevious (h : Kempt core s) {id : String} {previous : Option PackageRow}
    (hrow : ∀ row, previous = some row → row.manifest.id = id)
    (hprev : ∀ row version o, previous = some row → row.installPath = some version →
      s.files id version = some o → o ∈ s.registries.bundles ∨ o.builds = false) :
    Kempt core (s.restorePrevious id previous) := by
  rw [Store.restorePrevious]
  cases hfound : previous.bind fun row => row.installPath.bind fun version =>
      (s.files id version).map fun b => (row, version, b) with
  | none => exact h.markUninstalled id
  | some found =>
    obtain ⟨row, hp, hfound⟩ := bind_eq_some_iff.1 hfound
    obtain ⟨version, hv, hfound⟩ := bind_eq_some_iff.1 hfound
    obtain ⟨o, ho, rfl⟩ := map_eq_some_iff.1 hfound
    have hor := hprev row version o hp hv ho
    have hoid : o.id = id := h.files_id id version o ho
    dsimp only
    cases hr : s.registries.registerBuilt o with
    | error e =>
      refine h.written h.files_id (fun _ _ => rfl) fun o' ho' => ?_
      change s.files row.manifest.id version = some o' at ho'
      rw [hrow row hp, ho] at ho'
      cases ho'
      exact hor
    | ok registries =>
      obtain ⟨hbuilds, hr⟩ := registerBuilt_eq_ok hr
      have hmem : o ∈ s.registries.bundles := hor.resolve_right (by rw [hbuilds]; nofun)
      have hpermits : ∀ q ∈ s.registries.bundles, q.id ≠ o.id → Permits s.registries o q :=
        fun q hq _ => permits_of_registered h.assembled hmem hq
          (validateDependencies_eq_nil.1 (h.closed q hq)).2.2.2.2
      exact h.registered hr ⟨keeps_self h.assembled h.closed.provided hmem, hpermits⟩
        ((hrow row hp).trans hoid.symm) (hoid ▸ ho) h.files_id fun _ _ => rfl

theorem writeFiles_self {id : String} {o : Option Bundle} :
    s.writeFiles id version o id version = o := if_pos ⟨rfl, rfl⟩

theorem writeFiles_of_ne {id : String} {o : Option Bundle} (h : id' ≠ id) :
    s.writeFiles id version o id' = s.files id' := by
  funext version'
  exact if_neg fun hand => h hand.1

theorem writeFiles_other {id version' : String} {o : Option Bundle}
    (h : version' ≠ version) : s.writeFiles id version o id version' = s.files id version' :=
  if_neg fun hand => h hand.2

theorem writeFiles_id (hfiles : ∀ id v o, s.files id v = some o → o.id = id) {id version : String}
    {o : Option Bundle} (ho : ∀ b, o = some b → b.id = id) :
    ∀ id' v b, s.writeFiles id version o id' v = some b → b.id = id' := by
  intro id' v b hb
  rw [writeFiles] at hb
  split_ifs at hb with hand
  · rw [hand.1]
    exact ho b hb
  · exact hfiles id' v b hb

/-- An installation that keeps what others use keeps the packages in order. -/
theorem Kempt.install (h : Kempt core s) (hkeep : (Operation.install b).Keeps s.registries) :
    Kempt core (s.install b) := by
  rw [Store.install]
  split_ifs with hcheck
  · exact h
  have hcheck : s.registries.check b = [] := not_not.1 hcheck
  have hfiles : ∀ id v o, s.writeFiles b.id b.manifest.version (some b) id v = some o → o.id = id :=
    writeFiles_id h.files_id fun o ho => by cases ho; rfl
  have hothers : ∀ id, id ≠ b.id →
      s.writeFiles b.id b.manifest.version (some b) id = s.files id := fun id => writeFiles_of_ne
  dsimp only
  split
  · next registries hr =>
    obtain ⟨hbuilds, hr⟩ := registerBuilt_eq_ok hr
    have hkeep := hkeep hcheck hbuilds
    split
    · next version hv =>
      split_ifs with hne
      · -- The files of the old version go.
        refine h.registered hr hkeep rfl ?_ ?_ ?_
        · exact (writeFiles_other (Ne.symm hne)).trans writeFiles_self
        · exact writeFiles_id hfiles nofun
        · exact fun id hid => (writeFiles_of_ne hid).trans (hothers id hid)
      · exact h.registered hr hkeep rfl writeFiles_self hfiles hothers
    · exact h.registered hr hkeep rfl writeFiles_self hfiles hothers
  · next e hr =>
    -- The check has passed, so that it is a fixture that cannot be read.
    have hbuilds : b.builds = false := by
      by_contra hb
      obtain ⟨r', hr', -⟩ := registerBundle_of_check h.assembled hcheck
      rw [Store.upsertPackage, Registries.registerBuilt, if_pos (by simpa using hb)] at hr
      rw [hr'] at hr
      cases hr
    refine Kempt.restorePrevious (h.written hfiles hothers fun o ho => ?_) ?_ ?_
    · rw [writeFiles_self] at ho
      cases ho
      exact .inr hbuilds
    · intro row hrow
      exact h.row_id _ _ (filter_eq_some_iff.1 hrow).1
    · intro row version o hrow hv ho
      change s.writeFiles b.id b.manifest.version (some b) b.id version = some o at ho
      by_cases hver : version = b.manifest.version
      · rw [hver, writeFiles_self] at ho
        cases ho
        exact .inr hbuilds
      · rw [writeFiles_other hver] at ho
        exact h.stored b.id row version o hrow hv ho

theorem passes_uninstall {r : Registries} {id : String} {force : Bool}
    (h : ¬ (r.dependentsOf id ≠ [] ∧ force = false)) : force = true ∨ r.dependentsOf id = [] := by
  cases force with
  | false => exact .inr (not_not.1 fun hne => h ⟨hne, rfl⟩)
  | true => exact .inl rfl

theorem Kempt.uninstall {id : String} {force : Bool} (h : Kempt core s)
    (hkeep : (Operation.uninstall id force).Keeps s.registries) :
    Kempt core (s.uninstall id force) := by
  rw [Store.uninstall]
  split
  · exact h
  · split_ifs with hdep
    · exact h
    obtain ⟨hdep, hremoves⟩ := hkeep (passes_uninstall hdep)
    have hA := h.assembled.unregisterPackage id
    refine ⟨hA, closed_unregisterPackage h.assembled h.closed hdep hremoves,
      (h.markUninstalled id).row_id, ?_, ?_⟩
    · intro id' v o ho
      dsimp only at ho
      split_ifs at ho
      exact h.files_id id' v o ho
    · intro id' row v o hg hv ho
      dsimp only at ho
      split_ifs at ho with hid
      refine ((h.markUninstalled id).stored id' row v o hg hv ho).imp_left fun hmem => ?_
      change o ∈ (s.registries.unregisterPackage id).bundles
      rw [bundles_unregisterPackage h.assembled]
      exact mem_filter.2 ⟨hmem, by simpa [h.files_id id' v o ho] using hid⟩

theorem Kempt.selectProvider {capability : String} {provider : Option String} (h : Kempt core s) :
    Kempt core (s.selectProvider capability provider) := by
  rw [Store.selectProvider]
  split
  · next capabilities hsel =>
    rw [(select_eq_ok hsel).1]
    have hkept : Kempt core { s with registries := { s.registries with capabilities :=
        { s.registries.capabilities with selections := capabilities.selections } } } :=
      ⟨h.assembled.withSelections _, h.closed, h.row_id, h.files_id, h.stored⟩
    cases provider <;> exact ⟨hkept.assembled, h.closed, h.row_id, h.files_id, h.stored⟩
  · exact h

theorem kempt_init (core : Core) : Kempt core { registries := core.registries } :=
  ⟨core.assembled, nofun, nofun, nofun, nofun⟩

theorem Kempt.perform {op : Operation} (h : Kempt core s) (hkeep : op.Keeps s.registries) :
    Kempt core (s.perform op) := by
  cases op with
  | install b => exact h.install hkeep
  | uninstall id force => exact h.uninstall hkeep
  | select capability provider => exact h.selectProvider

/-- In every run of operations that take away nothing a package needs and ask for nothing it has not,
every registered package passes the check, in every state. -/
theorem registries_closed {ops : List Operation}
    (hs : ((manager core).restrict fun s op _ => op.Keeps s.registries).Run ops s) :
    Closed s.registries := by
  have hkempt : Kempt core s := hs.invariant (kempt_init core) fun t op t' ht hstep => by
    obtain ⟨hstep, hkeep⟩ := hstep
    cases hstep
    exact ht.perform hkeep
  exact hkempt.closed

end Runs

/-- A core with one capability. -/
def sampleCore : Core where
  contracts := [("web.search", ⟨"web.search", "1.0.0", ["network"], .core⟩)]
  providers := [("web.search", [⟨"core", none⟩])]
  contracts_nodup := by decide
  providers_nodup := by decide
  source_eq id c h := by
    obtain ⟨-, rfl⟩ := Prod.mk.inj (mem_singleton.1 (mem_of_get? h))
    rfl
  packageId_eq id ps h p hp := by
    obtain ⟨-, rfl⟩ := Prod.mk.inj (mem_singleton.1 (mem_of_get? h))
    rw [mem_singleton.1 hp]
  contract_of_providers id ps h := by
    obtain ⟨rfl, -⟩ := Prod.mk.inj (mem_singleton.1 (mem_of_get? h))
    rfl

theorem isPackageId_notes : isPackageId "com.example.notes" = true := by decide +kernel

/-- A version of a package that declares a capability, which needs the network. -/
def sampleNotes (version : String) : Bundle where
  manifest :=
    { id := "com.example.notes", version, exports := { capabilities := ["notes.list"] } }
  capabilities := [{ id := "notes.list", version, requiredPermissions := ["network"] }]
  id_valid := isPackageId_notes
  capabilities_exported := rfl
  skills_exported := rfl
  automations_exported := rfl
  capabilities_nodup := by simp
  skills_nodup := by exact nodup_nil
  automations_nodup := by exact nodup_nil

/-- A package that requires the capability, in its first line of versions, and may use the network. -/
def sampleDigest : Bundle where
  manifest :=
    { id := "com.example.digest", version := "1.0.0",
      requires := { capabilities := [("notes.list", "^1.0")] },
      exports := { skills := ["digest"] }, permissions := ["network"] }
  skills := [{ id := "digest", version := "1.0.0", workflow := some ["capability:notes.list"] }]
  id_valid := by decide +kernel
  capabilities_exported := rfl
  skills_exported := rfl
  automations_exported := rfl
  capabilities_nodup := by exact nodup_nil
  skills_nodup := by decide
  automations_nodup := by exact nodup_nil

/-- Both packages have been installed. -/
def sampleStore : Store :=
  (({ registries := sampleCore.registries } : Store).install (sampleNotes "1.0.0")).install
    sampleDigest

/-- An upgrade within the line keeps the registries closed. -/
theorem sample_upgrade_closed :
    Closed (sampleStore.install (sampleNotes "1.1.0")).registries := by
  have hrun : ((manager sampleCore).restrict fun s op _ => op.Keeps s.registries).Run
      [.install (sampleNotes "1.0.0"), .install sampleDigest, .install (sampleNotes "1.1.0")]
      (sampleStore.install (sampleNotes "1.1.0")) := by
    refine Machine.Steps.cons ⟨rfl, ?_⟩ (Machine.Steps.cons ⟨rfl, ?_⟩
      (Machine.Steps.cons ⟨rfl, ?_⟩ Machine.Steps.nil))
    all_goals decide +kernel
  exact registries_closed hrun

/-- An upgrade to another line leaves the package that requires the first one without it. -/
theorem upgrade_breaks_requirement :
    ¬ ∀ (core : Core) (ops : List Operation) (s : Store), (manager core).Run ops s →
      Closed s.registries := by
  intro hall
  have hclosed := hall sampleCore
    [.install (sampleNotes "1.0.0"), .install sampleDigest, .install (sampleNotes "2.0.0")]
    (sampleStore.install (sampleNotes "2.0.0")) (((Machine.Run.nil.snoc rfl).snoc rfl).snoc rfl)
  have hbroken : ¬ ∀ b ∈ (sampleStore.install (sampleNotes "2.0.0")).registries.bundles,
      b.requirementErrors (sampleStore.install (sampleNotes "2.0.0")).registries.view = [] := by
    decide +kernel
  exact hbroken fun b hb => (validateDependencies_eq_nil.1 (hclosed b hb)).2.1

/-! ### Registered and removed again -/

/-- What registrations, removals and selections make of the registries of the core. -/
inductive FromCore (core : Core) : Registries → Prop
  | core : FromCore core core.registries
  | register {r r' : Registries} {b : Bundle} (h : FromCore core r)
      (hr : r.registerBundle b = .ok r') : FromCore core r'
  | unregister {r : Registries} (h : FromCore core r) (id : String) :
      FromCore core (r.unregisterPackage id)
  | select {r : Registries} {capabilities : CapabilityRegistry} {id : String}
      {provider : Option String} (h : FromCore core r)
      (hs : r.capabilities.select id provider = .ok capabilities) :
      FromCore core { r with capabilities }

section RoundTrip

variable {core : Core} {r r' : Registries} {b : Bundle}

theorem FromCore.assembled (h : FromCore core r) :
    Assembled core r ∧ (r.capabilities.selections.map Prod.fst).Nodup := by
  induction h with
  | core => exact ⟨core.assembled, nodup_nil⟩
  | register h hr ih =>
    obtain ⟨hassembled, -, hselections⟩ := registerBundle_eq_ok ih.1 hr
    exact ⟨hassembled, hselections ▸ nodup_filter ih.2⟩
  | unregister h id ih => exact ⟨ih.1.unregisterPackage id, nodup_filter ih.2⟩
  | @select r capabilities id provider h hs ih =>
    obtain ⟨hsame, hselections⟩ := select_eq_ok hs
    rw [hsame]
    refine ⟨ih.1.withSelections _, ?_⟩
    cases provider with
    | none => exact hselections ▸ nodup_filter ih.2
    | some p => exact hselections.2 ▸ nodup_assign ih.2

/-- A selection of an offered provider survives where the offer does. -/
theorem selected_unregisterPackage_iff {c : CapabilityRegistry}
    (hc : (c.selections.map Prod.fst).Nodup) {p id : String} {q : Provider}
    (hq : q ∈ kept p (c.providersOf id)) :
    (c.unregisterPackage p).selected id = some q.id ↔ c.selected id = some q.id := by
  rw [selected, unregisterPackage, get?_filter hc,
    Option.filter_eq_some_iff]
  refine and_iff_left_of_imp fun _ => ?_
  rw [providersOf] at hq
  cases hlist : get? c.providers id with
  | none => rfl
  | some list =>
    rw [hlist] at hq
    exact List.any_eq_true.2 ⟨q, hq, by simp⟩

/-- After any operations on the registries, what registering a new package adds is what removing it
takes away: everything that is looked up, and every choice of a provider, is as before. -/
theorem unregister_registerBundle (h : FromCore core r) (hnew : ∀ o ∈ r.bundles, o.id ≠ b.id)
    (hr : r.registerBundle b = .ok r') :
    (r'.unregisterPackage b.id).bundles = r.bundles ∧
    (r'.unregisterPackage b.id).view.contract = r.view.contract ∧
    (r'.unregisterPackage b.id).view.skill = r.view.skill ∧
    (r'.unregisterPackage b.id).view.automation = r.view.automation ∧
    (r'.unregisterPackage b.id).capabilities.providersOf = r.capabilities.providersOf ∧
    (r'.unregisterPackage b.id).capabilities.resolveProvider = r.capabilities.resolveProvider := by
  obtain ⟨hassembled, hnodup⟩ := h.assembled
  obtain ⟨hassembled', hbundles', hselections⟩ := registerBundle_eq_ok hassembled hr
  have hu := hassembled'.unregisterPackage b.id
  have hbundles : (r'.unregisterPackage b.id).bundles = r.bundles := by
    rw [bundles_unregisterPackage hassembled', hbundles', filter_append, List.filter_filter]
    simpa using hnew
  have hproviders : (r'.unregisterPackage b.id).capabilities.providersOf =
      r.capabilities.providersOf := by
    funext id
    rw [hu.providers, hbundles, hassembled.providers]
  refine ⟨hbundles, ?_, ?_, ?_, hproviders, ?_⟩
  · funext id
    exact ext fun c => by rw [hu.contract, hbundles, hassembled.contract]
  · funext id
    exact ext fun c => by rw [hu.skill, hbundles, hassembled.skill]
  · funext id
    exact ext fun c => by rw [hu.automation, hbundles, hassembled.automation]
  · funext id
    have hkept : kept b.id (r.capabilities.providersOf id) =
        r.capabilities.providersOf id := by
      have hall : r.bundles.filter (fun o => o.id ≠ b.id) = r.bundles := by simpa using hnew
      rw [hassembled.providers, kept, filter_append]
      exact congrArg₂ (· ++ ·) (kept_core core id) ((kept_flatMap_offers _ id).trans (by rw [hall]))
    have hkept' : kept b.id (r'.capabilities.providersOf id) =
        r.capabilities.providersOf id :=
      (providersOf_unregisterPackage hassembled'.providers_nodup id).symm.trans
        (congrFun hproviders id)
    have hselected : ∀ p ∈ r.capabilities.providersOf id,
        ((r'.unregisterPackage b.id).capabilities.selected id = some p.id ↔
          r.capabilities.selected id = some p.id) := by
      intro p hp
      refine (selected_unregisterPackage_iff (hselections ▸ nodup_filter hnodup)
        (hkept'.symm ▸ hp)).trans ?_
      rw [selected, hselections]
      exact selected_unregisterPackage_iff hnodup (hkept.symm ▸ hp)
    have hfind : ((r.capabilities.providersOf id).find? fun p =>
          some p.id = (r'.unregisterPackage b.id).capabilities.selected id) =
        (r.capabilities.providersOf id).find? fun p => some p.id = r.capabilities.selected id :=
      find?_congr fun p hp => decide_eq_decide.2 (by rw [eq_comm, hselected p hp, eq_comm])
    rw [resolveProvider, resolveProvider, hproviders, hfind]

end RoundTrip

/-- A package with two providers of its capability. -/
def sampleSearch : Bundle where
  manifest :=
    { id := "com.example.search", version := "1.0.0",
      exports := { capabilities := ["files.search", "files.index"] } }
  capabilities :=
    [{ id := "files.search", version := "1.0.0" },
      { id := "files.index", version := "1.0.0", implements := some "files.search" }]
  id_valid := by decide +kernel
  capabilities_exported := rfl
  skills_exported := rfl
  automations_exported := rfl
  capabilities_nodup := by decide
  skills_nodup := by exact nodup_nil
  automations_nodup := by exact nodup_nil

theorem ok_of_toOption {ε α : Type} {x : Except ε α} {a : α} (h : x.toOption = some a) :
    x = .ok a := by
  cases x with
  | error => cases h
  | ok b => exact congrArg _ (some.inj h)

/-- Another package is there, and the owner has selected its second provider. -/
theorem unregister_sampleNotes : ∃ r r', FromCore sampleCore r ∧
    r.registerBundle (sampleNotes "1.0.0") = .ok r' ∧
    (r.capabilities.resolveProvider "files.search").map (·.id) =
      some "com.example.search/files.index" ∧
    (r'.unregisterPackage "com.example.notes").capabilities.resolveProvider =
      r.capabilities.resolveProvider := by
  have hruns : ((sampleCore.registries.registerBundle sampleSearch).toOption.bind fun r =>
      (r.capabilities.select "files.search" (some "com.example.search/files.index")).toOption.bind
        fun capabilities => if { r with capabilities }.check (sampleNotes "1.0.0") = [] ∧
            r.bundles.map (·.id) = ["com.example.search"] then
          (capabilities.resolveProvider "files.search").map (·.id) else none) =
      some "com.example.search/files.index" := by decide +kernel
  obtain ⟨r, hr, hruns⟩ := bind_eq_some_iff.1 hruns
  obtain ⟨capabilities, hselect, hruns⟩ := bind_eq_some_iff.1 hruns
  split_ifs at hruns with hand
  have hfrom : FromCore sampleCore { r with capabilities } :=
    .select (.register .core (ok_of_toOption hr)) (ok_of_toOption hselect)
  obtain ⟨r', hr', -⟩ := registerBundle_of_check hfrom.assembled.1 hand.1
  have hnew : ∀ o ∈ r.bundles, o.id ≠ (sampleNotes "1.0.0").id := by
    intro o ho hid
    have hmem : o.id ∈ r.bundles.map (·.id) := mem_map_of_mem ho
    rw [hand.2, hid] at hmem
    revert hmem
    decide +kernel
  have hspec := unregister_registerBundle hfrom hnew hr'
  exact ⟨_, r', hfrom, hr', hruns, hspec.2.2.2.2.2⟩

end U2os.Server.Packages
