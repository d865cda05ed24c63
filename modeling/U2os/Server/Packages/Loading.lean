import Mathlib.Order.WellFounded
import U2os.Server.Packages.Closed

/-!
# Loading the installed packages

`loadInstalled` of `packages/manager.js` against the registries that are running.  The passes find
the order in which the packages can be registered, which need not be the order in which they were;
what depends on the order is the first provider of a contract.

## Main results

* `loadPasses_loads` : settled packages are all loaded.
-/

namespace U2os.Server.Packages

open List Option Assoc CapabilityRegistry

namespace Bundle

variable (b : Bundle)

/-- The contracts of other packages that a package implements. -/
def foreign : List String :=
  (b.capabilities.filterMap (·.implements)).filter fun x =>
    (get? b.ownCapabilities x).isNone

/-- The capabilities a package needs of others. -/
def neededCapabilities : List String :=
  ((b.requiredCapabilities.map Prod.fst).filter fun x =>
    (get? b.ownCapabilities x).isNone) ++ b.foreign

/-- The skills a package needs of others. -/
def neededSkills : List String :=
  (b.requiredSkills.map Prod.fst).filter fun x => (get? b.ownSkills x).isNone

/-- A package needs something that another one has. -/
def Needs (p : Bundle) : Prop :=
  (∃ x ∈ b.neededCapabilities, (get? p.ownCapabilities x).isSome) ∨
    ∃ x ∈ b.neededSkills, (get? p.ownSkills x).isSome

instance (p : Bundle) : Decidable (b.Needs p) :=
  inferInstanceAs (Decidable (_ ∨ _))

end Bundle

section Needed

variable {b p : Bundle} {x : String}

theorem mem_foreign : x ∈ b.foreign ↔
    (∃ c ∈ b.capabilities, c.implements = some x) ∧ get? b.ownCapabilities x = none := by
  rw [Bundle.foreign, mem_filter, mem_filterMap, isNone_iff_eq_none]

theorem mem_neededCapabilities : x ∈ b.neededCapabilities ↔
    (x ∈ b.requiredCapabilities.map Prod.fst ∧ get? b.ownCapabilities x = none) ∨
      x ∈ b.foreign := by
  rw [Bundle.neededCapabilities, mem_append, mem_filter, isNone_iff_eq_none]

theorem mem_neededSkills : x ∈ b.neededSkills ↔
    x ∈ b.requiredSkills.map Prod.fst ∧ get? b.ownSkills x = none := by
  rw [Bundle.neededSkills, mem_filter, isNone_iff_eq_none]

/-- A package is supplied where what it needs is. -/
theorem Bundle.Supplied.of_needed {v v' : View} (hs : b.Supplied v) (hsub : v'.Sub v)
    (hcap : ∀ x ∈ b.neededCapabilities, ∀ c, v.contract x = some c → v'.contract x = some c)
    (hskill : ∀ x ∈ b.neededSkills, ∀ s, v.skill x = some s → v'.skill x = some s) :
    b.Supplied v' := by
  obtain ⟨hreq, himpl⟩ := hs
  rw [requirementErrors_eq_nil] at hreq
  rw [implementsErrors_eq_nil] at himpl
  refine ⟨requirementErrors_eq_nil.2 ⟨fun e he => ?_, fun e he => ?_⟩,
    implementsErrors_eq_nil.2 fun c hc x hx => ⟨?_, fun found hf => ?_⟩⟩
  · refine (hreq.1 e he).replace fun hown version hver hsat => ⟨version, ?_, hsat⟩
    obtain ⟨c, hc, rfl⟩ := map_eq_some_iff.1 hver
    have hneeded : e.1 ∈ b.neededCapabilities :=
      mem_neededCapabilities.2 (.inl ⟨List.mem_map.2 ⟨e, he, rfl⟩, hown⟩)
    rw [View.capabilityVersion, hcap e.1 hneeded c hc]
    rfl
  · refine (hreq.2 e he).replace fun hown version hver hsat => ⟨version, ?_, hsat⟩
    obtain ⟨s, hs, rfl⟩ := map_eq_some_iff.1 hver
    have hneeded : e.1 ∈ b.neededSkills :=
      mem_neededSkills.2 ⟨List.mem_map.2 ⟨e, he, rfl⟩, hown⟩
    rw [View.skillVersion, hskill e.1 hneeded s hs]
    rfl
  · cases hown : get? b.ownCapabilities x with
    | some v => exact .inl rfl
    | none =>
      have hsome := (himpl c hc x hx).1
      rw [hown] at hsome
      obtain ⟨found, hf⟩ := isSome_iff_exists.1 (hsome.resolve_left Bool.noConfusion)
      have hneeded : x ∈ b.neededCapabilities :=
        mem_neededCapabilities.2 (.inr (mem_foreign.2 ⟨⟨c, hc, hx⟩, hown⟩))
      exact .inr (by rw [hcap x hneeded found hf]; rfl)
  · exact (himpl c hc x hx).2 found (hsub.contract x found hf)

end Needed

section Fewer

variable {core : Core} {r r₁ : Registries} {b : Bundle}

theorem sub_of_bundles (h : Assembled core r) (h₁ : Assembled core r₁)
    (hsub : ∀ b ∈ r₁.bundles, b ∈ r.bundles) : r₁.view.Sub r.view where
  contract x c hc := (h.contract x c).2 <| ((h₁.contract x c).1 hc).imp_right
    fun ⟨b, hb, hbc⟩ => ⟨b, hsub b hb, hbc⟩
  skill x s hs := by
    obtain ⟨b, hb, hbs⟩ := (h₁.skill x s).1 hs
    exact (h.skill x s).2 ⟨b, hsub b hb, hbs⟩

theorem conflicts_of_mem (h : Assembled core r) (hb : b ∈ r.bundles) : r.conflicts b = [] := by
  refine conflicts_eq_nil.2 ⟨fun c hc hi e he => ?_, fun s hs e he => ?_, fun a ha e he => ?_⟩
  · have hown : b.contract? c.id = some (b.contract c) := by
      rw [← contract?_eq_get?]
      refine get?_eq_some_of_mem ?_ (List.mem_map.2 ⟨c, mem_filter.2 ⟨hc, ?_⟩, rfl⟩)
      · rw [List.map_map]
        exact b.capabilities_nodup.sublist (filter_sublist.map _)
      · simpa using hi
    rw [(h.contract _ _).2 (.inr ⟨b, hb, hown⟩)] at he
    cases he
    rfl
  · have hown : b.skill? s.id = some ⟨b.id, s⟩ := by
      rw [← skill?_eq_get?]
      refine get?_eq_some_of_mem ?_ (List.mem_map.2 ⟨s, hs, rfl⟩)
      rw [List.map_map]
      exact b.skills_nodup
    rw [(h.skill _ _).2 ⟨b, hb, hown⟩] at he
    cases he
    rfl
  · have hown : b.automation? a.id = some ⟨b.id, a⟩ := by
      rw [← automation?_eq_get?]
      refine get?_eq_some_of_mem ?_ (List.mem_map.2 ⟨a, ha, rfl⟩)
      rw [List.map_map]
      exact b.automations_nodup
    rw [(h.automation _ _).2 ⟨b, hb, hown⟩] at he
    cases he
    rfl

theorem conflicts_of_bundles (h : Assembled core r) (h₁ : Assembled core r₁)
    (hsub : ∀ b ∈ r₁.bundles, b ∈ r.bundles) (hc : r.conflicts b = []) : r₁.conflicts b = [] := by
  obtain ⟨hcontract, hskill, hautomation⟩ := conflicts_eq_nil.1 hc
  have hview := sub_of_bundles h h₁ hsub
  refine conflicts_eq_nil.2 ⟨fun c hc hi e he => hcontract c hc hi e (hview.contract _ _ he),
    fun s hs e he => hskill s hs e (hview.skill _ _ he), fun a ha e he => ?_⟩
  obtain ⟨b', hb', he⟩ := (h₁.automation _ _).1 he
  exact hautomation a ha e ((h.automation _ _).2 ⟨b', hsub b' hb', he⟩)

theorem check_of_needed (h : Assembled core r) (h₁ : Assembled core r₁)
    (hsub : ∀ b ∈ r₁.bundles, b ∈ r.bundles) (hb : b ∈ r.bundles)
    (hvalid : b.validateDependencies r.view = [])
    (hneeds : ∀ p ∈ r.bundles, b.Needs p → p ∈ r₁.bundles) : r₁.check b = [] := by
  obtain ⟨hu2os, hreq, himpl, hwork, hperm⟩ := validateDependencies_eq_nil.1 hvalid
  have hview := sub_of_bundles h h₁ hsub
  have hsupplied : b.Supplied r₁.view := by
    refine Bundle.Supplied.of_needed ⟨hreq, himpl⟩ hview (fun x hx c hc => ?_) fun x hx s hs => ?_
    · refine (h₁.contract x c).2 (((h.contract x c).1 hc).imp_right fun ⟨p, hp, hpc⟩ => ?_)
      refine ⟨p, hneeds p hp (.inl ⟨x, hx, ?_⟩), hpc⟩
      rw [get?_ownCapabilities, hpc]
      rfl
    · obtain ⟨p, hp, hps⟩ := (h.skill x s).1 hs
      refine (h₁.skill x s).2 ⟨p, hneeds p hp (.inr ⟨x, hx, ?_⟩), hps⟩
      rw [get?_ownSkills, hps]
      rfl
  rw [Registries.check, conflicts_of_bundles h h₁ hsub (conflicts_of_mem h hb), nil_append]
  exact validateDependencies_eq_nil.2
    ⟨hu2os, hsupplied.1, hsupplied.2, hwork, permissionErrors_of_sub hview hperm⟩

end Fewer

/-! ### The passes -/

/-- A package that implements a contract stands after the one that declares it. -/
abbrev DeclaredFirst (bundles : List Bundle) : Prop :=
  bundles.Pairwise fun a b => ∀ x ∈ a.foreign, get? b.ownCapabilities x = none

/-- Packages that a restart can load, in an order that leaves the first providers first: each is
valid, none needs itself through others, and contracts are declared before they are implemented. -/
structure Settled (bundles : List Bundle) (v : View) : Prop where
  valid : ∀ b ∈ bundles, b.validateDependencies v = []
  ordered : ∃ rank : String → ℕ, ∀ b ∈ bundles, ∀ p ∈ bundles, b.Needs p → rank p.id < rank b.id
  declared_first : DeclaredFirst bundles

/-- The package of a row, as its files have it. -/
def PackageRow.bundle? (files : String → String → Option Bundle) (row : PackageRow) :
    Option Bundle :=
  row.installPath.bind (files row.manifest.id)

/-- Some of the packages of `r` have been loaded into `r₁`, and the others are pending. -/
structure Loading (core : Core) (files : String → String → Option Bundle) (r r₁ : Registries)
    (pending : List PackageRow) : Prop where
  assembled : Assembled core r₁
  provided : Provided r₁
  sub : ∀ b ∈ r₁.bundles, b ∈ r.bundles
  declared_first : DeclaredFirst r₁.bundles
  selections : r₁.capabilities.selections = []
  nodup : (pending.map (·.manifest.id)).Nodup
  row : ∀ row ∈ pending, ∃ b ∈ r.bundles, row.bundle? files = some b ∧ b.id = row.manifest.id ∧
    b.builds = true ∧ b ∉ r₁.bundles
  all : ∀ b ∈ r.bundles, b ∈ r₁.bundles ∨ ∃ row ∈ pending, row.bundle? files = some b

section Passes

variable {core : Core} {files : String → String → Option Bundle} {r r₁ r₂ : Registries}
  {row : PackageRow} {pending rows others : List PackageRow} {b : Bundle}

theorem Loading.perm (h : Loading core files r r₁ pending) (hp : pending.Perm rows) :
    Loading core files r r₁ rows where
  assembled := h.assembled
  provided := h.provided
  sub := h.sub
  declared_first := h.declared_first
  selections := h.selections
  nodup := (hp.map _).nodup_iff.1 h.nodup
  row row hrow := h.row row (hp.mem_iff.2 hrow)
  all b hb := (h.all b hb).imp_right fun ⟨row, hrow, he⟩ => ⟨row, hp.mem_iff.1 hrow, he⟩

/-- The loading goes on with the package that was read and registered. -/
theorem Loading.register (hr : Assembled core r) (h : Loading core files r r₁ (row :: rows))
    (hb : row.bundle? files = some b) (hreg : r₁.registerBundle b = .ok r₂) :
    Loading core files r r₂ rows := by
  obtain ⟨h₂, hbundles, hsel⟩ := registerBundle_eq_ok h.assembled hreg
  obtain ⟨b', hb', he, hid, -, hnot⟩ := h.row row mem_cons_self
  rw [hb] at he
  cases he
  have hother : ∀ a ∈ r₁.bundles, a.id ≠ b.id := fun a ha hai =>
    hnot (eq_of_mem_bundles hr (h.sub a ha) hb' hai ▸ ha)
  have hbundles : r₂.bundles = r₁.bundles ++ [b] := by
    rw [hbundles, filter_eq_self.2 fun a ha => by simpa using hother a ha]
  have hmem : ∀ a, a ∈ r₂.bundles ↔ a ∈ r₁.bundles ∨ a = b := by simp [hbundles]
  obtain ⟨hrow, hnodup⟩ := nodup_cons.1 h.nodup
  refine ⟨h₂, ?_, ?_, ?_, ?_, hnodup, ?_, ?_⟩
  · exact provided_registerBundle h.assembled h.provided hreg fun o ho hoid =>
      absurd hoid (hother o ho)
  · rintro a ha
    rcases (hmem a).1 ha with ha | rfl
    · exact h.sub a ha
    · exact hb'
  · -- What an earlier package implements was there, so that this one cannot declare it.
    rw [hbundles]
    refine pairwise_append.2 ⟨h.declared_first, pairwise_singleton _ _, ?_⟩
    intro a ha b' hmem x hx
    cases mem_singleton.1 hmem
    obtain ⟨⟨c, hc, hi⟩, hown⟩ := mem_foreign.1 hx
    have hfound := (implementsErrors_eq_nil.1 (h.provided a ha).2 c hc x hi).1
    rw [hown] at hfound
    obtain ⟨found, hf⟩ := isSome_iff_exists.1 (hfound.resolve_left Bool.noConfusion)
    by_contra hdeclared
    obtain ⟨version, hv⟩ := ne_none_iff_exists'.1 hdeclared
    rw [get?_ownCapabilities] at hv
    obtain ⟨e, he, -⟩ := map_eq_some_iff.1 hv
    have hlive : r.view.contract x = some e := (hr.contract x e).2 (.inr ⟨b, hb', he⟩)
    have hsame := (sub_of_bundles hr h.assembled h.sub).contract x found hf
    rw [hlive] at hsame
    cases hsame
    rcases (h.assembled.contract x found).1 hf with hcore | ⟨p, hp, hpe⟩
    · have hs := core.source_eq x found hcore
      rw [(source_of_contract? he).1] at hs
      cases hs
    · have hs := (source_of_contract? he).1
      rw [(source_of_contract? hpe).1] at hs
      exact hother p hp (Source.package.inj hs)
  · rw [hsel, Registries.unregisterPackage, unregisterPackage, h.selections]
    rfl
  · intro row' hrow'
    obtain ⟨a, ha, he, haid, hbuilds, hnota⟩ := h.row row' (mem_cons_of_mem row hrow')
    refine ⟨a, ha, he, haid, hbuilds, fun hin => ?_⟩
    rcases (hmem a).1 hin with hin | rfl
    · exact hnota hin
    · exact hrow (List.mem_map.2 ⟨row', hrow', haid.symm.trans hid⟩)
  · intro a ha
    rcases h.all a ha with hin | ⟨row', hrow', he⟩
    · exact .inl ((hmem a).2 (.inl hin))
    · rcases mem_cons.1 hrow' with rfl | hrow'
      · rw [hb] at he
        cases he
        exact .inl ((hmem b).2 (.inr rfl))
      · exact .inr ⟨row', hrow', he⟩

theorem Loading.exists_ready (hr : Assembled core r) (hs : Settled r.bundles r.view)
    (h : Loading core files r r₁ pending) (hne : pending ≠ []) :
    ∃ row ∈ pending, ∃ b, row.bundle? files = some b ∧ ∃ r₂, r₁.registerBuilt b = .ok r₂ := by
  obtain ⟨rank, hrank⟩ := hs.ordered
  -- It is one of the lowest rank, whose needs have all been loaded.
  have hwf : WellFounded fun row row' : PackageRow =>
      rank row.manifest.id < rank row'.manifest.id := InvImage.wf _ Nat.lt_wfRel.wf
  obtain ⟨row, hrow, hmin⟩ := hwf.has_min {row | row ∈ pending}
    (exists_mem_of_ne_nil pending hne)
  obtain ⟨b, hb, he, hid, hbuilds, -⟩ := h.row row hrow
  refine ⟨row, hrow, b, he, ?_⟩
  have hcheck : r₁.check b = [] := by
    refine check_of_needed hr h.assembled h.sub hb (hs.valid b hb) fun p hp hneeds => ?_
    rcases h.all p hp with hin | ⟨row', hrow', he'⟩
    · exact hin
    · obtain ⟨p', -, hp', hid', -⟩ := h.row row' hrow'
      rw [he'] at hp'
      cases hp'
      have hlt := hrank b hb p hp hneeds
      rw [hid, hid'] at hlt
      exact absurd hlt (hmin row' hrow')
  obtain ⟨r₂, hr₂, -⟩ := registerBundle_of_check h.assembled hcheck
  exact ⟨r₂, by rw [Registries.registerBuilt, if_pos hbuilds, hr₂]⟩

theorem Loading.loadPass (hr : Assembled core r)
    (h : Loading core files r r₁ (rows ++ others)) :
    Loading core files r (loadPass files rows r₁).1 ((loadPass files rows r₁).2 ++ others) ∧
      (loadPass files rows r₁).2.length ≤ rows.length ∧
      ((loadPass files rows r₁).2.length = rows.length → ∀ row ∈ rows, ∀ b,
        row.bundle? files = some b → ∀ r₂, r₁.registerBuilt b ≠ .ok r₂) := by
  induction rows generalizing r₁ others with
  | nil => exact ⟨h, Nat.le_refl _, fun _ => nofun⟩
  | cons row rows ih =>
    rw [Packages.loadPass]
    split
    · next r' hreg =>
      obtain ⟨b, hb, hreg⟩ := map_eq_some_iff.1 hreg
      obtain ⟨hload, hle, -⟩ := ih (h.register hr hb (registerBuilt_eq_ok hreg).2)
      rw [length_cons]
      exact ⟨hload, by omega, fun heq => by omega⟩
    · next hnot =>
      have hmiddle : (row :: (rows ++ others)).Perm (rows ++ row :: others) :=
        perm_middle.symm
      obtain ⟨hload, hle, hfail⟩ := ih (h.perm hmiddle)
      rw [length_cons, length_cons]
      refine ⟨hload.perm perm_middle, by omega, fun heq => ?_⟩
      intro row' hrow' b hb r₂ hreg
      rcases mem_cons.1 hrow' with rfl | hrow'
      · exact hnot r₂ (map_eq_some_iff.2 ⟨b, hb, hreg⟩)
      · exact hfail (by omega) row' hrow' b hb r₂ hreg

theorem Loading.loadPasses (hr : Assembled core r) (hs : Settled r.bundles r.view) {n : ℕ}
    (h : Loading core files r r₁ pending) (hn : pending.length ≤ n) :
    Loading core files r (loadPasses files n pending r₁).1 [] := by
  induction n generalizing r₁ pending with
  | zero =>
    rw [length_eq_zero_iff.1 (Nat.le_zero.1 hn)] at h ⊢
    exact h
  | succ n ih =>
    have hnil : Loading core files r r₁ (pending ++ []) := by rwa [append_nil]
    obtain ⟨hload, hle, hfail⟩ := hnil.loadPass hr
    rw [append_nil] at hload
    rw [Packages.loadPasses]
    dsimp only
    split_ifs with hlt
    · exact ih hload (by omega)
    · -- No progress: nothing was pending.
      by_cases hne : pending = []
      · subst hne
        exact h
      · obtain ⟨row, hrow, b, hb, r₂, hreg⟩ := h.exists_ready hr hs hne
        exact absurd hreg (hfail (by omega) row hrow b hb r₂)

end Passes

/-! ### Which provider runs -/

section Resolving

variable {core : Core} {r r₁ : Registries} {b d : Bundle} {id : String}

theorem eq_of_ownCapabilities (h : Assembled core r) (hb : b ∈ r.bundles) (hd : d ∈ r.bundles)
    (hbx : (get? b.ownCapabilities id).isSome)
    (hdx : (get? d.ownCapabilities id).isSome) : b = d := by
  rw [get?_ownCapabilities, isSome_map] at hbx hdx
  obtain ⟨c, hc⟩ := isSome_iff_exists.1 hbx
  obtain ⟨e, he⟩ := isSome_iff_exists.1 hdx
  have hview := (h.contract id c).2 (.inr ⟨b, hb, hc⟩)
  rw [(h.contract id e).2 (.inr ⟨d, hd, he⟩)] at hview
  cases hview
  have hsource := (source_of_contract? hc).1
  rw [(source_of_contract? he).1] at hsource
  exact eq_of_mem_bundles h hb hd (Source.package.inj hsource).symm

theorem declares_or_implements (h : b.offers id ≠ []) :
    (get? b.ownCapabilities id).isSome ∨ id ∈ b.foreign := by
  obtain ⟨p, hp⟩ := exists_mem_of_ne_nil _ h
  obtain ⟨c, hc, -⟩ := List.mem_map.1 hp
  obtain ⟨hc, hid⟩ := mem_filter.1 hc
  have hid : c.implements.getD c.id = id := of_decide_eq_true hid
  cases hown : get? b.ownCapabilities id with
  | some version => exact .inl rfl
  | none =>
    right
    rw [mem_foreign]
    cases hi : c.implements with
    | some x =>
      rw [hi] at hid
      exact ⟨⟨c, hc, hi.trans (congrArg some hid)⟩, hown⟩
    | none =>
      rw [hi] at hid
      refine absurd hown ?_
      rw [get?_eq_none_iff, not_not, Bundle.ownCapabilities, List.map_map]
      exact List.mem_map.2 ⟨c, mem_filter.2 ⟨hc, by simpa using hi⟩, hid⟩

theorem offers_ne_nil (h : (get? d.ownCapabilities id).isSome) : d.offers id ≠ [] := by
  obtain ⟨version, hv⟩ := isSome_iff_exists.1 h
  obtain ⟨c, hc, he⟩ := List.mem_map.1 (mem_of_get? hv)
  obtain ⟨hc, hi⟩ := mem_filter.1 hc
  have hi : c.implements = none := by simpa using hi
  have hid : c.contractId = id := by
    rw [CapabilityDefinition.contractId, hi]
    exact (Prod.mk.inj he).1
  exact ne_nil_of_mem
    (List.mem_map.2 ⟨c, mem_filter.2 ⟨hc, by simpa using hid⟩, rfl⟩)

theorem head?_flatMap_offers (h : Assembled core r) (hfirst : DeclaredFirst r.bundles)
    (hd : d ∈ r.bundles) (hdx : (get? d.ownCapabilities id).isSome) :
    (r.bundles.flatMap fun b => b.offers id).head? = (d.offers id).head? := by
  obtain ⟨before, after, hsplit⟩ := append_of_mem hd
  have hnodup := h.ids_nodup
  rw [hsplit] at hfirst hnodup
  have hnil : before.flatMap (fun b => b.offers id) = [] := by
    refine flatMap_eq_nil_iff.2 fun a ha => ?_
    by_contra hne
    rcases declares_or_implements hne with hax | hax
    · have hain : a ∈ r.bundles := hsplit ▸ mem_append_left _ ha
      have heq := eq_of_ownCapabilities h hain hd hax hdx
      rw [map_append, map_cons] at hnodup
      exact disjoint_of_nodup_append hnodup (List.mem_map.2 ⟨a, ha, rfl⟩)
        (heq ▸ mem_cons_self)
    · have hnone := (pairwise_append.1 hfirst).2.2 a ha d mem_cons_self id hax
      rw [hnone] at hdx
      cases hdx
  rw [hsplit, flatMap_append, hnil, nil_append, flatMap_cons,
    head?_append_of_ne_nil _ (offers_ne_nil hdx)]

theorem head?_providersOf (h : Assembled core r) (h₁ : Assembled core r₁)
    (hmem : ∀ b, b ∈ r₁.bundles ↔ b ∈ r.bundles) (hclosed : Provided r)
    (hfirst : DeclaredFirst r.bundles) (hfirst₁ : DeclaredFirst r₁.bundles) (id : String) :
    (r.capabilities.providersOf id).head? = (r₁.capabilities.providersOf id).head? := by
  rw [h.providers, h₁.providers, head?_append, head?_append]
  congr 1
  by_cases hoffer : ∃ b ∈ r.bundles, b.offers id ≠ []
  · obtain ⟨b, hb, hne⟩ := hoffer
    -- The contract is declared by a package: those of the core are not implemented.
    have hdeclared : ∃ d ∈ r.bundles, (get? d.ownCapabilities id).isSome := by
      rcases declares_or_implements hne with hown | hfor
      · exact ⟨b, hb, hown⟩
      · obtain ⟨⟨c, hc, hi⟩, hown⟩ := mem_foreign.1 hfor
        obtain ⟨hsome, hsource⟩ := implementsErrors_eq_nil.1 (hclosed b hb).2 c hc id hi
        rw [hown] at hsome
        obtain ⟨found, hf⟩ := isSome_iff_exists.1 (hsome.resolve_left Bool.noConfusion)
        rcases (h.contract id found).1 hf with hcore | ⟨d, hd, hdf⟩
        · exact absurd (core.source_eq id found hcore) (hsource found hf)
        · refine ⟨d, hd, ?_⟩
          rw [get?_ownCapabilities, hdf]
          rfl
    obtain ⟨d, hd, hdx⟩ := hdeclared
    rw [head?_flatMap_offers h hfirst hd hdx, head?_flatMap_offers h₁ hfirst₁ ((hmem d).2 hd) hdx]
  · have hnone : ∀ b ∈ r.bundles, b.offers id = [] := fun b hb =>
      by_contra fun hne => hoffer ⟨b, hb, hne⟩
    rw [flatMap_eq_nil_iff.2 hnone,
      flatMap_eq_nil_iff.2 fun b hb => hnone b ((hmem b).1 hb)]

theorem mem_providersOf (h : Assembled core r) (h₁ : Assembled core r₁)
    (hmem : ∀ b, b ∈ r₁.bundles ↔ b ∈ r.bundles) {p : Provider} :
    p ∈ r₁.capabilities.providersOf id ↔ p ∈ r.capabilities.providersOf id := by
  rw [h.providers, h₁.providers, mem_append, mem_append, mem_flatMap,
    mem_flatMap]
  simp only [hmem]

theorem any_congr_mem {l l' : List Provider} (h : ∀ p, p ∈ l' ↔ p ∈ l) (q : Provider → Bool) :
    l'.any q = l.any q := by
  rw [Bool.eq_iff_iff, List.any_eq_true, List.any_eq_true]
  simp only [h]

theorem map_find?_id (l : List Provider) (sel : Option String) :
    (l.find? fun p => some p.id = sel).map (·.id) =
      sel.filter fun s => l.any fun p => p.id = s := by
  cases sel with
  | none => simp
  | some s =>
    rw [filter_some]
    induction l with
    | nil => rfl
    | cons p l ih =>
      by_cases hp : p.id = s
      · simp [hp]
      · rw [find?_cons_of_neg (by simpa using hp), ih, any_cons]
        simp [hp]

theorem map_resolveProvider (c : CapabilityRegistry) (id : String) :
    (c.resolveProvider id).map (·.id) =
      ((c.selected id).filter fun s => (c.providersOf id).any fun p => p.id = s).or
        (((some "core").filter fun s => (c.providersOf id).any fun p => p.id = s).or
          ((c.providersOf id).head?.map (·.id))) := by
  rw [resolveProvider, map_or, map_or, map_find?_id]
  have hcore := map_find?_id (c.providersOf id) (some "core")
  simp only [some.injEq] at hcore
  rw [hcore]

theorem resolveProvider_eq (h : Assembled core r) (h₁ : Assembled core r₁)
    (hmem : ∀ b, b ∈ r₁.bundles ↔ b ∈ r.bundles) (hclosed : Provided r)
    (hfirst : DeclaredFirst r.bundles) (hfirst₁ : DeclaredFirst r₁.bundles)
    (hsel : r.capabilities.selected id = r₁.capabilities.selected id) :
    (r.capabilities.resolveProvider id).map (·.id) =
      (r₁.capabilities.resolveProvider id).map (·.id) := by
  have hany : ∀ q, (r₁.capabilities.providersOf id).any q =
      (r.capabilities.providersOf id).any q := fun q =>
    any_congr_mem (fun _ => mem_providersOf h h₁ hmem) q
  rw [map_resolveProvider, map_resolveProvider, hsel,
    head?_providersOf h h₁ hmem hclosed hfirst hfirst₁]
  simp only [hany]

/-- Selections change the providers of their contracts only. -/
theorem applySelections_spec (selections : List (String × String))
    (hnodup : (selections.map Prod.fst).Nodup) (c : CapabilityRegistry) :
    (applySelections c selections).contracts = c.contracts ∧
      (applySelections c selections).providers = c.providers ∧
      ∀ id, (applySelections c selections).selected id =
        ((get? selections id).filter fun s =>
          (c.providersOf id).any fun p => p.id = s).or (c.selected id) := by
  induction selections generalizing c with
  | nil => exact ⟨rfl, rfl, fun id => rfl⟩
  | cons e selections ih =>
    obtain ⟨he, hnodup⟩ := nodup_cons.1 hnodup
    have hnone : get? selections e.1 = none := get?_eq_none_iff.2 he
    by_cases hany : ((c.providersOf e.1).any fun p => p.id = e.2) = true
    · have happly : applySelections c (e :: selections) =
          applySelections { c with selections := assign e.1 e.2 c.selections } selections := by
        rw [applySelections, foldl_cons, select, if_pos hany]
        rfl
      obtain ⟨hcontracts, hproviders, hselected⟩ :=
        ih hnodup { c with selections := assign e.1 e.2 c.selections }
      rw [happly]
      refine ⟨hcontracts, hproviders, fun id => ?_⟩
      rw [hselected, selected, get?_assign, get?_cons]
      by_cases hid : e.1 = id
      · subst hid
        rw [if_pos rfl, if_pos rfl, hnone, filter_some, if_pos hany]
        rfl
      · rw [if_neg hid, if_neg hid]
        rfl
    · have happly : applySelections c (e :: selections) = applySelections c selections := by
        rw [applySelections, foldl_cons, select, if_neg hany]
        rfl
      obtain ⟨hcontracts, hproviders, hselected⟩ := ih hnodup c
      rw [happly]
      refine ⟨hcontracts, hproviders, fun id => ?_⟩
      rw [hselected, get?_cons]
      by_cases hid : e.1 = id
      · subst hid
        rw [if_pos rfl, hnone, filter_some, if_neg hany]
        rfl
      · rw [if_neg hid]

end Resolving

end U2os.Server.Packages
