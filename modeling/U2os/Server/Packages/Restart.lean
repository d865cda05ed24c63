import U2os.Server.Packages.Loading

/-!
# Providers after a restart

The registries that run and those a restart builds from the database resolve every capability to the
same provider, as long as no operation leaves what a restart does not find: an upgrade drops the
selection of a provider from memory but not from the database, and puts the package last.
-/

namespace U2os.Server.Packages

open List Assoc

/-- What is registered without a package. -/
def View.without (v : View) (id : String) : View where
  contract x := (v.contract x).filter fun c => c.source ≠ .package id
  skill x := (v.skill x).filter fun s => s.packageId ≠ id
  automation x := (v.automation x).filter fun a => a.packageId ≠ id
  skillIds := v.skillIds
  mem_skillIds x s h := v.mem_skillIds x s (filter_eq_some_iff.1 h).1

/-- What is registered with the definitions of a package. -/
def View.including (v : View) (b : Bundle) : View where
  contract x := (b.contract? x).or (v.contract x)
  skill x := (b.skill? x).or (v.skill x)
  automation x := (b.automation? x).or (v.automation x)
  skillIds := b.skills.map (·.id) ++ v.skillIds
  mem_skillIds x s h := by
    rcases Option.or_eq_some_iff.1 h with hb | ⟨-, hv⟩
    · obtain ⟨d, hd, -⟩ := Option.map_eq_some_iff.1 hb
      have hid : d.id = x := by simpa using find?_some hd
      exact mem_append_left _ (mem_map.2 ⟨d, mem_of_find?_eq_some hd, hid⟩)
    · exact mem_append_right _ (v.mem_skillIds x s hv)

/-- The packages with a version last, in place of what was registered under its id. -/
def Registries.replacing (r : Registries) (b : Bundle) : List Bundle :=
  (r.bundles.filter fun b' => b'.id ≠ b.id) ++ [b]

/-- A restart can load the packages with a version in place of the old one, in an order that leaves
the first providers first; and no stored selection names a provider of the version. -/
structure Store.Takes (s : Store) (b : Bundle) : Prop where
  settled : Settled (s.registries.replacing b) ((s.registries.view.without b.id).including b)
  unselected : ∀ c ∈ b.capabilities, get? s.selections c.contractId ≠ some (b.providerId c)

/-- Where an operation goes through, what it leaves a restart finds: an installation, or the return
to the version before, registers a version that the store takes, and an uninstallation leaves the
other packages valid. -/
def Operation.Harmless (s : Store) : Operation → Prop
  | .install b => s.registries.check b = [] →
    (b.builds = true → s.Takes b) ∧
    (b.builds = false → ∀ row, s.installedRow b.id = some row →
      row.installPath ≠ some b.manifest.version ∧
      ∀ o ∈ s.registries.bundles, o.id = b.id → s.registries.check o = [] → s.Takes o)
  | .uninstall id force => force = true ∨ s.registries.dependentsOf id = [] →
    ∀ b ∈ s.registries.bundles, b.id ≠ id →
      b.validateDependencies (s.registries.view.without id) = []
  | .select _ _ => True

/-! ### What a restart finds -/

/-- The registered packages are those of the rows and the files, a restart can load them, and what
is selected is what is stored and offered. -/
structure Restorable (core : Core) (s : Store) : Prop where
  assembled : Assembled core s.registries
  settled : Settled s.registries.bundles s.registries.view
  rows_nodup : (s.rows.map Prod.fst).Nodup
  row_id : ∀ id row, get? s.rows id = some row → row.manifest.id = id
  stored : ∀ id row, s.installedRow id = some row → ∃ b ∈ s.registries.bundles,
    row.bundle? s.files = some b ∧ b.id = id ∧ b.builds = true
  installed : ∀ b ∈ s.registries.bundles, ∃ row, s.installedRow b.id = some row
  selections_nodup : (s.selections.map Prod.fst).Nodup
  live_nodup : (s.registries.capabilities.selections.map Prod.fst).Nodup
  selected : ∀ id, s.registries.capabilities.selected id =
    (get? s.selections id).filter fun x =>
      (s.registries.capabilities.providersOf id).any fun p => p.id = x

variable {row : PackageRow}

section Restarts

variable {core : Core} {s t : Store}

theorem Settled.provided {r : Registries} (h : Settled r.bundles r.view) : Provided r :=
  Closed.provided h.valid

theorem mem_listPackageRows (hnodup : (s.rows.map Prod.fst).Nodup) :
    row ∈ s.listPackageRows ↔ ∃ id, s.installedRow id = some row := by
  rw [Store.listPackageRows, mem_map]
  constructor
  · rintro ⟨e, he, rfl⟩
    obtain ⟨he, hinst⟩ := mem_filter.1 (mem_mergeSort.1 he)
    refine ⟨e.1, ?_⟩
    rw [Store.installedRow, get?_eq_some_of_mem hnodup he, Option.filter_some, if_pos hinst]
  · rintro ⟨id, hrow⟩
    obtain ⟨hget, hinst⟩ := filter_eq_some_iff.1 hrow
    exact ⟨(id, row), mem_mergeSort.2
      (mem_filter.2 ⟨mem_of_get? hget, hinst⟩), rfl⟩

theorem Restorable.loading (h : Restorable core s) :
    Loading core s.files s.registries core.registries s.listPackageRows where
  assembled := core.assembled
  provided := nofun
  sub := nofun
  declared_first := List.Pairwise.nil
  selections := rfl
  nodup := by
    have hids : s.listPackageRows.map (·.manifest.id) =
        ((s.rows.filter fun e => e.2.installed).mergeSort fun e e' => e.1 ≤ e'.1).map Prod.fst := by
      rw [Store.listPackageRows, map_map]
      refine map_congr_left fun e he => ?_
      have he := mem_of_mem_filter (mem_mergeSort.1 he)
      exact h.row_id e.1 e.2 (get?_eq_some_of_mem h.rows_nodup he)
    rw [hids, ((mergeSort_perm _ _).map Prod.fst).nodup_iff]
    exact nodup_filter h.rows_nodup
  row row hrow := by
    obtain ⟨id, hid⟩ := (mem_listPackageRows h.rows_nodup).1 hrow
    obtain ⟨b, hb, he, hbid, hbuilds⟩ := h.stored id row hid
    have hrowid := h.row_id id row (filter_eq_some_iff.1 hid).1
    exact ⟨b, hb, he, hbid.trans hrowid.symm, hbuilds, nofun⟩
  all b hb := by
    obtain ⟨row, hrow⟩ := h.installed b hb
    obtain ⟨b', hb', he, hid, -⟩ := h.stored b.id row hrow
    cases eq_of_mem_bundles h.assembled hb' hb hid
    exact .inr ⟨row, (mem_listPackageRows h.rows_nodup).2 ⟨b.id, hrow⟩, he⟩

theorem Restorable.resolves (h : Restorable core s) (id : String) :
    (s.registries.capabilities.resolveProvider id).map (·.id) =
      ((loadInstalled core s).capabilities.resolveProvider id).map (·.id) := by
  have hload := h.loading.loadPasses h.assembled h.settled (Nat.le_refl _)
  rw [loadInstalled]
  dsimp only
  generalize (loadPasses s.files s.listPackageRows.length s.listPackageRows core.registries).1 = r₁
    at hload
  obtain ⟨hcontracts, hproviders, hselected⟩ :=
    applySelections_spec s.selections h.selections_nodup r₁.capabilities
  have hmem : ∀ b, b ∈ r₁.bundles ↔ b ∈ s.registries.bundles := fun b =>
    ⟨hload.sub b, fun hb => (hload.all b hb).resolve_right (by simp)⟩
  have happly : applySelections r₁.capabilities s.selections =
      ⟨r₁.capabilities.contracts, r₁.capabilities.providers,
        (applySelections r₁.capabilities s.selections).selections⟩ := by
    rw [← hcontracts, ← hproviders]
  have hassembled : Assembled core
      { r₁ with capabilities := applySelections r₁.capabilities s.selections } :=
    happly ▸ hload.assembled.withSelections _
  refine resolveProvider_eq h.assembled hassembled hmem h.settled.provided h.settled.declared_first
    hload.declared_first ?_
  have hnone : r₁.capabilities.selected id = none := by
    rw [CapabilityRegistry.selected, hload.selections]
    rfl
  rw [h.selected, hselected, hnone, Option.or_none]
  refine congrArg (fun q => Option.filter q _) (funext fun x => ?_)
  exact (any_congr_mem (fun p => mem_providersOf h.assembled hload.assembled hmem) _).symm

end Restarts

/-! ### What an operation leaves -/

section Steps

variable {core : Core} {s t : Store} {r' : Registries} {b : Bundle} {p id : String}

theorem validateDependencies_congr {v v' : View} (hcap : ∀ x, v'.contract x = v.contract x)
    (hskill : ∀ x, v'.skill x = v.skill x) (h : b.validateDependencies v = []) :
    b.validateDependencies v' = [] := by
  obtain ⟨hu2os, hreq, himpl, hwork, hperm⟩ := validateDependencies_eq_nil.1 h
  have hsub : v'.Sub v :=
    ⟨fun x c hc => (hcap x).symm.trans hc, fun x s hs => (hskill x).symm.trans hs⟩
  have hsupplied : b.Supplied v' := Bundle.Supplied.of_needed ⟨hreq, himpl⟩ hsub
    (fun x _ c hc => (hcap x).trans hc) fun x _ s hs => (hskill x).trans hs
  exact validateDependencies_eq_nil.2
    ⟨hu2os, hsupplied.1, hsupplied.2, hwork, permissionErrors_of_sub hsub hperm⟩

theorem contract_unregisterPackage (h : Assembled core s.registries) (x : String) :
    (s.registries.unregisterPackage p).view.contract x =
      (s.registries.view.without p).contract x :=
  get?_filter h.contracts_nodup

theorem skill_unregisterPackage (h : Assembled core s.registries) (x : String) :
    (s.registries.unregisterPackage p).view.skill x = (s.registries.view.without p).skill x :=
  get?_filter h.skills_nodup

theorem or_eq_of_iff {α : Type} {new old all : Option α}
    (h : ∀ x, all = some x ↔ old = some x ∨ new = some x) : all = new.or old := by
  cases hnew : new with
  | some x => exact (h x).2 (.inr hnew)
  | none =>
    refine Option.ext fun x => ?_
    rw [h x, hnew, Option.none_or]
    simp

theorem view_registered (h : Assembled core s.registries) (h' : Assembled core r')
    (hbundles : r'.bundles = s.registries.replacing b) :
    (∀ x, r'.view.contract x = ((s.registries.view.without b.id).including b).contract x) ∧
      ∀ x, r'.view.skill x = ((s.registries.view.without b.id).including b).skill x := by
  have hu := h.unregisterPackage b.id
  have hmem : ∀ q : Bundle → Prop, (∃ b' ∈ r'.bundles, q b') ↔
      (∃ b' ∈ (s.registries.unregisterPackage b.id).bundles, q b') ∨ q b := by
    intro q
    rw [hbundles, bundles_unregisterPackage h, Registries.replacing]
    simp [or_and_right, exists_or]
  constructor
  · intro x
    refine or_eq_of_iff fun c => ?_
    rw [← contract_unregisterPackage h, h'.contract, hu.contract, hmem, or_assoc]
  · intro x
    refine or_eq_of_iff fun c => ?_
    rw [← skill_unregisterPackage h, h'.skill, hu.skill, hmem]

theorem Restorable.selected_unregisterPackage (h : Restorable core s) :
    (s.registries.unregisterPackage p).capabilities.selected id =
      (get? s.selections id).filter fun x =>
        (CapabilityRegistry.kept p (s.registries.capabilities.providersOf id)).any
          fun q => q.id = x := by
  have hsel := h.selected id
  rw [CapabilityRegistry.selected] at hsel ⊢
  rw [Registries.unregisterPackage, CapabilityRegistry.unregisterPackage,
    get?_filter h.live_nodup, hsel, Option.filter_filter]
  refine congrArg (fun q => Option.filter q _) (funext fun x => ?_)
  rw [CapabilityRegistry.providersOf]
  cases get? s.registries.capabilities.providers id with
  | none => rfl
  | some list =>
    -- What is kept was offered.
    dsimp only [Option.getD_some]
    rw [Bool.and_eq_right_iff_imp]
    intro hkept
    obtain ⟨q, hq, hid⟩ := any_eq_true.1 hkept
    exact any_eq_true.2 ⟨q, mem_of_mem_filter hq, hid⟩

/-- A package is written, in its row and its files; nothing else is. -/
structure SameBut (id : String) (s t : Store) : Prop where
  rows : ∀ id', id' ≠ id → t.installedRow id' = s.installedRow id'
  files : ∀ id', id' ≠ id → t.files id' = s.files id'
  selections : t.selections = s.selections
  rows_nodup : (s.rows.map Prod.fst).Nodup → (t.rows.map Prod.fst).Nodup
  row_id : (∀ id row, get? s.rows id = some row → row.manifest.id = id) →
    ∀ id row, get? t.rows id = some row → row.manifest.id = id

theorem SameBut.bundle? (h : SameBut id s t) (hrow : row.manifest.id ≠ id) :
    row.bundle? t.files = row.bundle? s.files := by
  rw [PackageRow.bundle?, PackageRow.bundle?, h.files _ hrow]

theorem sameBut_upsertPackage {m : Manifest} {version : String} {enabled : Bool}
    {files : String → String → Option Bundle} {registries : Registries} (hid : m.id = id)
    (hfiles : ∀ id', id' ≠ id → files id' = s.files id') :
    SameBut id s { s.upsertPackage m version enabled with registries, files } where
  rows id' hne := by
    change (s.upsertPackage m version enabled).installedRow id' = _
    rw [installedRow_upsertPackage, if_neg fun he => hne (he.symm.trans hid)]
  files := hfiles
  selections := rfl
  rows_nodup h := nodup_assign h
  row_id h id' row hrow := by
    change get? (assign m.id _ s.rows) id' = some row at hrow
    rw [get?_assign] at hrow
    split_ifs at hrow with he
    · cases hrow
      exact he
    · exact h id' row hrow

theorem SameBut.trans {u : Store} (h : SameBut id s t) (h' : SameBut id t u) : SameBut id s u where
  rows id' hne := (h'.rows id' hne).trans (h.rows id' hne)
  files id' hne := (h'.files id' hne).trans (h.files id' hne)
  selections := h'.selections.trans h.selections
  rows_nodup hn := h'.rows_nodup (h.rows_nodup hn)
  row_id hr := h'.row_id (h.row_id hr)

theorem sameBut_markUninstalled : SameBut id s (s.markUninstalled id) where
  rows id' hne := by rw [installedRow_markUninstalled, if_neg hne]
  files _ _ := rfl
  selections := rfl
  rows_nodup h := by
    have hkeys : (s.markUninstalled id).rows.map Prod.fst = s.rows.map Prod.fst := by
      rw [Store.markUninstalled, map_map]
      refine map_congr_left fun e _ => ?_
      dsimp only [Function.comp_apply]
      split_ifs <;> rfl
    rwa [hkeys]
  row_id h id' row hrow := by
    rw [get?_markUninstalled] at hrow
    obtain ⟨row', hrow', rfl⟩ := Option.map_eq_some_iff.1 hrow
    split_ifs <;> exact h id' row' hrow'

theorem Restorable.stored_of_sameBut (h : Restorable core s) (hbut : SameBut id s t)
    {id' : String} {row : PackageRow} (hne : id' ≠ id) (hrow : t.installedRow id' = some row) :
    ∃ b ∈ s.registries.bundles, row.bundle? t.files = some b ∧ b.id = id' ∧ b.builds = true := by
  rw [hbut.rows id' hne] at hrow
  obtain ⟨b, hb, he, hid, hbuilds⟩ := h.stored id' row hrow
  have hrowid : row.manifest.id = id' := h.row_id id' row (filter_eq_some_iff.1 hrow).1
  exact ⟨b, hb, (hbut.bundle? (hrowid ▸ hne)).trans he, hid, hbuilds⟩

/-- A registered package can be restored from its row. -/
theorem Restorable.registered (h : Restorable core s) (htakes : s.Takes b)
    (hbuilds : b.builds = true) (hr : s.registries.registerBundle b = .ok t.registries)
    (hbut : SameBut b.id s t) (row : PackageRow) (hrow : t.installedRow b.id = some row)
    (hfiles : row.bundle? t.files = some b) : Restorable core t := by
  obtain ⟨h', hbundles, hsel⟩ := registerBundle_eq_ok h.assembled hr
  obtain ⟨hcontract, hskill⟩ := view_registered h.assembled h' hbundles
  have hmem : ∀ o, o ∈ t.registries.bundles ↔ (o ∈ s.registries.bundles ∧ o.id ≠ b.id) ∨ o = b := by
    simp [hbundles]
  refine ⟨h', ⟨?_, ?_, ?_⟩, hbut.rows_nodup h.rows_nodup, hbut.row_id h.row_id, ?_, ?_,
    hbut.selections ▸ h.selections_nodup, ?_, ?_⟩
  · intro o ho
    rw [hbundles] at ho
    exact validateDependencies_congr hcontract hskill (htakes.settled.valid o ho)
  · rw [hbundles]
    exact htakes.settled.ordered
  · rw [hbundles]
    exact htakes.settled.declared_first
  · intro id row' hrow'
    by_cases hid : id = b.id
    · subst hid
      rw [hrow] at hrow'
      cases hrow'
      exact ⟨b, (hmem b).2 (.inr rfl), hfiles, rfl, hbuilds⟩
    · obtain ⟨o, ho, he, hoid, hob⟩ := h.stored_of_sameBut hbut hid hrow'
      exact ⟨o, (hmem o).2 (.inl ⟨ho, hoid ▸ hid⟩), he, hoid, hob⟩
  · intro o ho
    rcases (hmem o).1 ho with ⟨ho, hne⟩ | rfl
    · rw [hbut.rows o.id hne]
      exact h.installed o ho
    · exact ⟨row, hrow⟩
  · rw [hsel]
    exact nodup_filter h.live_nodup
  · intro id
    have hproviders : t.registries.capabilities.providersOf id =
        CapabilityRegistry.kept b.id (s.registries.capabilities.providersOf id) ++ b.offers id := by
      rw [h'.providers, hbundles, h.assembled.providers, CapabilityRegistry.kept,
        filter_append, flatMap_append, flatMap_singleton, ← append_assoc]
      change _ = CapabilityRegistry.kept b.id _ ++ CapabilityRegistry.kept b.id _ ++ _
      rw [kept_core, kept_flatMap_offers]
    rw [CapabilityRegistry.selected, hsel, hbut.selections]
    refine (h.selected_unregisterPackage (p := b.id)).trans ?_
    cases hstored : get? s.selections id with
    | none => rfl
    | some x =>
      -- The stored provider is none of those that have come back.
      have hnone : (b.offers id).any (fun q => q.id = x) = false := by
        rw [any_eq_false]
        intro q hq
        obtain ⟨c, hc, rfl⟩ := mem_map.1 hq
        obtain ⟨hc, hid⟩ := mem_filter.1 hc
        have hid : c.contractId = id := of_decide_eq_true hid
        intro hx
        exact htakes.unselected c hc (hid ▸ hstored.trans (congrArg some (of_decide_eq_true hx).symm))
      rw [Option.filter_some, Option.filter_some, hproviders, any_append, hnone,
        Bool.or_false]

theorem Restorable.kept (h : Restorable core s) (hbut : SameBut id s t)
    (hregistries : t.registries = s.registries)
    (hrow : ∀ row, t.installedRow id = some row → ∃ b ∈ s.registries.bundles,
      row.bundle? t.files = some b ∧ b.id = id ∧ b.builds = true)
    (hinstalled : ∀ b ∈ s.registries.bundles, b.id = id → ∃ row, t.installedRow id = some row) :
    Restorable core t where
  assembled := hregistries ▸ h.assembled
  settled := hregistries ▸ h.settled
  rows_nodup := hbut.rows_nodup h.rows_nodup
  row_id := hbut.row_id h.row_id
  stored id' row hrow' := by
    rw [hregistries]
    by_cases hid : id' = id
    · subst hid
      exact hrow row hrow'
    · exact h.stored_of_sameBut hbut hid hrow'
  installed b hb := by
    rw [hregistries] at hb
    by_cases hid : b.id = id
    · rw [hid]
      exact hinstalled b hb hid
    · rw [hbut.rows b.id hid]
      exact h.installed b hb
  selections_nodup := hbut.selections ▸ h.selections_nodup
  live_nodup := hregistries ▸ h.live_nodup
  selected := by
    rw [hregistries, hbut.selections]
    exact h.selected

theorem filter_installed {rows : List (String × PackageRow)}
    (h : (get? rows id).filter (·.installed) = some row) : get? rows id = some row :=
  (filter_eq_some_iff.1 h).1

/-- The row that is put back is one that its package can be restored from. -/
theorem Restorable.restorePrevious (h : Restorable core s) (hbut : SameBut b.id s t)
    (hregistries : t.registries = s.registries)
    (hprev : ∀ row, s.installedRow b.id = some row → row.bundle? t.files = row.bundle? s.files ∧
      ∀ o ∈ s.registries.bundles, o.id = b.id → s.registries.check o = [] → s.Takes o) :
    Restorable core (t.restorePrevious b.id (s.installedRow b.id)) := by
  rw [Store.restorePrevious]
  cases hprevious : s.installedRow b.id with
  | none =>
    change Restorable core (t.markUninstalled b.id)
    refine h.kept (hbut.trans sameBut_markUninstalled) hregistries ?_ ?_
    · intro row hrow
      rw [installedRow_markUninstalled, if_pos rfl] at hrow
      cases hrow
    · intro o ho hoid
      obtain ⟨row, hrow⟩ := h.installed o ho
      rw [hoid, hprevious] at hrow
      cases hrow
  | some row =>
    obtain ⟨o, ho, he, hoid, hbuilds⟩ := h.stored b.id row hprevious
    have hrowid : row.manifest.id = b.id := h.row_id b.id row (filter_installed hprevious)
    obtain ⟨hsame, htakes⟩ := hprev row hprevious
    rw [PackageRow.bundle?, PackageRow.bundle?] at hsame
    rw [PackageRow.bundle?] at he
    obtain ⟨version, hversion, hfile⟩ := Option.bind_eq_some_iff.1 he
    rw [he, hversion, Option.bind_some, hrowid] at hsame
    rw [Option.bind_some, hversion, Option.bind_some, hsame, Option.map_some]
    dsimp only
    have hbut' : ∀ registries, SameBut b.id s
        { t.upsertPackage row.manifest version true with registries } := fun _ =>
      hbut.trans (sameBut_upsertPackage hrowid fun _ _ => rfl)
    have hrow' : (t.upsertPackage row.manifest version true).installedRow b.id =
        some ⟨row.manifest, some version, true, true⟩ := by
      rw [installedRow_upsertPackage, if_pos hrowid]
    have hbundle : (⟨row.manifest, some version, true, true⟩ : PackageRow).bundle? t.files =
        some o := by
      rw [PackageRow.bundle?, Option.bind_some, hrowid]
      exact hsame
    split
    · next registries hr =>
      have hr : s.registries.registerBundle o = .ok registries :=
        hregistries ▸ (registerBuilt_eq_ok hr).2
      have htake := htakes o ho hoid (check_of_registerBundle hr)
      refine h.registered htake hbuilds hr ?_ ⟨row.manifest, some version, true, true⟩ ?_ hbundle
      · rw [hoid]
        exact hbut' registries
      · rw [hoid]
        exact hrow'
    · refine h.kept (hbut' _) hregistries ?_ fun _ _ _ => ⟨_, hrow'⟩
      intro row' hrow
      cases hrow.symm.trans hrow'
      exact ⟨o, ho, hbundle, hoid, hbuilds⟩

theorem Restorable.install (h : Restorable core s)
    (hharmless : (Operation.install b).Harmless s) : Restorable core (s.install b) := by
  rw [Store.install]
  split_ifs with hcheck
  · exact h
  have hcheck : s.registries.check b = [] := not_not.1 hcheck
  obtain ⟨htakes, hfails⟩ := hharmless hcheck
  dsimp only
  set files := s.writeFiles b.id b.manifest.version (some b) with hfiles
  have hother : ∀ id, id ≠ b.id → files id = s.files id := fun id => writeFiles_of_ne
  have hwritten : files b.id b.manifest.version = some b := writeFiles_self
  split
  · next registries hr =>
    obtain ⟨hbuilds, hr⟩ := registerBuilt_eq_ok hr
    -- The row and the files are those of the version, whether older files go or not.
    have hend : ∀ files', (∀ id, id ≠ b.id → files' id = s.files id) →
        files' b.id b.manifest.version = some b → ∀ enabled, Restorable core
          { s.upsertPackage b.manifest b.manifest.version enabled with
            registries, files := files' } := by
      intro files' hother' hwritten' enabled
      refine h.registered (htakes hbuilds) hbuilds hr (sameBut_upsertPackage rfl hother')
        ⟨b.manifest, some b.manifest.version, true, enabled⟩ ?_ hwritten'
      exact installedRow_upsertPackage.trans (if_pos rfl)
    split
    · next version hv =>
      split_ifs with hne
      · refine hend _ (fun id hid => (writeFiles_of_ne hid).trans (hother id hid)) ?_ _
        exact (writeFiles_other (Ne.symm hne)).trans hwritten
      · exact hend files hother hwritten _
    · exact hend files hother hwritten _
  · next e hr =>
    -- The check has passed, so that it is a fixture that cannot be read.
    have hbuilds : b.builds = false := by
      by_contra hb
      obtain ⟨r', hr', -⟩ := registerBundle_of_check h.assembled hcheck
      rw [Store.upsertPackage, Registries.registerBuilt, if_pos (by simpa using hb)] at hr
      rw [hr'] at hr
      cases hr
    refine h.restorePrevious (sameBut_upsertPackage rfl hother) rfl fun row hrow => ?_
    obtain ⟨hpath, htakes⟩ := hfails hbuilds row hrow
    refine ⟨?_, htakes⟩
    have hrowid : row.manifest.id = b.id := h.row_id b.id row (filter_installed hrow)
    rw [PackageRow.bundle?, PackageRow.bundle?]
    cases hversion : row.installPath with
    | none => rfl
    | some version =>
      rw [Option.bind_some, Option.bind_some, hrowid]
      exact writeFiles_other fun he => hpath (hversion.trans (congrArg some he))

/-- A harmless removal leaves packages that can be restored. -/
theorem Restorable.uninstall {force : Bool} (h : Restorable core s)
    (hharmless : (Operation.uninstall id force).Harmless s) :
    Restorable core (s.uninstall id force) := by
  rw [Store.uninstall]
  split
  · exact h
  split_ifs with hdep
  · exact h
  have hvalid := hharmless (passes_uninstall hdep)
  have h' := h.assembled.unregisterPackage id
  have hbundles : (s.registries.unregisterPackage id).bundles =
      s.registries.bundles.filter fun b => b.id ≠ id := bundles_unregisterPackage h.assembled
  have hmem : ∀ b, b ∈ (s.registries.unregisterPackage id).bundles ↔
      b ∈ s.registries.bundles ∧ b.id ≠ id := by simp [hbundles]
  have hbut : SameBut id s (s.markUninstalled id) := sameBut_markUninstalled
  obtain ⟨rank, hrank⟩ := h.settled.ordered
  refine ⟨h', ⟨?_, ⟨rank, ?_⟩, ?_⟩, hbut.rows_nodup h.rows_nodup, hbut.row_id h.row_id, ?_, ?_,
    h.selections_nodup, nodup_filter h.live_nodup, ?_⟩
  · intro b hb
    obtain ⟨hb, hid⟩ := (hmem b).1 hb
    exact validateDependencies_congr (contract_unregisterPackage h.assembled)
      (skill_unregisterPackage h.assembled) (hvalid b hb hid)
  · exact fun b hb q hq => hrank b ((hmem b).1 hb).1 q ((hmem q).1 hq).1
  · change DeclaredFirst (s.registries.unregisterPackage id).bundles
    rw [hbundles]
    exact h.settled.declared_first.sublist filter_sublist
  · intro id' row hrow
    change (s.markUninstalled id).installedRow id' = some row at hrow
    rw [installedRow_markUninstalled] at hrow
    split_ifs at hrow with hid
    obtain ⟨b, hb, he, hbid, hbuilds⟩ := h.stored id' row hrow
    have hrowid : row.manifest.id = id' := h.row_id id' row (filter_installed hrow)
    refine ⟨b, (hmem b).2 ⟨hb, hbid ▸ hid⟩, ?_, hbid, hbuilds⟩
    rw [PackageRow.bundle?] at he ⊢
    cases hversion : row.installPath with
    | none =>
      rw [hversion] at he
      cases he
    | some version =>
      rw [hversion] at he
      exact (if_neg (hrowid ▸ hid)).trans he
  · intro b hb
    obtain ⟨hb, hid⟩ := (hmem b).1 hb
    obtain ⟨row, hrow⟩ := h.installed b hb
    refine ⟨row, ?_⟩
    change (s.markUninstalled id).installedRow b.id = some row
    rw [installedRow_markUninstalled, if_neg hid]
    exact hrow
  · intro id'
    refine h.selected_unregisterPackage.trans ?_
    change _ = (get? s.selections id').filter fun x =>
      ((s.registries.capabilities.unregisterPackage id).providersOf id').any fun q => q.id = x
    rw [providersOf_unregisterPackage h.assembled.providers_nodup]

theorem Restorable.selectProvider {capability : String} {provider : Option String}
    (h : Restorable core s) : Restorable core (s.selectProvider capability provider) := by
  rw [Store.selectProvider]
  split
  · next capabilities hsel =>
    obtain ⟨hsame, hmade⟩ := select_eq_ok hsel
    rw [hsame]
    have h' := h.assembled.withSelections capabilities.selections
    cases provider with
    | none =>
      refine ⟨h', h.settled, h.rows_nodup, h.row_id, h.stored, h.installed,
        nodup_filter h.selections_nodup, ?_, fun id => ?_⟩
      · change (capabilities.selections.map Prod.fst).Nodup
        rw [hmade]
        exact nodup_filter h.live_nodup
      · change get? capabilities.selections id =
          (get? (s.selections.filter fun e => e.1 ≠ capability) id).filter fun y =>
            (s.registries.capabilities.providersOf id).any fun p => p.id = y
        have hold := h.selected id
        rw [CapabilityRegistry.selected] at hold
        rw [hmade, get?_filter h.live_nodup, get?_filter h.selections_nodup, hold,
          Option.filter_filter, Option.filter_filter]
        exact congrArg (fun q => Option.filter q _) (funext fun y => Bool.and_comm _ _)
    | some x =>
      obtain ⟨⟨q, hq, hid⟩, hmade⟩ := hmade
      refine ⟨h', h.settled, h.rows_nodup, h.row_id, h.stored, h.installed,
        nodup_assign h.selections_nodup, ?_, fun id => ?_⟩
      · change (capabilities.selections.map Prod.fst).Nodup
        rw [hmade]
        exact nodup_assign h.live_nodup
      · change get? capabilities.selections id =
          (get? (assign capability x s.selections) id).filter fun y =>
            (s.registries.capabilities.providersOf id).any fun p => p.id = y
        have hold := h.selected id
        rw [CapabilityRegistry.selected] at hold
        rw [hmade, get?_assign, get?_assign, hold]
        split_ifs with he
        · subst he
          rw [Option.filter_some, if_pos (any_eq_true.2 ⟨q, hq, decide_eq_true hid⟩)]
        · rfl
  · exact h

theorem restorable_init (core : Core) : Restorable core { registries := core.registries } where
  assembled := core.assembled
  settled := ⟨nofun, ⟨fun _ => 0, nofun⟩, List.Pairwise.nil⟩
  rows_nodup := by exact nodup_nil
  row_id := nofun
  stored := nofun
  installed := nofun
  selections_nodup := by exact nodup_nil
  live_nodup := by exact nodup_nil
  selected _ := rfl

theorem Restorable.perform {op : Operation} (h : Restorable core s) (hharmless : op.Harmless s) :
    Restorable core (s.perform op) := by
  cases op with
  | install b => exact h.install hharmless
  | uninstall id force => exact h.uninstall hharmless
  | select capability provider => exact h.selectProvider

/-- In every run of harmless operations, a restart resolves every capability to the provider that
runs, in every state. -/
theorem restart_resolves {ops : List Operation}
    (hs : ((manager core).restrict fun s op _ => op.Harmless s).Run ops s) (id : String) :
    (s.registries.capabilities.resolveProvider id).map (·.id) =
      ((loadInstalled core s).capabilities.resolveProvider id).map (·.id) := by
  have hrestorable : Restorable core s :=
    hs.invariant (restorable_init core) fun t op t' ht hstep => by
      obtain ⟨hstep, hharmless⟩ := hstep
      cases hstep
      exact ht.perform hharmless
  exact hrestorable.resolves id

end Steps

/-- A version of a package that provides the capability of the notes. -/
def sampleArchive (version : String) : Bundle where
  manifest :=
    { id := "com.example.archive", version, exports := { capabilities := ["archive.list"] } }
  capabilities := [{ id := "archive.list", version, implements := some "notes.list" }]
  id_valid := (by decide +kernel : isPackageId "com.example.archive" = true)
  capabilities_exported := rfl
  skills_exported := rfl
  automations_exported := rfl
  capabilities_nodup := by simp
  skills_nodup := by exact nodup_nil
  automations_nodup := by exact nodup_nil

/-- Both packages have been installed. -/
def sampleProviders : Store :=
  (({ registries := sampleCore.registries } : Store).install (sampleNotes "1.0.0")).install
    (sampleArchive "1.0.0")

/-- The owner has selected the provider of the archive, after an upgrade. -/
theorem sample_selection_resolves :
    (((sampleProviders.install (sampleArchive "1.1.0")).selectProvider "notes.list"
        (some "com.example.archive/archive.list")).registries.capabilities.resolveProvider
          "notes.list").map (·.id) =
      ((loadInstalled sampleCore ((sampleProviders.install (sampleArchive "1.1.0")).selectProvider
        "notes.list" (some "com.example.archive/archive.list"))).capabilities.resolveProvider
          "notes.list").map (·.id) := by
  -- The notes come before the archive, which needs them.
  have hrank : ∀ bundles : List Bundle,
      (∀ b ∈ bundles, ∀ p ∈ bundles, b.Needs p → p.id.length < b.id.length) →
      ∃ rank : String → ℕ, ∀ b ∈ bundles, ∀ p ∈ bundles, b.Needs p → rank p.id < rank b.id :=
    fun _ h => ⟨String.length, h⟩
  have hrun : ((manager sampleCore).restrict fun s op _ => op.Harmless s).Run
      [.install (sampleNotes "1.0.0"), .install (sampleArchive "1.0.0"),
        .install (sampleArchive "1.1.0"),
        .select "notes.list" (some "com.example.archive/archive.list")]
      ((sampleProviders.install (sampleArchive "1.1.0")).selectProvider "notes.list"
        (some "com.example.archive/archive.list")) := by
    refine Machine.Steps.cons ⟨rfl, fun _ => ⟨fun _ => ⟨⟨?_, hrank _ ?_, ?_⟩, ?_⟩, nofun⟩⟩
      (Machine.Steps.cons ⟨rfl, fun _ => ⟨fun _ => ⟨⟨?_, hrank _ ?_, ?_⟩, ?_⟩, nofun⟩⟩
        (Machine.Steps.cons ⟨rfl, fun _ => ⟨fun _ => ⟨⟨?_, hrank _ ?_, ?_⟩, ?_⟩, nofun⟩⟩
          (Machine.Steps.cons ⟨rfl, trivial⟩ Machine.Steps.nil)))
    all_goals decide +kernel
  exact restart_resolves hrun "notes.list"

/-- The owner has selected the provider of the archive, before an upgrade. -/
def sampleUpgraded : Store :=
  (sampleProviders.selectProvider "notes.list" (some "com.example.archive/archive.list")).install
    (sampleArchive "1.1.0")

/-- An upgrade drops the selection of the owner, which a restart finds in the database. -/
theorem upgrade_drops_selection :
    ¬ ∀ (core : Core) (ops : List Operation) (s : Store), (manager core).Run ops s → ∀ id,
      (s.registries.capabilities.resolveProvider id).map (·.id) =
        ((loadInstalled core s).capabilities.resolveProvider id).map (·.id) := by
  intro hall
  have hequal := hall sampleCore
    [.install (sampleNotes "1.0.0"), .install (sampleArchive "1.0.0"),
      .select "notes.list" (some "com.example.archive/archive.list"),
      .install (sampleArchive "1.1.0")]
    sampleUpgraded ((((Machine.Run.nil.snoc rfl).snoc rfl).snoc rfl).snoc rfl) "notes.list"
  -- The rows are loaded in the order of the ids.
  have hrows : sampleUpgraded.listPackageRows =
      [⟨(sampleArchive "1.1.0").manifest, some "1.1.0", true, true⟩,
        ⟨(sampleNotes "1.0.0").manifest, some "1.0.0", true, true⟩] := by
    have hle : ¬ "com.example.notes" ≤ "com.example.archive" := by decide +kernel
    have hinstalled : sampleUpgraded.rows.filter (fun e => e.2.installed) =
        [("com.example.notes", ⟨(sampleNotes "1.0.0").manifest, some "1.0.0", true, true⟩),
          ("com.example.archive", ⟨(sampleArchive "1.1.0").manifest, some "1.1.0", true, true⟩)] :=
      rfl
    rw [Store.listPackageRows, hinstalled]
    simp [mergeSort, List.MergeSort.Internal.splitInTwo, hle]
  rw [loadInstalled, hrows] at hequal
  revert hequal
  decide +kernel

end U2os.Server.Packages
