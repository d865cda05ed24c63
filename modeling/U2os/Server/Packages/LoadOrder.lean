import U2os.Lib.Worklist
import U2os.Server.Packages.Loading
import U2os.Server.Packages.Requirements

/-!
# The order of the rows

`loadInstalled` of `packages/manager.js`, with the errors it reports, against the packages that can
be registered in some order at all.  A row that fails is tried again after the others.  More that is
registered meets more requirements; but a workflow may use a skill that is not declared, where its
name is that of a property every object has, and then what is registered says which permissions the
package needs.
-/

namespace U2os.Server.Packages

open JsText List Option

/-- What the files of the installed packages give, or what is wrong with them. -/
structure PackageFiles where
  /-- `readPackageDirectory`. -/
  read : PackageRow → Except String Bundle
  /-- `buildProvider`, for each capability. -/
  build : PackageRow → Except String Unit

abbrev PackageRow.id (row : PackageRow) : String := row.manifest.id

/-- `_register`, of the files of a row. -/
def PackageFiles.register (files : PackageFiles) (r : Registries) (row : PackageRow) :
    Except String Registries := do
  let b ← files.read row
  files.build row
  r.registerBundle b

/-- The registries, and `loadErrors`. -/
structure Loader where
  registries : Registries
  loadErrors : List (String × String) := []

namespace Loader

/-- One pass over the pending rows. -/
def pass (files : PackageFiles) : List PackageRow → Loader → Loader × List PackageRow
  | [], l => (l, [])
  | row :: rows, l =>
    match files.register l.registries row with
    | .ok registries =>
      pass files rows ⟨registries, Assoc.erase row.id l.loadErrors⟩
    | .error error =>
      let (l', retry) :=
        pass files rows { l with loadErrors := Assoc.assign row.id error l.loadErrors }
      (l', row :: retry)

/-- The passes, as long as there is something pending and one makes progress. -/
abbrev passes (files : PackageFiles) : ℕ → List PackageRow → Loader → Loader × List PackageRow :=
  Worklist.passes (pass files)

/-- `loadInstalled`, of the rows in the order they are read: the registries with the errors, and the
ids of the rows that failed. -/
def loadInstalled (core : Core) (files : PackageFiles) (selections : List (String × String))
    (rows : List PackageRow) : Loader × List String :=
  let (l, failed) := passes files rows.length rows { registries := core.registries }
  ({ l with registries := { l.registries with
      capabilities := applySelections l.registries.capabilities selections } },
    failed.map (·.id))

end Loader

/-- The rows of installed packages, whose files are those of the package and which share no id. -/
structure Installed (files : PackageFiles) (rows : List PackageRow) : Prop where
  nodup : (rows.map (·.id)).Nodup
  id_eq : ∀ row ∈ rows, ∀ b, files.read row = .ok b → b.id = row.id
  disjoint : ∀ row ∈ rows, ∀ row' ∈ rows, row ≠ row' → ∀ b b', files.read row = .ok b →
    files.read row' = .ok b' →
    b.manifest.exports.capabilities.Disjoint b'.manifest.exports.capabilities ∧
      b.manifest.exports.skills.Disjoint b'.manifest.exports.skills ∧
      b.manifest.exports.automations.Disjoint b'.manifest.exports.automations

/-- The registration of a row, where it goes through. -/
def PackageFiles.load (files : PackageFiles) (r : Registries) (row : PackageRow) :
    Option Registries := (files.register r row).toOption

/-- Rows that are registered one after another, each when the check allows it. -/
abbrev Obtained (core : Core) (files : PackageFiles) (rows : List PackageRow) :
    List PackageRow → Registries → Prop :=
  Worklist.Obtained files.load core.registries rows

/-- No registry has anything of a package. -/
structure Registries.HasNothingOf (r : Registries) (id : String) : Prop where
  packages : ∀ e ∈ r.packages, e.1 ≠ id
  contracts : ∀ e ∈ r.capabilities.contracts, e.2.source ≠ .package id
  providers : ∀ capability, ∀ p ∈ r.capabilities.providersOf capability, p.packageId ≠ some id
  skills : ∀ e ∈ r.skills, e.2.packageId ≠ id
  automations : ∀ e ∈ r.automations, e.2.packageId ≠ id

/-- A row that failed has its error, and has left nothing. -/
structure Reported (files : PackageFiles) (r : Registries) (l : Loader) (row : PackageRow) :
    Prop where
  error : ∃ error, files.register r row = .error error ∧
    Assoc.get? l.loadErrors row.id = some error
  nothing : l.registries.HasNothingOf row.id

/-- The loop ends, with all rows registered that can be, and the others reported. -/
structure LoadsLargest (core : Core) (files : PackageFiles) (selections : List (String × String))
    (rows order : List PackageRow) : Prop where
  ends : ∀ n, order.length ≤ n →
    Loader.passes files n order { registries := core.registries } =
      Loader.passes files order.length order { registries := core.registries }
  outcome : ∃ loaded r, Obtained core files rows loaded r ∧
    (∀ loaded' r', Obtained core files rows loaded' r' → loaded' ⊆ loaded) ∧
    (Loader.loadInstalled core files selections order).1.registries =
      { r with capabilities := applySelections r.capabilities selections } ∧
    r.bundles.map (·.id) = loaded.map (·.id) ∧
    (loaded.map (·.id) ++ (Loader.loadInstalled core files selections order).2).Perm
      (rows.map (·.id)) ∧
    ∀ row ∈ rows, row ∉ loaded →
      Reported files r (Loader.loadInstalled core files selections order).1 row

/-- The permissions of a package that can be registered suffice where more rows have been. -/
def PermissionsStay (core : Core) (files : PackageFiles) (rows : List PackageRow) : Prop :=
  ∀ few r many r', Obtained core files rows few r → Obtained core files rows many r' →
    few ⊆ many → ∀ row ∈ rows, row ∉ many → ∀ b, files.read row = .ok b →
    (files.load r row).isSome → b.permissionErrors r'.view = []

section Loop

variable {files : PackageFiles} {l : Loader} {pending : List PackageRow}

theorem Loader.pass_eq (files : PackageFiles) (pending : List PackageRow) (l : Loader) :
    ((Loader.pass files pending l).1.registries, (Loader.pass files pending l).2) =
      Worklist.pass files.load pending l.registries := by
  induction pending generalizing l with
  | nil => rfl
  | cons row rows ih =>
    rw [Loader.pass, Worklist.pass, PackageFiles.load]
    cases files.register l.registries row with
    | ok registries => exact ih _
    | error error =>
      have hrest := ih { l with loadErrors := Assoc.assign row.id error l.loadErrors }
      exact congrArg (fun o => (o.1, row :: o.2)) hrest

theorem Loader.passes_eq (files : PackageFiles) (n : ℕ) (pending : List PackageRow) (l : Loader) :
    ((Loader.passes files n pending l).1.registries, (Loader.passes files n pending l).2) =
      Worklist.passes (Worklist.pass files.load) n pending l.registries :=
  Worklist.passes_map Loader.registries (Loader.pass_eq files) n pending l

theorem Loader.passes_fuel {n : ℕ} (hn : pending.length ≤ n) :
    Loader.passes files n pending l = Loader.passes files pending.length pending l :=
  Worklist.passes_fuel (fun _ => rfl) hn

theorem Loader.pass_frame {id : String} (hid : id ∉ pending.map (·.id)) :
    Assoc.get? (Loader.pass files pending l).1.loadErrors id = Assoc.get? l.loadErrors id := by
  induction pending generalizing l with
  | nil => rfl
  | cons row rows ih =>
    obtain ⟨hne, hid⟩ := not_or.1 (mt mem_cons.2 hid)
    rw [Loader.pass]
    cases files.register l.registries row with
    | ok registries =>
      dsimp only
      rw [ih hid]
      rw [Assoc.get?_erase, if_neg fun he => hne he.symm]
    | error error =>
      dsimp only
      rw [ih hid, Assoc.get?_assign, if_neg fun he => hne he.symm]

theorem Loader.pass_errors (hnodup : (pending.map (·.id)).Nodup)
    (h : ∀ row ∈ pending, files.load l.registries row = none) :
    (Loader.pass files pending l).1.registries = l.registries ∧
      ∀ row ∈ pending, ∃ error, files.register l.registries row = .error error ∧
        Assoc.get? (Loader.pass files pending l).1.loadErrors row.id = some error := by
  induction pending generalizing l with
  | nil => exact ⟨rfl, nofun⟩
  | cons row rows ih =>
    obtain ⟨hid, hnodup⟩ := nodup_cons.1 hnodup
    have hrow := h row mem_cons_self
    rw [PackageFiles.load] at hrow
    rw [Loader.pass]
    cases hreg : files.register l.registries row with
    | ok registries =>
      rw [hreg] at hrow
      cases hrow
    | error error =>
      obtain ⟨hsame, herrors⟩ := ih
        (l := { l with loadErrors := Assoc.assign row.id error l.loadErrors }) hnodup
        fun row' hrow' => h row' (mem_cons_of_mem row hrow')
      refine ⟨hsame, fun row' hrow' => ?_⟩
      rcases mem_cons.1 hrow' with rfl | hrow'
      · refine ⟨error, hreg, ?_⟩
        dsimp only
        rw [Loader.pass_frame hid, Assoc.get?_assign, if_pos rfl]
      · exact herrors row' hrow'

theorem Loader.passes_errors {n : ℕ} (hn : pending.length ≤ n)
    (hnodup : (pending.map (·.id)).Nodup) :
    ∀ row ∈ (Loader.passes files n pending l).2, ∃ error,
      files.register (Loader.passes files n pending l).1.registries row = .error error ∧
        Assoc.get? (Loader.passes files n pending l).1.loadErrors row.id = some error := by
  induction n generalizing pending l with
  | zero =>
    obtain rfl : pending = [] := length_eq_zero_iff.1 (Nat.le_zero.1 hn)
    exact nofun
  | succ n ih =>
    have hpass := Loader.pass_eq files pending l
    have hretry : (Loader.pass files pending l).2 =
        (Worklist.pass files.load pending l.registries).2 := congrArg Prod.snd hpass
    rw [Loader.passes, Worklist.passes]
    dsimp only
    split_ifs with hlt
    · refine ih (by omega) (hnodup.sublist ?_)
      rw [hretry]
      exact (Worklist.pass_sublist pending l.registries).map _
    · rw [hretry] at hlt ⊢
      obtain ⟨hself, hstuck⟩ := Worklist.pass_eq_self hlt
      obtain ⟨hsame, herrors⟩ := Loader.pass_errors hnodup hstuck
      rw [hself, hsame]
      exact herrors

end Loop

/-! ### What has been registered -/

section Registered

variable {core : Core} {files : PackageFiles} {rows loaded few many more : List PackageRow}
  {r r' : Registries} {row : PackageRow} {b : Bundle}

theorem load_isSome_iff (h : Assembled core r) (hread : files.read row = .ok b) :
    (files.load r row).isSome ↔ files.build row = .ok () ∧ r.check b = [] := by
  rw [PackageFiles.load, PackageFiles.register, hread]
  cases hbuild : files.build row with
  | error e => simp [Bind.bind, Except.bind, Except.toOption]
  | ok u =>
    by_cases hcheck : r.check b = []
    · obtain ⟨r', hr', -⟩ := registerBundle_of_check h hcheck
      simp [Bind.bind, Except.bind, Except.toOption, hr', hcheck]
    · simp [Bind.bind, Except.bind, Except.toOption, Registries.registerBundle, hcheck]

theorem load_eq_some (hload : files.load r row = some r') :
    ∃ b, files.read row = .ok b ∧ files.build row = .ok () ∧ r.registerBundle b = .ok r' := by
  rw [PackageFiles.load, PackageFiles.register] at hload
  cases hread : files.read row with
  | error e => simp [hread, Bind.bind, Except.bind, Except.toOption] at hload
  | ok b =>
    cases hbuild : files.build row with
    | error e => simp [hread, hbuild, Bind.bind, Except.bind, Except.toOption] at hload
    | ok u =>
      simp only [hread, hbuild, Bind.bind, Except.bind] at hload
      cases hreg : r.registerBundle b with
      | error e => simp [hreg, Except.toOption] at hload
      | ok r'' =>
        rw [hreg] at hload
        cases hload
        exact ⟨b, rfl, rfl, hreg⟩

theorem obtained_spec (hrows : Installed files rows) (h : Obtained core files rows loaded r) :
    Assembled core r ∧ loaded.map files.read = r.bundles.map .ok := by
  induction h with
  | start => exact ⟨core.assembled, rfl⟩
  | @load loaded r r' row h hrow hnew hload ih =>
    obtain ⟨hA, hbundles⟩ := ih
    obtain ⟨b, hread, -, hreg⟩ := load_eq_some hload
    obtain ⟨hA', hbundles', -⟩ := registerBundle_eq_ok hA hreg
    refine ⟨hA', ?_⟩
    -- The package has not been registered before.
    have hother : ∀ b' ∈ r.bundles, b'.id ≠ b.id := by
      intro b' hb' hid
      have hmem : (.ok b' : Except String Bundle) ∈ loaded.map files.read :=
        hbundles ▸ List.mem_map.2 ⟨b', hb', rfl⟩
      obtain ⟨row', hrow', hread'⟩ := List.mem_map.1 hmem
      have hin : row' ∈ rows := h.subset hrow'
      have hsame : row'.id = row.id := by
        rw [← hrows.id_eq row' hin b' hread', hid, hrows.id_eq row hrow b hread]
      exact hnew (inj_on_of_nodup_map hrows.nodup hin hrow hsame ▸ hrow')
    rw [hbundles', filter_eq_self.2 fun b' hb' => by simpa using hother b' hb', map_append,
      map_append, hbundles, map_singleton, map_singleton, hread]

theorem mem_bundles_iff (hrows : Installed files rows) (h : Obtained core files rows loaded r) :
    b ∈ r.bundles ↔ ∃ row ∈ loaded, files.read row = .ok b := by
  have hbundles := (obtained_spec hrows h).2
  constructor
  · intro hb
    exact List.mem_map.1 (hbundles ▸ List.mem_map.2 ⟨b, hb, rfl⟩)
  · intro hrow
    obtain ⟨b', hb', he⟩ := List.mem_map.1 (hbundles ▸ List.mem_map.2 hrow)
    cases he
    exact hb'

theorem bundles_subset (hrows : Installed files rows) (hfew : Obtained core files rows few r)
    (hmany : Obtained core files rows many r') (hsub : few ⊆ many) :
    ∀ b ∈ r.bundles, b ∈ r'.bundles := fun _ hb =>
  have ⟨row, hrow, hread⟩ := (mem_bundles_iff hrows hfew).1 hb
  (mem_bundles_iff hrows hmany).2 ⟨row, hsub hrow, hread⟩

theorem ids_of_obtained (hrows : Installed files rows) (h : Obtained core files rows loaded r) :
    r.bundles.map (·.id) = loaded.map (·.id) := by
  have hbundles := (obtained_spec hrows h).2
  have hlen : r.bundles.length = loaded.length := by simpa using (congrArg List.length hbundles).symm
  refine ext_getElem (by simpa using hlen) fun i hi hi' => ?_
  rw [length_map] at hi hi'
  have hget := congrArg (fun l => l[i]?) hbundles
  simp only [getElem?_map, getElem?_eq_getElem hi, getElem?_eq_getElem hi',
    map_some, some.injEq] at hget
  rw [getElem_map, getElem_map]
  exact hrows.id_eq _ (h.subset (getElem_mem hi')) _ hget

/-- A package that is not registered has left nothing behind. -/
theorem hasNothingOf (hA : Assembled core r) {id : String} (hid : ∀ b ∈ r.bundles, b.id ≠ id) :
    r.HasNothingOf id where
  packages e he := by
    have hkey : e.1 ∈ r.bundles.map (·.id) := hA.keys ▸ List.mem_map.2 ⟨e, he, rfl⟩
    obtain ⟨b, hb, hbe⟩ := List.mem_map.1 hkey
    exact hbe ▸ hid b hb
  contracts e he hs := by
    have hget : r.view.contract e.1 = some e.2 := Assoc.get?_eq_some_of_mem hA.contracts_nodup he
    rcases (hA.contract _ _).1 hget with hcore | ⟨b, hb, hbe⟩
    · rw [core.source_eq _ _ hcore] at hs
      cases hs
    · rw [(source_of_contract? hbe).1] at hs
      exact hid b hb (Source.package.inj hs)
  providers capability p hp he := by
    rw [hA.providers, List.mem_append, mem_flatMap] at hp
    rcases hp with hp | ⟨b, hb, hp⟩
    · cases hcore : Assoc.get? core.providers capability with
      | none => simp [hcore] at hp
      | some ps =>
        rw [hcore] at hp
        rw [core.packageId_eq _ _ hcore p hp] at he
        cases he
    · rw [packageId_of_mem_offers hp] at he
      exact hid b hb (Option.some.inj he)
  skills e he hs := by
    have hget : r.view.skill e.1 = some e.2 := Assoc.get?_eq_some_of_mem hA.skills_nodup he
    obtain ⟨b, hb, hbe⟩ := (hA.skill _ _).1 hget
    exact hid b hb ((packageId_of_skill? hbe).symm.trans hs)
  automations e he hs := by
    have hget : r.view.automation e.1 = some e.2 :=
      Assoc.get?_eq_some_of_mem hA.automations_nodup he
    obtain ⟨b, hb, hbe⟩ := (hA.automation _ _).1 hget
    exact hid b hb ((packageId_of_automation? hbe).symm.trans hs)

theorem applySelections_same (selections : List (String × String)) (c : CapabilityRegistry) :
    (applySelections c selections).contracts = c.contracts ∧
      (applySelections c selections).providers = c.providers := by
  induction selections generalizing c with
  | nil => exact ⟨rfl, rfl⟩
  | cons e selections ih =>
    rw [applySelections, foldl_cons]
    cases hsel : c.select e.1 (some e.2) with
    | error e => exact ih c
    | ok c' =>
      have hc' := (select_eq_ok hsel).1
      refine ⟨(ih c').1.trans ?_, (ih c').2.trans ?_⟩ <;> rw [hc']

theorem Bundle.Supplied.mono (h : Assembled core r) (h' : Assembled core r')
    (hsub : ∀ b ∈ r.bundles, b ∈ r'.bundles) (hid : ∀ b' ∈ r.bundles, b'.id ≠ b.id)
    (hs : b.Supplied r.view) : b.Supplied r'.view := by
  have hrep : Replaced r r' b.id (fun _ => none) fun _ => none :=
    replaced_of_bundles h h' (fun b' hb' _ => hsub b' hb') nofun nofun
  exact hs.replace hrep fun o ho hoid => absurd hoid (hid o ho)

/-- With more packages loaded, a package has no more conflicts. -/
theorem conflicts_mono (hrows : Installed files rows) (hfew : Obtained core files rows few r)
    (hmany : Obtained core files rows many r') (hrow : row ∈ rows) (hnot : row ∉ many)
    (hread : files.read row = .ok b) (hc : r.conflicts b = []) : r'.conflicts b = [] := by
  have hA := (obtained_spec hrows hfew).1
  have hA' := (obtained_spec hrows hmany).1
  have hdisjoint : ∀ b' ∈ r'.bundles,
      b.manifest.exports.capabilities.Disjoint b'.manifest.exports.capabilities ∧
        b.manifest.exports.skills.Disjoint b'.manifest.exports.skills ∧
        b.manifest.exports.automations.Disjoint b'.manifest.exports.automations := by
    intro b' hb'
    obtain ⟨row', hrow', hread'⟩ := (mem_bundles_iff hrows hmany).1 hb'
    exact hrows.disjoint row hrow row' (hmany.subset hrow') (fun he => hnot (he ▸ hrow')) b b'
      hread hread'
  obtain ⟨hcontract, -, -⟩ := conflicts_eq_nil.1 hc
  refine conflicts_eq_nil.2 ⟨fun c hcmem hi e he => ?_, fun s hs e he => ?_, fun a ha e he => ?_⟩
  · rcases (hA'.contract _ _).1 he with hcore | ⟨b', hb', hbe⟩
    · exact hcontract c hcmem hi e ((hA.contract _ _).2 (.inl hcore))
    · obtain ⟨d, hd, -⟩ := map_eq_some_iff.1 hbe
      have hdid : d.id = c.id ∧ d.implements = none := by simpa using find?_some hd
      refine ((hdisjoint b' hb').1 (b.capabilities_exported ▸ List.mem_map.2 ⟨c, hcmem, rfl⟩)
        (b'.capabilities_exported ▸ List.mem_map.2 ⟨d, mem_of_find?_eq_some hd, hdid.1⟩)).elim
  · obtain ⟨b', hb', hbe⟩ := (hA'.skill _ _).1 he
    obtain ⟨d, hd, -⟩ := map_eq_some_iff.1 hbe
    have hdid : d.id = s.id := by simpa using find?_some hd
    exact ((hdisjoint b' hb').2.1 (b.skills_exported ▸ List.mem_map.2 ⟨s, hs, rfl⟩)
      (b'.skills_exported ▸ List.mem_map.2 ⟨d, mem_of_find?_eq_some hd, hdid⟩)).elim
  · obtain ⟨b', hb', hbe⟩ := (hA'.automation _ _).1 he
    obtain ⟨d, hd, -⟩ := map_eq_some_iff.1 hbe
    have hdid : d.id = a.id := by simpa using find?_some hd
    exact ((hdisjoint b' hb').2.2 (b.automations_exported ▸ List.mem_map.2 ⟨a, ha, rfl⟩)
      (b'.automations_exported ▸ List.mem_map.2 ⟨d, mem_of_find?_eq_some hd, hdid⟩)).elim

theorem check_mono_iff (hrows : Installed files rows) (hfew : Obtained core files rows few r)
    (hmany : Obtained core files rows many r') (hsub : few ⊆ many) (hrow : row ∈ rows)
    (hnot : row ∉ many) (hread : files.read row = .ok b) (hcheck : r.check b = []) :
    r'.check b = [] ↔ b.permissionErrors r'.view = [] := by
  have hA := (obtained_spec hrows hfew).1
  have hA' := (obtained_spec hrows hmany).1
  obtain ⟨hconflicts, hvalid⟩ := append_eq_nil_iff.1 hcheck
  obtain ⟨hu2os, hreq, himpl, hwork, -⟩ := validateDependencies_eq_nil.1 hvalid
  have hid : ∀ b' ∈ r.bundles, b'.id ≠ b.id := by
    intro b' hb' he
    obtain ⟨row', hrow', hread'⟩ := (mem_bundles_iff hrows hfew).1 hb'
    have hsame : row'.id = row.id := by
      rw [← hrows.id_eq row' (hfew.subset hrow') b' hread', he, hrows.id_eq row hrow b hread]
    exact hnot (inj_on_of_nodup_map hrows.nodup (hfew.subset hrow') hrow hsame ▸ hsub hrow')
  have hsupplied : b.Supplied r'.view :=
    Bundle.Supplied.mono hA hA' (bundles_subset hrows hfew hmany hsub) hid ⟨hreq, himpl⟩
  rw [Registries.check, conflicts_mono hrows hfew hmany hrow hnot hread hconflicts,
    nil_append, validateDependencies_eq_nil]
  simp only [hu2os, hsupplied.1, hsupplied.2, hwork, true_and]

end Registered

/-! ### Loading in every order -/

section Orders

variable {core : Core} {files : PackageFiles} {rows : List PackageRow}

theorem load_mono_iff (hrows : Installed files rows) {few many : List PackageRow}
    {r r' : Registries} (hfew : Obtained core files rows few r)
    (hmany : Obtained core files rows many r') (hsub : few ⊆ many) {row : PackageRow}
    (hrow : row ∈ rows) (hnot : row ∉ many) {b : Bundle} (hread : files.read row = .ok b)
    (hsome : (files.load r row).isSome) :
    (files.load r' row).isSome ↔ b.permissionErrors r'.view = [] := by
  rw [load_isSome_iff (obtained_spec hrows hfew).1 hread] at hsome
  rw [load_isSome_iff (obtained_spec hrows hmany).1 hread,
    check_mono_iff hrows hfew hmany hsub hrow hnot hread hsome.2]
  exact and_iff_right hsome.1

theorem exists_read_of_isSome {r : Registries} {row : PackageRow}
    (hsome : (files.load r row).isSome) : ∃ b, files.read row = .ok b := by
  obtain ⟨r', hload⟩ := isSome_iff_exists.1 hsome
  obtain ⟨b, hread, -⟩ := load_eq_some hload
  exact ⟨b, hread⟩

theorem stable_iff (hrows : Installed files rows) :
    Worklist.Stable files.load core.registries rows ↔ PermissionsStay core files rows := by
  constructor
  · intro h few r many r' hfew hmany hsub row hrow hnot b hread hsome
    exact (load_mono_iff hrows hfew hmany hsub hrow hnot hread hsome).1
      (h few r many r' hfew hmany hsub row hrow hnot hsome)
  · intro h few r many r' hfew hmany hsub row hrow hnot hsome
    obtain ⟨b, hread⟩ := exists_read_of_isSome hsome
    exact (load_mono_iff hrows hfew hmany hsub hrow hnot hread hsome).2
      (h few r many r' hfew hmany hsub row hrow hnot b hread hsome)

theorem load_final (hrows : Installed files rows) :
    Worklist.Final files.load core.registries rows := by
  intro few r many r' more r'' hfew hmany hmore hsub hsub' row hrow hnot hsome hnone
  obtain ⟨b, hread⟩ := exists_read_of_isSome hsome
  have hnot' : row ∉ many := fun hin => hnot (hsub' hin)
  rw [← not_isSome_iff_eq_none] at hnone ⊢
  rw [load_mono_iff hrows hfew hmany hsub hrow hnot' hread hsome] at hnone
  rw [load_mono_iff hrows hfew hmore (List.Subset.trans hsub hsub') hrow hnot hread hsome]
  refine mt (permissionErrors_of_sub ?_) hnone
  exact sub_of_bundles (obtained_spec hrows hmore).1 (obtained_spec hrows hmany).1
    (bundles_subset hrows hmany hmore hsub')

/-- What was not loaded is reported. -/
theorem reported (hrows : Installed files rows) {selections : List (String × String)}
    {order loaded : List PackageRow} (hperm : order.Perm rows)
    (h : Worklist.Finished files.load core.registries rows loaded
      (Loader.passes files order.length order { registries := core.registries }).1.registries
      (Loader.passes files order.length order { registries := core.registries }).2)
    {row : PackageRow} (hrow : row ∈ rows) (hnot : row ∉ loaded) :
    Reported files
      (Loader.passes files order.length order { registries := core.registries }).1.registries
      (Loader.loadInstalled core files selections order).1 row where
  error := by
    have hpending : row ∈ _ := (List.mem_append.1 (h.perm.mem_iff.2 hrow)).resolve_left hnot
    have hnodup : (order.map (·.id)).Nodup := (hperm.map _).nodup_iff.2 hrows.nodup
    exact Loader.passes_errors (Nat.le_refl _) hnodup row hpending
  nothing := by
    have hA := (obtained_spec hrows h.obtained).1
    obtain ⟨hcontracts, hproviders⟩ := applySelections_same selections
      (Loader.passes files order.length order
        { registries := core.registries }).1.registries.capabilities
    have hno : ∀ b ∈ (Loader.passes files order.length order
        { registries := core.registries }).1.registries.bundles, b.id ≠ row.id := fun b hb hid => by
      have hmem : row.id ∈ loaded.map (·.id) :=
        ids_of_obtained hrows h.obtained ▸ List.mem_map.2 ⟨b, hb, hid⟩
      obtain ⟨row', hrow', he⟩ := List.mem_map.1 hmem
      exact hnot (inj_on_of_nodup_map hrows.nodup (h.obtained.subset hrow') hrow he ▸ hrow')
    have hnothing := hasNothingOf hA hno
    refine ⟨hnothing.packages, ?_, ?_, hnothing.skills, hnothing.automations⟩
    · exact fun e he => hnothing.contracts e (hcontracts ▸ he)
    · intro capability p hp
      refine hnothing.providers capability p ?_
      rw [CapabilityRegistry.providersOf, ← hproviders]
      exact hp

theorem exists_finished (hrows : Installed files rows) {order : List PackageRow}
    (hperm : order.Perm rows) : ∃ loaded, Worklist.Finished files.load core.registries rows loaded
      (Loader.passes files order.length order { registries := core.registries }).1.registries
      (Loader.passes files order.length order { registries := core.registries }).2 := by
  have heq := Loader.passes_eq files order.length order
    { registries := core.registries }
  obtain ⟨loaded, h⟩ : ∃ loaded, Worklist.Finished files.load core.registries rows loaded _ _ :=
    Worklist.passes_finished (hrows.nodup.of_map _) hperm
  rw [← heq] at h
  exact ⟨loaded, h⟩

/-- In every order all rows are registered that can be, and the others reported, exactly where what
else is registered does not ask for permissions a package lacks. -/
theorem loadsLargest_iff (core : Core) (files : PackageFiles) (selections : List (String × String))
    (rows : List PackageRow) (hrows : Installed files rows) :
    (∀ order : List PackageRow, order.Perm rows →
      LoadsLargest core files selections rows order) ↔ PermissionsStay core files rows := by
  rw [← stable_iff hrows]
  constructor
  · intro h
    classical
    refine Worklist.stable_of_largest (hrows.nodup.of_map _) (load_final hrows)
      fun order hperm loaded hloaded few s hfew row hrow => ?_
    obtain ⟨loaded', r, hloaded', hlargest, hregistries, -⟩ := (h order hperm).outcome
    -- The registries of the outcome are those of the loop, so the rows are.
    rw [← Loader.passes_eq files order.length order
      { registries := core.registries }] at hloaded
    have hpackages : r.bundles.map (·.id) = loaded.map (·.id) := by
      rw [← ids_of_obtained hrows hloaded]
      exact congrArg (fun r => r.bundles.map (·.id)) hregistries.symm
    rw [ids_of_obtained hrows hloaded'] at hpackages
    have hmem : row.id ∈ loaded.map (·.id) :=
      hpackages ▸ List.mem_map.2 ⟨row, hlargest few s hfew hrow, rfl⟩
    obtain ⟨row', hrow', he⟩ := List.mem_map.1 hmem
    exact inj_on_of_nodup_map hrows.nodup (hloaded.subset hrow') (hfew.subset hrow) he ▸ hrow'
  · intro hstable order hperm
    obtain ⟨loaded, h⟩ : ∃ loaded, Worklist.Finished files.load core.registries rows loaded _ _ :=
      exists_finished hrows hperm
    refine ⟨fun n hn => Loader.passes_fuel hn, loaded, _, h.obtained,
      fun loaded' r' h' => h.largest hstable h', rfl, ids_of_obtained hrows h.obtained, ?_,
      fun row hrow hnot => reported hrows hperm h hrow hnot⟩
    have hids := h.perm.map (·.id)
    rw [map_append] at hids
    exact hids

end Orders

/-! ### Packages that declare what they use -/

/-- Each use of the name of a property every object has is declared or exported as well. -/
structure Bundle.Declares (b : Bundle) : Prop where
  capabilities : ∀ w ∈ b.workflows, ∀ id ∈ usedCapabilities w.2, id ∈ objectPrototype →
    (Assoc.get? b.ownCapabilities id).isSome ∨ id ∈ b.requiredCapabilities.map Prod.fst
  skills : ∀ w ∈ b.workflows, ∀ id ∈ usedSkills w.2, id ∈ objectPrototype →
    (Assoc.get? b.ownSkills id).isSome ∨ id ∈ b.requiredSkills.map Prod.fst

/-- A workflow uses what a package has, or what is registered. -/
structure Bundle.Knows (b : Bundle) (v : View) (w : Uses) : Prop where
  capabilities : ∀ id ∈ usedCapabilities w,
    (Assoc.get? b.ownCapabilities id).isSome ∨ (v.contract id).isSome
  skills : ∀ id ∈ usedSkills w, (Assoc.get? b.ownSkills id).isSome ∨ (v.skill id).isSome

section Declared

variable {core : Core} {files : PackageFiles} {rows loaded : List PackageRow} {r : Registries}
  {b p : Bundle} {v v' : View} {w : Uses} {id : String}

theorem known_of_met {own : List (String × String)} {registered : String → Option String}
    {ranges : List (String × String)} (h : ∀ e ∈ ranges, Met own registered e)
    (hid : id ∈ ranges.map Prod.fst) :
    (Assoc.get? own id).isSome ∨ (registered id).isSome := by
  obtain ⟨e, he, rfl⟩ := List.mem_map.1 hid
  obtain ⟨version, hversion, -⟩ := h e he
  cases hown : Assoc.get? own e.1 with
  | some _ => exact .inl rfl
  | none =>
    rw [hown, none_or] at hversion
    exact .inr (by rw [hversion]; rfl)

theorem Bundle.Declares.knows (hd : b.Declares) (hs : b.Supplied v) (hw : b.workflowErrors = [])
    {e : String × Uses} (he : e ∈ b.workflows) : b.Knows v e.2 := by
  obtain ⟨hcap, hskill⟩ := workflowErrors_eq_nil.1 hw e he
  obtain ⟨hcapabilities, hskills⟩ := requirementErrors_eq_nil.1 hs.1
  constructor
  · intro id hid
    have hdeclared : (Assoc.get? b.ownCapabilities id).isSome ∨
        id ∈ b.requiredCapabilities.map Prod.fst := by
      rcases hcap id hid with hown | hdec
      · exact .inl hown
      · simp only [Bundle.isDeclared, Bool.or_eq_true, decide_eq_true_eq] at hdec
        exact hdec.elim .inr (hd.capabilities e he id hid)
    refine hdeclared.elim .inl fun hreq => (known_of_met hcapabilities hreq).imp_right fun h => ?_
    rwa [View.capabilityVersion, isSome_map] at h
  · intro id hid
    have hdeclared : (Assoc.get? b.ownSkills id).isSome ∨
        id ∈ b.requiredSkills.map Prod.fst := by
      rcases hskill id hid with hown | hdec
      · exact .inl hown
      · simp only [Bundle.isDeclared, Bool.or_eq_true, decide_eq_true_eq] at hdec
        exact hdec.elim .inr (hd.skills e he id hid)
    refine hdeclared.elim .inl fun hreq => (known_of_met hskills hreq).imp_right fun h => ?_
    rwa [View.skillVersion, isSome_map] at h

theorem obtained_provided (hrows : Installed files rows) (h : Obtained core files rows loaded r) :
    Provided r ∧ ∀ b ∈ r.bundles, b.workflowErrors = [] := by
  induction h with
  | start => exact ⟨nofun, nofun⟩
  | @load loaded r r' row h hrow hnew hload ih =>
    have hA := (obtained_spec hrows h).1
    obtain ⟨b, hread, -, hreg⟩ := load_eq_some hload
    obtain ⟨-, hbundles, -⟩ := registerBundle_eq_ok hA hreg
    have hvalid := (append_eq_nil_iff.1 (check_of_registerBundle hreg)).2
    refine ⟨provided_registerBundle hA ih.1 hreg fun o ho hid => ?_, fun b' hb' => ?_⟩
    · obtain ⟨row', hrow', hread'⟩ := (mem_bundles_iff hrows h).1 ho
      have hsame : row'.id = row.id := by
        rw [← hrows.id_eq row' (h.subset hrow') o hread', hid, hrows.id_eq row hrow b hread]
      exact absurd (inj_on_of_nodup_map hrows.nodup (h.subset hrow') hrow hsame ▸ hrow') hnew
    · rw [hbundles] at hb'
      rcases List.mem_append.1 hb' with hb' | hb'
      · exact ih.2 b' (mem_of_mem_filter hb')
      · obtain rfl := mem_singleton.1 hb'
        exact (validateDependencies_eq_nil.1 hvalid).2.2.2.1

/-- The steps of a workflow that is found use what is known. -/
theorem knows_workflowOf (hA : Assembled core r) (hc : Provided r)
    (hwork : ∀ p ∈ r.bundles, p.workflowErrors = []) (hd : ∀ p ∈ r.bundles, p.Declares)
    (hb : ∀ e ∈ b.workflows, b.Knows r.view e.2) (hw : b.workflowOf r.view id = some w) :
    b.Knows r.view w := by
  rw [Bundle.workflowOf] at hw
  cases hfind : b.skills.find? fun s => s.id = id with
  | some s =>
    have hsw : s.workflow = some w := by rwa [hfind] at hw
    have hmem : ("skill " ++ s.id, w) ∈ b.workflows :=
      mem_append_left _ (mem_filterMap.2
        ⟨s, mem_of_find?_eq_some hfind, by rw [hsw]; rfl⟩)
    exact hb _ hmem
  | none =>
    rw [hfind] at hw
    obtain ⟨s, hs, hsw⟩ := bind_eq_some_iff.1 hw
    obtain ⟨p, hp, hps⟩ := (hA.skill id s).1 hs
    obtain ⟨d, hdp, rfl⟩ := map_eq_some_iff.1 hps
    have hmem : ("skill " ++ d.id, w) ∈ p.workflows :=
      mem_append_left _ (mem_filterMap.2
        ⟨d, mem_of_find?_eq_some hdp, by rw [hsw]; rfl⟩)
    have hknows := (hd p hp).knows (hc p hp) (hwork p hp) hmem
    -- What the other package has of its own is registered.
    constructor
    · intro c hcw
      refine .inr ((hknows.capabilities c hcw).elim (fun hown => ?_) fun h => h)
      rw [get?_ownCapabilities, isSome_map] at hown
      obtain ⟨contract, hcontract⟩ := isSome_iff_exists.1 hown
      rw [(hA.contract c contract).2 (.inr ⟨p, hp, hcontract⟩)]
      rfl
    · intro i hi
      refine .inr ((hknows.skills i hi).elim (fun hown => ?_) fun h => h)
      rw [get?_ownSkills, isSome_map] at hown
      obtain ⟨s', hs'⟩ := isSome_iff_exists.1 hown
      rw [(hA.skill i s').2 ⟨p, hp, hs'⟩]
      rfl

theorem workflowOf_eq (h : v.Sub v')
    (hid : (Assoc.get? b.ownSkills id).isSome ∨ (v.skill id).isSome) :
    b.workflowOf v' id = b.workflowOf v id := by
  rw [Bundle.workflowOf, Bundle.workflowOf]
  cases hfind : b.skills.find? fun s => s.id = id with
  | some s => rfl
  | none =>
    rw [get?_ownSkills, Bundle.skill?, hfind] at hid
    obtain ⟨s, hs⟩ := isSome_iff_exists.1 (hid.resolve_left (by simp))
    dsimp only
    rw [hs, h.skill id s hs]

theorem permissionsOf_eq (h : v.Sub v')
    (hid : (Assoc.get? b.ownCapabilities id).isSome ∨ (v.contract id).isSome) :
    b.permissionsOf v' id = b.permissionsOf v id := by
  rw [Bundle.permissionsOf, Bundle.permissionsOf]
  cases hfind : b.capabilities.find? fun c => c.id = id ∧ c.implements = none with
  | some c => rfl
  | none =>
    rw [get?_ownCapabilities, Bundle.contract?, hfind] at hid
    obtain ⟨c, hc⟩ := isSome_iff_exists.1 (hid.resolve_left (by simp))
    dsimp only
    rw [hc, h.contract id c hc]

theorem mem_used_of_knows (h : v.Sub v') (hb : ∀ e ∈ b.workflows, b.Knows v e.2)
    (hskills : ∀ id w, b.workflowOf v id = some w → b.Knows v w)
    (hreq : ∀ e ∈ b.requiredCapabilities, Met b.ownCapabilities v.capabilityVersion e)
    (hid : id ∈ b.used v') :
    id ∈ b.used v ∧ ((Assoc.get? b.ownCapabilities id).isSome ∨ (v.contract id).isSome) := by
  rw [Bundle.used, mem_eraseDups, List.mem_append, mem_flatMap] at hid
  rw [Bundle.used, mem_eraseDups, List.mem_append, mem_flatMap]
  rcases hid with hid | ⟨e, he, hid⟩
  · refine ⟨.inl hid, (known_of_met hreq hid).imp_right fun hv => ?_⟩
    rwa [View.capabilityVersion, isSome_map] at hv
  · rw [mem_capabilityClosure fun _ _ => mem_known_of_workflowOf] at hid
    rcases hid with hid | ⟨s, ⟨root, hroot, hpath⟩, w, hw, hid⟩
    · refine ⟨.inr ⟨e, he, ?_⟩, (hb e he).capabilities id hid⟩
      exact (mem_capabilityClosure fun _ _ => mem_known_of_workflowOf).2 (.inl hid)
    · -- Along the path every skill is known, and has the workflow it had.
      have hpath' : Relation.ReflTransGen (Search.Edge (b.workflowOf v) usedSkills) root s ∧
          ((Assoc.get? b.ownSkills s).isSome ∨ (v.skill s).isSome) := by
        clear hw
        induction hpath with
        | refl => exact ⟨.refl, (hb e he).skills root hroot⟩
        | tail _ hedge ih =>
          obtain ⟨w', hw', hj⟩ := hedge
          have hw' := (workflowOf_eq h ih.2).symm.trans hw'
          exact ⟨ih.1.tail ⟨w', hw', hj⟩, (hskills _ _ hw').skills _ hj⟩
      rw [workflowOf_eq h hpath'.2] at hw
      refine ⟨.inr ⟨e, he, ?_⟩, (hskills s w hw).capabilities id hid⟩
      exact (mem_capabilityClosure fun _ _ => mem_known_of_workflowOf).2
        (.inr ⟨s, ⟨root, hroot, hpath'.1⟩, w, hw, hid⟩)

theorem permissionsStay_of_declared (core : Core) (files : PackageFiles) (rows : List PackageRow)
    (hrows : Installed files rows)
    (hdeclares : ∀ row ∈ rows, ∀ b, files.read row = .ok b → b.Declares) :
    PermissionsStay core files rows := by
  intro few r many r' hfew hmany hsub row hrow hnot b hread hsome
  have hA := (obtained_spec hrows hfew).1
  have hview : r.view.Sub r'.view :=
    sub_of_bundles (obtained_spec hrows hmany).1 hA (bundles_subset hrows hfew hmany hsub)
  obtain ⟨hc, hwork⟩ := obtained_provided hrows hfew
  have hd : ∀ p ∈ r.bundles, p.Declares := fun p hp => by
    obtain ⟨row', hrow', hread'⟩ := (mem_bundles_iff hrows hfew).1 hp
    exact hdeclares row' (hfew.subset hrow') p hread'
  have hcheck := ((load_isSome_iff hA hread).1 hsome).2
  obtain ⟨-, hreq, himpl, hworkb, hperm⟩ :=
    validateDependencies_eq_nil.1 (append_eq_nil_iff.1 hcheck).2
  have hb : ∀ e ∈ b.workflows, b.Knows r.view e.2 := fun e he =>
    (hdeclares row hrow b hread).knows ⟨hreq, himpl⟩ hworkb he
  rw [permissionErrors_eq_nil] at hperm ⊢
  intro id hid permission hpermission
  obtain ⟨hused, hknown⟩ := mem_used_of_knows hview hb
    (fun i w hw => knows_workflowOf hA hc hwork hd hb hw) (requirementErrors_eq_nil.1 hreq).1 hid
  rw [permissionsOf_eq hview hknown] at hpermission
  exact hperm id hused permission hpermission

end Declared

/-! ### Samples -/

/-- A package whose automation uses a skill that it does not declare. -/
def sampleSneak : Bundle where
  manifest := { id := "com.example.sneak", version := "1.0.0", exports := { automations := ["go"] } }
  automations := [{ id := "go", workflow := ["skill:constructor"] }]
  id_valid := by decide +kernel
  capabilities_exported := rfl
  skills_exported := rfl
  automations_exported := rfl
  capabilities_nodup := by exact List.nodup_nil
  skills_nodup := by exact List.nodup_nil
  automations_nodup := by decide

/-- A package that exports the skill, which searches the web. -/
def sampleBuilder : Bundle where
  manifest :=
    { id := "com.example.builder", version := "1.0.0",
      requires := { capabilities := [("web.search", "*")] },
      exports := { skills := ["constructor"] }, permissions := ["network"] }
  skills :=
    [{ id := "constructor", version := "1.0.0", workflow := some ["capability:web.search"] }]
  id_valid := by decide +kernel
  capabilities_exported := rfl
  skills_exported := rfl
  automations_exported := rfl
  capabilities_nodup := by exact List.nodup_nil
  skills_nodup := by decide
  automations_nodup := by exact List.nodup_nil

/-- The row of an installed package. -/
def Bundle.row (b : Bundle) : PackageRow := ⟨b.manifest, some b.manifest.version, true, true⟩

/-- The files of some packages, by the id. -/
def sampleFiles (bundles : List Bundle) : PackageFiles where
  read row := ((bundles.find? fun b => b.id = row.id).map .ok).getD (.error "No u2os.yaml found")
  build _ := .ok ()

theorem installed_pair {b b' : Bundle} (hid : b.id ≠ b'.id)
    (hcapabilities : b.manifest.exports.capabilities.Disjoint b'.manifest.exports.capabilities)
    (hskills : b.manifest.exports.skills.Disjoint b'.manifest.exports.skills)
    (hautomations : b.manifest.exports.automations.Disjoint b'.manifest.exports.automations) :
    Installed (sampleFiles [b, b']) [b.row, b'.row] := by
  have hread : (sampleFiles [b, b']).read b.row = .ok b := by simp [sampleFiles, Bundle.row]
  have hread' : (sampleFiles [b, b']).read b'.row = .ok b' := by
    simp [sampleFiles, Bundle.row, hid]
  refine ⟨by simpa [Bundle.row] using hid, fun row hrow c hc => ?_,
    fun row hrow row' hrow' hne c c' hc hc' => ?_⟩
  · rcases mem_pair.1 hrow with rfl | rfl
    · rw [hread] at hc
      cases hc
      rfl
    · rw [hread'] at hc
      cases hc
      rfl
  · rcases mem_pair.1 hrow with rfl | rfl <;> rcases mem_pair.1 hrow' with rfl | rfl
    · exact absurd rfl hne
    · rw [hread] at hc
      rw [hread'] at hc'
      cases hc
      cases hc'
      exact ⟨hcapabilities, hskills, hautomations⟩
    · rw [hread'] at hc
      rw [hread] at hc'
      cases hc
      cases hc'
      exact ⟨hcapabilities.symm, hskills.symm, hautomations.symm⟩
    · exact absurd rfl hne

/-- A package is loaded after the one it requires, in either order. -/
theorem sample_loads_largest :
    LoadsLargest sampleCore (sampleFiles [sampleDigest, sampleNotes "1.0.0"]) []
        [sampleDigest.row, (sampleNotes "1.0.0").row]
        [sampleDigest.row, (sampleNotes "1.0.0").row] ∧
      LoadsLargest sampleCore (sampleFiles [sampleDigest, sampleNotes "1.0.0"]) []
        [sampleDigest.row, (sampleNotes "1.0.0").row]
        [(sampleNotes "1.0.0").row, sampleDigest.row] := by
  have hrows : Installed (sampleFiles [sampleDigest, sampleNotes "1.0.0"])
      [sampleDigest.row, (sampleNotes "1.0.0").row] :=
    installed_pair (by decide +kernel) (by simp [sampleDigest]) (by simp [sampleNotes])
      (by simp [sampleNotes])
  suffices hstay : PermissionsStay sampleCore (sampleFiles [sampleDigest, sampleNotes "1.0.0"])
      [sampleDigest.row, (sampleNotes "1.0.0").row] by
    have hall := (loadsLargest_iff sampleCore _ [] _ hrows).2 hstay
    exact ⟨hall _ (.refl _), hall _ (.swap ..)⟩
  refine permissionsStay_of_declared _ _ _ hrows fun row hrow b hread => ?_
  rcases mem_pair.1 hrow with rfl | rfl
  · obtain rfl : sampleDigest = b := Except.ok.inj hread
    exact ⟨by decide +kernel, by decide +kernel⟩
  · obtain rfl : sampleNotes "1.0.0" = b := Except.ok.inj hread
    exact ⟨by decide +kernel, by decide +kernel⟩

/-- Where the package that exports the skill is read first, the one that uses it fails for the
permission that its search needs; the other way round both are registered. -/
theorem undeclared_skill_depends_on_order :
    ¬ ∀ (core : Core) (files : PackageFiles) (selections : List (String × String))
      (rows : List PackageRow), Installed files rows → ∀ order : List PackageRow,
      order.Perm rows → LoadsLargest core files selections rows order := by
  intro hall
  obtain ⟨loaded, r, hloaded, hlargest, hregistries, hids, -⟩ := (hall sampleCore
    (sampleFiles [sampleBuilder, sampleSneak]) [] [sampleBuilder.row, sampleSneak.row]
    (installed_pair (by decide +kernel) (by simp [sampleBuilder]) (by simp [sampleSneak])
      (by simp [sampleBuilder])) _ (Perm.refl _)).outcome
  -- The sneaking package alone can be registered.
  have hsome : ((sampleFiles [sampleBuilder, sampleSneak]).load sampleCore.registries
      sampleSneak.row).isSome := by decide +kernel
  obtain ⟨r', hload⟩ := isSome_iff_exists.1 hsome
  have hmem : sampleSneak.row ∈ loaded := hlargest _ r'
    (Worklist.Obtained.start.load (mem_pair.2 (.inr rfl)) not_mem_nil hload)
    (mem_singleton.2 rfl)
  have hid : sampleSneak.id ∈ r.bundles.map (·.id) :=
    hids ▸ List.mem_map.2 ⟨sampleSneak.row, hmem, rfl⟩
  have hout : (Loader.loadInstalled sampleCore (sampleFiles [sampleBuilder, sampleSneak]) []
      [sampleBuilder.row, sampleSneak.row]).1.registries.bundles.map (·.id) =
        [sampleBuilder.id] := by decide +kernel
  have hbundles : r.bundles.map (·.id) = [sampleBuilder.id] := by
    rw [hregistries] at hout
    exact hout
  rw [hbundles] at hid
  revert hid
  decide +kernel

end U2os.Server.Packages
