import U2os.Lib.Run
import U2os.Server.Packages.Registries

/-!
# The package manager

`packages/manager.js`: packages are installed, upgraded and uninstalled, and the owner selects
providers; at the start the registries are built again from the rows and the files.  Between the
checks and the end of an operation there is no `await`, so that an operation is one step.
-/

namespace U2os.Server.Packages

/-- A row of `packages`. -/
structure PackageRow where
  manifest : Manifest
  /-- The version whose directory holds the files. -/
  installPath : Option String
  /-- `status = 'installed'`. -/
  installed : Bool
  enabled : Bool

/-- The registries in memory, the database and the directory of packages. -/
structure Store where
  registries : Registries
  /-- `packages`. -/
  rows : List (String × PackageRow) := []
  /-- `capability_provider_selection`. -/
  selections : List (String × String) := []
  /-- The installed files, by id and version. -/
  files : String → String → Option Bundle := fun _ _ => none

/-- `buildProvider` reads the data of a fixture. -/
def Bundle.builds (b : Bundle) : Bool :=
  b.capabilities.all fun c => c.implementation ≠ .fixture false

/-- `_register`. -/
def Registries.registerBuilt (r : Registries) (b : Bundle) : Except String Registries :=
  if b.builds then r.registerBundle b else .error "a fixture is not JSON"

namespace Store

variable (s : Store)

/-- `getPackageRow`, of an installed package. -/
def installedRow (id : String) : Option PackageRow :=
  (Assoc.get? s.rows id).filter (·.installed)

/-- The files with those of a version replaced. -/
def writeFiles (id version : String) (files : Option Bundle) : String → String → Option Bundle :=
  fun id' version' => if id' = id ∧ version' = version then files else s.files id' version'

def upsertPackage (manifest : Manifest) (version : String) (enabled : Bool) : Store :=
  { s with rows := Assoc.assign manifest.id ⟨manifest, some version, true, enabled⟩ s.rows }

/-- `markPackageUninstalled`. -/
def markUninstalled (id : String) : Store :=
  { s with rows := s.rows.map fun e =>
      if e.1 = id then (e.1, { e.2 with installed := false, enabled := false, installPath := none })
      else e }

/-- What `install` does where the package could not be registered: the version that was installed
before is registered again, from its files. -/
def restorePrevious (id : String) (previous : Option PackageRow) : Store :=
  match previous.bind fun row => row.installPath.bind fun version =>
      (s.files id version).map fun b => (row, version, b) with
  | some (row, version, b) =>
    let s := { s.upsertPackage row.manifest version true with registries := s.registries }
    match s.registries.registerBuilt b with
    | .ok registries => { s with registries }
    | .error _ => s
  | none => s.markUninstalled id

/-- `install`, of a package that could be fetched and read. -/
def install (b : Bundle) : Store :=
  if s.registries.check b ≠ [] then s
  else
    let previous := s.installedRow b.id
    let copied := { s with files := s.writeFiles b.id b.manifest.version (some b) }
    let s' := copied.upsertPackage b.manifest b.manifest.version
      ((previous.map (·.enabled)).getD true)
    match s'.registries.registerBuilt b with
    | .ok registries =>
      match previous.bind (·.installPath) with
      | some version =>
        if version ≠ b.manifest.version then
          { s' with registries, files := s'.writeFiles b.id version none }
        else { s' with registries }
      | none => { s' with registries }
    | .error _ => s'.restorePrevious b.id previous

def uninstall (id : String) (force : Bool) : Store :=
  match s.installedRow id with
  | none => s
  | some _ =>
    if s.registries.dependentsOf id ≠ [] ∧ force = false then s
    else
      let s := { s with registries := s.registries.unregisterPackage id }
      { s.markUninstalled id with
        files := fun id' version => if id' = id then none else s.files id' version }

/-- `saveProviderSelection`. -/
def saveSelection (capability : String) : Option String → Store
  | none => { s with selections := s.selections.filter fun e => e.1 ≠ capability }
  | some provider => { s with selections := Assoc.assign capability provider s.selections }

def selectProvider (capability : String) (provider : Option String) : Store :=
  match s.registries.capabilities.select capability provider with
  | .ok capabilities =>
    { s with registries := { s.registries with capabilities } }.saveSelection capability provider
  | .error _ => s

end Store

/-- One pass over the rows that are pending: the registries, and the rows to try again. -/
def loadPass (files : String → String → Option Bundle) :
    List PackageRow → Registries → Registries × List PackageRow
  | [], r => (r, [])
  | row :: rows, r =>
    match (row.installPath.bind (files row.manifest.id)).map r.registerBuilt with
    | some (.ok r') => loadPass files rows r'
    | _ => ((loadPass files rows r).1, row :: (loadPass files rows r).2)

/-- The passes, as long as one makes progress and there is something pending. -/
def loadPasses (files : String → String → Option Bundle) :
    ℕ → List PackageRow → Registries → Registries × List PackageRow
  | 0, pending, r => (r, pending)
  | n + 1, pending, r =>
    let (r', retry) := loadPass files pending r
    if retry.length < pending.length then loadPasses files n retry r' else (r', retry)

def Store.listPackageRows (s : Store) : List PackageRow :=
  ((s.rows.filter fun e => e.2.installed).mergeSort fun e e' => e.1 ≤ e'.1).map Prod.snd

/-- Selecting the stored providers that are still offered. -/
def applySelections (r : CapabilityRegistry) (selections : List (String × String)) :
    CapabilityRegistry :=
  selections.foldl (fun r e =>
    match r.select e.1 (some e.2) with
    | .ok r' => r'
    | .error _ => r) r

/-- `loadInstalled`, from the registries of the core. -/
def loadInstalled (core : Core) (s : Store) : Registries :=
  let rows := s.listPackageRows
  let r := (loadPasses s.files rows.length rows core.registries).1
  { r with capabilities := applySelections r.capabilities s.selections }

/-- An operation of the owner. -/
inductive Operation where
  | install (b : Bundle)
  | uninstall (id : String) (force : Bool := false)
  | select (capability : String) (provider : Option String)

/-- What an operation leaves, whether it succeeds or not. -/
def Store.perform (s : Store) : Operation → Store
  | .install b => s.install b
  | .uninstall id force => s.uninstall id force
  | .select capability provider => s.selectProvider capability provider

/-- The manager, from the registries of the core. -/
def manager (core : Core) : Machine Store Operation :=
  .ofPerform { registries := core.registries } fun s op => some (s.perform op)

end U2os.Server.Packages
