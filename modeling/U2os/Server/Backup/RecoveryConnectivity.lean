import U2os.Server.Backup.RecoveryQuarantine

/-!
# The review of archived connectivity

`reviewRecoveryConnectivity` of `backup/recovery-connectivity.js`: the files that hold credentials
and the configuration of connectors are moved to a private folder, and then the accounts and the
devices of the database are disconnected.  What is to be done is written down first, in a marker and
an inventory, so that a review that was interrupted goes on where it stopped.

Modes and owners of files are left out; the hash is a parameter.
-/

namespace U2os.Server.Backup

open Script

def maxFile : ℕ := 1024 * 1024

def maxTotal : ℕ := 64 * maxFile

def maxFiles : ℕ := 1000

/-- `/^[0-9a-f]{64}$/`. -/
def isSha (s : String) : Bool := s.toList.length = 64 && s.toList.all isHex

/-- The columns of an account that are hashed. -/
structure AccountState where
  id : String
  status : String
  credentialRevision : ℕ
  smtpInstanceId : Option String
  smtpPairInitialized : ℕ
deriving DecidableEq

/-- `digest`, of bytes and of the rows of accounts and devices, and `localeCompare`. -/
structure Digests where
  bytes : List UInt8 → String
  rows : List AccountState × List DeviceRow → String
  before : List String → List String → Bool
  isSha_bytes : ∀ b, isSha (bytes b) = true
  isSha_rows : ∀ x, isSha (rows x) = true

/-- A name without a leading `._`. -/
def ordinary (name : String) : List Char :=
  if "._".toList.isPrefixOf name.toList then name.toList.drop 2 else name.toList

/-- `/^[A-Za-z0-9_.-]+\.enc\.json$/`. -/
def isSecretName (name : List Char) : Bool :=
  ".enc.json".toList.isSuffixOf name && decide (9 < name.length) &&
    name.all fun c => c.isAlphanum || ['_', '.', '-'].contains c

def allowedFile : List String → Bool
  | ["config", name] =>
    ["config.json".toList, "connectors.yaml".toList].contains (ordinary name)
  | ["credentials", name] =>
    ordinary name = "device-connect-token.key".toList || name = "._master.key" ||
      isSecretName (ordinary name)
  | _ => false

/-- The key that the credentials are encrypted with; it is not moved. -/
def masterKey : List String := ["credentials", "master.key"]

/-- The files of the configuration that are moved. -/
def configFiles : List (List String) :=
  ["config.json", "connectors.yaml", "._config.json", "._connectors.yaml"].map (["config", ·])

def isDirectory (home : Home) (p : List String) : Bool := (home.node? p).any Node.isDir

/-- `fingerprint` does not refuse: there is nothing, or a small file. -/
def isPlain (home : Home) (p : List String) : Bool :=
  match home.node? p with
  | none => true
  | some (.file (.bytes b)) => b.length ≤ maxFile
  | some _ => false

section Review

variable (D : Digests)

/-- `fingerprint`, where it does not refuse. -/
def fingerprint (home : Home) (p : List String) : Option (ℕ × String) :=
  match home.node? p with
  | some (.file (.bytes b)) => some (b.length, D.bytes b)
  | _ => none

/-- The file with its size and hash. -/
def fileEntry (home : Home) (p : List String) : Option InventoryFile :=
  (fingerprint D home p).map fun x => ⟨p, x.1, x.2⟩

/-- The names in the directory of credentials. -/
def credentialNames (home : Home) : List String :=
  if isDirectory home ["credentials"] then home.readdir ["credentials"] else []

/-- The paths of credentials and of configuration. -/
def activePaths (home : Home) : List (List String) :=
  ((credentialNames home).filter (· ≠ "master.key")).map (["credentials", ·]) ++ configFiles

/-- The files at these paths. -/
def listedFiles (home : Home) : List InventoryFile := (activePaths home).filterMap (fileEntry D home)

/-- The number and the size of files are within the limits. -/
def withinLimits (files : List InventoryFile) : Bool :=
  files.length ≤ maxFiles && (files.map InventoryFile.size).sum ≤ maxTotal

/-- The directories and files are as they may be. -/
def isSupportedStorage (home : Home) : Bool :=
  ((home.node? ["credentials"]).all Node.isDir && isDirectory home ["config"]) &&
    ((credentialNames home).all fun name => name = "master.key" || allowedFile ["credentials", name]) &&
    isPlain home masterKey && (activePaths home).all (isPlain home)

/-- `activeFiles`; `none` where it refuses. -/
def activeFiles (home : Home) : Option (List InventoryFile) :=
  if isSupportedStorage home && withinLimits (listedFiles D home) then
    some ((listedFiles D home).insertionSort fun x y => D.before x.path y.path = true)
  else none

/-- The largest integer that is safe. -/
def maxSafeInteger : ℕ := 2 ^ 53 - 1

/-- What is hashed of an account. -/
def ConnectionInstance.state (c : ConnectionInstance) : AccountState where
  id := c.id
  status := c.status
  credentialRevision := c.credentialRevision
  smtpInstanceId := c.smtpInstanceId
  smtpPairInitialized := c.smtpPairInitialized

/-- The account, as the review is to leave it. -/
def AccountState.disconnected (a : AccountState) : AccountState :=
  { a with
    status := "disconnected"
    credentialRevision := a.credentialRevision + 1
    smtpInstanceId := none
    smtpPairInitialized := 1 }

/-- The device, as the review is to leave it. -/
def DeviceRow.revoked (d : DeviceRow) : DeviceRow := { d with status := "offline", trust := "revoked" }

/-- The accounts that are not deleted, by their ids. -/
def RecoveryDb.accounts (db : RecoveryDb) : List AccountState :=
  ((db.connections.rows.filter fun (c : ConnectionInstance) => c.deletedAt.isNone).map
    ConnectionInstance.state).insertionSort fun x y => x.id ≤ y.id

/-- The devices, by their ids. -/
def RecoveryDb.deviceRows (db : RecoveryDb) : List DeviceRow :=
  db.devices.rows.insertionSort fun x y => x.id ≤ y.id

/-- The columns are short, and the revision can be raised. -/
def AccountState.isSupported (a : AccountState) : Bool :=
  a.id.length ≤ 512 && a.status.length ≤ 64 && a.smtpInstanceId.all (fun id => id.length ≤ 512) &&
    a.credentialRevision < maxSafeInteger

/-- The columns are short. -/
def DeviceRow.isSupported (d : DeviceRow) : Bool :=
  d.id.length ≤ 512 && d.status.length ≤ 64 && d.trust.length ≤ 64

/-- What `databaseState` gives. -/
structure DatabaseState where
  hash : String
  afterHash : String
  accounts : ℕ
  devices : ℕ
deriving DecidableEq

/-- `databaseState`; `none` where it refuses. -/
def databaseState (db : RecoveryDb) : Option DatabaseState :=
  if (db.accounts.all AccountState.isSupported && db.deviceRows.all DeviceRow.isSupported) &&
      (db.accounts.length ≤ 10000 && db.deviceRows.length ≤ 10000) then
    some {
      hash := D.rows (db.accounts, db.deviceRows)
      afterHash :=
        D.rows (db.accounts.map AccountState.disconnected, db.deviceRows.map DeviceRow.revoked)
      accounts := db.accounts.length
      devices := db.deviceRows.length }
  else none

/-- `EVENT`. -/
def connectivityEventType : String := "system.recovery_connectivity_quarantined"

/-- The account is disconnected. -/
def ConnectionInstance.disconnected (c : ConnectionInstance) : ConnectionInstance :=
  { c with
    status := "disconnected"
    credentialRevision := c.credentialRevision + 1
    smtpInstanceId := none
    smtpPairInitialized := 1
    lastError := some "Archived connection requires fresh owner configuration after recovery" }

/-- The two updates of the transaction. -/
def disconnect (db : RecoveryDb) : RecoveryDb :=
  { db with
    connections := db.connections.updateWhere (fun c => c.deletedAt.isNone)
      ConnectionInstance.disconnected fun _ => rfl
    devices := db.devices.updateWhere (fun _ => True) DeviceRow.revoked fun _ => rfl }

/-- The transaction of `reviewRecoveryConnectivity`. -/
def quarantineConnectivity (db : RecoveryDb) (recoveryId : String) (receipt : ConnectivityReceipt) :
    RecoveryDb :=
  { disconnect db with
    events := db.events ++
      [⟨connectivityEventType, "system:recovery", recoveryId, .connectivity receipt⟩] }

/-- The checkpoints of the review. -/
def connectivityEvents (db : RecoveryDb) (marker : Marker) : List RecoveryEvent :=
  db.events.filter fun e => e.type = connectivityEventType && e.source = "system:recovery" &&
    e.subjectId = marker.recoveryId.getD ""

def summary (state : DatabaseState) (files : List InventoryFile) : Counts :=
  [("accounts", state.accounts), ("devices", state.devices),
    ("credentialFiles", files.countP fun x => x.path.head? = some "credentials"),
    ("runtimeConfigurationFiles", files.countP fun x => x.path.head? = some "config")]

/-- An entry of an inventory is as it may be. -/
def InventoryFile.isValid (x : InventoryFile) : Bool :=
  allowedFile x.path && x.size ≤ maxFile && isSha x.hash

/-- The counts of an inventory are those of its files. -/
def Inventory.hasCounts (i : Inventory) : Bool :=
  i.counts.length = 4 && (i.counts.lookup "accounts").any (· ≤ 10000) &&
    (i.counts.lookup "devices").any (· ≤ 10000) &&
    i.counts.lookup "credentialFiles" =
      some (i.files.countP fun x => x.path.head? = some "credentials") &&
    i.counts.lookup "runtimeConfigurationFiles" =
      some (i.files.countP fun x => x.path.head? = some "config")

/-- The checks of `readInventory`. -/
def Inventory.isValid (i : Inventory) (marker : Marker) : Bool :=
  (i.version = 1 && some i.id = marker.connectivityPreparation.map Preparation.id &&
    some i.recoveryId = marker.recoveryId && isUuid i.id && isUuid i.recoveryId) &&
    (i.otherKeys.isEmpty && i.createdAt.isSome && isSha i.beforeHash && isSha i.afterHash) &&
    (withinLimits i.files && i.files.all InventoryFile.isValid &&
      (i.files.map InventoryFile.path).Nodup) &&
    i.hasCounts && i.master.all fun m => m.1 = 32 && isSha m.2

/-- The private directory of a review. -/
def reviewDirectory (marker : Marker) : List String :=
  ["recovery-review", marker.recoveryId.getD "",
    (marker.connectivityPreparation.map Preparation.id).getD ""]

/-- The inventory of a review. -/
def inventoryFile (marker : Marker) : List String := reviewDirectory marker ++ ["inventory.json"]

/-- `readInventory`; `none` where it refuses.  An inventory of `MAX_FILES` entries is no longer than
`MAX_FILE`. -/
def readInventory (home : Home) (marker : Marker) : Option Inventory :=
  match home.read? (inventoryFile marker) with
  | some (.inventory i) => if i.isValid marker then some i else none
  | _ => none

def Inventory.receipt (i : Inventory) : ConnectivityReceipt where
  id := i.id
  appliedAt := i.createdAt.getD 0
  counts := i.counts

/-- The file at a path, if there is one, is the one of the entry. -/
def isSame (home : Home) (p : List String) (x : InventoryFile) : Bool :=
  isPlain home p && fingerprint D home p = some (x.size, x.hash)

/-- An entry is at its path, in the review folder or at both. -/
def isKept (home : Home) (dir : List String) (x : InventoryFile) : Bool :=
  (home.node? (dir ++ x.path.dropLast)).all Node.isDir &&
    ((home.node? x.path).isSome || (home.node? (dir ++ x.path)).isSome) &&
    ((home.node? x.path).isNone || isSame D home x.path x) &&
    ((home.node? (dir ++ x.path)).isNone || isSame D home (dir ++ x.path) x)

def checkFiles (home : Home) (dir : List String) (inventory : Inventory) : Bool :=
  (activeFiles D home).any (fun current => current.all fun x => inventory.files.contains x) &&
    isPlain home masterKey && fingerprint D home masterKey = inventory.master &&
    inventory.files.all (isKept D home dir)

/-- What is read before anything is written. -/
structure Survey where
  marker : Marker
  db : RecoveryDb
  work : WorkReceipt
  state : DatabaseState
  files : List InventoryFile
  master : Option (ℕ × String)

def Survey.counts (s : Survey) : Counts := summary s.state s.files

/-- The credentials can be decrypted, or there are none. -/
def hasMaster (master : Option (ℕ × String)) (files : List InventoryFile) : Bool :=
  master.all (fun m => m.1 = 32) && (master.isSome ||
    !files.any fun x => ".enc.json".toList.isSuffixOf (x.path.getLast?.getD "").toList)

/-- The checks before anything is written; `none` where one of them refuses. -/
def survey (home : Home) : Option Survey := do
  let marker ← readInactiveRecoveryMarker home
  let db ← openDatabase home
  guard (db.supported = true ∧ db.supportedConnectivity = true)
  let work ← (readWorkQuarantineCheckpoint db marker).join
  guard (marker.workQuarantine.map WorkReceipt.id = some work.id ∧ marker.recoveryId.isSome = true)
  let state ← databaseState D db
  let files ← activeFiles D home
  let master := fingerprint D home masterKey
  guard (hasMaster master files = true)
  return ⟨marker, db, work, state, files, master⟩

/-- The marker with a preparation. -/
def prepared (fresh : Fresh) (marker : Marker) : Marker :=
  { marker with
    connectivityPreparation := some (marker.connectivityPreparation.getD ⟨fresh.preparationId.1, []⟩) }

/-- There is nothing, or a directory. -/
def isFree (home : Home) (p : List String) : Bool := (home.node? p).all Node.isDir

/-- The preparation is written to the marker. -/
def prepare (fresh : Fresh) (marker : Marker) : Script Home Unit := do
  let home ← get
  ensure (isFree home ["recovery-review"] = true ∧
    isFree home ["recovery-review", marker.recoveryId.getD ""] = true)
  ensure ((home.node? (reviewDirectory (prepared fresh marker))).isNone = true)
  writeRecoveryState (fresh.suffix 0) (prepared fresh marker)

/-- `directory`, which creates it. -/
def makeDirectory (p : List String) : Script Home Unit := do
  let home ← get
  when ((home.node? p).isNone = true) (modify fun home => home.set p .dir)
  let home ← get
  ensure (isDirectory home p = true)

/-- The directories of `privateDirectory`. -/
def reviewDirectories (marker : Marker) : List (List String) :=
  [(reviewDirectory marker).take 1, (reviewDirectory marker).take 2, reviewDirectory marker]

def privateDirectory (marker : Marker) (create : Bool) : Script Home Unit :=
  if create then forEach (reviewDirectories marker) makeDirectory
  else do
    let home ← get
    ensure ((reviewDirectories marker).all (isDirectory home) = true)

def publishInventory (suffix : Suffix) (marker : Marker) (inventory : Inventory) :
    Script Home Unit :=
  publishFile (reviewDirectory marker ++ [".inventory-stage-" ++ suffix.1]) "inventory.json"
    (fun _ => some (.inventory inventory))
    (fun home => (home.node? (inventoryFile marker)).isNone) (inventoryFile marker)

def Survey.inventory (s : Survey) (now : ℕ) : Inventory where
  version := 1
  id := (s.marker.connectivityPreparation.map Preparation.id).getD ""
  recoveryId := s.marker.recoveryId.getD ""
  createdAt := some now
  files := s.files
  master := s.master
  beforeHash := s.state.hash
  afterHash := s.state.afterHash
  counts := s.counts
  otherKeys := []

/-- An inventory is there, or it is written. -/
def ensureInventory (apply : Bool) (fresh : Fresh) (s : Survey) : Script Home Unit := do
  let home ← get
  when ((home.node? (inventoryFile s.marker)).isNone = true) (do
    ensure (apply = true ∧ s.marker.connectivityQuarantine = none)
    ensure ((home.readdir (reviewDirectory s.marker)).all (isStageName ".inventory-stage-") = true)
    publishInventory (fresh.suffix 1) s.marker (s.inventory fresh.now))

/-- A file is copied to the review folder. -/
def copyFile (suffix : Suffix) (source held : List String) (x : InventoryFile) :
    Script Home Unit :=
  publishFile (held.dropLast ++ [".copy-stage-" ++ suffix.1]) "payload" (fun home => home.read? source)
    (fun home =>
      isSame D home (held.dropLast ++ [".copy-stage-" ++ suffix.1] ++ ["payload"]) x &&
        (home.node? held).isNone) held

/-- A file is moved to the review folder. -/
def holdFile (suffix : Suffix) (dir : List String) (x : InventoryFile) : Script Home Unit := do
  let held := dir ++ x.path
  makeDirectory held.dropLast
  let home ← get
  when ((home.node? held).isNone = true) (copyFile D suffix x.path held x)
  let home ← get
  ensure (isSame D home held x = true)
  when ((home.node? x.path).isSome = true) (do
    ensure (isSame D home x.path x = true)
    modify fun home => home.remove x.path)

/-- What `reviewRecoveryConnectivity` returns. -/
structure ConnectivityReview where
  alreadyApplied : Bool
  inProgress : Bool
  counts : Counts
deriving DecidableEq

/-- The part that moves the files and changes the database. -/
def applyConnectivity (fresh : Fresh) (s : Survey) (inventory : Inventory) :
    Script Home ConnectivityReview := do
  forEach inventory.files (holdFile D (fresh.suffix 2) (reviewDirectory s.marker))
  let home ← get
  ensure (checkFiles D home (reviewDirectory s.marker) inventory = true)
  let db ← ofOption (openDatabase home)
  ensure ((databaseState D db).map DatabaseState.hash = some inventory.beforeHash ∧
    (readWorkQuarantineCheckpoint db s.marker).join.map WorkReceipt.id = some s.work.id)
  ensure ((databaseState D (disconnect db)).map DatabaseState.hash = some inventory.afterHash)
  modify (commit fun db =>
    quarantineConnectivity db (s.marker.recoveryId.getD "") inventory.receipt)
  writeRecoveryState (fresh.suffix 3)
    { s.marker with connectivityQuarantine := some inventory.receipt }
  return ⟨false, false, inventory.counts⟩

/-- The part that finds a checkpoint. -/
def confirmConnectivity (apply : Bool) (fresh : Fresh) (s : Survey) (inventory : Inventory) :
    Script Home ConnectivityReview := do
  ensure (s.files = [] ∧ s.state.hash = inventory.afterHash)
  when (apply = true ∧ s.marker.connectivityQuarantine.map ConnectivityReceipt.id ≠
      some inventory.receipt.id)
    (writeRecoveryState (fresh.suffix 3)
      { s.marker with connectivityQuarantine := some inventory.receipt })
  return ⟨true, false, inventory.counts⟩

/-- The part after the inventory. -/
def reviewInventory (apply : Bool) (fresh : Fresh) (s : Survey) :
    Script Home ConnectivityReview := do
  let home ← get
  let inventory ← ofOption (readInventory home s.marker)
  ensure (checkFiles D home (reviewDirectory s.marker) inventory = true)
  match connectivityEvents s.db s.marker with
  | [] => do
    ensure (s.marker.connectivityQuarantine = none)
    ensure (s.state.hash = inventory.beforeHash)
    if apply then applyConnectivity D fresh s inventory
    else return ⟨false, true, inventory.counts⟩
  | [e] => do
    ensure (e.data = .connectivity inventory.receipt)
    confirmConnectivity apply fresh s inventory
  | _ => refuse

/-- The part after the preparation. -/
def reviewPrepared (apply : Bool) (fresh : Fresh) (s : Survey) :
    Script Home ConnectivityReview := do
  privateDirectory s.marker apply
  ensureInventory apply fresh s
  reviewInventory D apply fresh s

/-- The preparation of a marker, if it has one, is as it may be. -/
def Preparation.isValid (x : Preparation) : Bool := isUuid x.id && x.otherKeys.isEmpty

def reviewRecoveryConnectivity (apply : Bool) (fresh : Fresh) : Script Home ConnectivityReview := do
  let home ← get
  let s ← ofOption (survey D home)
  if apply = false ∧ s.marker.connectivityPreparation = none then
    return ⟨false, false, s.counts⟩
  else do
    ensure (s.marker.connectivityPreparation.all Preparation.isValid = true)
    when (s.marker.connectivityPreparation = none) (prepare fresh s.marker)
    reviewPrepared D apply fresh { s with marker := prepared fresh s.marker }

end Review

end U2os.Server.Backup
