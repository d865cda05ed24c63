import U2os.Lib.FileTree
import U2os.Lib.Script
import U2os.Server.Backup.RecoveryDb

/-!
# The home of a recovery

The files of a restored home and its marker: `backup/recovery-state.js`, and the reading of the
marker in `backup/recovery-quarantine.js`.  A content is what a file parses to, or bytes.  The home
is guarded, so that one process works on it at a time; the process may stop between any two steps.
-/

namespace U2os.Server.Backup

open Script

structure InventoryFile where
  path : List String
  size : ℕ
  hash : String
deriving DecidableEq

/-- What `inventory.json` says. -/
structure Inventory where
  version : ℕ
  id : String
  recoveryId : String
  createdAt : Option ℕ
  files : List InventoryFile
  /-- The size and the hash of the master key. -/
  master : Option (ℕ × String)
  beforeHash : String
  afterHash : String
  counts : Counts
  otherKeys : List String
deriving DecidableEq

/-- The content of a file. -/
inductive Content where
  | bytes (b : List UInt8)
  | marker (m : Marker)
  | database (db : RecoveryDb)
  | inventory (i : Inventory)
  /-- `installation.json`, with its installation id. -/
  | installation (id : Option String)

abbrev Home := FileTree Content

def recoveryFile : List String := [".u2os-recovery.json"]

/-- The application database. -/
def databaseFile : List String := ["db", "u2os.sqlite"]

/-- `assertExecutableHome`: any marker forbids execution. -/
def assertExecutableHome (home : Home) : Bool := (home.node? recoveryFile).isNone

def readInstallationIdentity (home : Home) : Option String :=
  match home.read? ["config", "installation.json"] with
  | some (.installation id) => id
  | _ => none

/-- The marker belongs to a verified inactive home. -/
def Marker.isInactive (m : Marker) (identity : Option String) : Bool :=
  m.version = 1 && m.status = "inactive" && m.database = "ok" && m.verifiedAt.isSome &&
    m.installationId.isSome && m.installationId = identity && m.recoveryId.all isUuid

/-- `readInactiveRecoveryMarker`; `none` where it refuses. -/
def readInactiveRecoveryMarker (home : Home) : Option Marker :=
  match home.read? recoveryFile with
  | some (.marker m) => if m.isInactive (readInstallationIdentity home) then some m else none
  | _ => none

/-- The application database, where it is a file in a directory. -/
def openDatabase (home : Home) : Option RecoveryDb :=
  match home.node? ["db"], home.read? databaseFile with
  | some .dir, some (.database db) => some db
  | _, _ => none

/-- A committed transaction. -/
def commit (f : RecoveryDb → RecoveryDb) (home : Home) : Home :=
  match home.read? databaseFile with
  | some (.database db) => home.set databaseFile (.file (.database (f db)))
  | _ => home

/-- `[A-Za-z0-9]+`. -/
def isSuffix (s : List Char) : Bool := !s.isEmpty && s.all Char.isAlphanum

/-- What `mkdtemp` appends to a prefix. -/
abbrev Suffix := { s : String // isSuffix s.toList = true }

/-- The name is the prefix with what `mkdtemp` appends to it. -/
def isStageName (stage name : String) : Bool :=
  stage.toList.isPrefixOf name.toList && isSuffix (name.toList.drop stage.toList.length)

theorem isStageName_append (stage : String) (suffix : Suffix) :
    isStageName stage (stage ++ suffix.1) = true := by
  simp [isStageName, String.toList_append, suffix.2]

/-- The prefixes of staging directories, and how deep in the home they are. -/
def stages : List (ℕ × String) :=
  [(0, ".u2os-recovery-stage-"), (3, ".inventory-stage-"), (4, ".copy-stage-")]

/-- The path is that of a staging directory, or in one. -/
def isStaging (p : List String) : Bool :=
  stages.any fun x => p[x.1]?.any (isStageName x.2) &&
    (x.1 = 0 || p.head? = some "recovery-review")

/-- The homes differ in staging directories only. -/
def SameBut (home home' : Home) : Prop :=
  ∀ p, isStaging p = false → home'.node? p = home.node? p

theorem SameBut.refl (home : Home) : SameBut home home := fun _ _ => rfl

theorem SameBut.trans {a b c : Home} (h : SameBut a b) (h' : SameBut b c) : SameBut a c :=
  fun p hp => (h' p hp).trans (h p hp)

theorem sameBut_set (home : Home) {p : List String} (hp : isStaging p = true) (n : Node Content) :
    SameBut home (home.set p n) := by
  intro x hx
  rw [FileTree.node?_set, if_neg]
  rintro rfl
  rw [hp] at hx
  cases hx

theorem isStaging_of_isPrefix {p q : List String} (h : p <+: q) (hp : isStaging p = true) :
    isStaging q = true := by
  obtain ⟨rest, rfl⟩ := h
  obtain ⟨x, hx, hstage⟩ := List.any_eq_true.1 hp
  refine List.any_eq_true.2 ⟨x, hx, ?_⟩
  rw [Bool.and_eq_true, Option.any_eq_true] at hstage ⊢
  obtain ⟨⟨name, hname, hstaged⟩, hhead⟩ := hstage
  obtain ⟨hlt, rfl⟩ := List.getElem?_eq_some_iff.1 hname
  refine ⟨⟨p[x.1], ?_, hstaged⟩, ?_⟩
  · rw [List.getElem?_append_left hlt, List.getElem?_eq_getElem hlt]
  · rw [List.head?_append_of_ne_nil _ (List.ne_nil_of_length_pos (Nat.zero_lt_of_lt hlt))]
    exact hhead

theorem sameBut_removeTree (home : Home) {p : List String} (hp : isStaging p = true) :
    SameBut home (home.removeTree p) := by
  intro x hx
  rw [FileTree.node?_removeTree, if_neg]
  intro h
  rw [isStaging_of_isPrefix h hp] at hx
  cases hx

theorem sameBut_rename {home : Home} {p q : List String} {n : Node Content}
    (hn : home.node? p = some n) (hp : isStaging p = true) :
    SameBut (home.set q n) (home.rename p q) := by
  intro x hx
  rw [FileTree.node?_rename hn, FileTree.node?_set]
  split_ifs with h1 h2
  · rfl
  · subst h2
    rw [hp] at hx
    cases hx
  · rfl

/-- Two homes stay the same but for one place if both are written at another. -/
theorem SameBut.set {a b : Home} (h : SameBut a b) (p : List String) (n : Node Content) :
    SameBut (a.set p n) (b.set p n) := by
  intro x hx
  rw [FileTree.node?_set, FileTree.node?_set, h x hx]

/-- A file is written in a staging directory, and takes its place there if it is ready. -/
def publishFile (staging : List String) (name : String) (source : Home → Option Content)
    (ready : Home → Bool) (target : List String) : Script Home Unit := do
  modify fun home => home.set staging .dir
  cleanup
    (do
      let home ← get
      let content ← ofOption (source home)
      modify fun home => home.set (staging ++ [name]) (.file (.bytes []))
      modify fun home => home.set (staging ++ [name]) (.file content)
      let home ← get
      ensure (ready home = true)
      modify fun home => home.rename (staging ++ [name]) target)
    (modify fun home => home.removeTree staging)

/-- A file is published whole: it is written aside, and then renamed. -/
theorem wp_publishFile {C : Home → Prop} {Q : Option Unit → Home → Prop} {home : Home}
    {staging target : List String} {name : String} {source : Home → Option Content}
    {ready : Home → Bool} (content : Content) (hs : ∀ rest, isStaging (staging ++ rest) = true)
    (hsource : ∀ t, SameBut home t → source t = some content)
    (hready : ∀ t, SameBut home t → t.node? (staging ++ [name]) = some (.file content) →
      ready t = true)
    (hold : ∀ t, SameBut home t → C t)
    (hnew : ∀ t, SameBut (home.set target (.file content)) t → C t ∧ Q (some ()) t) :
    (publishFile staging name source ready target).wp C Q home := by
  have hdir : isStaging staging = true := by simpa using hs []
  have h1 := sameBut_set home hdir .dir
  have h2 := h1.trans (sameBut_set _ (hs [name]) (.file (.bytes [])))
  have h3 := h2.trans (sameBut_set _ (hs [name]) (.file content))
  have h4 : SameBut (home.set target (.file content)) (FileTree.rename _ (staging ++ [name]) target) :=
    (h3.set _ _).trans (sameBut_rename (by simp) (hs [name]))
  have h5 := h4.trans (sameBut_removeTree _ hdir)
  unfold publishFile
  rw [wp_bind, wp_modify]
  refine ⟨hold _ (.refl _), hold _ h1, wp_cleanup (wp_get_bind ?_)⟩
  rw [hsource _ h1]
  refine wp_ofOption_bind nofun fun _ hcontent => ?_
  obtain rfl := Option.some.inj hcontent
  rw [wp_bind, wp_modify]
  refine ⟨hold _ h1, hold _ h2, ?_⟩
  rw [wp_bind, wp_modify]
  refine ⟨hold _ h2, hold _ h3, wp_get_bind (wp_ensure_bind (fun hnot => ?_) fun _ => ?_)⟩
  · exact absurd (hready _ h3 (by simp)) hnot
  rw [wp_modify]
  refine ⟨hold _ h3, (hnew _ h4).1, ?_⟩
  rw [wp_modify]
  exact ⟨(hnew _ h4).1, (hnew _ h5).1, rfl, (hnew _ h5).2⟩

def writeRecoveryState (suffix : Suffix) (state : Marker) : Script Home Unit :=
  publishFile [".u2os-recovery-stage-" ++ suffix.1] "marker.json" (fun _ => some (.marker state))
    (fun _ => true) recoveryFile

theorem isStaging_recoveryStage (suffix : Suffix) (rest : List String) :
    isStaging ((".u2os-recovery-stage-" ++ suffix.1) :: rest) = true := by
  simp [isStaging, stages, isStageName_append]

theorem wp_writeRecoveryState {C : Home → Prop} {Q : Option Unit → Home → Prop} {home : Home}
    {suffix : Suffix} {state : Marker} (hold : ∀ t, SameBut home t → C t)
    (hnew : ∀ t, SameBut (home.set recoveryFile (.file (.marker state))) t → C t ∧ Q (some ()) t) :
    (writeRecoveryState suffix state).wp C Q home :=
  wp_publishFile _ (isStaging_recoveryStage suffix) (fun _ _ => rfl) (fun _ _ _ => rfl) hold hnew

end U2os.Server.Backup
