import Mathlib.Algebra.Order.BigOperators.Group.List
import U2os.Server.Backup.RecoveryConnectivity

/-!
# The phases of a review of connectivity

What a home looks like between the first step of the review and the last one, and what is read
there.  Every phase is the home before the review, with another marker and another database, apart
from the review folder and the files that are moved there.

## Main results

* `survey_congr` : the survey reads the marker, the database, the credentials and the configuration.
-/

namespace U2os.Server.Backup

open Script List InventoryFile

/-! ### What is read -/

section Files

variable {D : Digests} {a b home : Home} {p : List String} {x : InventoryFile}

/-- The homes have the same credentials and the same configuration. -/
def SameActive (a b : Home) : Prop :=
  ∀ p, p.head? = some "credentials" ∨ p.head? = some "config" → b.node? p = a.node? p

theorem SameActive.credentialNames (h : SameActive a b) : credentialNames b = credentialNames a := by
  have hread : b.readdir ["credentials"] = a.readdir ["credentials"] :=
    FileTree.readdir_congr fun name => by rw [h _ (.inl rfl)]
  unfold Backup.credentialNames isDirectory
  rw [h _ (.inl rfl), hread]

theorem SameActive.isPlain (h : SameActive a b)
    (hp : p.head? = some "credentials" ∨ p.head? = some "config") : isPlain b p = isPlain a p := by
  unfold Backup.isPlain
  rw [h p hp]

theorem SameActive.fingerprint (h : SameActive a b)
    (hp : p.head? = some "credentials" ∨ p.head? = some "config") :
    fingerprint D b p = fingerprint D a p := by
  unfold Backup.fingerprint
  rw [h p hp]

theorem head?_of_mem_activePaths (h : p ∈ activePaths home) :
    p.head? = some "credentials" ∨ p.head? = some "config" := by
  rcases mem_append.1 h with h | h
  · obtain ⟨name, _, rfl⟩ := mem_map.1 h
    exact .inl rfl
  · obtain ⟨name, _, rfl⟩ := mem_map.1 h
    exact .inr rfl

theorem SameActive.activePaths (h : SameActive a b) : activePaths b = activePaths a := by
  unfold Backup.activePaths
  rw [h.credentialNames]

theorem SameActive.listedFiles (h : SameActive a b) : listedFiles D b = listedFiles D a := by
  unfold Backup.listedFiles
  rw [h.activePaths]
  refine filterMap_congr fun p hp => ?_
  unfold fileEntry
  rw [h.fingerprint (head?_of_mem_activePaths hp)]

theorem SameActive.isSupportedStorage (h : SameActive a b) :
    isSupportedStorage b = isSupportedStorage a := by
  have hplain : (Backup.activePaths a).all (Backup.isPlain b) =
      (Backup.activePaths a).all (Backup.isPlain a) := by
    rw [Bool.eq_iff_iff, all_eq_true, all_eq_true]
    refine forall₂_congr fun p hp => ?_
    rw [h.isPlain (head?_of_mem_activePaths hp)]
  unfold Backup.isSupportedStorage isDirectory
  rw [h _ (.inl rfl), h _ (.inr rfl), h.credentialNames, h.isPlain (.inl rfl), h.activePaths, hplain]

theorem SameActive.activeFiles (h : SameActive a b) : activeFiles D b = activeFiles D a := by
  unfold Backup.activeFiles
  rw [h.isSupportedStorage, h.listedFiles]

theorem fileEntry_eq_some :
    fileEntry D home p = some x ↔
      ∃ c, home.node? p = some (.file (.bytes c)) ∧ x = ⟨p, c.length, D.bytes c⟩ := by
  unfold fileEntry fingerprint
  constructor
  · intro h
    obtain ⟨y, hy, rfl⟩ := Option.map_eq_some_iff.1 h
    split at hy
    · rename_i c hc
      obtain rfl := Option.some.inj hy
      exact ⟨c, hc, rfl⟩
    · cases hy
  · rintro ⟨c, hc, rfl⟩
    rw [hc]
    rfl

theorem mem_listedFiles :
    x ∈ listedFiles D home ↔ x.path ∈ activePaths home ∧ fileEntry D home x.path = some x := by
  unfold listedFiles
  rw [mem_filterMap]
  constructor
  · rintro ⟨p, hp, hx⟩
    obtain ⟨c, hc, rfl⟩ := fileEntry_eq_some.1 hx
    exact ⟨hp, hx⟩
  · rintro ⟨hp, hx⟩
    exact ⟨x.path, hp, hx⟩

theorem nodup_activePaths (home : Home) : (activePaths home).Nodup := by
  have hnames : (credentialNames home).Nodup := by
    unfold credentialNames
    split_ifs
    · exact (perm_insertionSort _ _).nodup_iff.2 FileTree.nodup_names
    · exact nodup_nil
  refine nodup_append.2 ⟨?_, by decide, ?_⟩
  · exact (hnames.filter _).map fun _ _ h => by simpa using h
  · intro p hp q hq
    obtain ⟨name, _, rfl⟩ := mem_map.1 hp
    obtain ⟨name', _, rfl⟩ := mem_map.1 hq
    simp

theorem nodup_listedFiles (D : Digests) (home : Home) :
    ((listedFiles D home).map path).Nodup := by
  have hsub : (listedFiles D home).map path =
      (activePaths home).filter fun p => (fileEntry D home p).isSome := by
    unfold listedFiles
    induction activePaths home with
    | nil => rfl
    | cons p l ih =>
      cases hp : fileEntry D home p with
      | none => simp [hp, ih]
      | some x =>
        obtain ⟨c, _, rfl⟩ := fileEntry_eq_some.1 hp
        simp [hp, ih]
  rw [hsub]
  exact (nodup_activePaths home).filter _

theorem withinLimits_of_subset {l l' : List InventoryFile} (hl : (l.map path).Nodup)
    (hsub : l ⊆ l') (h : withinLimits l' = true) : withinLimits l = true := by
  obtain ⟨k, hperm, hk⟩ := subperm_of_subset (Nodup.of_map _ hl) hsub
  simp only [withinLimits, Bool.and_eq_true, decide_eq_true_eq] at h ⊢
  rw [← hperm.length_eq, ← (hperm.map _).sum_nat]
  exact ⟨hk.length_le.trans h.1, (Sublist.sum_le_sum (hk.map _) (by simp)).trans h.2⟩

theorem activeFiles_eq_some {files : List InventoryFile} (h : activeFiles D home = some files) :
    isSupportedStorage home = true ∧ withinLimits (listedFiles D home) = true ∧
      files.Perm (listedFiles D home) := by
  unfold activeFiles at h
  split_ifs at h with hok
  obtain ⟨hstorage, hlimits⟩ := Bool.and_eq_true_iff.1 hok
  obtain rfl := Option.some.inj h
  exact ⟨hstorage, hlimits, perm_insertionSort _ _⟩

end Files

section Names

variable {p : List String} {marker : Marker}

theorem allowedFile_eq (h : allowedFile p = true) :
    ∃ folder name, p = [folder, name] ∧ (folder = "config" ∨ folder = "credentials") := by
  unfold allowedFile at h
  split at h
  · exact ⟨_, _, rfl, .inl rfl⟩
  · exact ⟨_, _, rfl, .inr rfl⟩
  · cases h

theorem not_mem_tail_of_isStageName {name : String} (h : isStageName ".copy-stage-" name = true) :
    '.' ∉ name.toList.tail := by
  obtain ⟨hpre, hsuffix⟩ := Bool.and_eq_true_iff.1 h
  obtain ⟨rest, hrest⟩ := isPrefixOf_iff_prefix.1 hpre
  rw [← hrest, drop_left] at hsuffix
  rw [← hrest]
  change '.' ∉ "copy-stage-".toList ++ rest
  rw [mem_append, not_or]
  refine ⟨by decide, fun hdot => ?_⟩
  have halnum := all_eq_true.1 (Bool.and_eq_true_iff.1 hsuffix).2 _ hdot
  exact absurd halnum (by decide)

theorem mem_tail_of_ordinary {name : String} (h : '.' ∈ (ordinary name).tail) :
    '.' ∈ name.toList.tail := by
  unfold ordinary at h
  split_ifs at h
  · rw [tail_drop] at h
    exact mem_of_mem_drop (i := 2) (by simpa [drop_tail] using h)
  · exact h

theorem mem_tail_of_isSecretName {name : List Char} (h : isSecretName name = true) :
    '.' ∈ name.tail := by
  simp only [isSecretName, Bool.and_eq_true, decide_eq_true_eq] at h
  obtain ⟨u, rfl⟩ := isSuffixOf_iff_suffix.1 h.1.1
  cases u with
  | nil => exact absurd h.1.2 (by decide)
  | cons c u =>
    rw [cons_append, tail_cons, mem_append]
    exact .inr (by decide)

theorem mem_tail_of_allowedFile {folder name : String} (h : allowedFile [folder, name] = true) :
    '.' ∈ name.toList.tail := by
  unfold allowedFile at h
  split at h
  · rename_i name' heq
    obtain ⟨rfl, rfl⟩ : folder = "config" ∧ name = name' := by simpa using heq
    refine mem_tail_of_ordinary ?_
    simp only [contains_cons, contains_nil, Bool.or_eq_true, beq_iff_eq, Bool.or_false] at h
    rcases h with h | h
    · rw [h]
      decide
    · rw [h]
      decide
  · rename_i name' heq
    obtain ⟨rfl, rfl⟩ : folder = "credentials" ∧ name = name' := by simpa using heq
    simp only [Bool.or_eq_true, decide_eq_true_eq] at h
    rcases h with (h | rfl) | h
    · refine mem_tail_of_ordinary ?_
      rw [h]
      decide
    · decide
    · exact mem_tail_of_ordinary (mem_tail_of_isSecretName h)
  · cases h

theorem isStaging_held (marker : Marker) (h : allowedFile p = true) :
    isStaging (reviewDirectory marker ++ p) = false := by
  obtain ⟨folder, name, rfl, hfolder⟩ := allowedFile_eq h
  have hname : isStageName ".copy-stage-" name = false := by
    rw [Bool.eq_false_iff]
    exact fun hstage => not_mem_tail_of_isStageName hstage (mem_tail_of_allowedFile h)
  have hreview : isStageName ".u2os-recovery-stage-" "recovery-review" = false := by decide
  rcases hfolder with rfl | rfl
  · simp [isStaging, stages, reviewDirectory, hname, hreview,
      show isStageName ".inventory-stage-" "config" = false by decide]
  · simp [isStaging, stages, reviewDirectory, hname, hreview,
      show isStageName ".inventory-stage-" "credentials" = false by decide]

end Names

/-! ### Phases -/

/-- The home, but for the review folder and some paths, is `base` with another marker and another
database. -/
structure Framed (base : Home) (marker : Marker) (db : RecoveryDb) (moved : List (List String))
    (h : Home) : Prop where
  markerAt : h.node? recoveryFile = some (.file (.marker marker))
  databaseAt : h.node? databaseFile = some (.file (.database db))
  frame : ∀ p, isStaging p = false → p.head? ≠ some "recovery-review" → p ∉ moved →
    p ≠ recoveryFile → p ≠ databaseFile → h.node? p = base.node? p

/-- The directories of the review are being made. -/
structure Opened (base : Home) (marker : Marker) (db : RecoveryDb) (h : Home) : Prop
    extends Framed base marker db [] h where
  review : ∀ p, isStaging p = false → p.head? = some "recovery-review" →
    h.node? p = base.node? p ∨
      p ∈ reviewDirectories marker ∧ base.node? p = none ∧ h.node? p = some .dir

/-- The inventory is there, and its files are at their paths, in the review folder or at both. -/
structure Published (base : Home) (marker : Marker) (db : RecoveryDb) (i : Inventory) (h : Home) :
    Prop extends Framed base marker db (i.files.map path) h where
  inventoryAt : h.node? (inventoryFile marker) = some (.file (.inventory i))
  directories : ∀ p ∈ reviewDirectories marker, isDirectory h p = true
  folders : ∀ x ∈ i.files, isFree h (reviewDirectory marker ++ x.path.dropLast) = true
  sources : ∀ x ∈ i.files, h.node? x.path = base.node? x.path ∨ h.node? x.path = none
  held : ∀ x ∈ i.files, h.node? (reviewDirectory marker ++ x.path) = base.node? x.path ∨
    h.node? (reviewDirectory marker ++ x.path) = none ∧ h.node? x.path ≠ none

/-- The file is in the review folder only. -/
def Moved (base : Home) (marker : Marker) (h : Home) (x : InventoryFile) : Prop :=
  h.node? x.path = none ∧ h.node? (reviewDirectory marker ++ x.path) = base.node? x.path

/-- The files are in `base` as the inventory says. -/
structure Inventoried (D : Digests) (base : Home) (i : Inventory) : Prop where
  active : activeFiles D base = some i.files
  master : i.master = fingerprint D base masterKey

section Phases

variable {D : Digests} {base h t : Home} {marker : Marker} {db : RecoveryDb} {i : Inventory}
  {moved : List (List String)} {x : InventoryFile}

theorem file_of_activeFiles {files : List InventoryFile} (hfiles : activeFiles D base = some files)
    (hx : x ∈ files) :
    allowedFile x.path = true ∧ x.size ≤ maxFile ∧ ∃ c, base.node? x.path = some (.file (.bytes c)) ∧
      c.length = x.size ∧ D.bytes c = x.hash := by
  obtain ⟨hstorage, _, hperm⟩ := activeFiles_eq_some hfiles
  obtain ⟨hpath, hentry⟩ := mem_listedFiles.1 (hperm.mem_iff.1 hx)
  obtain ⟨c, hc, hxc⟩ := fileEntry_eq_some.1 hentry
  simp only [isSupportedStorage, Bool.and_eq_true, all_eq_true] at hstorage
  obtain ⟨⟨⟨_, hnames⟩, _⟩, hplain⟩ := hstorage
  refine ⟨?_, ?_, c, hc, (congrArg size hxc).symm,
    (congrArg hash hxc).symm⟩
  · rcases mem_append.1 hpath with h | h
    · obtain ⟨name, hname, heq⟩ := mem_map.1 h
      rw [mem_filter, decide_eq_true_eq] at hname
      rw [← heq]
      simpa [hname.2] using hnames name hname.1
    · have hall : ∀ p ∈ configFiles, allowedFile p = true := by decide
      exact hall _ h
  · have hsmall := hplain _ hpath
    unfold isPlain at hsmall
    rw [hc] at hsmall
    rw [congrArg size hxc]
    simpa using hsmall

theorem Inventoried.file (hi : Inventoried D base i) (hx : x ∈ i.files) :
    allowedFile x.path = true ∧ x.size ≤ maxFile ∧ ∃ c, base.node? x.path = some (.file (.bytes c)) ∧
      c.length = x.size ∧ D.bytes c = x.hash :=
  file_of_activeFiles hi.active hx

theorem isStaging_folder {folder : String} (hfolder : folder = "config" ∨ folder = "credentials")
    (rest : List String) : isStaging (folder :: rest) = false := by
  rcases hfolder with rfl | rfl
  · simp [isStaging, stages, show isStageName ".u2os-recovery-stage-" "config" = false by decide]
  · simp [isStaging, stages,
      show isStageName ".u2os-recovery-stage-" "credentials" = false by decide]

/-- A place of credentials or of configuration is neither in the review folder nor one of the files
that are written. -/
theorem Framed.node?_folder (hf : Framed base marker db moved h) {folder : String}
    (hfolder : folder = "config" ∨ folder = "credentials") {rest : List String}
    (hmoved : folder :: rest ∉ moved) : h.node? (folder :: rest) = base.node? (folder :: rest) := by
  refine hf.frame _ (isStaging_folder hfolder rest) ?_ hmoved ?_ ?_
  · rcases hfolder with rfl | rfl <;> simp
  · rcases hfolder with rfl | rfl <;> simp [recoveryFile]
  · rcases hfolder with rfl | rfl <;> simp [databaseFile]

theorem isStaging_allowedFile {p : List String} (hp : allowedFile p = true) :
    isStaging p = false := by
  obtain ⟨folder, name, rfl, hfolder⟩ := allowedFile_eq hp
  exact isStaging_folder hfolder _

theorem Framed.sameActive (hf : Framed base marker db [] h) : SameActive base h := by
  intro p hp
  cases p with
  | nil => rcases hp with hp | hp <;> cases hp
  | cons folder rest =>
    refine hf.node?_folder ?_ not_mem_nil
    simpa [or_comm] using hp

theorem Framed.readInactiveRecoveryMarker (hf : Framed base marker db moved h)
    (hmoved : ∀ p ∈ moved, allowedFile p = true) :
    readInactiveRecoveryMarker h =
      if marker.isInactive (readInstallationIdentity base) then some marker else none := by
  have hidentity : readInstallationIdentity h = readInstallationIdentity base := by
    unfold readInstallationIdentity FileTree.read?
    rw [hf.node?_folder (.inl rfl) fun hmem => ?_]
    exact absurd (hmoved _ hmem) (by decide)
  unfold Backup.readInactiveRecoveryMarker FileTree.read?
  rw [hf.markerAt, hidentity]
  rfl

theorem Framed.openDatabase (hf : Framed base marker db moved h)
    (hmoved : ∀ p ∈ moved, allowedFile p = true) (hbase : base.node? ["db"] = some .dir) :
    openDatabase h = some db := by
  refine openDatabase_eq_some.2 ⟨?_, hf.databaseAt⟩
  rw [← hbase]
  refine hf.frame _ (by decide) (by decide) (fun hmem => ?_) (by decide) (by decide)
  exact absurd (hmoved _ hmem) (by decide)

theorem Framed.sameBut (hf : Framed base marker db moved h) (ht : SameBut h t) :
    Framed base marker db moved t where
  markerAt := (ht _ (by decide)).trans hf.markerAt
  databaseAt := (ht _ (by decide)).trans hf.databaseAt
  frame p hp h₁ h₂ h₃ h₄ := (ht p hp).trans (hf.frame p hp h₁ h₂ h₃ h₄)

theorem Opened.sameBut (ho : Opened base marker db h) (ht : SameBut h t) :
    Opened base marker db t where
  toFramed := ho.toFramed.sameBut ht
  review p hp hhead := by
    rw [ht p hp]
    exact ho.review p hp hhead

theorem isStaging_reviewDirectories {p : List String} (hp : p ∈ reviewDirectories marker) :
    isStaging p = false := by
  have hreview : isStageName ".u2os-recovery-stage-" "recovery-review" = false := by decide
  simp only [reviewDirectories, reviewDirectory, take, mem_cons, not_mem_nil,
    or_false] at hp
  rcases hp with rfl | rfl | rfl <;> simp [isStaging, stages, hreview]

theorem isStaging_inReview (name : String)
    (hname : isStageName ".inventory-stage-" name = false) :
    isStaging (reviewDirectory marker ++ [name]) = false := by
  have hreview : isStageName ".u2os-recovery-stage-" "recovery-review" = false := by decide
  simp [isStaging, stages, reviewDirectory, hreview, hname]

theorem isStaging_inventoryFile : isStaging (inventoryFile marker) = false :=
  isStaging_inReview _ (by decide)

theorem isStaging_heldFolder (marker : Marker) {p : List String} (hp : allowedFile p = true) :
    isStaging (reviewDirectory marker ++ p.dropLast) = false := by
  obtain ⟨folder, name, rfl, rfl | rfl⟩ := allowedFile_eq hp
  · exact isStaging_inReview _ (by decide)
  · exact isStaging_inReview _ (by decide)

/-- What changes in the staging places leaves the review published. -/
theorem Published.sameBut (hp : Published base marker db i h) (hi : Inventoried D base i)
    (ht : SameBut h t) : Published base marker db i t where
  toFramed := hp.toFramed.sameBut ht
  inventoryAt := (ht _ isStaging_inventoryFile).trans hp.inventoryAt
  directories p hmem := by
    unfold isDirectory
    rw [ht p (isStaging_reviewDirectories hmem)]
    exact hp.directories p hmem
  folders x hx := by
    unfold isFree
    rw [ht _ (isStaging_heldFolder _ (hi.file hx).1)]
    exact hp.folders x hx
  sources x hx := by
    rw [ht _ (isStaging_allowedFile (hi.file hx).1)]
    exact hp.sources x hx
  held x hx := by
    rw [ht _ (isStaging_allowedFile (hi.file hx).1), ht _ (isStaging_held _ (hi.file hx).1)]
    exact hp.held x hx

theorem Moved.sameBut (hm : Moved base marker h x) (hx : allowedFile x.path = true)
    (ht : SameBut h t) : Moved base marker t x := by
  unfold Moved
  rw [ht _ (isStaging_allowedFile hx), ht _ (isStaging_held _ hx)]
  exact hm

/-! ### What is read in a phase -/

theorem guard_eq_some {p : Prop} [Decidable p] {u : Unit} :
    (guard p : Option Unit) = some u ↔ p := by
  by_cases hp : p <;> simp [guard, hp]

/-- What a survey of the home finds. -/
theorem survey_eq_some {s : Survey} :
    survey D h = some s ↔ readInactiveRecoveryMarker h = some s.marker ∧
      openDatabase h = some s.db ∧
      (s.db.supported = true ∧ s.db.supportedConnectivity = true) ∧
      (readWorkQuarantineCheckpoint s.db s.marker).join = some s.work ∧
      (s.marker.workQuarantine.map WorkReceipt.id = some s.work.id ∧
        s.marker.recoveryId.isSome = true) ∧
      databaseState D s.db = some s.state ∧ activeFiles D h = some s.files ∧
      s.master = fingerprint D h masterKey ∧ hasMaster s.master s.files = true := by
  simp only [survey, Option.bind_eq_bind, Option.bind_eq_some_iff, guard_eq_some, pure,
    Option.some.injEq]
  constructor
  · rintro ⟨m, hm, d, hd, _, hsup, w, hw, _, hids, st, hst, f, hf, _, hmaster, rfl⟩
    exact ⟨hm, hd, hsup, hw, hids, hst, hf, rfl, hmaster⟩
  · rintro ⟨hm, hd, hsup, hw, hids, hst, hf, hkey, hmaster⟩
    refine ⟨_, hm, _, hd, (), hsup, _, hw, (), hids, _, hst, _, hf, (), hkey ▸ hmaster, ?_⟩
    rw [← hkey]

theorem Inventoried.allowed (hi : Inventoried D base i) :
    ∀ p ∈ i.files.map path, allowedFile p = true := by
  intro p hp
  obtain ⟨x, hx, rfl⟩ := mem_map.1 hp
  exact (hi.file hx).1

theorem Published.node?_folder (hp : Published base marker db i h) {p : List String}
    (hfolder : p.head? = some "credentials" ∨ p.head? = some "config") :
    h.node? p = base.node? p ∨ h.node? p = none := by
  by_cases hmoved : p ∈ i.files.map path
  · obtain ⟨x, hx, rfl⟩ := mem_map.1 hmoved
    exact hp.sources x hx
  · cases p with
    | nil => rcases hfolder with hfolder | hfolder <;> cases hfolder
    | cons folder rest =>
      refine .inl (hp.toFramed.node?_folder ?_ hmoved)
      simpa [or_comm] using hfolder

section Published

variable (hp : Published base marker db i h) (hi : Inventoried D base i)

include hp hi

theorem Published.node?_of_not_allowed {p : List String}
    (hfolder : p.head? = some "credentials" ∨ p.head? = some "config")
    (hnot : allowedFile p = false) : h.node? p = base.node? p := by
  cases p with
  | nil => rcases hfolder with hfolder | hfolder <;> cases hfolder
  | cons folder rest =>
    refine hp.toFramed.node?_folder (by simpa [or_comm] using hfolder) fun hmem => ?_
    rw [hi.allowed _ hmem] at hnot
    cases hnot

theorem Published.activePaths_subset : activePaths h ⊆ activePaths base := by
  intro p hmem
  rcases mem_append.1 hmem with hmem | hmem
  · obtain ⟨name, hname, rfl⟩ := mem_map.1 hmem
    obtain ⟨hname, hkey⟩ := mem_filter.1 hname
    refine mem_append_left _ (mem_map_of_mem (mem_filter.2 ⟨?_, hkey⟩))
    unfold credentialNames isDirectory at hname ⊢
    rw [hp.node?_of_not_allowed hi (.inl rfl) (by decide)] at hname
    split_ifs at hname ⊢
    · rw [FileTree.mem_readdir] at hname ⊢
      rcases hp.node?_folder (p := ["credentials", name]) (.inl rfl) with hsame | hnone
      · rwa [singleton_append, ← hsame]
      · rw [singleton_append, hnone] at hname
        cases hname
    · cases hname
  · exact mem_append_right _ hmem

theorem Published.listedFiles_subset : listedFiles D h ⊆ listedFiles D base := by
  intro x hx
  obtain ⟨hpath, hentry⟩ := mem_listedFiles.1 hx
  refine mem_listedFiles.2 ⟨hp.activePaths_subset hi hpath, ?_⟩
  obtain ⟨c, hc, hxc⟩ := fileEntry_eq_some.1 hentry
  refine fileEntry_eq_some.2 ⟨c, ?_, hxc⟩
  rcases hp.node?_folder (head?_of_mem_activePaths hpath) with hsame | hnone
  · rw [← hsame, hc]
  · rw [hnone] at hc
    cases hc

theorem Published.isSupportedStorage : isSupportedStorage h = true := by
  obtain ⟨hbase, _, _⟩ := activeFiles_eq_some hi.active
  simp only [Backup.isSupportedStorage, Bool.and_eq_true, all_eq_true] at hbase ⊢
  obtain ⟨⟨⟨⟨hcredentials, hconfig⟩, hnames⟩, hmaster⟩, hplain⟩ := hbase
  have hmasterKey : h.node? masterKey = base.node? masterKey :=
    hp.node?_of_not_allowed hi (.inl rfl) (by decide)
  refine ⟨⟨⟨⟨?_, ?_⟩, fun name hname => ?_⟩, ?_⟩, fun p hpath => ?_⟩
  · rwa [hp.node?_of_not_allowed hi (.inl rfl) (by decide)]
  · unfold isDirectory at hconfig ⊢
    rwa [hp.node?_of_not_allowed hi (.inr rfl) (by decide)]
  · by_cases hkey : name = "master.key"
    · simp [hkey]
    · have hmem : ["credentials", name] ∈ activePaths h := by
        refine mem_append_left _ (mem_map_of_mem (mem_filter.2 ⟨hname, ?_⟩))
        exact decide_eq_true hkey
      rcases mem_append.1 (hp.activePaths_subset hi hmem) with hbase | hbase
      · obtain ⟨name', hname', heq⟩ := mem_map.1 hbase
        obtain rfl : name' = name := by simpa using heq
        exact hnames _ (mem_of_mem_filter hname')
      · obtain ⟨_, _, heq⟩ := mem_map.1 hbase
        simp at heq
  · unfold isPlain at hmaster ⊢
    rwa [hmasterKey]
  · have hplain' := hplain p (hp.activePaths_subset hi hpath)
    unfold isPlain at hplain' ⊢
    rcases hp.node?_folder (head?_of_mem_activePaths hpath) with hsame | hnone
    · rwa [hsame]
    · rw [hnone]

/-- The files that are still there are those of the inventory. -/
theorem Published.activeFiles :
    ∃ files, activeFiles D h = some files ∧ ∀ x ∈ files, x ∈ i.files ∧ h.node? x.path ≠ none := by
  obtain ⟨_, hlimits, hperm⟩ := activeFiles_eq_some hi.active
  have hsub := hp.listedFiles_subset hi
  refine ⟨_, if_pos ?_, fun x hx => ?_⟩
  · rw [hp.isSupportedStorage hi, Bool.true_and]
    exact withinLimits_of_subset (nodup_listedFiles D h) hsub hlimits
  · have hlisted := (perm_insertionSort _ _).mem_iff.1 hx
    refine ⟨hperm.mem_iff.2 (hsub hlisted), ?_⟩
    obtain ⟨c, hc, _⟩ := fileEntry_eq_some.1 (mem_listedFiles.1 hlisted).2
    rw [hc]
    exact Option.some_ne_none _

theorem Published.fingerprint_masterKey : fingerprint D h masterKey = i.master := by
  unfold fingerprint
  rw [hp.node?_of_not_allowed hi (.inl rfl) (by decide), hi.master]
  rfl

theorem Published.isPlain_masterKey : isPlain h masterKey = true := by
  have hstorage := hp.isSupportedStorage hi
  simp only [Backup.isSupportedStorage, Bool.and_eq_true] at hstorage
  exact hstorage.1.2

end Published

theorem isSame_of_node? {p : List String} {c : List UInt8}
    (hnode : h.node? p = some (.file (.bytes c))) (hsmall : x.size ≤ maxFile)
    (hlength : c.length = x.size) (hhash : D.bytes c = x.hash) : isSame D h p x = true := by
  unfold isSame isPlain fingerprint
  rw [hnode]
  simp [hlength, hhash, hsmall]

theorem Inventoried.isSame (hi : Inventoried D base i) (hx : x ∈ i.files) {p : List String}
    (hnode : h.node? p = base.node? x.path) : isSame D h p x = true := by
  obtain ⟨_, hsmall, c, hc, hlength, hhash⟩ := hi.file hx
  exact isSame_of_node? (hnode.trans hc) hsmall hlength hhash

/-- The published inventory passes its own check. -/
theorem Published.checkFiles (hp : Published base marker db i h) (hi : Inventoried D base i) :
    checkFiles D h (reviewDirectory marker) i = true := by
  obtain ⟨files, hfiles, hsub⟩ := hp.activeFiles hi
  simp only [Backup.checkFiles, hfiles, Option.any_some, Bool.and_eq_true, all_eq_true,
    contains_iff_mem, decide_eq_true_eq]
  refine ⟨⟨⟨fun x hx => (hsub x hx).1, hp.isPlain_masterKey hi⟩, hp.fingerprint_masterKey hi⟩,
    fun x hx => ?_⟩
  obtain ⟨_, _, c, hc, _⟩ := hi.file hx
  simp only [isKept, Bool.and_eq_true, Bool.or_eq_true, Option.isSome_iff_ne_none,
    Option.isNone_iff_eq_none]
  refine ⟨⟨⟨hp.folders x hx, ?_⟩, ?_⟩, ?_⟩
  · rcases hp.held x hx with hheld | ⟨_, hsource⟩
    · right
      rw [hheld, hc]
      exact Option.some_ne_none _
    · exact .inl hsource
  · rcases hp.sources x hx with hsource | hnone
    · exact .inr (hi.isSame hx hsource)
    · exact .inl hnone
  · rcases hp.held x hx with hheld | ⟨hnone, _⟩
    · exact .inr (hi.isSame hx hheld)
    · exact .inl hnone

theorem Published.activeFiles_of_moved (hp : Published base marker db i h)
    (hi : Inventoried D base i) (hmoved : ∀ x ∈ i.files, Moved base marker h x) :
    Backup.activeFiles D h = some [] := by
  obtain ⟨files, hfiles, hsub⟩ := hp.activeFiles hi
  rw [hfiles]
  refine congrArg some (eq_nil_iff_forall_not_mem.2 fun x hx => ?_)
  exact (hsub x hx).2 (hmoved x (hsub x hx).1).1

theorem hasMaster_of_subset {master : Option (ℕ × String)} {l l' : List InventoryFile}
    (hsub : ∀ x ∈ l, x ∈ l') (hmaster : hasMaster master l' = true) : hasMaster master l = true := by
  simp only [hasMaster, Bool.and_eq_true, Bool.or_eq_true, Bool.not_eq_true', any_eq_false]
    at hmaster ⊢
  exact ⟨hmaster.1, hmaster.2.imp_right fun h x hx => h x (hsub x hx)⟩

/-! ### The survey in a phase -/

theorem readInactiveRecoveryMarker_eq_some (hm : readInactiveRecoveryMarker h = some marker) :
    marker.isInactive (readInstallationIdentity h) = true := by
  unfold readInactiveRecoveryMarker at hm
  split at hm
  · split_ifs at hm with hok
    obtain rfl := Option.some.inj hm
    exact hok
  · cases hm

/-- The marker of a survey with a preparation. -/
def Survey.opened (s : Survey) (id : String) : Marker :=
  { s.marker with connectivityPreparation := some ⟨id, []⟩ }

/-- The inventory of a survey, under the id of a preparation. -/
abbrev Survey.plan (s : Survey) (id : String) (now : ℕ) : Inventory :=
  { s with marker := s.opened id }.inventory now

/-- A home before the review of connectivity. -/
structure Ready (D : Digests) (base : Home) (s : Survey) : Prop where
  survey : survey D base = some s
  preparation : s.marker.connectivityPreparation = none
  quarantine : s.marker.connectivityQuarantine = none
  events : connectivityEvents s.db s.marker = []
  nothing : ∀ p, ["recovery-review", s.marker.recoveryId.getD ""] <+: p → base.node? p = none

variable {s : Survey} {id : String} {now : ℕ}

theorem Ready.inventoried (hr : Ready D base s) (id : String) (now : ℕ) :
    Inventoried D base (s.plan id now) := by
  obtain ⟨_, _, _, _, _, _, hactive, hmaster, _⟩ := survey_eq_some.1 hr.survey
  exact ⟨hactive, hmaster⟩

theorem Ready.readInactiveRecoveryMarker (hr : Ready D base s)
    (hf : Framed base marker db moved h) (hmoved : ∀ p ∈ moved, allowedFile p = true)
    (hinactive : ∀ identity, marker.isInactive identity = s.marker.isInactive identity) :
    readInactiveRecoveryMarker h = some marker := by
  rw [hf.readInactiveRecoveryMarker hmoved, hinactive,
    if_pos (readInactiveRecoveryMarker_eq_some (survey_eq_some.1 hr.survey).1)]

theorem Ready.openDatabase (hr : Ready D base s) (hf : Framed base marker db moved h)
    (hmoved : ∀ p ∈ moved, allowedFile p = true) : Backup.openDatabase h = some db :=
  hf.openDatabase hmoved (openDatabase_eq_some.1 (survey_eq_some.1 hr.survey).2.1).1

theorem Opened.survey (ho : Opened base (s.opened id) s.db h) (hr : Ready D base s) :
    Backup.survey D h = some { s with marker := s.opened id } := by
  obtain ⟨_, _, hsup, hwork, hids, hstate, hactive, hmaster, hhas⟩ := survey_eq_some.1 hr.survey
  refine survey_eq_some.2 ⟨?_, ?_, hsup, hwork, hids, hstate, ?_, ?_, hhas⟩
  · exact hr.readInactiveRecoveryMarker ho.toFramed (by simp) fun _ => rfl
  · exact hr.openDatabase ho.toFramed (by simp)
  · rw [ho.toFramed.sameActive.activeFiles]
    exact hactive
  · rw [ho.toFramed.sameActive.fingerprint (.inl rfl)]
    exact hmaster

theorem Published.survey
    (hp : Published base (s.opened id) s.db (s.plan id now) h)
    (hr : Ready D base s) :
    ∃ files, Backup.survey D h = some { s with marker := s.opened id, files := files } := by
  have hi := hr.inventoried id now
  obtain ⟨_, _, hsup, hwork, hids, hstate, _, _, hhas⟩ := survey_eq_some.1 hr.survey
  obtain ⟨files, hfiles, hsub⟩ := hp.activeFiles hi
  refine ⟨files, survey_eq_some.2 ⟨?_, ?_, hsup, hwork, hids, hstate, hfiles, ?_, ?_⟩⟩
  · exact hr.readInactiveRecoveryMarker hp.toFramed hi.allowed fun _ => rfl
  · exact hr.openDatabase hp.toFramed hi.allowed
  · exact (hp.fingerprint_masterKey hi).symm
  · exact hasMaster_of_subset (fun x hx => (hsub x hx).1) hhas

theorem workEvents_quarantineConnectivity (recoveryId : String) (receipt : ConnectivityReceipt) :
    workEvents (quarantineConnectivity db recoveryId receipt) marker = workEvents db marker := by
  unfold workEvents quarantineConnectivity
  rw [filter_append]
  have htype : connectivityEventType ≠ workEventType := by decide
  simp [htype]

theorem readWorkQuarantineCheckpoint_quarantineConnectivity (recoveryId : String)
    (receipt : ConnectivityReceipt) :
    readWorkQuarantineCheckpoint (quarantineConnectivity db recoveryId receipt) marker =
      readWorkQuarantineCheckpoint db marker := by
  unfold readWorkQuarantineCheckpoint
  rw [workEvents_quarantineConnectivity]
  rfl

theorem databaseState_eq_some {state : DatabaseState} (hs : databaseState D db = some state) :
    isSha state.hash = true ∧ isSha state.afterHash = true ∧ state.accounts ≤ 10000 ∧
      state.devices ≤ 10000 := by
  unfold databaseState at hs
  split_ifs at hs with hok
  obtain rfl := Option.some.inj hs
  simp only [Bool.and_eq_true, decide_eq_true_eq] at hok
  exact ⟨D.isSha_rows _, D.isSha_rows _, hok.2.1, hok.2.2⟩

/-- A plan that is made in a ready home is valid. -/
theorem Ready.isValid (hr : Ready D base s) (hid : isUuid id = true) (now : ℕ) :
    (s.plan id now).isValid (s.opened id) = true := by
  have hi := hr.inventoried id now
  obtain ⟨hmarker, _, _, _, hids, hstate, hactive, hmaster, hhas⟩ := survey_eq_some.1 hr.survey
  obtain ⟨_, hlimits, hperm⟩ := activeFiles_eq_some hactive
  obtain ⟨hhash, hafter, haccounts, hdevices⟩ := databaseState_eq_some hstate
  have hinactive := readInactiveRecoveryMarker_eq_some hmarker
  obtain ⟨rid, hrid⟩ := Option.isSome_iff_exists.1 hids.2
  have huuid : isUuid rid = true := by
    simp only [Marker.isInactive, hrid, Option.all_some, Bool.and_eq_true] at hinactive
    exact hinactive.2
  have hnodup : (s.files.map InventoryFile.path).Nodup :=
    (hperm.map _).nodup_iff.2 (nodup_listedFiles D base)
  have hfiles : s.files.all InventoryFile.isValid = true := by
    refine all_eq_true.2 fun x hx => ?_
    obtain ⟨hallowed, hsmall, c, _, _, hsha⟩ := hi.file hx
    simp [InventoryFile.isValid, hallowed, hsmall, ← hsha, D.isSha_bytes]
  have hlimits' : withinLimits s.files = true :=
    withinLimits_of_subset hnodup (fun x hx => hperm.mem_iff.1 hx) hlimits
  have hcounts : (s.plan id now).hasCounts = true := by
    simp [Inventory.hasCounts, Survey.plan, Survey.inventory, Survey.counts, summary, List.lookup_cons,
      haccounts, hdevices]
  have hkey : s.master.all (fun m => m.1 = 32 && isSha m.2) = true := by
    rw [Option.all_eq_true]
    intro m hm
    have hsize := (Bool.and_eq_true_iff.1 hhas).1
    rw [hm, Option.all_some] at hsize
    rw [hsize, Bool.true_and]
    rw [hmaster] at hm
    unfold fingerprint at hm
    split at hm
    · obtain rfl := Option.some.inj hm
      exact D.isSha_bytes _
    · cases hm
  simp only [Inventory.isValid, hcounts, Bool.and_true, Bool.and_eq_true]
  refine ⟨⟨⟨?_, ?_⟩, ⟨hlimits', hfiles⟩, decide_eq_true hnodup⟩, hkey⟩
  · simp [Survey.plan, Survey.inventory, Survey.opened, hrid, hid, huuid]
  · simp [Survey.plan, Survey.inventory, hhash, hafter]

/-- Everything is moved, and the database is changed. -/
structure Committed (base : Home) (s : Survey) (id : String) (now : ℕ) (marker : Marker) (h : Home) :
    Prop extends Published base marker
      (quarantineConnectivity s.db (s.marker.recoveryId.getD "") (s.plan id now).receipt)
      (s.plan id now) h where
  moved : ∀ x ∈ s.files, Moved base marker h x

/-- The marker at the end. -/
def Survey.closed (s : Survey) (id : String) (now : ℕ) : Marker :=
  { s.opened id with connectivityQuarantine := some (s.plan id now).receipt }

/-- The markers between the transaction and the end. -/
def Survey.isClosing (s : Survey) (id : String) (now : ℕ) (marker : Marker) : Prop :=
  marker = s.opened id ∨ marker = s.closed id now

theorem Committed.sameBut (hc : Committed base s id now marker h) (hr : Ready D base s)
    (ht : SameBut h t) : Committed base s id now marker t where
  toPublished := hc.toPublished.sameBut (hr.inventoried _ now) ht
  moved x hx := (hc.moved x hx).sameBut ((hr.inventoried id now).file hx).1 ht

/-- The survey after the review was committed reads what it has written. -/
theorem Committed.survey (hc : Committed base s id now marker h) (hr : Ready D base s)
    (hm : s.isClosing id now marker) {state : DatabaseState}
    (hstate : databaseState D (disconnect s.db) = some state) :
    Backup.survey D h = some
      ⟨marker, quarantineConnectivity s.db (s.marker.recoveryId.getD "") (s.plan id now).receipt,
        s.work, state, [], s.master⟩ := by
  have hi := hr.inventoried id now
  obtain ⟨_, _, hsup, hwork, hids, _, _, _, hhas⟩ := survey_eq_some.1 hr.survey
  have hread : Backup.readInactiveRecoveryMarker h = some marker := by
    refine hr.readInactiveRecoveryMarker hc.toFramed hi.allowed ?_
    rcases hm with rfl | rfl <;> exact fun _ => rfl
  refine survey_eq_some.2 ⟨hread, hr.openDatabase hc.toFramed hi.allowed, hsup, ?_, ?_, hstate,
    hc.toPublished.activeFiles_of_moved hi hc.moved, (hc.fingerprint_masterKey hi).symm,
    hasMaster_of_subset (by simp) hhas⟩
  · rw [readWorkQuarantineCheckpoint_quarantineConnectivity, ← hwork]
    rcases hm with rfl | rfl <;> rfl
  · rcases hm with rfl | rfl <;> exact hids

end Phases

end U2os.Server.Backup
