import Mathlib.Data.List.Nodup
import Mathlib.Data.List.Sort
import U2os.Lib.Fallible
import U2os.Lib.Inquiry
import U2os.Lib.JsText

/-!
# The scanner of the vault

`vault/scanner.rs` and `MemoryIndex::build`: the fingerprint of the source files, and the index that
is built from them.  Both read the vault one question at a time, while anyone may edit it.  What a
file says (`record.rs`, `markdown.rs`) and what is derived from the records (`links.rs`,
`search_doc`) reads nothing more, and is a parameter.
-/

namespace U2os.Majordomo.Memory

open Inquiry List

inductive RecordKind where
  | owner
  | person
  | project
  | commitment
deriving DecidableEq

def meFile : String := "me.md"

def collections : List (String × RecordKind) :=
  [("people", .person), ("projects", .project), ("commitments", .commitment)]

/-- Why the root has no metadata. -/
inductive StatError where
  | notFound
  | other (source : String)

/-- The file type of a collection. -/
inductive DirectoryType where
  | symlink
  | directory
  /-- Something else, or nothing. -/
  | other

/-- An entry of a directory; a name that is not text is not read. -/
structure DirectoryEntry where
  name : Option String
  isFile : Bool

/-- What `read_dir` gives. -/
structure Listing where
  entries : List DirectoryEntry
  nodup : (entries.filterMap (·.name)).Nodup

/-- What is asked of the file system. -/
inductive Look where
  /-- `fs::metadata(root)`. -/
  | root
  /-- `fs::symlink_metadata` of a path, and what opening it and reading it gives. -/
  | file (path : String)
  /-- `fs::symlink_metadata` of a collection. -/
  | directoryType (dir : String)
  /-- `fs::read_dir` of a collection. -/
  | entries (dir : String)

/-- The answers, where `φ` are the states a file can be in. -/
def Look.Answer (φ : Type) : Look → Type
  | .root => Except StatError Bool
  | .file _ => Option φ
  | .directoryType _ => DirectoryType
  | .entries _ => Option Listing

/-- A state of the vault. -/
abbrev Vault (φ : Type) : Type := (q : Look) → q.Answer φ

/-- What the fingerprint takes of a file. -/
structure Fingerprint where
  len : ℕ
  mtime : ℤ
  mtimeNsec : ℤ
  ino : ℕ
  isFile : Bool
deriving DecidableEq

/-- A record; its contents are the fields nothing here reads. -/
structure Record (δ : Type) where
  id : String
  path : String
  kind : RecordKind
  contents : δ

instance {δ : Type} [BEq δ] : BEq (Record δ) where
  beq a b := a.id == b.id && a.path == b.path && decide (a.kind = b.kind) && a.contents == b.contents

structure InvalidFile where
  path : String
  error : String

structure VaultIndex (δ : Type) where
  root : String
  files : ℕ := 0
  records : List (Record δ) := []
  invalid : List InvalidFile := []
  notes : List String := []
  byId : List (String × ℕ) := []
  byPath : List (String × ℕ) := []

/-- The states a file can be in, and what is made of them. -/
structure Vaults where
  File : Type
  Contents : Type
  Derived : Type
  Signature : Type
  [beqContents : BEq Contents]
  [decEqSignature : DecidableEq Signature]
  /-- The path of the vault. -/
  root : String
  fingerprint : File → Fingerprint
  /-- `read_vault_file`, of something that is there: its text, or why it has none. -/
  read : File → Except String String
  /-- `describe`, after `parse_markdown`. -/
  describe : String → RecordKind → String → Except String (Record Contents)
  path_eq : ∀ path kind text record, describe path kind text = .ok record → record.path = path
  /-- The links, the warnings and the documents of `build`. -/
  derive : VaultIndex Contents → Derived
  /-- The hasher, of every path and what is there. -/
  hash : List (String × Option Fingerprint) → Signature

attribute [instance] Vaults.beqContents Vaults.decEqSignature

namespace Vaults

variable (V : Vaults)

/-- A program that reads the vault. -/
abbrev Reading (α : Type) : Type := Inquiry Look (Look.Answer V.File) α

/-- One question. -/
def look (q : Look) : V.Reading (q.Answer V.File) := question q

/-- The Markdown files among the entries of a collection. -/
def markdownFiles (dir : String) (l : Listing) : List String :=
  ((((l.entries.filter (·.isFile)).filterMap (·.name)).filter fun name =>
      name.toList.head? ≠ some '.' && ".md".toList.isSuffixOf (name.toList.map Char.toLower)).map
    fun name => dir ++ "/" ++ name).insertionSort fun a b => a ≤ b

/-- `list_markdown_files`: the files, and the notes. -/
def listMarkdownFiles (dir : String) : V.Reading (List String × List String) := do
  match ← (V.look (.directoryType dir) : V.Reading DirectoryType) with
  | .symlink => return ([], [dir ++ "/ is a symlink and was skipped"])
  | .directory =>
    match ← (V.look (.entries dir) : V.Reading (Option Listing)) with
    | some l => return (markdownFiles dir l, [])
    | none => return ([], [])
  | .other => return ([], [])

/-- The source files, with what is there, as `signature` goes through them. -/
def sources : V.Reading (List (String × Option V.File)) := do
  let dirs ← each collections fun c => V.listMarkdownFiles c.1
  each (meFile :: dirs.flatMap Prod.fst) fun path => do
    let state ← (V.look (.file path) : V.Reading (Option V.File))
    return (path, state)

/-- The fingerprint of source files. -/
def signatureOf (sources : List (String × Option V.File)) : V.Signature :=
  V.hash (sources.map fun e => (e.1, e.2.map V.fingerprint))

def signature : V.Reading V.Signature := do
  let found ← V.sources
  return V.signatureOf found

/-- What a scan reads: the source files in their order, and the notes. -/
structure Survey where
  files : List (String × RecordKind × Option V.File)
  notes : List String

/-- What `scan` reads.  What it makes of a file asks nothing more. -/
def survey : V.Reading (Except String V.Survey) := do
  match ← (V.look .root : V.Reading (Except StatError Bool)) with
  | .error .notFound => return .error ("vault directory not found: " ++ V.root)
  | .error (.other source) => return .error ("stat vault " ++ V.root ++ ": " ++ source)
  | .ok false => return .error ("vault path is not a directory: " ++ V.root)
  | .ok true =>
    let me ← (V.look (.file meFile) : V.Reading (Option V.File))
    let dirs ← each collections fun c => do
      let listed ← V.listMarkdownFiles c.1
      return (c.2, listed)
    let sources :=
      (if me.any fun f => (V.fingerprint f).isFile then [(meFile, RecordKind.owner)] else []) ++
        dirs.flatMap fun d => d.2.1.map fun path => (path, d.1)
    let files ← each sources fun s => do
      let state ← (V.look (.file s.1) : V.Reading (Option V.File))
      return (s.1, s.2, state)
    return .ok ⟨files, dirs.flatMap fun d => d.2.2⟩

def readVaultFile : Option V.File → Except String String
  | some f => V.read f
  | none => .error "Not a regular file"

def readAndDescribe (path : String) (kind : RecordKind) (state : Option V.File) :
    Except String (Record V.Contents) := do
  let text ← V.readVaultFile state
  V.describe path kind text

/-- One turn of the loop of `scan`; `claimed` are the ids that are taken, with their files. -/
def addFile (s : VaultIndex V.Contents × List (String × String))
    (file : String × RecordKind × Option V.File) :
    VaultIndex V.Contents × List (String × String) :=
  let index := { s.1 with files := s.1.files + 1 }
  match V.readAndDescribe file.1 file.2.1 file.2.2 with
  | .error error => ({ index with invalid := index.invalid ++ [⟨file.1, error⟩] }, s.2)
  | .ok record =>
    match if file.2.1 = .owner then none else Assoc.get? s.2 record.id with
    | some first =>
      ({ index with invalid := index.invalid ++
          [⟨file.1, "Another vault file already describes this record (" ++ first ++ ")"⟩] }, s.2)
    | none =>
      ({ index with
          records := index.records ++ [record]
          byId := if (Assoc.get? index.byId record.id).isSome then index.byId
            else Assoc.assign record.id index.records.length index.byId
          byPath := Assoc.assign record.path index.records.length index.byPath },
        if file.2.1 = .owner then s.2 else Assoc.assign record.id file.1 s.2)

/-- What `scan` makes of what it has read. -/
def interpret (s : V.Survey) : VaultIndex V.Contents :=
  (s.files.foldl V.addFile ({ root := V.root, notes := s.notes }, [])).1

def scan : V.Reading (Except String (VaultIndex V.Contents)) := do
  let read ← V.survey
  return read.map V.interpret

end Vaults

structure MemoryIndex (V : Vaults) where
  vault : VaultIndex V.Contents
  derived : V.Derived

/-- `MemoryIndex::build`. -/
def MemoryIndex.build {V : Vaults} (vault : VaultIndex V.Contents) : MemoryIndex V :=
  ⟨vault, V.derive vault⟩

namespace Vaults

variable {V : Vaults}

theorem toList_path (dir name : String) :
    (dir ++ "/" ++ name).toList = (dir ++ "/").toList ++ name.toList := String.toList_append

theorem nodup_markdownFiles (dir : String) (l : Listing) : (markdownFiles dir l).Nodup := by
  rw [markdownFiles, (perm_insertionSort _ _).nodup_iff]
  refine Nodup.map (fun a b hab => ?_) (Nodup.filter _ ?_)
  · have hlist := congrArg String.toList hab
    rw [toList_path, toList_path] at hlist
    exact String.toList_injective (append_cancel_left hlist)
  · exact l.nodup.sublist (filter_sublist.filterMap _)

theorem mem_markdownFiles {dir path : String} {l : Listing} (h : path ∈ markdownFiles dir l) :
    (dir ++ "/").toList <+: path.toList := by
  rw [markdownFiles, mem_insertionSort] at h
  obtain ⟨name, -, rfl⟩ := mem_map.1 h
  rw [toList_path]
  exact prefix_append _ _

/-- The files of a collection are distinct, and under its name. -/
def Listed (dir : String) (listed : List String × List String) : Prop :=
  listed.1.Nodup ∧ ∀ path ∈ listed.1, (dir ++ "/").toList <+: path.toList

theorem every_listMarkdownFiles (dir : String) : (V.listMarkdownFiles dir).Every (Listed dir) := by
  intro type
  cases type with
  | symlink => exact ⟨nodup_nil, nofun⟩
  | other => exact ⟨nodup_nil, nofun⟩
  | directory =>
    intro entries
    cases entries with
    | none => exact ⟨nodup_nil, nofun⟩
    | some l => exact ⟨nodup_markdownFiles dir l, fun path => mem_markdownFiles⟩

theorem disjoint_listed {dir dir' : String} {l l' : List String × List String}
    (h : Listed dir l) (h' : Listed dir' l')
    (hne : ¬ (dir ++ "/").toList <+: (dir' ++ "/").toList)
    (hne' : ¬ (dir' ++ "/").toList <+: (dir ++ "/").toList) : List.Disjoint l.1 l'.1 := by
  intro path hp hp'
  rcases prefix_or_prefix_of_prefix (h.2 path hp) (h'.2 path hp') with hle | hle
  · exact hne hle
  · exact hne' hle

theorem meFile_notMem {dir : String} {l : List String × List String} (h : Listed dir l)
    (hne : ¬ (dir ++ "/").toList <+: meFile.toList) : meFile ∉ l.1 := fun hmem =>
  hne (h.2 meFile hmem)

theorem map_fst_of_forall₂ {α β γ : Type} {l : List (α × β)} {l' : List (α × γ)}
    (h : List.Forall₂ (fun a b => b.1 = a.1) l l') : l'.map Prod.fst = l.map Prod.fst := by
  induction h with
  | nil => rfl
  | cons hab _ ih => rw [map_cons, map_cons, hab, ih]

theorem every_survey :
    V.survey.Every fun read => ∀ s, read = .ok s → (s.files.map Prod.fst).Nodup := by
  intro isDir
  match isDir with
  | .error .notFound => exact nofun
  | .error (.other source) => exact nofun
  | .ok false => exact nofun
  | .ok true =>
    intro me
    have hdirs : (each collections fun c => do
        let listed ← V.listMarkdownFiles c.1
        return (c.2, listed)).Every (Forall₂ (fun c d => Listed c.1 d.2) collections) :=
      Every.each fun c _ => (every_listMarkdownFiles c.1).bind fun listed hl => hl
    refine hdirs.bind fun dirs hdirs => ?_
    have hread : ∀ l : List (String × RecordKind), (each l fun s => do
        let state ← (V.look (.file s.1) : V.Reading (Option V.File))
        return (s.1, s.2, state)).Every (Forall₂ (fun s f => f.1 = s.1) l) :=
      fun l => Every.each fun s _ state => rfl
    refine (hread _).bind fun files hfiles => ?_
    rintro s ⟨⟩
    -- The paths that are read are those that were listed.
    change (files.map Prod.fst).Nodup
    rw [map_fst_of_forall₂ hfiles, map_append, map_flatMap]
    obtain ⟨people, projects, commitments, rfl⟩ : ∃ d e f, dirs = [d, e, f] := by
      rcases hdirs with _ | ⟨-, _ | ⟨-, _ | ⟨-, _ | _⟩⟩⟩
      exact ⟨_, _, _, rfl⟩
    simp only [collections, List.forall₂_cons, List.forall₂_nil_left_iff, and_true] at hdirs
    obtain ⟨hpeople, hprojects, hcommitments⟩ := hdirs
    have hmap : ∀ d : RecordKind × List String × List String,
        (d.2.1.map fun path => (path, d.1)).map Prod.fst = d.2.1 := fun d => by
      rw [map_map]
      exact map_id _
    simp only [flatMap_cons, flatMap_nil, hmap, append_nil]
    refine Nodup.append ?_ (hpeople.1.append (hprojects.1.append hcommitments.1 ?_) ?_) ?_
    · split_ifs <;> simp
    · exact disjoint_listed hprojects hcommitments (by decide +kernel) (by decide +kernel)
    · rw [disjoint_append_right]
      exact ⟨disjoint_listed hpeople hprojects (by decide +kernel) (by decide +kernel),
        disjoint_listed hpeople hcommitments (by decide +kernel) (by decide +kernel)⟩
    · intro path hme hpath
      have hme : path = meFile := by
        split_ifs at hme
        · simpa using hme
        · cases hme
      subst hme
      simp only [List.mem_append] at hpath
      rcases hpath with hpath | hpath | hpath
      · exact meFile_notMem hpeople (by decide +kernel) hpath
      · exact meFile_notMem hprojects (by decide +kernel) hpath
      · exact meFile_notMem hcommitments (by decide +kernel) hpath

theorem sublist_addFile (s : VaultIndex V.Contents × List (String × String))
    (file : String × RecordKind × Option V.File) (paths : List String)
    (h : (s.1.records.map (·.path)).Sublist paths) :
    ((V.addFile s file).1.records.map (·.path)).Sublist (paths ++ [file.1]) := by
  rw [addFile]
  dsimp only
  cases hdescribe : V.readAndDescribe file.1 file.2.1 file.2.2 with
  | error e => exact h.trans (sublist_append_left _ _)
  | ok record =>
    dsimp only
    split
    · exact h.trans (sublist_append_left _ _)
    · obtain ⟨text, -, hrecord⟩ := Fallible.bind_eq_ok.1 hdescribe
      rw [map_append, map_singleton, V.path_eq _ _ _ _ hrecord]
      exact h.append (Sublist.refl _)

/-- No two records of a scan have one path. -/
theorem nodup_records {s : V.Survey} (h : (s.files.map Prod.fst).Nodup) :
    ((V.interpret s).records.map (·.path)).Nodup := by
  have hfold : ∀ (files : List (String × RecordKind × Option V.File))
      (i : VaultIndex V.Contents × List (String × String)) (paths : List String),
      (i.1.records.map (·.path)).Sublist paths →
      ((files.foldl V.addFile i).1.records.map (·.path)).Sublist
        (paths ++ files.map Prod.fst) := by
    intro files
    induction files with
    | nil =>
      intro i paths hi
      rwa [map_nil, append_nil]
    | cons file files ih =>
      intro i paths hi
      have hnext := ih (V.addFile i file) (paths ++ [file.1]) (sublist_addFile i file paths hi)
      rwa [append_assoc, singleton_append] at hnext
  exact h.sublist (hfold s.files _ [] (Sublist.refl _))

end Vaults

end U2os.Majordomo.Memory
