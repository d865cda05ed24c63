import U2os.Majordomo.Memory.Scanner

/-!
# Edits while the vault is read

The fingerprint and the scan ask one question after another, so what either of them has read may
never have been there all at once.  `Onward` is what an edit must keep of the states that a call has
seen: it puts nothing back that was changed in them.  Then a scan that begins after a fingerprint
has read what is there whenever the fingerprint is that of the vault.

## Main results

* `agree_since` : a fingerprint that is still that of the vault is that of every state since.
* `always_survey` : a scan of states that agree reads one and the same.
-/

namespace U2os.Majordomo.Memory

open Inquiry List

namespace Vaults

variable {V : Vaults}

/-- The files of a collection, of its type and of what `read_dir` gives. -/
def filesIn (dir : String) : DirectoryType → Option Listing → List String
  | .directory, some l => markdownFiles dir l
  | _, _ => []

/-- What a collection is. -/
def typeOf (v : Vault V.File) (dir : String) : DirectoryType := v (.directoryType dir)

/-- What `read_dir` gives for a collection. -/
def entriesOf (v : Vault V.File) (dir : String) : Option Listing := v (.entries dir)

/-- The files of a collection, where nobody edits the vault. -/
def listed (v : Vault V.File) (dir : String) : List String := ((V.listMarkdownFiles dir).eval v).1

/-- What the fingerprint reads of the vault. -/
inductive Source where
  /-- What is at a path. -/
  | file (path : String)
  /-- What a collection is. -/
  | type (dir : String)
  /-- The files of a collection. -/
  | listed (dir : String)

/-- Two states of the vault have the same there. -/
def SameAt (v w : Vault V.File) : Source → Prop
  | .file path => v (.file path) = w (.file path)
  | .type dir => typeOf v dir = typeOf w dir
  | .listed dir => listed v dir = listed w dir

/-- A scan asks also for the root, and makes notes of what the collections are. -/
structure SameRest (v w : Vault V.File) : Prop where
  root : v .root = w .root
  type : ∀ c ∈ collections, typeOf v c.1 = typeOf w c.1

/-- After some states, the newest of them first: no source is what it was in one of them and is no
longer in the newest; and where the files are those of one of them, so is what else is read. -/
structure Onward (seen : List (Vault V.File)) (v : Vault V.File) : Prop where
  lasting : ∀ latest ∈ seen.head?, ∀ u ∈ seen, ∀ i, SameAt v u i → SameAt latest u i
  rest : ∀ u ∈ seen, V.sources.eval v = V.sources.eval u → SameRest v u

/-- Each state comes after the older ones. -/
def Chain : List (Vault V.File) → Prop
  | [] => True
  | v :: seen => Onward seen v ∧ Chain seen

/-- Everything a scan reads is the same. -/
structure Agree (w u : Vault V.File) : Prop where
  rest : SameRest u w
  lists : ∀ c ∈ collections, listed u c.1 = listed w c.1
  files : ∀ path ∈ meFile :: collections.flatMap fun c => listed w c.1,
    u (.file path) = w (.file path)

/-- A collection was found with these files while the vault was in these states. -/
def ListedDuring (seen : List (Vault V.File)) (dir : String) (files : List String) : Prop :=
  ∃ newer v older, seen = newer ++ v :: older ∧ ∃ u ∈ v :: older,
    files = filesIn dir (typeOf u dir) (entriesOf v dir)

/-- The source files were found so while the vault was in these states. -/
def FoundDuring (seen : List (Vault V.File)) (found : List (String × Option V.File)) : Prop :=
  ∃ dirs : List (List String × List String),
    Forall₂ (fun c d => ListedDuring seen c.1 d.1) collections dirs ∧
    Forall₂ (fun path e => e.1 = path ∧ ∃ u ∈ seen, e.2 = u (.file path))
      (meFile :: dirs.flatMap Prod.fst) found

/-! ### What is read at one time -/

variable {v w : Vault V.File} {dir : String}

theorem listed_eq (v : Vault V.File) (dir : String) :
    listed v dir = filesIn dir (typeOf v dir) (entriesOf v dir) := by
  rw [listed, typeOf, entriesOf, listMarkdownFiles, look, eval_bind, eval_question]
  cases (v (.directoryType dir) : DirectoryType) with
  | symlink | other => rfl
  | directory =>
    dsimp only
    rw [look, eval_bind, eval_question]
    cases (v (.entries dir) : Option Listing) <;> rfl

theorem sources_eval (v : Vault V.File) : V.sources.eval v =
    (meFile :: collections.flatMap fun c => listed v c.1).map fun path => (path, v (.file path)) := by
  rw [sources, eval_bind, eval_each, eval_each, flatMap_map]
  rfl

theorem filesIn_of_ne {type : DirectoryType} (h : type ≠ .directory) (entries : Option Listing) :
    filesIn dir type entries = [] := by
  cases type with
  | directory => exact absurd rfl h
  | symlink | other => rfl

theorem mem_filesIn {path : String} : ∀ {type : DirectoryType} {entries : Option Listing},
    path ∈ filesIn dir type entries → (dir ++ "/").toList <+: path.toList
  | .directory, some _, h => mem_markdownFiles h

/-- A scan reads what it would read of a state that all the others agree with. -/
theorem always_listMarkdownFiles (w : Vault V.File) {c : String × RecordKind}
    (hc : c ∈ collections) : (V.listMarkdownFiles c.1).Always (Agree w)
      ((V.listMarkdownFiles c.1).eval w) := by
  intro u hu
  rw [show u (.directoryType c.1) = w (.directoryType c.1) from (hu.rest.type c hc)]
  rw [listMarkdownFiles, look, eval_bind, eval_question]
  cases htype : (w (.directoryType c.1) : DirectoryType) with
  | symlink | other => exact rfl
  | directory =>
    intro v hv
    have hw' : typeOf w c.1 = .directory := htype
    have hfiles : filesIn c.1 .directory (entriesOf v c.1) =
        filesIn c.1 .directory (entriesOf w c.1) := by
      have hlists := hv.lists c hc
      rwa [listed_eq, listed_eq, hv.rest.type c hc, hw'] at hlists
    dsimp only
    rw [look, eval_bind, eval_question]
    rw [entriesOf, entriesOf] at hfiles
    cases hv' : (v (.entries c.1) : Option Listing) <;>
      cases hw' : (w (.entries c.1) : Option Listing) <;> rw [hv', hw'] at hfiles <;>
      exact Prod.ext hfiles rfl

/-- A survey that nobody disturbs is one of the vault as it is. -/
theorem always_survey (w : Vault V.File) : V.survey.Always (Agree w) (V.survey.eval w) := by
  intro u hu
  rw [show u .root = w .root from hu.rest.root]
  rw [survey, look, eval_bind, eval_question]
  cases (w .root : Except StatError Bool) with
  | error e => cases e <;> exact rfl
  | ok isDir =>
    cases isDir with
    | false => exact rfl
    | true =>
      have hdirs : (each collections fun c => do
          let listed ← V.listMarkdownFiles c.1
          return (c.2, listed)).Always (Agree w)
            (collections.map fun c => (c.2, (V.listMarkdownFiles c.1).eval w)) :=
        Always.each fun c hc => (always_listMarkdownFiles w hc).bind rfl
      have hfiles : ∀ sources : List (String × RecordKind),
          (∀ s ∈ sources, s.1 ∈ meFile :: collections.flatMap fun c => listed w c.1) →
          (each sources fun s => do
            let state ← (V.look (.file s.1) : V.Reading (Option V.File))
            return (s.1, s.2, state)).Always (Agree w)
              (sources.map fun s => (s.1, s.2, w (.file s.1))) := fun sources hsources =>
        Always.each fun s hs u hu => by rw [hu.files s.1 (hsources s hs)]; exact rfl
      refine Always.bind (a := w (.file meFile)) (fun u hu => hu.files _ mem_cons_self) ?_
      refine hdirs.bind ((hfiles _ fun s hs => ?_).bind ?_)
      · rcases List.mem_append.1 hs with hs | hs
        · split_ifs at hs
          · rw [mem_singleton.1 hs]
            exact mem_cons_self
          · cases hs
        · obtain ⟨d, hd, hs⟩ := mem_flatMap.1 hs
          obtain ⟨c, hc, rfl⟩ := mem_map.1 hd
          obtain ⟨path, hpath, rfl⟩ := mem_map.1 hs
          exact mem_cons_of_mem _ (mem_flatMap.2 ⟨c, hc, hpath⟩)
      · simp only [look, eval_bind, eval_each, eval_question, eval_pure]
        rfl

/-! ### What is read while the vault is edited -/

theorem along_listMarkdownFiles (dir : String) (seen : List (Vault V.File)) :
    (V.listMarkdownFiles dir).Along (fun seen r => ListedDuring seen dir r.1) seen := by
  intro newer v older _
  have hnow : ∀ r : List String × List String,
      r.1 = filesIn dir (v (.directoryType dir)) (v (.entries dir)) →
        ListedDuring (v :: older) dir r.1 := fun r hr =>
    ⟨[], v, older, rfl, v, mem_cons_self, hr⟩
  cases htype : (v (.directoryType dir) : DirectoryType) with
  | symlink | other => exact hnow _ (by rw [htype]; rfl)
  | directory =>
    intro newer' v' older' hseen
    have hmem : v ∈ v' :: older' := hseen ▸ mem_append_right _ mem_cons_self
    have hlater : ∀ r : List String × List String,
        r.1 = filesIn dir .directory (v' (.entries dir)) → ListedDuring (v' :: older') dir r.1 :=
      fun r hr => ⟨[], v', older', rfl, v, hmem, by rw [hr, typeOf, htype]; rfl⟩
    cases hentries : (v' (.entries dir) : Option Listing) with
    | none | some l => exact hlater _ (by rw [hentries]; rfl)

theorem ListedDuring.later {seen : List (Vault V.File)} {files : List String}
    (h : ListedDuring seen dir files) (newer : List (Vault V.File)) :
    ListedDuring (newer ++ seen) dir files := by
  obtain ⟨between, v, older, rfl, hu⟩ := h
  exact ⟨newer ++ between, v, older, (append_assoc ..).symm, hu⟩

/-- What was found in a vault that was seen stays found as more is seen. -/
theorem FoundDuring.later {seen : List (Vault V.File)} {found : List (String × Option V.File)}
    (h : FoundDuring seen found) (newer : List (Vault V.File)) :
    FoundDuring (newer ++ seen) found := by
  obtain ⟨dirs, hdirs, hfound⟩ := h
  refine ⟨dirs, hdirs.imp fun c d hd => hd.later newer, hfound.imp fun path e he => ?_⟩
  obtain ⟨hpath, u, hu, hstate⟩ := he
  exact ⟨hpath, u, mem_append_right _ hu, hstate⟩

theorem along_sources (seen : List (Vault V.File)) : V.sources.Along FoundDuring seen := by
  have hlists := Along.each (l := collections) (p := fun c => V.listMarkdownFiles c.1)
    (U := fun c seen r => ListedDuring seen c.1 r.1) (fun c newer seen r hr => hr.later newer)
    (fun c _ seen => along_listMarkdownFiles c.1 seen) seen
  refine Along.bind (hlists.mono fun newer dirs hdirs => ?_)
  have hfiles := Along.each (l := meFile :: dirs.flatMap Prod.fst)
    (p := fun path => do
      let state ← (V.look (.file path) : V.Reading (Option V.File))
      return (path, state))
    (U := fun path seen e => e.1 = path ∧ ∃ u ∈ seen, e.2 = u (.file path))
    (fun _ newer _ _ ⟨hpath, u, hu, he⟩ => ⟨hpath, u, mem_append_right _ hu, he⟩)
    (fun path _ seen _ v _ _ => ⟨rfl, v, mem_cons_self, rfl⟩) (newer ++ seen)
  refine hfiles.mono fun newest found hfound => ⟨dirs, hdirs.imp fun c d hd => ?_, hfound⟩
  exact hd.later newest

section Moving

variable {newer seen : List (Vault V.File)} {i : Source}

/-- The newest state comes after itself. -/
theorem onward_newest {v : Vault V.File} (h : Chain (v :: seen)) : Onward (v :: seen) v where
  lasting := by
    rintro _ ⟨⟩ u _ i hsame
    exact hsame
  rest u hu hsources := by
    rcases mem_cons.1 hu with rfl | hu
    · exact ⟨rfl, fun _ _ => rfl⟩
    · exact h.1.rest u hu hsources

theorem SameAt.trans {u x : Vault V.File} (h : SameAt w u i) (h' : SameAt x u i) :
    SameAt w x i := by
  cases i <;> exact Eq.trans h (Eq.symm h')

/-- What is as it was in one of the states was so ever since. -/
theorem sameAt_since {u : Vault V.File} (hchain : Chain (newer ++ u :: seen))
    (hw : Onward (newer ++ u :: seen) w) (hsame : SameAt w u i) :
    ∀ x ∈ newer ++ [u], SameAt w x i := by
  have hback : ∀ (newer : List (Vault V.File)) (w : Vault V.File), Chain (newer ++ u :: seen) →
      Onward (newer ++ u :: seen) w → SameAt w u i → ∀ x ∈ newer, SameAt x u i := by
    intro newer
    induction newer with
    | nil => exact fun _ _ _ _ _ h => absurd h not_mem_nil
    | cons v newer ih =>
      intro w hchain hw hsame x hx
      have hv : SameAt v u i :=
        hw.lasting v rfl u (mem_append_right _ mem_cons_self) i hsame
      rcases mem_cons.1 hx with rfl | hx
      · exact hv
      · exact ih v hchain.2 hchain.1 hv x hx
  intro x hx
  rcases List.mem_append.1 hx with hx | hx
  · exact hsame.trans (hback newer w hchain hw hsame x hx)
  · rw [mem_singleton.1 hx]
    exact hsame

theorem sameAt_newest {u : Vault V.File} (hchain : Chain (newer ++ seen))
    (hw : Onward (newer ++ seen) w) (hu : u ∈ seen) (hsame : SameAt w u i) :
    ∀ x ∈ newer ++ seen.head?.toList, SameAt w x i := by
  obtain ⟨between, older, rfl⟩ := append_of_mem hu
  rw [← append_assoc] at hchain hw
  intro x hx
  refine sameAt_since hchain hw hsame x ?_
  rw [append_assoc]
  refine (List.mem_append.1 hx).elim (mem_append_left _) fun hx => mem_append_right _ ?_
  cases between with
  | nil => exact hx
  | cons v between => exact mem_append_left _ (mem_cons.2 (.inl (mem_singleton.1 hx)))

theorem append_inj_of_forall {α : Type} {q : α → Prop} {l l' m m' : List α} (hl : ∀ x ∈ l, q x)
    (hl' : ∀ x ∈ l', q x) (hm : ∀ x ∈ m, ¬q x) (hm' : ∀ x ∈ m', ¬q x)
    (h : l ++ m = l' ++ m') : l = l' ∧ m = m' := by
  classical
  have hfilter : ∀ {l m : List α}, (∀ x ∈ l, q x) → (∀ x ∈ m, ¬q x) →
      (l ++ m).filter q = l := fun hl hm => by
    rw [filter_append, filter_eq_self.2 fun x hx => decide_eq_true (hl x hx),
      filter_eq_nil_iff.2 fun x hx => by simpa using hm x hx, append_nil]
  have heq : l = l' := by rw [← hfilter hl hm, h, hfilter hl' hm']
  exact ⟨heq, append_cancel_left (heq ▸ h)⟩

/-- What was listed was there at once, if it is what a later state has. -/
theorem exists_sameAt_listed (hchain : Chain (newer ++ seen)) (hw : Onward (newer ++ seen) w)
    (h : ListedDuring seen dir (listed w dir)) : ∃ u ∈ seen, SameAt w u (.listed dir) := by
  obtain ⟨between, v, older, rfl, u, hu, hfiles⟩ := h
  rw [← append_assoc] at hchain hw
  by_cases hu' : typeOf u dir = .directory
  · refine ⟨v, mem_append_right _ mem_cons_self, ?_⟩
    by_cases hv' : typeOf v dir = .directory
    · exact hfiles.trans (by rw [listed_eq v, hu', hv'])
    · -- the collection is no directory any more, so it is none later
      have hw' : typeOf w dir ≠ .directory := fun hw' => by
        have hsame : SameAt w u (.type dir) := Eq.trans hw' (Eq.symm hu')
        have hv : SameAt w v (.type dir) :=
          sameAt_newest hchain hw hu hsame v (mem_append_right _ mem_cons_self)
        exact hv' (Eq.trans (Eq.symm hv) hw')
      change listed w dir = listed v dir
      rw [listed_eq w, listed_eq v, filesIn_of_ne hw', filesIn_of_ne hv']
  · refine ⟨u, mem_append_right _ hu, hfiles.trans ?_⟩
    rw [listed_eq u, filesIn_of_ne hu', filesIn_of_ne hu']

/-- The path begins with the name of the collection. -/
def Under (dir path : String) : Prop := (dir ++ "/").toList <+: path.toList

theorem not_under {dir dir' path : String} (h : Under dir' path)
    (hne : ¬ (dir ++ "/").toList <+: (dir' ++ "/").toList)
    (hne' : ¬ (dir' ++ "/").toList <+: (dir ++ "/").toList) : ¬Under dir path := fun hdir =>
  (List.prefix_or_prefix_of_prefix hdir h).elim hne hne'

/-- The files of the collections tell which collection they are of. -/
theorem listedDuring_of_flatMap {dirs : List (List String × List String)}
    (hdirs : Forall₂ (fun c d => ListedDuring seen c.1 d.1) collections dirs)
    (h : dirs.flatMap Prod.fst = collections.flatMap fun c => listed w c.1) :
    ∀ c ∈ collections, ListedDuring seen c.1 (listed w c.1) := by
  obtain ⟨people, projects, commitments, rfl⟩ : ∃ d e f, dirs = [d, e, f] := by
    rcases hdirs with _ | ⟨-, _ | ⟨-, _ | ⟨-, _ | _⟩⟩⟩
    exact ⟨_, _, _, rfl⟩
  simp only [collections, forall₂_cons, forall₂_nil_left_iff, and_true] at hdirs
  obtain ⟨hpeople, hprojects, hcommitments⟩ := hdirs
  have hfound : ∀ {dir files}, ListedDuring seen dir files → ∀ path ∈ files, Under dir path := by
    rintro dir _ ⟨_, _, _, -, _, -, rfl⟩ path hpath
    exact mem_filesIn hpath
  have hthere : ∀ dir, ∀ path ∈ listed w dir, Under dir path := fun dir path hpath =>
    mem_filesIn (listed_eq w dir ▸ hpath)
  simp only [collections, flatMap_cons, flatMap_nil, append_nil] at h
  have hrest : ∀ {l l' : List String}, (∀ path ∈ l, Under "projects" path) →
      (∀ path ∈ l', Under "commitments" path) → ∀ path ∈ l ++ l', ¬Under "people" path := by
    intro l l' hl hl' path hpath
    rcases List.mem_append.1 hpath with hp | hp
    · exact not_under (hl path hp) (by decide +kernel) (by decide +kernel)
    · exact not_under (hl' path hp) (by decide +kernel) (by decide +kernel)
  obtain ⟨hfirst, h⟩ := append_inj_of_forall (hfound hpeople) (hthere _)
    (hrest (hfound hprojects) (hfound hcommitments)) (hrest (hthere _) (hthere _)) h
  obtain ⟨hsecond, hthird⟩ := append_inj_of_forall (hfound hprojects) (hthere _)
    (fun path hp => not_under (hfound hcommitments path hp) (by decide +kernel) (by decide +kernel))
    (fun path hp => not_under (hthere _ path hp) (by decide +kernel) (by decide +kernel)) h
  simp only [collections, forall_mem_cons, not_mem_nil, false_imp_iff, implies_true, and_true]
  exact ⟨hfirst ▸ hpeople, hsecond ▸ hprojects, hthird ▸ hcommitments⟩

/-- The fingerprint of a state that comes later is that of all states since it was taken. -/
theorem agree_since (hchain : Chain (newer ++ seen)) (hw : Onward (newer ++ seen) w)
    (h : FoundDuring seen (V.sources.eval w)) : ∀ u ∈ newer ++ seen.head?.toList, Agree w u := by
  obtain ⟨dirs, hdirs, hfound⟩ := h
  rw [sources_eval, forall₂_map_right_iff] at hfound
  have hpaths : dirs.flatMap Prod.fst = collections.flatMap fun c => listed w c.1 := by
    have heq : Forall₂ Eq (meFile :: dirs.flatMap Prod.fst) _ := hfound.imp fun _ _ h => h.1.symm
    rw [forall₂_eq_eq_eq] at heq
    exact (cons.inj heq).2
  have hlists : ∀ c ∈ collections, ListedDuring seen c.1 (listed w c.1) :=
    listedDuring_of_flatMap hdirs hpaths
  have hfiles : ∀ path ∈ meFile :: collections.flatMap fun c => listed w c.1,
      ∃ u ∈ seen, w (.file path) = u (.file path) := by
    rw [hpaths, forall₂_same] at hfound
    exact fun path hpath => (hfound path hpath).2
  intro x hx
  have hx' : x ∈ newer ++ seen :=
    (List.mem_append.1 hx).elim (mem_append_left _) fun hx =>
      mem_append_right _ (mem_of_mem_head? (Option.mem_toList.1 hx))
  have hlistsx : ∀ c ∈ collections, listed x c.1 = listed w c.1 := fun c hc => by
    obtain ⟨u, hu, hsame⟩ := exists_sameAt_listed hchain hw (hlists c hc)
    exact (sameAt_newest hchain hw hu hsame x hx).symm
  have hfilesx : ∀ path ∈ meFile :: collections.flatMap fun c => listed w c.1,
      x (.file path) = w (.file path) := fun path hpath => by
    obtain ⟨u, hu, hsame⟩ := hfiles path hpath
    exact (sameAt_newest (i := .file path) hchain hw hu hsame x hx).symm
  refine ⟨?_, hlistsx, hfilesx⟩
  have hsources : V.sources.eval w = V.sources.eval x := by
    rw [sources_eval, sources_eval, flatMap_congr hlistsx]
    exact map_congr_left fun path hpath => Prod.ext rfl (hfilesx path hpath).symm
  have hrest := hw.rest x hx' hsources
  exact ⟨hrest.root.symm, fun c hc => (hrest.type c hc).symm⟩

end Moving

end Vaults

end U2os.Majordomo.Memory
