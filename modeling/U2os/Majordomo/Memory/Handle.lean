import U2os.Lib.Run
import U2os.Majordomo.Memory.Edits

/-!
# The handle of the memory index

`memory/handle.rs`: the index that is kept, the fingerprint it is kept with, and the changes that
are announced.  A call holds the lock from its first question to its end, and the vault may be
edited between any two questions.  The fingerprint is taken before the scan: an edit in between
changes it, unless it is undone.
-/

namespace U2os.Majordomo.Memory

open Inquiry List

variable {V : Vaults}

structure ChangedRecord where
  id : String
  path : String
deriving DecidableEq

structure IndexChange where
  generation : ℕ
  added : List ChangedRecord := []
  modified : List ChangedRecord := []
  removed : List ChangedRecord := []
  invalidFiles : ℕ

def IndexChange.isEmpty (c : IndexChange) : Bool :=
  c.added.isEmpty && c.modified.isEmpty && c.removed.isEmpty

/-- A record, as it is announced. -/
def Record.changed {δ : Type} (r : Record δ) : ChangedRecord := ⟨r.id, r.path⟩

/-- The record of a path, as a map collected from all records has it. -/
def lastOf {δ : Type} (records : List (Record δ)) (path : String) : Option (Record δ) :=
  records.reverse.find? fun r => r.path = path

def diff (generation : ℕ) (old : Option (MemoryIndex V)) (new : MemoryIndex V) : IndexChange :=
  let invalidFiles := new.vault.invalid.length
  match old with
  | none => { generation, invalidFiles }
  | some old =>
    { generation, invalidFiles
      added := (new.vault.records.filter fun r =>
        (lastOf old.vault.records r.path).isNone).map Record.changed
      modified := (new.vault.records.filter fun r =>
        (lastOf old.vault.records r.path).any fun previous => previous != r).map Record.changed
      removed := (old.vault.records.filter fun r =>
        !(new.vault.records.map (·.path)).contains r.path).map Record.changed }

/-! ### Calls -/

/-- The kept state: `checked` says whether the vault has ever been examined. -/
structure Handle (V : Vaults) where
  index : Option (MemoryIndex V) := none
  signature : Option V.Signature := none
  checked : Bool := false
  generation : ℕ := 0
  lastChange : Option IndexChange := none

/-- A call under way: the fingerprint is taken, or the vault is scanned. -/
inductive Process (V : Vaults) where
  | signing (p : V.Reading (List (String × Option V.File)))
  | scanning (signed : List (String × Option V.File)) (p : V.Reading (Except String V.Survey))

/-- What a call returns: the index that was kept, one that was built, or an error. -/
inductive Outcome (V : Vaults) where
  | cached (index : MemoryIndex V)
  | rescanned (index : MemoryIndex V)
  | failed (message : String)

/-- The result of a call. -/
def Outcome.result : Outcome V → Except String (MemoryIndex V)
  | .cached index => .ok index
  | .rescanned index => .ok index
  | .failed message => .error message

/-- The index of a successful rescan. -/
def Outcome.rescanned? : Outcome V → Option (MemoryIndex V)
  | .rescanned index => some index
  | _ => none

/-- What the kept index comes from: the files its fingerprint was taken of, what was scanned, and the
states the vault was in during the call, newest first. -/
structure Origin (V : Vaults) where
  signed : List (String × Option V.File)
  survey : V.Survey
  seen : List (Vault V.File)

/-- The vault, the handle and the call that holds its lock. -/
structure State (V : Vaults) where
  vault : Vault V.File
  handle : Handle V := {}
  running : Option (Process V) := none
  /-- What the calls have returned. -/
  returned : List (Outcome V) := []
  /-- What has been sent to the subscribers. -/
  announced : List IndexChange := []
  origin : Option (Origin V) := none
  /-- The states of the vault since the last call got the lock, newest first. -/
  seen : List (Vault V.File) := []

/-- What happens. -/
inductive Label (V : Vaults) where
  /-- The vault is edited. -/
  | edit (vault : Vault V.File)
  /-- `refresh` where `force`, else `current`, gets the lock; `recent` where the vault was examined
  less than `min_interval` ago. -/
  | call (force recent : Bool)
  /-- The call asks its next question, or goes on with what it has read. -/
  | work

namespace State

variable (s : State V)

/-- The call returns. -/
def finish (outcome : Outcome V) : State V :=
  { s with
    handle := { s.handle with checked := true }
    running := none
    returned := s.returned ++ [outcome] }

/-- A successful scan is kept, and announced unless it is the first. -/
def commit (signed : List (String × Option V.File)) (survey : V.Survey) : State V :=
  let index : MemoryIndex V := .build (V.interpret survey)
  let generation := s.handle.generation + 1
  let change := diff generation s.handle.index index
  { s with
    handle :=
      { index := some index
        signature := some (V.signatureOf signed)
        checked := true
        generation
        lastChange := if s.handle.index.isSome && !change.isEmpty then some change
          else s.handle.lastChange }
    running := none
    returned := s.returned ++ [.rescanned index]
    announced := if s.handle.index.isSome then s.announced ++ [change] else s.announced
    origin := some ⟨signed, survey, s.seen⟩ }

/-- The next step of the call that holds the lock. -/
def work : Process V → State V
  | .signing (.ask q k) => { s with running := some (.signing (k (s.vault q))) }
  | .signing (.ret found) =>
    match s.handle.index with
    | some index =>
      if s.handle.signature = some (V.signatureOf found) then s.finish (.cached index)
      else { s with running := some (.scanning found V.survey) }
    | none => { s with running := some (.scanning found V.survey) }
  | .scanning signed (.ask q k) => { s with running := some (.scanning signed (k (s.vault q))) }
  | .scanning _ (.ret (.error message)) => s.finish (.failed message)
  | .scanning signed (.ret (.ok survey)) => s.commit signed survey

/-- `update`, from the moment it gets the lock. -/
def call (force recent : Bool) : State V :=
  match s.handle.index with
  | some index =>
    if !force && s.handle.checked && recent then
      { s with returned := s.returned ++ [.cached index] }
    else { s with running := some (.signing V.sources), seen := [s.vault] }
  | none => { s with running := some (.signing V.sources), seen := [s.vault] }

/-- What a label does, where it can happen. -/
def perform : Label V → Option (State V)
  | .edit vault => some { s with vault, seen := vault :: s.seen }
  | .call force recent => if s.running.isNone then some (s.call force recent) else none
  | .work => s.running.map s.work

end State

/-- The handle, over a vault. -/
def indexHandle (V : Vaults) (vault : Vault V.File) : Machine (State V) (Label V) :=
  .ofPerform { vault } State.perform

/-- `MemoryIndex::build` of a fresh scan. -/
def fresh (vault : Vault V.File) : Except String (MemoryIndex V) :=
  (V.scan.eval vault).map MemoryIndex.build

/-- The ids of the records, by path. -/
def idsByPath (index : MemoryIndex V) (path : String) : Option String :=
  (index.vault.records.find? fun r => r.path = path).map (·.id)

/-- A change is applied: what was removed goes, what was modified or added comes. -/
def IndexChange.apply (c : IndexChange) (ids : String → Option String) : String → Option String :=
  (c.modified ++ c.added).foldl (fun ids r => Function.update ids r.path (some r.id))
    (c.removed.foldl (fun ids r => Function.update ids r.path none) ids)

/-- The changes, applied in order. -/
def replay (first : String → Option String) (changes : List IndexChange) :
    String → Option String :=
  changes.foldl (fun ids c => c.apply ids) first

/-- An edit puts nothing back that was changed during the call under way, or during the call that
took the kept fingerprint. -/
def Label.Harmless (s : State V) : Label V → Prop
  | .edit vault =>
    (s.running.isSome → Vaults.Onward s.seen vault) ∧ ∀ o ∈ s.origin, Vaults.Onward o.seen vault
  | _ => True

/-! ### The changes lead from one index to the next -/

section Changes

variable {δ : Type} {records : List (Record δ)} {r : Record δ} {path : String}

theorem find?_path_iff (hnodup : (records.map (·.path)).Nodup) :
    (records.find? fun r => r.path = path) = some r ↔ r ∈ records ∧ r.path = path := by
  constructor
  · intro h
    exact ⟨mem_of_find?_eq_some h, by simpa using find?_some h⟩
  · rintro ⟨hr, hpath⟩
    cases hfind : records.find? fun r => r.path = path with
    | none =>
      have hne := find?_eq_none.1 hfind r hr
      exact absurd hpath (by simpa using hne)
    | some r' =>
      have hr' : r'.path = path := by simpa using find?_some hfind
      rw [inj_on_of_nodup_map hnodup (mem_of_find?_eq_some hfind) hr
        (hr'.trans hpath.symm)]

theorem lastOf_iff (hnodup : (records.map (·.path)).Nodup) :
    lastOf records path = some r ↔ r ∈ records ∧ r.path = path := by
  have hreverse : (records.reverse.map (·.path)).Nodup := by
    rw [map_reverse, nodup_reverse]
    exact hnodup
  rw [lastOf, find?_path_iff hreverse, mem_reverse]

variable {l : List ChangedRecord} {f : ChangedRecord → Option String} {ids : String → Option String}

theorem foldl_update_of_notMem (h : path ∉ l.map (·.path)) :
    l.foldl (fun ids r => Function.update ids r.path (f r)) ids path = ids path := by
  induction l generalizing ids with
  | nil => rfl
  | cons r l ih =>
    rw [map_cons, mem_cons, not_or] at h
    rw [foldl_cons, ih h.2, Function.update_of_ne h.1]

theorem foldl_update_of_forall {x : Option String} (h : ∀ r ∈ l, r.path = path → f r = x)
    (hmem : path ∈ l.map (·.path) ∨ ids path = x) :
    l.foldl (fun ids r => Function.update ids r.path (f r)) ids path = x := by
  induction l generalizing ids with
  | nil => exact hmem.resolve_left (not_mem_nil)
  | cons r l ih =>
    rw [foldl_cons]
    refine ih (fun r hr => h r (mem_cons_of_mem _ hr)) ?_
    by_cases hr : r.path = path
    · rw [hr, Function.update_self]
      exact .inr (h r mem_cons_self hr)
    · rw [Function.update_of_ne (Ne.symm hr)]
      refine hmem.imp_left fun hm => ?_
      rw [map_cons, mem_cons] at hm
      exact hm.resolve_left (Ne.symm hr)

theorem mem_paths_changed {q : Record δ → Bool} :
    path ∈ ((records.filter q).map Record.changed).map (·.path) ↔
      ∃ r ∈ records, q r = true ∧ r.path = path := by
  rw [map_map, mem_map]
  constructor
  · rintro ⟨r, hr, rfl⟩
    obtain ⟨hr, hq⟩ := mem_filter.1 hr
    exact ⟨r, hr, hq, rfl⟩
  · rintro ⟨r, hr, hq, rfl⟩
    exact ⟨r, mem_filter.2 ⟨hr, hq⟩, rfl⟩

end Changes

theorem id_eq_of_beq {δ : Type} [BEq δ] {r r' : Record δ} (h : (r == r') = true) : r.id = r'.id := by
  have hand : (r.id == r'.id && r.path == r'.path && decide (r.kind = r'.kind) &&
    r.contents == r'.contents) = true := h
  simp only [Bool.and_eq_true, beq_iff_eq] at hand
  exact hand.1.1.1

/-- The difference of two indexes turns the ids of the old one into those of the new one. -/
theorem apply_diff {old new : MemoryIndex V} (generation : ℕ)
    (hold : (old.vault.records.map (·.path)).Nodup)
    (hnew : (new.vault.records.map (·.path)).Nodup) :
    (diff generation (some old) new).apply (idsByPath old) = idsByPath new := by
  funext path
  rw [IndexChange.apply]
  cases hfind : new.vault.records.find? fun r => r.path = path with
  | some r =>
    obtain ⟨hr, hpath⟩ := (find?_path_iff hnew).1 hfind
    have hids : idsByPath new path = some r.id := by rw [idsByPath, hfind]; rfl
    rw [hids]
    -- What comes for the path is the record; it comes, or was there.
    refine foldl_update_of_forall (f := fun r => some r.id) ?_ ?_
    · intro c hc hcpath
      obtain ⟨r', hr', rfl⟩ : ∃ r' ∈ new.vault.records, r'.changed = c := by
        rcases List.mem_append.1 hc with hc | hc
        all_goals
          obtain ⟨r', hr', he⟩ := mem_map.1 hc
          exact ⟨r', mem_of_mem_filter hr', he⟩
      have hsame : r' = r := inj_on_of_nodup_map hnew hr' hr (Eq.trans hcpath hpath.symm)
      rw [hsame]
      rfl
    · rw [map_append, List.mem_append, diff]
      cases hlast : lastOf old.vault.records path with
      | none =>
        refine .inl (.inr (mem_paths_changed.2 ⟨r, hr, ?_, hpath⟩))
        rw [hpath, hlast]
        rfl
      | some previous =>
        obtain ⟨hprevious, hppath⟩ := (lastOf_iff hold).1 hlast
        by_cases hne : (previous != r) = true
        · refine .inl (.inl (mem_paths_changed.2 ⟨r, hr, ?_, hpath⟩))
          rw [hpath, hlast]
          exact hne
        · right
          have heq : (previous == r) = true := by simpa [bne] using hne
          rw [foldl_update_of_notMem (f := fun _ => none), idsByPath,
            (find?_path_iff hold).2 ⟨hprevious, hppath⟩, Option.map_some, id_eq_of_beq heq]
          rw [mem_paths_changed]
          rintro ⟨r', -, hgone, hpath'⟩
          rw [hpath', ← hpath, contains_iff_mem.2 (mem_map.2 ⟨r, hr, rfl⟩)] at hgone
          cases hgone
  | none =>
    have hgone : ∀ r ∈ new.vault.records, r.path ≠ path := fun r hr => by
      have hne := find?_eq_none.1 hfind r hr
      simpa using hne
    have hids : idsByPath new path = none := by rw [idsByPath, hfind]; rfl
    rw [hids, foldl_update_of_notMem (f := fun r => some r.id)]
    · -- What was there goes.
      refine foldl_update_of_forall (f := fun _ => none) (fun _ _ _ => rfl) ?_
      cases hlast : old.vault.records.find? fun r => r.path = path with
      | none => exact .inr (by rw [idsByPath, hlast]; rfl)
      | some r =>
        obtain ⟨hr, hpath⟩ := (find?_path_iff hold).1 hlast
        refine .inl (mem_paths_changed.2 ⟨r, hr, ?_, hpath⟩)
        rw [Bool.not_eq_true', Bool.eq_false_iff, Ne, contains_iff_mem, hpath]
        rintro hmem
        obtain ⟨r', hr', he⟩ := mem_map.1 hmem
        exact hgone r' hr' he
    · rw [map_append, List.mem_append, diff]
      rintro (hmem | hmem)
      all_goals
        obtain ⟨r, hr, -, hpath⟩ := mem_paths_changed.1 hmem
        exact hgone r hr hpath

/-! ### Invariants -/

/-- The indexes of the successful rescans. -/
def State.rescans (s : State V) : List (MemoryIndex V) := s.returned.filterMap Outcome.rescanned?

/-- The kept index is what was scanned, with the fingerprint taken before; every successful rescan
is a generation, and the changes since the first lead to the kept index. -/
structure Kept (s : State V) : Prop where
  origin : ∀ i, s.handle.index = some i → ∃ o, s.origin = some o ∧
    s.handle.signature = some (V.signatureOf o.signed) ∧ i = .build (V.interpret o.survey) ∧
    (o.survey.files.map Prod.fst).Nodup
  scanning : ∀ signed p, s.running = some (.scanning signed p) →
    p.Every fun read => ∀ sv, read = .ok sv → (sv.files.map Prod.fst).Nodup
  generation : s.handle.generation = s.rescans.length
  first : s.handle.index = none → s.rescans = [] ∧ s.announced = []
  replayed : ∀ i, s.handle.index = some i → ∃ i₀, s.rescans.head? = some i₀ ∧
    replay (idsByPath i₀) s.announced = idsByPath i

section Steps

variable {s t : State V} {vault : Vault V.File}

theorem kept_init (vault : Vault V.File) : Kept ({ vault } : State V) :=
  ⟨nofun, nofun, rfl, fun _ => ⟨rfl, rfl⟩, nofun⟩

theorem Kept.running (h : Kept s) (vault : Vault V.File) {running : Option (Process V)}
    {seen : List (Vault V.File)} (hscan : ∀ signed p, running = some (.scanning signed p) →
      p.Every fun read => ∀ sv, read = .ok sv → (sv.files.map Prod.fst).Nodup) :
    Kept { s with vault, running, seen } :=
  ⟨h.origin, hscan, h.generation, h.first, h.replayed⟩

theorem Kept.returns (h : Kept s) {outcome : Outcome V} (houtcome : outcome.rescanned? = none)
    {handle : Handle V} {running : Option (Process V)}
    (hhandle : handle.index = s.handle.index ∧ handle.signature = s.handle.signature ∧
      handle.generation = s.handle.generation)
    (hscan : ∀ signed p, running = some (.scanning signed p) →
      p.Every fun read => ∀ sv, read = .ok sv → (sv.files.map Prod.fst).Nodup) :
    Kept { s with handle, running, returned := s.returned ++ [outcome] } := by
  have hrescans : (s.returned ++ [outcome]).filterMap Outcome.rescanned? = s.rescans := by
    rw [filterMap_append, filterMap_cons_none houtcome, filterMap_nil,
      append_nil]
    rfl
  obtain ⟨hindex, hsignature, hgeneration⟩ := hhandle
  refine ⟨fun i hi => ?_, hscan, ?_, fun hi => ?_, fun i hi => ?_⟩
  · rw [hsignature]
    exact h.origin i (hindex ▸ hi)
  · rw [State.rescans, hrescans, hgeneration]
    exact h.generation
  · rw [State.rescans, hrescans]
    exact h.first (hindex ▸ hi)
  · rw [State.rescans, hrescans]
    exact h.replayed i (hindex ▸ hi)

theorem Kept.commit (h : Kept s) {signed : List (String × Option V.File)} {survey : V.Survey}
    (hnodup : (survey.files.map Prod.fst).Nodup) : Kept (s.commit signed survey) := by
  have hrescans : (s.commit signed survey).rescans =
      s.rescans ++ [.build (V.interpret survey)] := by
    rw [State.rescans, State.commit, filterMap_append]
    rfl
  refine ⟨?_, nofun, ?_, nofun, ?_⟩
  · rintro i ⟨⟩
    exact ⟨_, rfl, rfl, rfl, hnodup⟩
  · rw [hrescans, List.length_append, ← h.generation]
    rfl
  · rintro i ⟨⟩
    rw [hrescans, State.commit]
    dsimp only
    cases hindex : s.handle.index with
    | none =>
      obtain ⟨hnil, hannounced⟩ := h.first hindex
      rw [hnil, hannounced]
      exact ⟨_, rfl, rfl⟩
    | some old =>
      obtain ⟨i₀, hhead, hreplay⟩ := h.replayed old hindex
      obtain ⟨o, -, -, rfl, hold⟩ := h.origin old hindex
      refine ⟨i₀, by rw [head?_append, hhead]; rfl, ?_⟩
      rw [Option.isSome_some, if_pos rfl, replay, foldl_append]
      change IndexChange.apply _ (replay (idsByPath i₀) s.announced) = _
      rw [hreplay]
      exact apply_diff _ (Vaults.nodup_records hold) (Vaults.nodup_records hnodup)

/-- Every step of the handle keeps what is known of its parts. -/
theorem Kept.perform (h : Kept s) {l : Label V} (hstep : s.perform l = some t) : Kept t := by
  cases l with
  | edit vault =>
    cases hstep
    exact h.running vault h.scanning
  | call force recent =>
    rw [State.perform] at hstep
    split_ifs at hstep with hfree
    cases hstep
    rw [State.call]
    split
    · split_ifs
      · exact h.returns rfl ⟨rfl, rfl, rfl⟩ h.scanning
      · exact h.running s.vault nofun
    · exact h.running s.vault nofun
  | work =>
    obtain ⟨process, hrunning, rfl⟩ := Option.map_eq_some_iff.1 hstep
    match process with
    | .signing (.ask q k) => exact h.running s.vault nofun
    | .signing (.ret found) =>
      have hscan : Kept { s with running := some (.scanning found V.survey) } := by
        refine h.running s.vault fun signed p hp => ?_
        cases hp
        exact Vaults.every_survey
      rw [State.work]
      split
      · split_ifs
        · exact h.returns rfl ⟨rfl, rfl, rfl⟩ nofun
        · exact hscan
      · exact hscan
    | .scanning signed (.ask q k) =>
      refine h.running s.vault fun signed' p hp => ?_
      cases hp
      exact h.scanning signed _ hrunning (s.vault q)
    | .scanning signed (.ret (.error message)) => exact h.returns rfl ⟨rfl, rfl, rfl⟩ nofun
    | .scanning signed (.ret (.ok survey)) =>
      exact h.commit (h.scanning signed _ hrunning survey rfl)

/-! ### What the calls have seen -/

/-- What was fingerprinted was found in the older states, and the rest of the scan reads what a fresh
scan of a vault reads, if the states since then have all that a scan reads of it. -/
def Scanned (seen : List (Vault V.File)) (signed : List (String × Option V.File))
    (p : V.Reading (Except String V.Survey)) : Prop :=
  ∃ newer older, seen = newer ++ older ∧ Vaults.FoundDuring older signed ∧
    ∀ w, (∀ u ∈ newer ++ older.head?.toList, Vaults.Agree w u) →
      p.Always (Vaults.Agree w) (V.survey.eval w)

/-- The calls have read the states they have seen, and the vault has moved on from each of them. -/
structure Followed (s : State V) : Prop where
  chain : s.running.isSome → Vaults.Chain s.seen ∧ s.seen.head? = some s.vault
  signing : ∀ p, s.running = some (.signing p) → p.Along Vaults.FoundDuring s.seen
  scanning : ∀ signed p, s.running = some (.scanning signed p) → Scanned s.seen signed p
  origin : ∀ o, s.origin = some o → Vaults.Onward o.seen s.vault ∧ Vaults.Chain o.seen ∧
    Scanned o.seen o.signed (.ret (.ok o.survey))

/-- Where the files are those the kept fingerprint was taken of, a scan reads what was scanned. -/
theorem Followed.settled (h : Followed s) {o : Origin V} (ho : s.origin = some o)
    (heq : V.sources.eval s.vault = o.signed) : V.survey.eval s.vault = .ok o.survey := by
  obtain ⟨honward, hchain, newer, older, hseen, hfound, hscan⟩ := h.origin o ho
  rw [hseen] at honward hchain
  rw [← heq] at hfound
  exact (hscan s.vault (Vaults.agree_since hchain honward hfound)).symm

theorem followed_init (vault : Vault V.File) : Followed ({ vault } : State V) :=
  ⟨nofun, nofun, nofun, nofun⟩

theorem Followed.returns (h : Followed s) (outcome : Outcome V) : Followed (s.finish outcome) :=
  ⟨nofun, nofun, nofun, h.origin⟩

theorem Followed.commit (h : Followed s) {signed : List (String × Option V.File)}
    {survey : V.Survey} (hrunning : s.running = some (.scanning signed (.ret (.ok survey)))) :
    Followed (s.commit signed survey) := by
  refine ⟨nofun, nofun, nofun, ?_⟩
  rintro o ⟨⟩
  obtain ⟨hchain, hlatest⟩ := h.chain (by rw [hrunning]; rfl)
  obtain ⟨older, hseen⟩ : ∃ older, s.seen = s.vault :: older := head?_eq_some_iff.1 hlatest
  refine ⟨?_, hchain, h.scanning _ _ hrunning⟩
  rw [hseen] at hchain ⊢
  exact Vaults.onward_newest hchain

/-- An edit that puts nothing back is seen, and nothing else happens. -/
theorem Followed.edit (h : Followed s) (hl : Label.Harmless s (.edit vault)) :
    Followed { s with vault, seen := vault :: s.seen } := by
  refine ⟨fun hrunning => ⟨⟨hl.1 hrunning, (h.chain hrunning).1⟩, rfl⟩, fun p hp => ?_,
    fun signed p hp => ?_, fun o ho => ⟨hl.2 o ho, (h.origin o ho).2⟩⟩
  · exact (h.signing p hp).later (fun newer _ _ hfound => hfound.later newer) [vault]
  · obtain ⟨newer, older, hseen, hfound, hscan⟩ := h.scanning signed p hp
    exact ⟨vault :: newer, older, congrArg _ hseen, hfound, fun w hw =>
      hscan w fun u hu => hw u (mem_cons_of_mem _ hu)⟩

/-- A harmless step leaves the index following the vault. -/
theorem Followed.perform (h : Followed s) {l : Label V} (hl : l.Harmless s)
    (hstep : s.perform l = some t) : Followed t := by
  cases l with
  | edit vault =>
    cases hstep
    exact h.edit hl
  | call force recent =>
    have hbegins : Followed { s with running := some (.signing V.sources), seen := [s.vault] } := by
      refine ⟨fun _ => ⟨⟨⟨nofun, nofun⟩, trivial⟩, rfl⟩, ?_, nofun, h.origin⟩
      rintro p ⟨⟩
      exact Vaults.along_sources _
    rw [State.perform] at hstep
    split_ifs at hstep with hfree
    cases hstep
    rw [State.call]
    split
    · split_ifs
      · exact ⟨h.chain, h.signing, h.scanning, h.origin⟩
      · exact hbegins
    · exact hbegins
  | work =>
    obtain ⟨process, hrunning, rfl⟩ := Option.map_eq_some_iff.1 hstep
    obtain ⟨hchain, hlatest⟩ := h.chain (by rw [hrunning]; rfl)
    obtain ⟨older, hseen⟩ : ∃ older, s.seen = s.vault :: older := head?_eq_some_iff.1 hlatest
    match process with
    | .signing (.ask q k) =>
      refine ⟨fun _ => ⟨hchain, hlatest⟩, ?_, nofun, h.origin⟩
      rintro p ⟨⟩
      have hnext := h.signing _ hrunning [] s.vault older hseen
      rwa [← hseen] at hnext
    | .signing (.ret found) =>
      have hscan : Followed { s with running := some (.scanning found V.survey) } := by
        refine ⟨fun _ => ⟨hchain, hlatest⟩, nofun, ?_, h.origin⟩
        rintro signed p ⟨⟩
        exact ⟨[], s.seen, rfl, h.signing _ hrunning, fun w _ => Vaults.always_survey w⟩
      rw [State.work]
      split
      · split_ifs
        · exact h.returns _
        · exact hscan
      · exact hscan
    | .scanning signed (.ask q k) =>
      refine ⟨fun _ => ⟨hchain, hlatest⟩, nofun, ?_, h.origin⟩
      rintro _ p ⟨⟩
      obtain ⟨newer, since, hsplit, hfound, hscan⟩ := h.scanning _ _ hrunning
      refine ⟨newer, since, hsplit, hfound, fun w hw => hscan w hw s.vault (hw s.vault ?_)⟩
      -- the vault as it is now is the newest of the states
      rw [hsplit] at hlatest
      cases newer with
      | nil => exact Option.mem_toList.2 hlatest
      | cons v newer => exact mem_append_left _ (mem_cons.2 (.inl (Option.some.inj hlatest).symm))
    | .scanning signed (.ret (.error message)) => exact h.returns _
    | .scanning signed (.ret (.ok survey)) => exact h.commit hrunning

/-- The call under way goes on from one state to the other, while nobody edits the vault. -/
def Works (vault : Vault V.File) (s t : State V) : Prop :=
  ∃ n, (indexHandle V vault).Steps s (List.replicate n .work) t

theorem Works.trans {u : State V} (h : Works vault s t) (h' : Works vault t u) :
    Works vault s u := by
  obtain ⟨n, hn⟩ := h
  obtain ⟨m, hm⟩ := h'
  refine ⟨n + m, ?_⟩
  rw [replicate_add]
  exact hn.trans hm

theorem works_of_work (vault : Vault V.File) {process : Process V} (h : s.running = some process) :
    Works vault s (s.work process) := by
  refine ⟨1, Machine.Steps.single ?_⟩
  change s.perform .work = some _
  rw [State.perform, h]
  rfl

theorem works_asking (vault : Vault V.File) {α : Type} (c : V.Reading α → Process V)
    (hc : ∀ (s : State V) q k, s.work (c (.ask q k)) = { s with running := some (c (k (s.vault q))) })
    (p : V.Reading α) (s : State V) : Works vault { s with running := some (c p) }
      { s with running := some (c (.ret (p.eval s.vault))) } := by
  induction p with
  | ret a => exact ⟨0, Machine.Steps.nil⟩
  | ask q k ih =>
    have hask := works_of_work (s := { s with running := some (c (.ask q k)) }) vault rfl
    rw [hc] at hask
    exact hask.trans (ih (s.vault q))

theorem fresh_eq (v : Vault V.File) :
    fresh v = (V.survey.eval v).map fun sv => (.build (V.interpret sv) : MemoryIndex V) := by
  rw [fresh, Vaults.scan, eval_bind, eval_pure]
  cases V.survey.eval v <;> rfl

theorem scan_returns_fresh (vault : Vault V.File) (s : State V)
    (found : List (String × Option V.File)) :
    ∃ t outcome, Works vault { s with running := some (.scanning found V.survey) } t ∧
      t.running = none ∧ t.returned = s.returned ++ [outcome] ∧
      outcome.result = fresh s.vault := by
  have hscan := works_asking vault (Process.scanning found) (fun _ _ _ => rfl) V.survey s
  rw [fresh_eq]
  cases hsurvey : V.survey.eval s.vault with
  | error message =>
    rw [hsurvey] at hscan
    exact ⟨_, .failed message, hscan.trans (works_of_work vault rfl), rfl, rfl, rfl⟩
  | ok survey =>
    rw [hsurvey] at hscan
    exact ⟨_, .rescanned (.build (V.interpret survey)), hscan.trans (works_of_work vault rfl), rfl, rfl,
      rfl⟩

/-- A call that has the lock and goes on undisturbed returns the index of a fresh scan, if what was
scanned is there whenever what was fingerprinted is. -/
theorem signing_returns_fresh (hseparates : Function.Injective V.signatureOf) (h : Kept s)
    (hsettled : ∀ o, s.origin = some o → V.sources.eval s.vault = o.signed →
      V.survey.eval s.vault = .ok o.survey) :
    ∃ t outcome, Works vault { s with running := some (.signing V.sources) } t ∧
      t.running = none ∧ t.returned = s.returned ++ [outcome] ∧
      outcome.result = fresh s.vault := by
  have hsign := works_asking vault Process.signing (fun _ _ _ => rfl) V.sources s
  set found := V.sources.eval s.vault with hfound
  have hnext : Works vault { s with running := some (.signing V.sources) } (State.work
      { s with running := some (.signing (.ret found)) } (.signing (.ret found))) :=
    hsign.trans (works_of_work vault rfl)
  by_cases hcached : ∃ i, s.handle.index = some i ∧
      s.handle.signature = some (V.signatureOf found)
  · -- The files are those of the kept fingerprint, so that a scan reads what was scanned.
    obtain ⟨i, hindex, hsignature⟩ := hcached
    obtain ⟨o, horigin, hkept, rfl, -⟩ := h.origin i hindex
    rw [hsignature] at hkept
    have hsurvey := hsettled o horigin (hseparates (Option.some.inj hkept))
    rw [State.work, hindex, hsignature] at hnext
    refine ⟨_, .cached (.build (V.interpret o.survey)), by simpa using hnext, rfl, rfl, ?_⟩
    rw [fresh_eq, hsurvey]
    rfl
  · obtain ⟨t, outcome, hscan, hend⟩ := scan_returns_fresh vault s found
    refine ⟨t, outcome, hnext.trans ?_, hend⟩
    have hwork : State.work { s with running := some (.signing (.ret found)) }
        (.signing (.ret found)) = { s with running := some (.scanning found V.survey) } := by
      rw [State.work]
      cases hindex : s.handle.index with
      | none => rfl
      | some i => exact if_neg fun hs => hcached ⟨i, hindex, hs⟩
    rw [hwork]
    exact hscan

theorem refresh_returns_fresh (hseparates : Function.Injective V.signatureOf) (h : Kept s)
    (hfollowed : Followed s) (hfree : s.running = none) (recent : Bool) :
    ∃ n t outcome, (indexHandle V vault).Steps s (.call true recent :: List.replicate n .work) t ∧
      t.running = none ∧ t.returned = s.returned ++ [outcome] ∧
      outcome.result = fresh s.vault := by
  have hcall : s.perform (.call true recent) =
      some { s with running := some (.signing V.sources), seen := [s.vault] } := by
    rw [State.perform, hfree, State.call]
    cases s.handle.index <;> rfl
  have hkept : Kept { s with seen := [s.vault] } := h.running s.vault h.scanning
  obtain ⟨t, outcome, ⟨n, hn⟩, hend⟩ : ∃ t outcome,
      Works vault { s with running := some (.signing V.sources), seen := [s.vault] } t ∧
        t.running = none ∧ t.returned = s.returned ++ [outcome] ∧ outcome.result = fresh s.vault :=
    signing_returns_fresh hseparates hkept fun o => hfollowed.settled
  exact ⟨n, t, outcome, Machine.Steps.cons hcall hn, hend⟩

theorem eq_of_works {u : State V} {n m : ℕ}
    (hn : (indexHandle V vault).Steps s (List.replicate n .work) t)
    (hm : (indexHandle V vault).Steps s (List.replicate m .work) u)
    (ht : t.running = none) (hu : u.running = none) : t = u := by
  have hstop : ∀ {s t : State V} {k : ℕ}, s.running = none →
      (indexHandle V vault).Steps s (replicate k .work) t → t = s := by
    intro s t k hs hk
    cases k with
    | zero => exact hk.eq_of_nil
    | succ k =>
      obtain ⟨w, hw, -⟩ := Machine.Steps.uncons hk
      change s.perform .work = some w at hw
      rw [State.perform, hs] at hw
      cases hw
  induction n generalizing s m with
  | zero =>
    have hts : t = s := hn.eq_of_nil
    rw [hts] at ht ⊢
    exact (hstop ht hm).symm
  | succ n ih =>
    obtain ⟨w, hw, hwt⟩ := Machine.Steps.uncons hn
    cases m with
    | zero =>
      have hus : u = s := hm.eq_of_nil
      rw [hus] at hu ⊢
      exact hstop hu hn
    | succ m =>
      obtain ⟨w', hw', hwu⟩ := Machine.Steps.uncons hm
      cases Option.some.inj (hw.symm.trans hw')
      exact ih hwt hwu

/-- In a run in which no edit puts back what was changed during the call that took the kept
fingerprint, or during the call under way: a refresh that nobody disturbs returns the index of a fresh
scan; the generation counts the successful rescans; and the announced changes lead from the first
records to those that are kept. -/
theorem index_follows_vault (hseparates : Function.Injective V.signatureOf) {h : List (Label V)}
    (hs : ((indexHandle V vault).restrict fun s l _ => l.Harmless s).Run h s) :
    (s.running = none → ∀ recent, ∃ n t outcome,
      (indexHandle V vault).Steps s (.call true recent :: List.replicate n .work) t ∧
        t.running = none ∧ t.returned = s.returned ++ [outcome] ∧
        outcome.result = fresh s.vault) ∧
      s.handle.generation = s.rescans.length ∧
      ∀ i, s.handle.index = some i → ∃ i₀, s.rescans.head? = some i₀ ∧
        replay (idsByPath i₀) s.announced = idsByPath i := by
  obtain ⟨hkept, hfollowed⟩ : Kept s ∧ Followed s :=
    hs.invariant (I := fun s => Kept s ∧ Followed s) ⟨kept_init vault, followed_init vault⟩
      fun t l u ht hstep => ⟨ht.1.perform hstep.1, ht.2.perform hstep.2 hstep.1⟩
  exact ⟨fun hfree recent => refresh_returns_fresh hseparates hkept hfollowed hfree recent,
    hkept.generation, hkept.replayed⟩

end Steps

/-! ### Samples -/

/-- The file of one person. -/
def sampleText : String := "---\nid: ent_ada\nname: Ada\n---\n"

/-- Vaults whose files all have the same text. -/
def sampleVaults : Vaults where
  File := Fingerprint
  Contents := String
  Derived := Unit
  Signature := List (String × Option Fingerprint)
  root := "/home/ada/vault"
  fingerprint := id
  read _ := .ok sampleText
  describe path kind text :=
    if text = sampleText then .ok ⟨"ent_ada", path, kind, "Ada"⟩ else .error "invalid"
  path_eq path kind text record h := by
    split_ifs at h
    cases h
    rfl
  derive _ := ()
  hash := id

/-- The state of the file. -/
def sampleFile : Fingerprint := ⟨33, 1700000000, 0, 42, true⟩

/-- A vault with no files, or with the file of one person. -/
def sampleVault (there : Bool) : Vault Fingerprint
  | .root => .ok true
  | .file path =>
    if there ∧ path = "people/ada.md" then some sampleFile else none
  | .directoryType dir => if dir = "people" then .directory else .other
  | .entries _ => some ⟨if there then [⟨some "ada.md", true⟩] else [], by cases there <;> simp⟩

theorem sample_separates : Function.Injective sampleVaults.signatureOf := by
  intro found found' h
  have hid : ∀ found, sampleVaults.signatureOf found = found := fun found => by
    refine (map_congr_left fun e _ => ?_).trans (map_id found)
    exact Prod.ext rfl (congrFun Option.map_id e.2)
  rwa [hid, hid] at h

/-- The survey that has found the file. -/
def sampleSurvey : sampleVaults.Survey :=
  ⟨[("people/ada.md", .person, (some sampleFile : Option Fingerprint))], []⟩

/-- The fingerprint of the empty vault has been taken. -/
def sampleSigned : State sampleVaults where
  vault := sampleVault false
  running := some (.scanning [(meFile, none)] sampleVaults.survey)
  seen := [sampleVault false]

/-- The scan of the file has been kept, with the fingerprint of the empty vault. -/
def sampleKept : State sampleVaults :=
  .commit { vault := sampleVault true, seen := [sampleVault true, sampleVault false] }
    [(meFile, none)] sampleSurvey

def Label.isEdit : Label V → Bool
  | .edit _ => true
  | _ => false

theorem step_perform {vault : Vault V.File} {s t : State V} {l : Label V}
    (h : s.perform l = some t) : (indexHandle V vault).step s l t := h

/-- The file comes after the fingerprint: the next refresh has it. -/
theorem sample_follows : ∃ n t outcome,
    (indexHandle sampleVaults (sampleVault false)).Steps sampleKept
      (.call true false :: List.replicate n .work) t ∧
    t.running = none ∧ t.returned = sampleKept.returned ++ [outcome] ∧
    outcome.result = fresh (sampleVault true) := by
  -- only an edit can be harmful
  have hdrive : ∀ {s t : State sampleVaults} {ls : List (Label sampleVaults)},
      Machine.drive State.perform (fun _ l => !l.isEdit) s ls = some t →
        ((indexHandle sampleVaults (sampleVault false)).restrict
          fun s l _ => l.Harmless s).Steps s ls t := by
    refine Machine.steps_drive fun s l hl => ?_
    cases l with
    | edit vault => cases hl
    | call force recent => trivial
    | work => trivial
  have hedit : Label.Harmless sampleSigned (.edit (sampleVault true)) := by
    refine ⟨fun _ => ⟨?_, fun u hu hsources => ?_⟩, nofun⟩
    · rintro _ ⟨⟩ u hu i -
      obtain rfl : u = sampleVault false := mem_singleton.1 hu
      cases i <;> exact rfl
    · obtain rfl : u = sampleVault false := mem_singleton.1 hu
      exact absurd (congrArg List.length hsources) (by decide +kernel)
  have hsigned : Machine.drive State.perform (fun _ l => !l.isEdit) { vault := sampleVault false }
      (.call true false :: replicate 6 .work) = some sampleSigned := rfl
  have hkept : Machine.drive State.perform (fun _ l => !l.isEdit)
      { sampleSigned with vault := sampleVault true, seen := [sampleVault true, sampleVault false] }
      (replicate 8 .work) = some sampleKept := rfl
  have hrun := ((hdrive hsigned).snoc ⟨step_perform rfl, hedit⟩).trans (hdrive hkept)
  exact (index_follows_vault sample_separates hrun).1 rfl false

/-- The file has been removed again. -/
def sampleUndone : State sampleVaults :=
  { sampleKept with
    vault := sampleVault false, seen := [sampleVault false, sampleVault true, sampleVault false] }

/-- A file that comes after the fingerprint and goes after the scan stays in the index. -/
theorem undone_edit_is_missed :
    ¬ ∀ (V : Vaults) (vault : Vault V.File) (h : List (Label V)) (s : State V),
      Function.Injective V.signatureOf → (indexHandle V vault).Run h s → s.running = none →
      ∀ recent, ∃ n t outcome,
        (indexHandle V vault).Steps s (.call true recent :: List.replicate n .work) t ∧
          t.running = none ∧ t.returned = s.returned ++ [outcome] ∧
          outcome.result = fresh s.vault := by
  intro hall
  have hrun : (indexHandle sampleVaults (sampleVault false)).Run
      (.call true false :: replicate 6 .work ++ [.edit (sampleVault true)] ++
        replicate 8 .work ++ [.edit (sampleVault false)]) sampleUndone := Machine.run_drive rfl
  obtain ⟨n, t, outcome, hsteps, hfree, hreturned, hresult⟩ :=
    hall sampleVaults _ _ _ sample_separates hrun rfl false
  -- The refresh finds the fingerprint of the kept index.
  obtain ⟨u, hcall, hwork⟩ := hsteps.uncons
  cases hcall
  have hdrive : Machine.drive State.perform (fun _ _ => true)
      (State.call sampleUndone true false) (replicate 6 .work) =
        some (State.finish { sampleUndone with seen := [sampleVault false] }
          (.cached (.build (sampleVaults.interpret sampleSurvey)))) := rfl
  have hcached : (indexHandle sampleVaults (sampleVault false)).Steps
      (State.call sampleUndone true false) (replicate 6 .work)
      (State.finish { sampleUndone with seen := [sampleVault false] }
        (.cached (.build (sampleVaults.interpret sampleSurvey)))) :=
    (Machine.steps_drive (P := fun _ _ => True) (fun _ _ _ => trivial) hdrive).of_restrict
  rw [eq_of_works hwork hcached hfree rfl] at hreturned
  have houtcome : .cached (.build (sampleVaults.interpret sampleSurvey)) = outcome := by
    simpa [State.finish] using hreturned
  rw [← houtcome] at hresult
  have hcount := congrArg
    (fun r : Except String (MemoryIndex sampleVaults) => r.toOption.map (·.vault.records.length))
    hresult
  revert hcount
  decide +kernel

end U2os.Majordomo.Memory
