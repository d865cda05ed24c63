import Mathlib.Data.List.Forall2
import Mathlib.Data.List.Infix
import Mathlib.Data.Option.Basic
import U2os.Server.Vault.ConfigLog

/-!
# Secrets and the log of configuration changes

Two runs that differ only in what is stored under keys that look like secrets record the same: a
value is redacted by its dotted key, and this has the names of all keys around it.  It does not have
the keys inside of a list, whose text is shown as a whole, so nothing is said of these.

Of the answers of the owner, what the journal has is which keys changed.  The snapshot has the
answers themselves, to find the next change.
-/

namespace U2os.Server.Vault.ConfigLog

open List Option Assoc ConfigLog

theorem isSecret_iff {key : String} : isSecret key = true ↔
    ∃ word ∈ secretWords, word.toList <:+: key.toList.map Char.toLower := by
  simp [isSecret, infix_iff_prefix_suffix, isPrefixOf_iff_prefix, mem_tails, and_comm]

theorem isSecret_dotted {pre key : String} (h : isSecret pre = true ∨ isSecret key = true) :
    isSecret (dotted pre key) = true := by
  unfold dotted
  split_ifs with hpre
  · refine h.resolve_left ?_
    rw [hpre]
    decide
  · rw [isSecret_iff, String.toList_append, String.toList_append, map_append, map_append]
    obtain h | h := h
    all_goals obtain ⟨word, hword, hinfix⟩ := isSecret_iff.1 h
    · exact ⟨word, hword, hinfix.trans ⟨[], _, by rw [nil_append, append_assoc]⟩⟩
    · exact ⟨word, hword, hinfix.trans (suffix_append _ _).isInfix⟩

theorem ne_empty_of_isSecret {key : String} (h : isSecret key = true) : key ≠ "" := by
  rintro rfl
  exact absurd h (by decide)

/-- The value is no mapping. -/
def IsLeaf (v : Json) : Prop := ∀ fields, v ≠ .obj fields

/-- Two values that differ only in what is stored under secret keys; the flag says that the values
are under one already. -/
inductive Masked : Bool → Json → Json → Prop
  | same {b : Bool} {v : Json} (h : IsLeaf v) : Masked b v v
  | secret {v w : Json} (hv : IsLeaf v) (hw : IsLeaf w) : Masked true v w
  | obj {b : Bool} {es fs : List (String × Json)} (hkeys : es.map Prod.fst = fs.map Prod.fst)
      (h : ∀ p ∈ es.zip fs, Masked (b || isSecret p.1.1) p.1.2 p.2.2) : Masked b (.obj es) (.obj fs)

theorem flatten_leaf {v : Json} (h : IsLeaf v) (pre : String) (out : Values) :
    flatten v pre out = setKey (if pre = "" then "(root)" else pre) (leafText v) out := by
  cases v with
  | obj fields => exact absurd rfl (h fields)
  | _ => rw [flatten]; simp

theorem redact_setKey (key value : String) (out : Values) :
    redact (setKey key value out) = setKey key (shown key value) (redact out) :=
  setKey_map shown key value out

/-- Two values that differ in secrets only are flattened and redacted alike. -/
theorem Masked.redact_flatten {b : Bool} {v w : Json} (h : Masked b v w) (pre : String)
    (hpre : b = true → isSecret pre = true) {out out' : Values} (hout : redact out = redact out') :
    redact (flatten v pre out) = redact (flatten w pre out') := by
  induction h generalizing pre out out' with
  | same hv => rw [flatten_leaf hv, flatten_leaf hv, redact_setKey, redact_setKey, hout]
  | secret hv hw =>
    -- the key of the value is the one it is under
    have hsecret := hpre rfl
    have hne := ne_empty_of_isSecret hsecret
    rw [flatten_leaf hv, flatten_leaf hw, redact_setKey, redact_setKey, hout, if_neg hne]
    simp only [shown, hsecret, if_true]
  | @obj b es fs hkeys hall ih =>
    have hfields : ∀ out out', redact out = redact out' →
        redact (flattenFields es pre out) = redact (flattenFields fs pre out') := by
      clear hout
      clear hall
      induction es generalizing fs with
      | nil =>
        obtain rfl : fs = [] := by simpa using hkeys.symm
        exact fun out out' hout => hout
      | cons e es ihes =>
        cases fs with
        | nil => exact absurd hkeys (by simp)
        | cons f fs =>
          obtain ⟨k, v⟩ := e
          obtain ⟨k', w⟩ := f
          simp only [map_cons, cons.injEq] at hkeys
          obtain ⟨rfl, hkeys⟩ := hkeys
          intro out out' hout
          rw [flattenFields, flattenFields, flattenField, flattenField]
          refine ihes hkeys (fun p hp => ih p (mem_cons_of_mem _ hp)) _ _ ?_
          refine ih ((k, v), (k, w)) mem_cons_self _ (fun hb => ?_) hout
          exact isSecret_dotted ((Bool.or_eq_true _ _ ▸ hb).imp_left hpre)
    have hempty : es.isEmpty = fs.isEmpty := by
      have hlen := congrArg length hkeys
      simp only [length_map] at hlen
      cases es <;> cases fs <;> simp_all
    rw [flatten, flatten, hempty]
    split_ifs
    · rw [redact_setKey, redact_setKey, hfields _ _ hout]
    · exact hfields _ _ hout

/-- Shown values of a key are replaced one for one. -/
def OneToOne (R : String → String → String → Prop) : Prop :=
  ∀ ⦃key a b a' b'⦄, R key a a' → R key b b' → (a = b ↔ a' = b')

/-- The same keys, with values that are replaced. -/
def Replaced (R : String → String → String → Prop) : Option Values → Option Values → Prop :=
  Option.Rel (List.Forall₂ fun e e' => e.1 = e'.1 ∧ R e.1 e.2 e'.2)

/-- What two runs show of a file: the same, and for answers the same keys. -/
def ShownAlike (R : String → String → String → Prop) (file : String) (v w : Option Values) : Prop :=
  if keysOnly file then Replaced R v w else v = w

variable {R : String → String → String → Prop}

theorem Replaced.keys {v w : Option Values} (h : Replaced R v w) :
    (v.getD []).map Prod.fst = (w.getD []).map Prod.fst := by
  cases h with
  | none => rfl
  | some h =>
    simp only [getD_some]
    induction h with
    | nil => rfl
    | cons he _ ih => rw [map_cons, map_cons, he.1, ih]

theorem Replaced.get? {v w : Option Values} (h : Replaced R v w) (key : String) :
    Option.Rel (R key) (get? (v.getD []) key) (get? (w.getD []) key) := by
  cases h with
  | none => exact .none
  | some h =>
    simp only [getD_some]
    induction h with
    | nil => exact .none
    | @cons e e' es es' he _ ih =>
      rw [get?_cons, get?_cons, ← he.1]
      split_ifs with hkey
      · exact .some (hkey ▸ he.2)
      · exact ih

theorem OneToOne.rel (hR : OneToOne R) {key : String} {a b a' b' : Option String}
    (h : Option.Rel (R key) a a') (h' : Option.Rel (R key) b b') : a = b ↔ a' = b' := by
  cases h with
  | none => cases h' <;> simp
  | some h =>
    cases h' with
    | none => simp
    | some h' => simp [hR h h']

theorem ShownAlike.diffConfig_eq (hR : OneToOne R) {file : String} {v w v' w' : Option Values}
    (h : ShownAlike R file v w) (h' : ShownAlike R file v' w')
    (collate : String → String → Bool) :
    diffConfig collate v v' (keysOnly file) = diffConfig collate w w' (keysOnly file) := by
  unfold ShownAlike at h h'
  split_ifs at h h' with hfile
  · rw [hfile]
    have hchange : changeOf true (v.getD []) (v'.getD []) = changeOf true (w.getD []) (w'.getD []) := by
      funext key
      have hsame := hR.rel (h.get? key) (h'.get? key)
      simp only [changeOf, hsame, if_true]
    simp only [diffConfig, h.keys, h'.keys, hchange]
  · rw [h, h']

/-! ### Files and vaults that are alike -/

variable {load : String → Option Json} (collate : String → String → Bool)

/-- Two texts of a file: answers are replaced, and elsewhere what is under secret keys differs. -/
def TextsAlike (load : String → Option Json) (R : String → String → String → Prop) (file : String)
    (t t' : String) : Prop :=
  if keysOnly file then
    Replaced R (readConfigValues load (.text t)) (readConfigValues load (.text t'))
  else t = t' ∨ ∃ v w, load t = some v ∧ load t' = some w ∧ Masked false v w

/-- Two places of a file: both have texts that are alike, or they are the same. -/
inductive FilesAlike (load : String → Option Json) (R : String → String → String → Prop)
    (file : String) : FileState → FileState → Prop
  | text {t t' : String} (h : TextsAlike load R file t t') : FilesAlike load R file (.text t) (.text t')
  | same {f : FileState} (hf : ∀ t, f ≠ .text t)
      (h : ShownAlike R file (readConfigValues load f) (readConfigValues load f)) :
      FilesAlike load R file f f

theorem readConfigValues_masked {t t' : String} {v w : Json} (ht : load t = some v)
    (ht' : load t' = some w) (h : Masked false v w) :
    readConfigValues load (.text t) = readConfigValues load (.text t') := by
  have hshown := h.redact_flatten "" nofun (Eq.refl (redact []))
  simp only [readConfigValues, ht, ht']
  cases h with
  | same hv => rfl
  | obj hkeys hall => simp only [hshown]

theorem FilesAlike.shown {file : String} {f f' : FileState} (h : FilesAlike load R file f f') :
    ShownAlike R file (readConfigValues load f) (readConfigValues load f') := by
  cases h with
  | same _ h => exact h
  | text h =>
    unfold TextsAlike at h
    unfold ShownAlike
    split_ifs at h ⊢
    · exact h
    · obtain rfl | ⟨v, w, ht, ht', hvw⟩ := h
      · rfl
      · exact readConfigValues_masked ht ht' hvw

theorem FilesAlike.write {file t t' : String} {f f' : FileState} (h : FilesAlike load R file f f')
    (ht : TextsAlike load R file t t') : FilesAlike load R file (f.write t) (f'.write t') := by
  cases h with
  | text => exact .text ht
  | same hf h =>
    cases f with
    | text t => exact absurd rfl (hf t)
    | absent => exact .text ht
    | notRegular => exact .same hf h
    | unreadable => exact .same hf h

/-- Snapshots with the same files, shown alike. -/
def SnapshotsAlike (R : String → String → String → Prop) : Snapshot → Snapshot → Prop :=
  List.Forall₂ fun e e' => e.1 = e'.1 ∧ ShownAlike R e.1 e.2 e'.2

theorem SnapshotsAlike.getD {p p' : Option Snapshot} (h : Option.Rel (SnapshotsAlike R) p p') :
    SnapshotsAlike R (p.getD []) (p'.getD []) := by
  cases h with
  | none => exact .nil
  | some h => exact h

/-- Two vaults with the same journal whose files and snapshots are alike. -/
structure Paired (load : String → Option Json) (R : String → String → String → Prop)
    (s s' : State) : Prop where
  files : ∀ file, FilesAlike load R file (s.files file) (s'.files file)
  journal : s.journal = s'.journal
  snapshot : Option.Rel (SnapshotsAlike R) s.snapshot s'.snapshot

theorem SnapshotsAlike.assign {p p' : Snapshot} (h : SnapshotsAlike R p p') {file : String}
    {v w : Option Values} (hvw : ShownAlike R file v w) :
    SnapshotsAlike R (Assoc.assign file v p) (Assoc.assign file w p') := by
  induction h with
  | nil => exact .cons ⟨rfl, hvw⟩ .nil
  | @cons e e' es es' he hes ih =>
    simp only [Assoc.assign, ← he.1]
    split_ifs
    · exact .cons ⟨rfl, hvw⟩ hes
    · exact .cons he ih

theorem SnapshotsAlike.get? {p p' : Snapshot} (h : SnapshotsAlike R p p') (file : String) :
    Option.Rel (ShownAlike R file) (get? p file) (get? p' file) := by
  induction h with
  | nil => exact .none
  | @cons e e' es es' he _ ih =>
    rw [get?_cons, get?_cons, ← he.1]
    split_ifs with hfile
    · exact .some (hfile ▸ he.2)
    · exact ih

variable {s : State}

theorem Paired.record {s' : State} (h : Paired load R s s') (file channel : String)
    (changes : List Change) (now : String) :
    Paired load R (record s file channel changes now).1 (record s' file channel changes now).1 ∧
      (record s file channel changes now).2 = (record s' file channel changes now).2 := by
  unfold ConfigLog.record
  split_ifs
  · exact ⟨h, rfl⟩
  · exact ⟨⟨h.files, by rw [h.journal], h.snapshot⟩, rfl⟩

/-- Two checks at work, on vaults that are paired. -/
def ChecksAlike (load : String → Option Json) (R : String → String → String → Prop)
    (a a' : State × Snapshot × ℕ) : Prop :=
  Paired load R a.1 a'.1 ∧ SnapshotsAlike R a.2.1 a'.2.1 ∧ a.2.2 = a'.2.2

theorem ChecksAlike.checkFile (hR : OneToOne R) {a a' : State × Snapshot × ℕ}
    (h : ChecksAlike load R a a') {previous previous' : Option Snapshot}
    (hp : Option.Rel (SnapshotsAlike R) previous previous') (now file : String) :
    ChecksAlike load R (checkFile load collate now previous a file)
      (checkFile load collate now previous' a' file) := by
  obtain ⟨s, p, n⟩ := a
  obtain ⟨s', p', n'⟩ := a'
  obtain ⟨hs, hpp, rfl⟩ := h
  have hshown := (hs.files file).shown
  have hbefore : Rel (ShownAlike R file) (previous.bind fun q => Assoc.get? q file)
      (previous'.bind fun q => Assoc.get? q file) := by
    cases hp with
    | none => exact .none
    | some hq => exact hq.get? file
  unfold ConfigLog.checkFile
  dsimp only at hs hpp hshown ⊢
  generalize (previous.bind fun q => Assoc.get? q file) = b at hbefore ⊢
  generalize (previous'.bind fun q => Assoc.get? q file) = b' at hbefore ⊢
  cases hbefore with
  | none => exact ⟨hs, hpp.assign hshown, rfl⟩
  | @some v w hb =>
    have hdiff := hb.diffConfig_eq hR hshown collate
    obtain ⟨hrec, hdone⟩ := hs.record file "external"
      (diffConfig collate w (readConfigValues load (s'.files file)) (keysOnly file)) now
    simp only [hdiff, hdone]
    exact ⟨hrec, hpp.assign hshown, rfl⟩

theorem Paired.checkExternalConfigChanges (hR : OneToOne R) {s s' : State} (h : Paired load R s s')
    (files : List String) (now : String) :
    Paired load R (checkExternalConfigChanges load collate s files now).1
      (checkExternalConfigChanges load collate s' files now).1 := by
  have hfold := foldl_rel (r := ChecksAlike load R) (l := files)
    (f := checkFile load collate now s.snapshot)
    (g := checkFile load collate now s'.snapshot)
    (a := (s, s.snapshot.getD [], 0)) (b := (s', s'.snapshot.getD [], 0)) ⟨h, .getD h.snapshot, rfl⟩
    fun file _ c c' hc => hc.checkFile collate hR h.snapshot now file
  exact ⟨hfold.1.files, hfold.1.journal, .some hfold.2.1⟩

theorem Paired.writeConfigFile (hR : OneToOne R) {s s' : State} (h : Paired load R s s')
    {file text text' : String} (ht : TextsAlike load R file text text') (channel now : String) :
    Paired load R (writeConfigFile load collate s file text channel now)
      (writeConfigFile load collate s' file text' channel now) := by
  unfold ConfigLog.writeConfigFile
  split_ifs with hbad
  · exact h
  have hcheck := h.checkExternalConfigChanges collate hR [file] now
  generalize (ConfigLog.checkExternalConfigChanges load collate s [file] now).1 = t at hcheck ⊢
  generalize (ConfigLog.checkExternalConfigChanges load collate s' [file] now).1 = t' at hcheck ⊢
  have hwritten := (hcheck.files file).write ht
  have hdiff := (hcheck.files file).shown.diffConfig_eq hR hwritten.shown collate
  have hfiles : Paired load R
      { t with files := fun f => if f = file then (t.files file).write text else t.files f }
      { t' with files := fun f => if f = file then (t'.files file).write text' else t'.files f } := by
    refine ⟨fun f => ?_, hcheck.journal, hcheck.snapshot⟩
    dsimp only
    split_ifs with hf
    · exact hf ▸ hwritten
    · exact hcheck.files f
  obtain ⟨hrec, -⟩ := hfiles.record file channel
    (diffConfig collate (readConfigValues load (t'.files file))
      (readConfigValues load ((t'.files file).write text')) (keysOnly file)) now
  simp only [if_true, hdiff]
  exact ⟨hrec.files, hrec.journal, .some (.assign (.getD hrec.snapshot) hwritten.shown)⟩

/-- The same operation on files that are alike. -/
inductive OpsAlike (load : String → Option Json) (R : String → String → String → Prop) : Op → Op → Prop
  | write {file text text' : String} (h : TextsAlike load R file text text') (channel now : String) :
      OpsAlike load R (.write file text channel now) (.write file text' channel now)
  | edit {file : String} {f f' : FileState} (h : FilesAlike load R file f f') :
      OpsAlike load R (.edit file f) (.edit file f')
  | check (files : List String) (now : String) : OpsAlike load R (.check files now) (.check files now)

/-- Two runs that are alike but for secrets stay so. -/
theorem Paired.step (hR : OneToOne R) {s s' : State} (h : Paired load R s s') {op op' : Op}
    (hop : OpsAlike load R op op') :
    Paired load R (step load collate s op) (step load collate s' op') := by
  cases hop with
  | write ht channel now => exact h.writeConfigFile collate hR ht channel now
  | check files now => exact h.checkExternalConfigChanges collate hR files now
  | edit hf =>
    refine ⟨fun f => ?_, h.journal, h.snapshot⟩
    simp only [ConfigLog.step]
    split_ifs with hfile
    · exact hfile ▸ hf
    · exact h.files f

theorem Paired.run (hR : OneToOne R) {s s' : State} (h : Paired load R s s') {ops ops' : List Op}
    (hops : List.Forall₂ (OpsAlike load R) ops ops') :
    Paired load R (run load collate s ops) (run load collate s' ops') := by
  induction hops generalizing s s' with
  | nil => exact h
  | cons hop _ ih => exact ih (h.step collate hR hop)

/-! ### The answers in the journal -/

/-- The entry names keys, and no values. -/
def NamesKeys (e : Entry) : Prop := ∀ c ∈ e.changes, c.fromValue = none ∧ c.toValue = none

/-- The entries about answers name keys. -/
def KeepsAnswers (journal : List Entry) : Prop :=
  ∀ e ∈ journal, keysOnly e.file = true → NamesKeys e

theorem namesKeys_diffConfig {before after : Option Values} {c : Change}
    (h : c ∈ diffConfig collate before after true) : c.fromValue = none ∧ c.toValue = none := by
  rw [diffConfig, mem_insertionSort, mem_filterMap] at h
  obtain ⟨key, -, hkey⟩ := h
  simp only [changeOf, if_true] at hkey
  split_ifs at hkey
  obtain rfl := some.inj hkey
  exact ⟨rfl, rfl⟩

/-- A recorded change keeps the answers. -/
theorem KeepsAnswers.record (h : KeepsAnswers s.journal) (file channel now : String)
    (before after : Option Values) :
    KeepsAnswers
      (record s file channel (diffConfig collate before after (keysOnly file)) now).1.journal := by
  unfold ConfigLog.record
  split_ifs
  · exact h
  intro e he hfile c hc
  obtain he | rfl := List.mem_append.1 he |>.imp_right mem_singleton.1
  · exact h e he hfile c hc
  · have hfile : keysOnly file = true := hfile
    have hmem := mem_of_mem_take hc
    rw [hfile] at hmem
    exact namesKeys_diffConfig collate hmem

theorem KeepsAnswers.checkExternalConfigChanges (h : KeepsAnswers s.journal)
    (files : List String) (now : String) :
    KeepsAnswers (checkExternalConfigChanges load collate s files now).1.journal := by
  have hfold : ∀ a : State × Snapshot × ℕ, KeepsAnswers a.1.journal →
      KeepsAnswers (files.foldl (checkFile load collate now s.snapshot) a).1.journal := by
    induction files with
    | nil => exact fun a ha => ha
    | cons file files ih =>
      rintro ⟨t, p, n⟩ ht
      refine ih _ ?_
      unfold checkFile
      dsimp only
      split
      · exact KeepsAnswers.record collate ht file "external" now _ _
      · exact ht
  exact hfold (s, _, 0) h

/-- Every step keeps the answers. -/
theorem KeepsAnswers.step (h : KeepsAnswers s.journal) (op : Op) :
    KeepsAnswers (step load collate s op).journal := by
  cases op with
  | edit file f => exact h
  | check files now => exact KeepsAnswers.checkExternalConfigChanges collate h files now
  | write file text channel now =>
    rw [ConfigLog.step, writeConfigFile]
    split_ifs
    · exact h
    · have hcheck :
          KeepsAnswers (ConfigLog.checkExternalConfigChanges load collate s [file] now).1.journal :=
        KeepsAnswers.checkExternalConfigChanges collate h [file] now
      generalize (ConfigLog.checkExternalConfigChanges load collate s [file] now).1 = t at hcheck ⊢
      exact KeepsAnswers.record collate
        (s := { t with
          files := fun f => if f = file then (t.files file).write text else t.files f })
        hcheck file channel now _ _

theorem KeepsAnswers.run (h : KeepsAnswers s.journal) (ops : List Op) :
    KeepsAnswers (run load collate s ops).journal := by
  induction ops generalizing s with
  | nil => exact h
  | cons op ops ih => exact ih (KeepsAnswers.step collate h op)

/-- A snapshot without the answers. -/
def withoutAnswers (p : Snapshot) : Snapshot :=
  p.map fun e =>
    (e.1, if keysOnly e.1 then e.2.map fun values => values.map fun v => (v.1, "") else e.2)

theorem Replaced.keys_eq {v w : Option Values} (h : Replaced R v w) :
    (v.map fun values => values.map fun e => (e.1, "")) =
      w.map fun values => values.map fun e => (e.1, "") := by
  cases h with
  | none => rfl
  | some h =>
    simp only [map_some, some.injEq]
    induction h with
    | nil => rfl
    | cons he _ ih => rw [map_cons, map_cons, he.1, ih]

theorem map_withoutAnswers {p p' : Option Snapshot} (h : Option.Rel (SnapshotsAlike R) p p') :
    p.map withoutAnswers = p'.map withoutAnswers := by
  cases h with
  | none => rfl
  | some h =>
    rw [map_some, map_some]
    refine congrArg some ?_
    induction h with
    | nil => rfl
    | @cons e e' _ _ he _ ih =>
      have hentry := he.2
      unfold ShownAlike at hentry
      rw [withoutAnswers, withoutAnswers, map_cons, map_cons]
      refine congrArg₂ _ (Prod.ext he.1 ?_) ih
      rw [← he.1]
      split_ifs at hentry ⊢
      · exact hentry.keys_eq
      · exact hentry

/-- Two runs that differ only under secret keys outside of lists, and in answers that are replaced
one for one, have the same journal, and the same snapshot but for the answers; of these, the journal
has keys. -/
theorem config_log_noninterference (hR : OneToOne R) {files files' : String → FileState}
    (hfiles : ∀ file, FilesAlike load R file (files file) (files' file)) {ops ops' : List Op}
    (hops : List.Forall₂ (OpsAlike load R) ops ops') :
    (run load collate (start files) ops).journal = (run load collate (start files') ops').journal ∧
    (run load collate (start files) ops).snapshot.map withoutAnswers =
      (run load collate (start files') ops').snapshot.map withoutAnswers ∧
    ∀ e ∈ (run load collate (start files) ops).journal, keysOnly e.file = true → NamesKeys e := by
  have hstart : Paired load R (start files) (start files') := ⟨hfiles, rfl, .none⟩
  have hnone : KeepsAnswers (start files).journal := fun e he => absurd he not_mem_nil
  have hrun := hstart.run collate hR hops
  exact ⟨hrun.journal, map_withoutAnswers hrun.snapshot, KeepsAnswers.run collate hnone ops⟩

/-- Some texts of configuration files. -/
def sampleLoad (text : String) : Option Json :=
  if text = "ann" ∨ text = "bob" then some (.obj [("name", .str text)])
  else some (.obj [("mode", .str "live"), ("auth", .obj [("token", .str text)])])

/-- A vault without files, after some operations. -/
def sampleRun (ops : List Op) : State :=
  run sampleLoad (fun _ _ => true) (start fun _ => .absent) ops

/-- The answers are in the snapshot, and the journal has that one has changed. -/
theorem sample_answers_recorded :
    ((readConfigValues sampleLoad (.text "ann")).map fun v => v.map Prod.fst) =
      ((readConfigValues sampleLoad (.text "bob")).map fun v => v.map Prod.fst) ∧
    (sampleRun [.write "job-hunt/answers.yaml" "ann" "api" "1",
      .write "job-hunt/answers.yaml" "ann" "api" "2"]).journal ≠
    (sampleRun [.write "job-hunt/answers.yaml" "ann" "api" "1",
      .write "job-hunt/answers.yaml" "bob" "api" "2"]).journal ∧
    (sampleRun [.write "job-hunt/answers.yaml" "ann" "api" "1"]).snapshot ≠
      (sampleRun [.write "job-hunt/answers.yaml" "bob" "api" "1"]).snapshot := by
  decide

theorem masked_sample (t t' : String) :
    Masked false (.obj [("mode", .str "live"), ("auth", .obj [("token", .str t)])])
      (.obj [("mode", .str "live"), ("auth", .obj [("token", .str t')])]) := by
  have hauth : isSecret "auth" = false := by decide
  have htoken : isSecret "token" = true := by decide
  refine .obj rfl fun p hp => ?_
  obtain rfl | rfl : p = (("mode", .str "live"), ("mode", .str "live")) ∨
      p = (("auth", .obj [("token", .str t)]), ("auth", .obj [("token", .str t')])) := by
    simpa using hp
  · exact .same nofun
  · refine .obj rfl fun q hq => ?_
    obtain rfl : q = (("token", .str t), ("token", .str t')) := by simpa using hq
    simp only [hauth, htoken, Bool.or_true]
    exact .secret nofun nofun

/-- A token and an answer that differ. -/
theorem sample_noninterference :
    (sampleRun [.write "mcp.yaml" "one" "api" "1",
      .write "job-hunt/answers.yaml" "ann" "api" "2"]).journal =
    (sampleRun [.write "mcp.yaml" "two" "api" "1",
      .write "job-hunt/answers.yaml" "bob" "api" "2"]).journal := by
  have hR : OneToOne fun _ a b => a = "ann" ∧ b = "bob" := by
    rintro key a b a' b' ⟨rfl, rfl⟩ ⟨rfl, rfl⟩
    simp
  refine (config_log_noninterference (fun _ _ => true) hR
    (fun file => .same (fun _ => FileState.noConfusion) ?_)
      (.cons (.write ?_ _ _) (.cons (.write ?_ _ _) .nil))).1
  · unfold ShownAlike
    split_ifs
    · exact .none
    · rfl
  · exact .inr ⟨_, _, rfl, rfl, masked_sample "one" "two"⟩
  · exact .some (.cons ⟨rfl, rfl, rfl⟩ .nil)

end U2os.Server.Vault.ConfigLog
