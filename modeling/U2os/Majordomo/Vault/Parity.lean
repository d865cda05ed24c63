import U2os.Majordomo.Vault.Fields
import U2os.Server.Vault.Render

/-!
# One reading of a vault file

Majordomo and Node read a file of the vault alike, where the two YAML parsers make the same value of
its frontmatter.  By design Majordomo also accepts a UUID for an `id`, and no list.  What else sets
the two apart is named in `OrdinaryText` and `OrdinaryRecord`: characters that are white space for one
side alone at the ends of a text, numbers that the languages write differently, keys that are not
scalars, or that are the same once trimmed, or that every object has.
-/

namespace U2os.Majordomo.Vault

open Fallible Trimming List Option Assoc Server.Vault String
open JsText (isSpace)
open Server.Vault (encode encodeItems encodeEntries isEntityId Refusal StatedFact Desired Document
  Collection meFile)

variable {load : String → Except String CoreValue} {text : String} {E : List (CoreKey × CoreValue)}
  {digest : String → String} {level : String → Classification}
  {level' : String → Option String} {es : List (String × Yaml)}

/-- A file of the vault. -/
inductive SourceFile where
  | me
  | record (c : Collection) (name : String)

def SourceFile.path : SourceFile → String
  | .me => meFile
  | .record c name => c.dir ++ "/" ++ name

/-- The type of its entity in Node. -/
def SourceFile.type : SourceFile → String
  | .me => "Person"
  | .record c _ => c.type

/-- The kind of its record in Majordomo. -/
def SourceFile.kind : SourceFile → RecordKind
  | .me => .owner
  | .record .people _ => .person
  | .record .projects _ => .project
  | .record .commitments _ => .commitment

variable {file : SourceFile}

theorem SourceFile.typeName_kind (file : SourceFile) : file.kind.typeName = file.type := by
  rcases file with _ | ⟨_ | _ | _, name⟩ <;> rfl

theorem SourceFile.path_eq_meFile : file.path = meFile ↔ file.kind = .owner := by
  rcases file with _ | ⟨c, name⟩
  · exact ⟨fun _ => rfl, fun _ => rfl⟩
  · refine ⟨fun h => ?_, fun h => by cases c <;> cases h⟩
    have hchars := congrArg String.toList h
    rw [SourceFile.path, toList_append, toList_append] at hchars
    cases c <;> cases hchars

/-- The library of Node reads the same values. -/
def nodeYaml (load : String → Except String CoreValue) : Server.Vault.YamlLibrary where
  load text := (load text).map CoreValue.toYaml
  dump _ := ""

theorem load_nodeYaml (load : String → Except String CoreValue) (text : String) :
    (nodeYaml load).load text = (load text).map CoreValue.toYaml := rfl

/-- What Node reads in a file. -/
def SourceFile.inNode (load : String → Except String CoreValue) (file : SourceFile)
    (text : String) : Except Refusal Desired :=
  (Server.Vault.parseMarkdown (nodeYaml load) text).mapError Refusal.invalid >>=
    Server.Vault.describe file.path file.type

/-- What Majordomo reads in a file. -/
def SourceFile.inMajordomo (digest : String → String) (load : String → Except String CoreValue)
    (file : SourceFile) (text : String) : Except String Record :=
  parseMarkdown load text >>= describe digest file.path file.kind

/-- What is left of a text after its frontmatter. -/
def bodySource (text : String) : List Char :=
  match matchFrontmatter (withoutBom text.toList) with
  | none => withoutBom text.toList
  | some b => b.2

/-- The body of a text. -/
def bodyOf (text : String) : String := ofList (JsText.trimChars (bodySource text))

/-- The entries of the frontmatter of a text. -/
def entriesOf (load : String → Except String CoreValue) (text : String) :
    List (CoreKey × CoreValue) :=
  match matchFrontmatter (withoutBom text.toList) with
  | none => []
  | some b =>
    match load (ofList b.1) with
    | .ok value => value.entries
    | .error _ => []

/-- The body is trimmed alike, and the frontmatter reads alike. -/
structure OrdinaryText (load : String → Except String CoreValue) (text : String) : Prop where
  body : EvenEnds isSpace isWhite (bodySource text)
  frontmatter : ∀ b value,
    matchFrontmatter (withoutBom text.toList) = some b →
      load (ofList b.1) = .ok value → value.PlainFrontmatter

/-- The document that Node has, and the one that Majordomo has, of the same entries. -/
def SameDocument (E : List (CoreKey × CoreValue)) (body : String) (d : Document) (p : Parsed) :
    Prop :=
  d = ⟨jsOrder (entriesToYaml E), body⟩ ∧ p = ⟨encodeEntries (entriesToYaml E), body⟩

theorem captures_stripBom (text : String) : captures (stripBom text.toList) =
    matchFrontmatter (withoutBom text.toList) := rfl

theorem agree_toFrontmatter {value : CoreValue} {yaml : List Char}
    (hload : load (ofList yaml) = .ok value) (h : value.PlainFrontmatter) :
    Agree (fun fm fm' => fm = jsOrder (entriesToYaml value.entries) ∧
        fm' = encodeEntries (entriesToYaml value.entries))
      (readFrontmatter (nodeYaml load) yaml) (toFrontmatter value) := by
  unfold readFrontmatter
  rw [load_nodeYaml, hload]
  cases value with
  | null => exact .ok ⟨rfl, rfl⟩
  | bool b => exact .error _ _
  | num n =>
    obtain ⟨j, hj⟩ := ne_none_iff_exists'.1 h
    unfold toFrontmatter
    rw [toJson, hj]
    exact .error _ _
  | str s => exact .error _ _
  | seq items =>
    unfold toFrontmatter
    rw [toJson]
    cases toJsonItems items <;> exact .error _ _
  | map entries =>
    unfold toFrontmatter
    rw [toJson, toJsonEntries_of_plain h.1 [] h.2]
    exact .ok ⟨rfl, rfl⟩

theorem agree_parseMarkdown (h : OrdinaryText load text) :
    Agree (SameDocument (entriesOf load text) (bodyOf text))
      (Server.Vault.parseMarkdown (nodeYaml load) text) (parseMarkdown load text) := by
  have hbody : ofList (trimChars (bodySource text)) = bodyOf text :=
    congrArg ofList (trimBy_congr h.body).symm
  have hfrontmatter := h.frontmatter
  unfold bodyOf bodySource at hbody
  unfold parseMarkdown Server.Vault.parseMarkdown entriesOf bodyOf bodySource
  dsimp only
  rw [captures_stripBom]
  cases hmatch : matchFrontmatter (withoutBom text.toList) with
  | none =>
    rw [hmatch] at hbody
    exact .ok ⟨rfl, congrArg (Parsed.mk []) hbody⟩
  | some b =>
    rw [hmatch] at hbody
    obtain ⟨yaml, rest⟩ := b
    dsimp only at hbody ⊢
    cases hload : load (ofList yaml) with
    | error e =>
      unfold readFrontmatter
      rw [load_nodeYaml, hload]
      exact .error _ _
    | ok value =>
      dsimp only
      refine (agree_toFrontmatter hload (hfrontmatter _ _ hmatch hload)).map
        fun fm fm' _ _ hfm => ?_
      obtain ⟨rfl, rfl⟩ := hfm
      exact ⟨rfl, congrArg (Parsed.mk _) hbody⟩

/-! ### Entries -/

/-- The fact as Node states it. -/
def Fact.stated (f : Fact) : StatedFact := ⟨f.value, some f.classification.text⟩

theorem Fact.stated_injective : Function.Injective Fact.stated := by
  rintro ⟨value, c⟩ ⟨value', c'⟩ h
  obtain ⟨rfl, hc⟩ := StatedFact.mk.inj h
  obtain rfl : c = c' := Classification.text_injective (some.inj hc)
  rfl

/-- What Node makes of one entry of the frontmatter. -/
def nodeEntry (type : String) (level : String → Option String) (e : String × Yaml) :
    Except Refusal (Option (String × StatedFact)) :=
  (Server.Vault.stateEntry type level ([], []) e).map fun acc => acc.2.head?

theorem stateEntry_snd (type : String) (level : String → Option String)
    (acc : Server.Vault.Stated) (e : String × Yaml) :
    (Server.Vault.stateEntry type level acc e).map Prod.snd =
      (nodeEntry type level e).map (add acc.2) := by
  unfold nodeEntry Server.Vault.stateEntry
  dsimp only
  split_ifs <;> rfl

theorem foldlM_snd (type : String) (level : String → Option String) (es : List (String × Yaml))
    (acc : Server.Vault.Stated) :
    (es.foldlM (Server.Vault.stateEntry type level) acc).map Prod.snd =
      collect (nodeEntry type level) acc.2 es := by
  induction es generalizing acc with
  | nil => rfl
  | cons e es ih =>
    have hfirst := stateEntry_snd type level acc e
    rw [collect, foldlM_cons, foldlM_cons, ← hfirst]
    cases Server.Vault.stateEntry type level acc e with
    | error r => rfl
    | ok acc' => exact ih acc'

/-- The entry states a fact. -/
def States (e : String × Yaml) : Prop :=
  ¬(JsText.trim e.1 = "" ∨ JsText.trim e.1 ∈ Server.Vault.reservedKeys ∨
    isNull e.2 = true)

variable {type : String} {e : String × Yaml}

theorem agree_stateEntry (he : Shared e.2) (heven : Even e.1)
    (hlevel : States e →
      level' (JsText.trim e.1) = some (level (JsText.trim e.1)).text) :
    Agree (Assoc.SameEntry Fact.stated) (nodeEntry type level' e)
      (stateEntry level (e.1, encode e.2)) := by
  unfold nodeEntry Server.Vault.stateEntry stateEntry
  dsimp only
  rw [trim_eq heven]
  have hnulls : (JsText.trim e.1 = "" ∨ JsText.trim e.1 ∈ reservedKeys ∨ encode e.2 = .null) ↔
      JsText.trim e.1 = "" ∨ JsText.trim e.1 ∈ Server.Vault.reservedKeys ∨
        isNull e.2 = true :=
    or_congr_right (or_congr_right (encode_eq_null he))
  have hlong : Server.Vault.maxKeyLength < JsText.length (JsText.trim e.1) ↔
      maxKeyLength < utf16Len (JsText.trim e.1) := Iff.rfl
  have hlarge : Server.Vault.maxValueChars < JsText.length (encode e.2).render ↔
      maxValueChars < utf16Len (encode e.2).render := Iff.rfl
  refine .map_left (.ite hnulls.symm (fun _ => .ok rfl) fun hstates => ?_)
  refine .ite hlong (fun _ => .error _ _) fun _ => .ite hlarge (fun _ => .error _ _) fun _ => .ok ?_
  change some (_, _) = some (_, _)
  rw [hlevel hstates]
  rfl

theorem nodeEntry_eq_some {k : String} {f : StatedFact}
    (h : nodeEntry type level' e = .ok (some (k, f))) :
    States e ∧ k = JsText.trim e.1 ∧ f = ⟨encode e.2, level' k⟩ := by
  unfold nodeEntry Server.Vault.stateEntry at h
  dsimp only at h
  by_cases hskip : JsText.trim e.1 = "" ∨ JsText.trim e.1 ∈ Server.Vault.reservedKeys ∨
      isNull e.2 = true
  · rw [if_pos hskip] at h
    cases h
  · rw [if_neg hskip] at h
    split_ifs at h <;> cases h <;> exact ⟨hskip, rfl, rfl⟩

theorem status_stateEntry {acc acc' : Server.Vault.Stated} {v : Yaml}
    (h : Server.Vault.stateEntry type level' acc e = .ok acc')
    (hv : get? acc'.1 "status" = some v) :
    States e ∧ JsText.trim e.1 = "status" ∧ e.2 = v ∨ get? acc.1 "status" = some v := by
  unfold Server.Vault.stateEntry at h
  dsimp only at h
  by_cases hskip : JsText.trim e.1 = "" ∨ JsText.trim e.1 ∈ Server.Vault.reservedKeys ∨
      isNull e.2 = true
  · rw [if_pos hskip] at h
    cases h
    exact .inr hv
  · rw [if_neg hskip] at h
    split_ifs at h with hlong hlarge hattribute
    · cases h
      rw [get?_assign] at hv
      split_ifs at hv with hkey
      · exact .inl ⟨hskip, hkey, some.inj hv⟩
      · exact .inr hv
    · cases h
      exact .inr hv

theorem status_foldlM {acc acc' : Server.Vault.Stated} {v : Yaml}
    (h : es.foldlM (Server.Vault.stateEntry type level') acc = .ok acc')
    (hv : get? acc'.1 "status" = some v) :
    (∃ e ∈ es, States e ∧ JsText.trim e.1 = "status" ∧ e.2 = v) ∨
      get? acc.1 "status" = some v := by
  induction es generalizing acc with
  | nil =>
    cases h
    exact .inr hv
  | cons e es ih =>
    obtain ⟨next, hnext, h⟩ := bind_eq_ok.1 h
    rcases ih h with ⟨e', he', hstates⟩ | hbefore
    · exact .inl ⟨e', mem_cons_of_mem _ he', hstates⟩
    · rcases status_stateEntry hnext hbefore with hhere | hbefore
      · exact .inl ⟨e, mem_cons_self, hhere⟩
      · exact .inr hbefore

/-! ### Records -/

/-- The facts of both sides. -/
def SameFacts (facts : List (String × StatedFact)) (facts' : List (String × Fact)) : Prop :=
  ∀ k, get? facts k = (get? facts' k).map Fact.stated

/-- A fact that both sides assign leaves their facts the same. -/
theorem SameFacts.assign {facts : List (String × StatedFact)} {facts' : List (String × Fact)}
    (h : SameFacts facts facts') {k : String} {value : Json}
    (hlevel : level' k = some (level k).text) :
    SameFacts (assign k ⟨value, level' k⟩ facts)
      (assign k ⟨value, level k⟩ facts') := by
  intro k'
  rw [get?_assign, get?_assign, hlevel, h k']
  split_ifs <;> rfl

/-- What both sides read of a file. -/
structure SameRecord (file : SourceFile) (d : Desired) (r : Record) : Prop where
  type : r.kind.typeName = file.type
  name : d.name = r.name
  classification : d.classification = r.classification.text
  boundId : d.boundId = if r.idFromFile = true then some r.id else none
  facts : SameFacts d.facts r.facts

/-- A frontmatter and a body that describe the same record for both sides. -/
structure OrdinaryRecord (file : SourceFile) (es : List (String × Yaml)) (body : String) :
    Prop where
  /-- The keys are trimmed alike. -/
  keys : ∀ e ∈ es, Even e.1
  /-- Keys that state facts are not the same once they are trimmed. -/
  distinct : ∀ e ∈ es, ∀ e' ∈ es, States e → States e' → JsText.trim e.1 = JsText.trim e'.1 →
    e.1 = e'.1
  /-- A key that every object has is given a level. -/
  inherited : ∀ sensitiveKeys levels,
    Server.Vault.readSensitiveKeys (get? es "sensitive_keys") = .ok sensitiveKeys →
      readLevels (get? es "classifications") = .ok levels →
        ∀ e ∈ es, States e → JsText.trim e.1 ∈ objectPrototype →
          JsText.trim e.1 ∈ sensitiveKeys ∨
            (get? levels (JsText.trim e.1)).isSome = true
  /-- By design: the id is no UUID, -/
  uuid : ∀ v ∈ get? es "id", ∀ t, v.text = some t → isUuid t = false
  /-- and no list that reads as an id. -/
  list : ∀ items t, get? es "id" = some (.seq items) → (Yaml.seq items).text = some t →
    isEntityId t = false
  /-- The name and the title are trimmed alike. -/
  name : Even (rawText (get? es "name"))
  title : Even (rawText (get? es "title"))
  /-- Where there is neither, the headings read alike. -/
  heading : Server.Vault.scalarText (get? es "name") = "" →
    Server.Vault.scalarText (get? es "title") = "" → PlainHeadings body.toList
  /-- Where there is no heading either, the file has a name, which is trimmed alike. -/
  fileName : Server.Vault.scalarText (get? es "name") = "" →
    Server.Vault.scalarText (get? es "title") = "" →
      Server.Vault.heading true body.toList = none →
        (file.path.toList.reverse.takeWhile (· ≠ '/')).reverse ≠ ".md".toList ∧
          EvenEnds isSpace isWhite (Server.Vault.capitalized none (Server.Vault.spaced false
            (baseName file.path)))
  /-- The status of a commitment has a text in JavaScript. -/
  status : file.kind = .commitment → ∀ e ∈ es, States e → JsText.trim e.1 = "status" →
    e.2.text ≠ none

section Describe

variable {body : String}

/-- The values are those of plain values, under different keys. -/
structure Entries (es : List (String × Yaml)) : Prop where
  shared : ∀ e ∈ es, Shared e.2
  nodup : (es.map Prod.fst).Nodup

theorem Entries.get? (h : Entries es) (k : String) : ∀ v ∈ get? es k, Shared v :=
  fun _ hv => h.shared _ (mem_of_get? hv)

theorem Entries.coherent (h : Entries es) (hrecord : OrdinaryRecord file es body) (type : String)
    (level' : String → Option String) : Assoc.Coherent (nodeEntry type level') es := by
  intro e he e' he' k f f' hf hf'
  obtain ⟨hstates, hk, rfl⟩ := nodeEntry_eq_some hf
  obtain ⟨hstates', hk', rfl⟩ := nodeEntry_eq_some hf'
  have hkey : e.1 = e'.1 := hrecord.distinct e he e' he' hstates hstates' (hk ▸ hk')
  have hget := (get?_eq_some_iff h.nodup).2 he
  rw [hkey, (get?_eq_some_iff h.nodup).2 he'] at hget
  rw [some.inj hget]

theorem agree_facts (h : Entries es) (hrecord : OrdinaryRecord file es body) (type : String)
    (init : List (String × Yaml))
    (hlevel : ∀ e ∈ es, States e →
      level' (JsText.trim e.1) = some (level (JsText.trim e.1)).text) :
    Agree (fun stated facts => SameFacts stated.2 facts)
      ((jsOrder es).foldlM (Server.Vault.stateEntry type level') (init, []))
      (collect (stateEntry level) [] (encodeEntries es)) := by
  refine Agree.of_map (T := SameFacts) (f := Prod.snd) ?_
  rw [foldlM_snd, encodeEntries_eq]
  exact agree_collect Fact.stated_injective (perm_jsOrder es)
    (fun e he => agree_stateEntry (h.shared e he) (hrecord.keys e he) (hlevel e he))
    (h.coherent hrecord type level')

theorem firstName_eq {name title : String} {first second : Option String} {last last' : String}
    (h : name = "" → title = "" → (first.filter (· ≠ "")).getD last = second.getD last') :
    (((if name = "" then none else some name).or (if title = "" then none else some title)).or
        (first.filter (· ≠ ""))).getD last =
      if name ≠ "" then name else if title ≠ "" then title else second.getD last' := by
  by_cases hname : name = ""
  · rw [if_pos hname, none_or, if_neg (not_not.2 hname)]
    by_cases htitle : title = ""
    · rw [if_pos htitle, none_or, if_neg (not_not.2 htitle)]
      exact h hname htitle
    · rw [if_neg htitle, if_pos htitle]
      rfl
  · rw [if_neg hname, if_pos hname]
    rfl

theorem readName_eq (h : Entries es) (hrecord : OrdinaryRecord file es body) :
    readName file.path ⟨encodeEntries es, body⟩ =
      Server.Vault.readName file.path ⟨jsOrder es, body⟩ := by
  have hget (k : String) : get? (jsOrder es) k = get? es k :=
    get?_perm (perm_jsOrder es) h.nodup k
  unfold readName Server.Vault.readName
  dsimp only
  rw [hget, hget, get?_encodeEntries, get?_encodeEntries,
    scalarText_encode (h.get? "name") hrecord.name,
    scalarText_encode (h.get? "title") hrecord.title]
  refine firstName_eq fun hname htitle => ?_
  rw [heading_eq (hrecord.heading hname htitle)]
  cases hheading : Server.Vault.heading true body.toList with
  | some t =>
    have ht : decide (t ≠ "") = true := decide_eq_true (heading_ne_empty hheading)
    rw [filter_some, if_pos ht, getD_some, getD_some]
  | none =>
    obtain ⟨hbase, heven⟩ := hrecord.fileName hname htitle hheading
    rw [filter_none, getD_none, getD_none]
    exact humanize_eq hbase heven

theorem agree_stateBody (h : Entries es) (hrecord : OrdinaryRecord file es body)
    {facts : List (String × StatedFact)} {facts' : List (String × Fact)}
    (hfacts : SameFacts facts facts')
    (hlevel : ∀ k, k ∉ objectPrototype → level' k = some (level k).text) :
    Agree SameFacts (Server.Vault.stateBody file.path level' ⟨jsOrder es, body⟩ facts)
      (stateBody file.kind level ⟨encodeEntries es, body⟩ facts') := by
  have hget : get? (jsOrder es) "name" = get? es "name" :=
    get?_perm (perm_jsOrder es) h.nodup "name"
  have hnamed : SameFacts
      (if file.path = meFile ∧ Server.Vault.scalarText (get? es "name") ≠ "" then
        assign "name" ⟨.str (Server.Vault.scalarText (get? es "name")),
          level' "name"⟩ facts
      else facts)
      ((if file.kind = .owner then scalarText (get? (encodeEntries es) "name")
        else none).elim facts' fun n => assign "name" ⟨.str n, level "name"⟩ facts') := by
    rw [get?_encodeEntries, scalarText_encode (h.get? "name") hrecord.name]
    by_cases hkind : file.kind = .owner
    · rw [if_pos hkind]
      by_cases hname : Server.Vault.scalarText (get? es "name") = ""
      · rw [if_pos hname, if_neg fun hn => hn.2 hname]
        exact hfacts
      · rw [if_neg hname, if_pos ⟨SourceFile.path_eq_meFile.2 hkind, hname⟩]
        exact hfacts.assign (hlevel "name" (by decide))
    · rw [if_neg hkind, if_neg fun hn => hkind (SourceFile.path_eq_meFile.1 hn.1)]
      exact hfacts
  unfold Server.Vault.stateBody stateBody
  dsimp only
  rw [hget]
  have hlarge : Server.Vault.maxValueChars < JsText.length body ↔
      maxValueChars < utf16Len body := Iff.rfl
  refine .ite Iff.rfl (fun _ => .ok hnamed) fun _ => .ite hlarge (fun _ => .error _ _) fun _ => ?_
  exact .ok (hnamed.assign (hlevel "notes" (by decide)))

theorem commitmentAttributes_isOk (name : String) {stated : Server.Vault.Stated}
    (hrecord : OrdinaryRecord file es body)
    (hstated : (jsOrder es).foldlM (Server.Vault.stateEntry file.type level')
      ([("vaultPath", .str file.path)], []) = .ok stated) :
    ∃ attributes, commitmentAttributes file.type name stated.1 = .ok attributes := by
  unfold commitmentAttributes
  by_cases htype : file.type = "Commitment"
  · rw [if_pos htype]
    have hkind : file.kind = .commitment := by
      rw [← file.typeName_kind] at htype
      cases hkind : file.kind with
      | commitment => rfl
      | _ =>
        rw [hkind] at htype
        exact absurd htype (by decide)
    cases hstatus : get? stated.1 "status" with
    | none => exact ⟨_, rfl⟩
    | some v =>
      rcases status_foldlM hstated hstatus with ⟨e, he, hstates, hkey, rfl⟩ | hnone
      · obtain ⟨t, ht⟩ := ne_none_iff_exists'.1
          (hrecord.status hkind e ((perm_jsOrder es).mem_iff.1 he) hstates hkey)
        rw [elim_some, ht]
        exact ⟨_, rfl⟩
      · cases hnone
  · rw [if_neg htype]
    exact ⟨_, rfl⟩

/-- Both sides describe the same record of an ordinary file. -/
theorem agree_describe (h : Entries es) (hrecord : OrdinaryRecord file es body) :
    Agree (SameRecord file) (Server.Vault.describe file.path file.type ⟨jsOrder es, body⟩)
      (describe digest file.path file.kind ⟨encodeEntries es, body⟩) := by
  have hget (k : String) : get? (jsOrder es) k = get? es k :=
    get?_perm (perm_jsOrder es) h.nodup k
  unfold Server.Vault.describe describe
  dsimp only
  simp only [hget, get?_encodeEntries]
  refine (agree_readClassification (h.get? _)).bind fun classification c _ _ hclass => ?_
  subst hclass
  refine (agree_readSensitiveKeys (h.get? _)).bind fun sensitiveKeys _ hsensitive _ heq => ?_
  subst heq
  refine (agree_readLevels (h.get? _)).bind fun levels perKey hlevels _ heq => ?_
  subst heq
  refine (agree_readBoundId (h.get? _) hrecord.uuid hrecord.list).bind fun boundId _ _ _ heq => ?_
  subst heq
  have hplain (k : String) (hk : k ∉ objectPrototype) :
      Server.Vault.levelFor sensitiveKeys (perKey.map textLevel) c.text k =
        some (levelFor sensitiveKeys perKey c k).text :=
    levelFor_eq fun hmem => absurd hmem hk
  have hgiven (e : String × Yaml) (he : e ∈ es) (hstates : States e) :
      Server.Vault.levelFor sensitiveKeys (perKey.map textLevel) c.text (JsText.trim e.1) =
        some (levelFor sensitiveKeys perKey c (JsText.trim e.1)).text := by
    refine levelFor_eq fun hmem => ?_
    refine (hrecord.inherited _ _ hsensitive hlevels e he hstates hmem).imp_right fun hsome => ?_
    rwa [get?_textLevel, isSome_map] at hsome
  refine (agree_facts h hrecord file.type _ hgiven).bind fun stated facts hstated _ hfacts => ?_
  refine (agree_stateBody h hrecord hfacts hplain).bind fun all all' _ _ hall => ?_
  obtain ⟨attributes, hattributes⟩ := commitmentAttributes_isOk
    (Server.Vault.readName file.path ⟨jsOrder es, body⟩) hrecord hstated
  rw [hattributes]
  refine .ok ⟨file.typeName_kind, (readName_eq h hrecord).symm, rfl, ?_, hall⟩
  cases boundId <;> rfl

end Describe

/-- An ordinary text has entries that both sides read alike. -/
theorem OrdinaryText.entries (h : OrdinaryText load text) :
    Entries (entriesToYaml (entriesOf load text)) := by
  have hplain : entriesPlain (entriesOf load text) ∧
      ((entriesOf load text).map fun e => e.1.node).Nodup := by
    have hfrontmatter := h.frontmatter
    unfold entriesOf
    cases hmatch : matchFrontmatter (withoutBom text.toList) with
    | none => exact ⟨trivial, nodup_nil⟩
    | some b =>
      dsimp only
      cases hload : load (ofList b.1) with
      | error e => exact ⟨trivial, nodup_nil⟩
      | ok value => exact (hfrontmatter b value hmatch hload).plain
  exact ⟨shared_of_mem hplain.1, by rw [keys_entriesToYaml]; exact hplain.2⟩

/-- Both sides split an ordinary file at the same places, and they read the same record in it or both
refuse it. -/
theorem same_reading (digest : String → String) (htext : OrdinaryText load text)
    (hrecord : OrdinaryRecord file (entriesToYaml (entriesOf load text)) (bodyOf text)) :
    captures (stripBom text.toList) =
        matchFrontmatter (withoutBom text.toList) ∧
      Agree (SameDocument (entriesOf load text) (bodyOf text))
          (Server.Vault.parseMarkdown (nodeYaml load) text) (parseMarkdown load text) ∧
        Agree (SameRecord file) (file.inNode load text) (file.inMajordomo digest load text) := by
  have hparse := agree_parseMarkdown htext
  refine ⟨rfl, hparse, ?_⟩
  refine hparse.mapError_left.bind fun d p _ _ hsame => ?_
  obtain ⟨rfl, rfl⟩ := hsame
  exact agree_describe htext.entries hrecord

/-- Two values, and what each is read from. -/
def sampleLoad (text : String) : Except String CoreValue :=
  if text = "name: Alice\nphone: 555" then
    .ok (.map [(.str "name", .str "Alice"), (.str "phone", .num ⟨"555", some "555", "555"⟩)])
  else if text = "id: 0199f03a-7c36-7000-8000-000000000001" then
    .ok (.map [(.str "id", .str "0199f03a-7c36-7000-8000-000000000001")])
  else .error "unexpected end of the stream"

/-- A file of the vault. -/
def sampleFile : SourceFile := .record .people "alice.md"

/-- What it holds. -/
def sampleText : String := "---\nname: Alice\nphone: 555\n---\nMet in Oslo."

theorem ordinaryText_sample : OrdinaryText sampleLoad sampleText := by
  refine ⟨by decide +kernel, fun b value hb hload => ?_⟩
  have hmatch : matchFrontmatter (withoutBom sampleText.toList) =
      some ("name: Alice\nphone: 555".toList, "Met in Oslo.".toList) := rfl
  rw [hmatch] at hb
  cases hb
  cases hload
  exact ⟨⟨⟨trivial, trivial⟩, ⟨trivial, rfl, by decide⟩, trivial⟩, by decide⟩

theorem ordinaryRecord_sample :
    OrdinaryRecord sampleFile (entriesToYaml (entriesOf sampleLoad sampleText))
      (bodyOf sampleText) := by
  have hentries : entriesToYaml (entriesOf sampleLoad sampleText) =
      [("name", .str "Alice"), ("phone", .num "555")] := rfl
  have hbody : bodyOf sampleText = "Met in Oslo." := rfl
  rw [hentries, hbody]
  have hname : Server.Vault.scalarText (get? [("name", .str "Alice"), ("phone", .num "555")]
      "name") ≠ "" := by decide +kernel
  have hphone : ∀ e ∈ [("name", Yaml.str "Alice"), ("phone", Yaml.num "555")],
      States e → e.1 = "phone" := by
    refine forall_mem_cons.2 ⟨fun h => ?_, forall_mem_cons.2
      ⟨fun _ => rfl, forall_mem_nil _⟩⟩
    exact absurd (.inr (.inl (by decide +kernel))) h
  refine
    { keys := ?_
      distinct := ?_
      inherited := ?_
      uuid := nofun
      list := nofun
      name := by decide +kernel
      title := by decide +kernel
      heading := fun h => absurd h hname
      fileName := fun h => absurd h hname
      status := nofun }
  · exact forall_mem_cons.2 ⟨by decide +kernel,
      forall_mem_cons.2 ⟨by decide +kernel, forall_mem_nil _⟩⟩
  · exact fun e he e' he' h h' _ => (hphone e he h).trans (hphone e' he' h').symm
  · intro _ _ _ _ e he h hmem
    rw [hphone e he h] at hmem
    exact absurd hmem (by decide +kernel)

theorem sample_same_reading :
    Agree (SameRecord sampleFile) (sampleFile.inNode sampleLoad sampleText)
      (sampleFile.inMajordomo id sampleLoad sampleText) :=
  (same_reading id ordinaryText_sample ordinaryRecord_sample).2.2

/-- A file whose id is a UUID is a record for Majordomo alone. -/
theorem uuid_not_same_reading :
    ¬Agree (SameRecord sampleFile)
      (sampleFile.inNode sampleLoad "---\nid: 0199f03a-7c36-7000-8000-000000000001\n---\n")
      (sampleFile.inMajordomo id sampleLoad
        "---\nid: 0199f03a-7c36-7000-8000-000000000001\n---\n") := by
  intro h
  have hnode : sampleFile.inNode sampleLoad
      "---\nid: 0199f03a-7c36-7000-8000-000000000001\n---\n" =
        .error (.invalid "id must be an existing record id such as ent_abc123") := rfl
  have hmajordomo : (sampleFile.inMajordomo id sampleLoad
      "---\nid: 0199f03a-7c36-7000-8000-000000000001\n---\n").isOk = true := rfl
  rw [hnode] at h
  cases hr : sampleFile.inMajordomo id sampleLoad
      "---\nid: 0199f03a-7c36-7000-8000-000000000001\n---\n" with
  | ok r =>
    rw [hr] at h
    cases h
  | error e =>
    rw [hr] at hmajordomo
    cases hmajordomo

end U2os.Majordomo.Vault
