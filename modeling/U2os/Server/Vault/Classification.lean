import U2os.Lib.Fallible
import U2os.Server.Vault.Writeback

/-!
# The level that is written is the level that is read

A file gives a level to its keys in three places: the classification of the file, the list of the
sensitive keys and the level of a single key.  `Levels` is what the three say together, with the
level that the indexer reads off for a key.  The edits of the frontmatter are operations on it
(`Says.applyClassification`, `Says.cleared`), and only there it is compared what is written with
what is read.

They differ in three cases.  A key that every object has does not read as the level of the file, so
the level of the file cannot be chosen for it by leaving the key out.  The indexer trims the keys of
the frontmatter, but a level is recorded for the key as it was given.  And a key that is renamed
takes its own level along, but not that of the file: a level that the new key had before stays.

## Main results

* `applied_level`, `renamed_level` : exactly when they do it.
-/

namespace U2os.Server.Vault

open Memory JsText Fallible List Option Assoc Except

/-- What a file says of the levels of its keys. -/
structure Levels where
  classification : String
  sensitiveKeys : List String
  perKey : List (String × String)
deriving DecidableEq

namespace Levels

variable {L : Levels} {key k level : String}

/-- The level that the indexer reads off. -/
def of (L : Levels) (key : String) : Option String :=
  levelFor L.sensitiveKeys L.perKey L.classification key

/-- The level that is recorded for the key itself. -/
def recorded (L : Levels) (key : String) : Option String :=
  if key ∈ L.sensitiveKeys then some "sensitive" else get? L.perKey key

/-- Nothing is recorded for the key. -/
def clear (key : String) (L : Levels) : Levels where
  classification := L.classification
  sensitiveKeys := L.sensitiveKeys.filter (· ≠ key)
  perKey := Assoc.erase key L.perKey

/-- The level is recorded for the key, unless it is that of the file. -/
def record (key level : String) (L : Levels) : Levels :=
  if level = L.classification then L
  else if level = "sensitive" then { L with sensitiveKeys := L.sensitiveKeys ++ [key] }
  else { L with perKey := assign key level L.perKey }

/-- The frontmatter loses the entry of the key, and what it recorded for the key. -/
def drop (key : String) (L : Levels) : Levels :=
  clear key {
    classification := if key = "classification" then "personal" else L.classification
    sensitiveKeys := if key = "sensitive_keys" then [] else L.sensitiveKeys
    perKey := if key = "classifications" then [] else L.perKey }

theorem of_eq : L.of key =
    (L.recorded key).or (if key ∈ objectPrototype then none else some L.classification) := by
  unfold of levelFor recorded
  by_cases hs : key ∈ L.sensitiveKeys
  · rw [if_pos hs, if_pos hs, some_or]
  · rw [if_neg hs, if_neg hs]
    cases get? L.perKey key with
    | none => rw [none_or]
    | some level => rw [some_or]

theorem recorded_clear : (L.clear key).recorded k = if k = key then none else L.recorded k := by
  unfold recorded clear
  rw [get?_erase]
  by_cases hk : k = key
  · simp [hk]
  · simp [hk, Ne.symm hk]

theorem recorded_record (hnone : L.recorded key = none) :
    (L.record key level).recorded k =
      if k = key then if level = L.classification then none else some level else L.recorded k := by
  have hkey : key ∉ L.sensitiveKeys := by
    intro hmem
    simp [recorded, hmem] at hnone
  unfold record
  by_cases hk : k = key
  · subst hk
    rw [if_pos rfl]
    split_ifs with hclass hsens
    · exact hnone
    · simp [recorded, hsens]
    · simp [recorded, hkey, get?_assign]
  · rw [if_neg hk]
    split_ifs with hclass hsens
    · rfl
    · simp [recorded, hk]
    · simp [recorded, get?_assign, Ne.symm hk]

@[simp] theorem classification_record : (L.record key level).classification = L.classification := by
  unfold record
  split_ifs <;> rfl

@[simp] theorem classification_clear : (L.clear key).classification = L.classification := rfl

theorem of_record_clear : ((L.clear key).record key level).of k =
    if k = key then
      if level ≠ L.classification then some level
      else if key ∈ objectPrototype then none else some level
    else L.of k := by
  rw [of_eq, of_eq, recorded_record (by rw [recorded_clear, if_pos rfl]), recorded_clear,
    classification_record, classification_clear]
  by_cases hk : k = key
  · subst hk
    by_cases hl : level = L.classification <;> simp [hl]
  · simp [hk]

end Levels

/-! ### What a frontmatter says -/

variable {fm : List (String × Yaml)} {L : Levels} {key k level : String} {v : Option Yaml}
  {value : Yaml}

theorem asStr?_eq_some {s : String} : asStr? value = some s ↔ value = .str s := by
  cases value <;> simp [asStr?]

variable {s : List String}

theorem mapM_asStr? {items : List Yaml} :
    items.mapM asStr? = some s ↔ items = s.map .str := by
  induction items generalizing s with
  | nil => cases s <;> simp
  | cons item items ih =>
    constructor
    · intro h
      rw [mapM_cons] at h
      obtain ⟨k, hk, h⟩ := bind_eq_some_iff.1 h
      obtain ⟨ks, hks, h⟩ := bind_eq_some_iff.1 h
      cases some.inj h
      rw [asStr?_eq_some.1 hk, ih.1 hks, map_cons]
    · intro h
      cases s with
      | nil => cases h
      | cons k ks =>
        obtain ⟨rfl, htail⟩ := cons.inj h
        rw [mapM_cons, ih.2 htail]
        rfl

/-- An entry of `classifications`, with a level. -/
def levelOf (e : String × Yaml) : Option (String × String) :=
  ((asStr? e.2).filter (· ∈ classifications)).map (e.1, ·)

/-- The levels as the frontmatter has them. -/
def levelEntries (l : List (String × String)) : List (String × Yaml) :=
  l.map fun e => (e.1, .str e.2)

theorem levelOf_eq_some {e : String × Yaml} {x : String × String} :
    levelOf e = some x ↔ e = (x.1, .str x.2) ∧ x.2 ∈ classifications := by
  obtain ⟨k, value⟩ := e
  obtain ⟨k', level⟩ := x
  simp only [levelOf, map_eq_some_iff, filter_eq_some_iff, asStr?_eq_some,
    decide_eq_true_eq, Prod.mk.injEq]
  constructor
  · rintro ⟨_, ⟨rfl, h⟩, rfl, rfl⟩
    exact ⟨⟨rfl, rfl⟩, h⟩
  · rintro ⟨⟨rfl, rfl⟩, h⟩
    exact ⟨_, ⟨rfl, h⟩, rfl, rfl⟩

variable {l : List (String × String)}

theorem mapM_levelOf {entries : List (String × Yaml)} :
    entries.mapM levelOf = some l ↔
      entries = levelEntries l ∧ ∀ e ∈ l, e.2 ∈ classifications := by
  induction entries generalizing l with
  | nil => cases l <;> simp [levelEntries]
  | cons e entries ih =>
    constructor
    · intro h
      rw [mapM_cons] at h
      obtain ⟨x, hx, h⟩ := bind_eq_some_iff.1 h
      obtain ⟨xs, hxs, h⟩ := bind_eq_some_iff.1 h
      cases some.inj h
      obtain ⟨rfl, hlevel⟩ := levelOf_eq_some.1 hx
      obtain ⟨rfl, hrest⟩ := ih.1 hxs
      exact ⟨rfl, forall_mem_cons.2 ⟨hlevel, hrest⟩⟩
    · rintro ⟨h, hall⟩
      cases l with
      | nil => cases h
      | cons x xs =>
        obtain ⟨rfl, htail⟩ := cons.inj h
        obtain ⟨hlevel, hrest⟩ := forall_mem_cons.1 hall
        rw [mapM_cons, levelOf_eq_some.2 ⟨rfl, hlevel⟩, ih.2 ⟨htail, hrest⟩]
        rfl

/-- A frontmatter says these levels: the indexer accepts it as far as they go. -/
structure Says (fm : List (String × Yaml)) (L : Levels) : Prop where
  classification : readClassification (get? fm "classification") = .ok L.classification
  sensitiveKeys : readSensitiveKeys (get? fm "sensitive_keys") = .ok L.sensitiveKeys
  perKey : readLevels (get? fm "classifications") = .ok L.perKey

theorem readSensitiveKeys_eq_ok (h : readSensitiveKeys v = .ok s) :
    asItems? v = some (s.map .str) ∨ asItems? v = none ∧ s = [] := by
  unfold readSensitiveKeys at h
  split at h
  · exact .inr ⟨rfl, (ok.inj h).symm⟩
  · exact .inr ⟨rfl, (ok.inj h).symm⟩
  · split at h
    · next items keys hkeys =>
      cases ok.inj h
      exact .inl (congrArg some (mapM_asStr?.1 hkeys))
    · cases h
  · cases h

theorem readLevels_eq_ok (h : readLevels v = .ok l) :
    asEntries? v = some (levelEntries l) ∧ (∀ e ∈ l, e.2 ∈ classifications) ∨
      asEntries? v = none ∧ l = [] := by
  unfold readLevels at h
  split at h
  · exact .inr ⟨rfl, (ok.inj h).symm⟩
  · exact .inr ⟨rfl, (ok.inj h).symm⟩
  · split at h
    · next entries levels hlevels =>
      cases ok.inj h
      obtain ⟨rfl, hall⟩ := mapM_levelOf.1 hlevels
      exact .inl ⟨rfl, hall⟩
    · cases h
  · cases h

namespace Says

theorem assign_of_ne (h : Says fm L) (hc : key ≠ "classification") (hs : key ≠ "sensitive_keys")
    (hp : key ≠ "classifications") : Says (assign key value fm) L where
  classification := by rw [get?_assign, if_neg hc]; exact h.classification
  sensitiveKeys := by rw [get?_assign, if_neg hs]; exact h.sensitiveKeys
  perKey := by rw [get?_assign, if_neg hp]; exact h.perKey

theorem setSensitiveKeys (h : Says fm L) (s : List String) :
    Says (assign "sensitive_keys" (.seq (s.map .str)) fm) { L with sensitiveKeys := s } where
  classification := by rw [get?_assign, if_neg (by decide)]; exact h.classification
  sensitiveKeys := by
    rw [get?_assign, if_pos rfl]
    simp only [readSensitiveKeys, mapM_asStr?.2 rfl]
  perKey := by rw [get?_assign, if_neg (by decide)]; exact h.perKey

theorem setPerKey (h : Says fm L) {l : List (String × String)}
    (hl : ∀ e ∈ l, e.2 ∈ classifications) :
    Says (assign "classifications" (.map (levelEntries l)) fm) { L with perKey := l } where
  classification := by rw [get?_assign, if_neg (by decide)]; exact h.classification
  sensitiveKeys := by rw [get?_assign, if_neg (by decide)]; exact h.sensitiveKeys
  perKey := by
    rw [get?_assign, if_pos rfl]
    have hread := mapM_levelOf.2 ⟨rfl, hl⟩
    unfold levelOf at hread
    simp only [readLevels, hread]

/-- Erasing a key takes its levels away. -/
theorem erase (h : Says fm L) (key : String) : Says (Assoc.erase key fm) {
    classification := if key = "classification" then "personal" else L.classification
    sensitiveKeys := if key = "sensitive_keys" then [] else L.sensitiveKeys
    perKey := if key = "classifications" then [] else L.perKey } where
  classification := by
    rw [get?_erase]
    by_cases hk : key = "classification"
    · simp only [if_pos hk]
      rfl
    · simp only [if_neg hk]
      exact h.classification
  sensitiveKeys := by
    rw [get?_erase]
    by_cases hk : key = "sensitive_keys"
    · simp only [if_pos hk]
      rfl
    · simp only [if_neg hk]
      exact h.sensitiveKeys
  perKey := by
    rw [get?_erase]
    by_cases hk : key = "classifications"
    · simp only [if_pos hk]
      rfl
    · simp only [if_neg hk]
      exact h.perKey

theorem level_mem (h : Says fm L) : ∀ e ∈ L.perKey, e.2 ∈ classifications := by
  rcases readLevels_eq_ok h.perKey with ⟨-, hall⟩ | ⟨-, hnil⟩
  · exact hall
  · rw [hnil]
    exact forall_mem_nil _

theorem clearSensitive (h : Says fm L) (key : String) : Says (clearSensitive key fm)
    { L with sensitiveKeys := L.sensitiveKeys.filter (· ≠ key) } := by
  unfold Vault.clearSensitive
  rcases readSensitiveKeys_eq_ok h.sensitiveKeys with hs | ⟨hs, hnil⟩
  · rw [hs]
    have hfilter : (L.sensitiveKeys.map Yaml.str).filter (fun i => !isText key i) =
        (L.sensitiveKeys.filter (· ≠ key)).map .str := by
      rw [List.filter_map]
      congr 1
      exact filter_congr fun s _ => by simp [isText]
    simp only [hfilter]
    exact h.setSensitiveKeys _
  · have hkeep : L.sensitiveKeys.filter (· ≠ key) = L.sensitiveKeys := by rw [hnil]; rfl
    rw [hs, hkeep]
    exact h

theorem clearPerKey (h : Says fm L) (key : String) :
    Says (clearPerKey key fm) { L with perKey := Assoc.erase key L.perKey } := by
  unfold Vault.clearPerKey
  rcases readLevels_eq_ok h.perKey with ⟨hp, hall⟩ | ⟨hp, hnil⟩
  · rw [hp]
    dsimp only
    split_ifs with hkey
    · have herase : Assoc.erase key (levelEntries L.perKey) =
          levelEntries (Assoc.erase key L.perKey) := by
        rw [Assoc.erase, levelEntries, List.filter_map]
        rfl
      rw [herase]
      exact h.setPerKey fun e he => hall e (mem_of_mem_filter he)
    · -- the key is not there, and nothing is taken out
      have hkeep : Assoc.erase key L.perKey = L.perKey := by
        refine filter_eq_self.2 fun e he => decide_eq_true fun heq => hkey (.inl ?_)
        exact List.mem_map.2 ⟨_, List.mem_map.2 ⟨e, he, rfl⟩, heq⟩
      rw [hkeep]
      exact h
  · have hkeep : Assoc.erase key L.perKey = L.perKey := by rw [hnil]; rfl
    rw [hp, hkeep]
    exact h

theorem clearKeyLevel (h : Says fm L) (key : String) :
    Says (clearKeyLevel key fm) (L.clear key) :=
  (h.clearSensitive key).clearPerKey key

theorem drop (h : Says fm L) (key : String) :
    Says (Vault.clearKeyLevel key (Assoc.erase key fm)) (L.drop key) :=
  (h.erase key).clearKeyLevel key

theorem tidySensitive (h : Says fm L) : Says (tidySensitive fm) L := by
  unfold Vault.tidySensitive
  split
  · next hs =>
    have hnil : L.sensitiveKeys = [] := by
      rcases readSensitiveKeys_eq_ok h.sensitiveKeys with hs' | ⟨-, hnil⟩
      · exact map_eq_nil_iff.1 (some.inj (hs'.symm.trans hs))
      · exact hnil
    have herase := h.erase "sensitive_keys"
    simpa only [← hnil, String.reduceEq, if_true, if_false] using herase
  · exact h

theorem tidyPerKey (h : Says fm L) : Says (tidyPerKey fm) L := by
  unfold Vault.tidyPerKey
  split
  · next hp =>
    have hnil : L.perKey = [] := by
      rcases readLevels_eq_ok h.perKey with ⟨hp', -⟩ | ⟨-, hnil⟩
      · exact map_eq_nil_iff.1 (some.inj (hp'.symm.trans hp))
      · exact hnil
    have herase := h.erase "classifications"
    simpa only [← hnil, String.reduceEq, if_true, if_false] using herase
  · exact h

theorem tidy (h : Says fm L) : Says (tidy fm) L := h.tidySensitive.tidyPerKey

/-- The level of the file is read as it is said. -/
theorem fileClass (h : Says fm L) : fileClass fm = some (.str L.classification) := by
  have hc := h.classification
  unfold Vault.fileClass
  cases hget : get? fm "classification" with
  | none =>
    rw [hget] at hc
    exact congrArg (fun c => some (Yaml.str c)) (ok.inj hc)
  | some value =>
    rw [hget] at hc
    cases value with
    | null => exact congrArg (fun c => some (Yaml.str c)) (ok.inj hc)
    | str s =>
      simp only [readClassification] at hc
      split_ifs at hc with hmem
      rw [← ok.inj hc]
      simp [Yaml.text, inRank, hmem]
    | _ => cases hc

theorem asItems (h : Says fm L) :
    (asItems? (get? fm "sensitive_keys")).getD [] = L.sensitiveKeys.map .str := by
  rcases readSensitiveKeys_eq_ok h.sensitiveKeys with hs | ⟨hs, hnil⟩
  · rw [hs, getD_some]
  · rw [hs, hnil, getD_none, map_nil]

theorem asEntries (h : Says fm L) :
    (asEntries? (get? fm "classifications")).getD [] = levelEntries L.perKey := by
  rcases readLevels_eq_ok h.perKey with ⟨hp, -⟩ | ⟨hp, hnil⟩
  · rw [hp, getD_some]
  · rw [hp, hnil, getD_none]
    rfl

theorem recorded_mem (h : Says fm L) (hr : L.recorded key = some level) :
    level ∈ classifications := by
  unfold Levels.recorded at hr
  split_ifs at hr
  · cases hr
    decide
  · exact h.level_mem _ (mem_of_get? hr)

theorem get?_levelEntries :
    get? (levelEntries l) key = (get? l key).map .str := by
  induction l with
  | nil => rfl
  | cons e l ih =>
    rw [levelEntries, map_cons, get?_cons, get?_cons]
    split_ifs with he
    · rfl
    · exact ih

theorem isText_any : (s.map Yaml.str).any (isText key) = true ↔ key ∈ s := by
  simp [isText]

theorem assign_levelEntries :
    assign key (.str level) (levelEntries l) = levelEntries (assign key level l) := by
  induction l with
  | nil => rfl
  | cons e l ih =>
    by_cases he : e.1 = key
    · rw [assign, if_pos he, levelEntries, map_cons, assign, if_pos he]
      rfl
    · rw [assign, if_neg he, levelEntries, map_cons, assign, if_neg he]
      exact congrArg _ ih

theorem keyLevel_of_recorded (h : Says fm L) (hr : L.recorded key = some level) :
    keyLevel key fm = .recorded (.str level) := by
  unfold keyLevel
  unfold Levels.recorded at hr
  by_cases hs : key ∈ L.sensitiveKeys
  · rw [if_pos hs] at hr
    rw [h.asItems, if_pos (isText_any.2 hs), ← some.inj hr]
  · rw [if_neg hs] at hr
    rw [h.asItems, if_neg (mt isText_any.1 hs)]
    rcases readLevels_eq_ok h.perKey with ⟨hp, -⟩ | ⟨-, hnil⟩
    · simp only [hp, get?_levelEntries, hr, map_some]
    · rw [hnil] at hr
      cases hr

theorem keyLevel_of_unrecorded (h : Says fm L) (hr : L.recorded key = none) :
    keyLevel key fm = .unset ∨ keyLevel key fm = .inherited := by
  unfold keyLevel
  unfold Levels.recorded at hr
  split_ifs at hr with hs
  rw [h.asItems, if_neg (mt isText_any.1 hs)]
  rcases readLevels_eq_ok h.perKey with ⟨hp, -⟩ | ⟨hp, -⟩
  · simp only [hp, get?_levelEntries, hr, map_none]
    split_ifs
    · exact .inr rfl
    · exact .inl rfl
  · rw [hp]
    exact .inl rfl

/-- A level that is given for a key is recorded for it. -/
theorem applyClassification (h : Says fm L) (key : String) (hl : level ∈ classifications) :
    ∃ fm', applyClassification key (.str level) fm = .ok fm' ∧
      Says fm' ((L.clear key).record key level) := by
  have hcleared := h.clearKeyLevel key
  have hrank : inRank level = true := by simp [inRank, hl]
  unfold Vault.applyClassification
  simp only [Yaml.text, h.fileClass, hrank, if_true, hcleared.asItems, hcleared.asEntries, asStr?,
    any_some]
  unfold Levels.record
  by_cases hclass : level = L.classification
  · refine ⟨_, if_neg ?_ |>.trans (if_pos ?_), ?_⟩
    · rintro ⟨hsens, hfile⟩
      simp_all [isText]
    · simp [isText, hclass]
    · rw [if_pos (by exact hclass)]
      exact hcleared
  · by_cases hsens : level = "sensitive"
    · have hfile : isText "sensitive" (.str L.classification) = false := by
        simpa [isText, hsens, eq_comm] using hclass
      refine ⟨_, if_pos ⟨by simp [isText, hsens], hfile⟩, ?_⟩
      rw [if_neg (by exact hclass), if_pos hsens]
      have hset := hcleared.setSensitiveKeys ((L.clear key).sensitiveKeys ++ [key])
      rwa [map_append] at hset
    · refine ⟨_, if_neg ?_ |>.trans (if_neg ?_), ?_⟩
      · simp [isText, hsens]
      · simpa [isText, eq_comm] using hclass
      · rw [if_neg (by exact hclass), if_neg hsens, assign_levelEntries]
        refine hcleared.setPerKey fun e he => ?_
        rcases mem_of_mem_assign he with rfl | he
        · exact hl
        · exact hcleared.level_mem e he

theorem unique {L' : Levels} (h : Says fm L) (h' : Says fm L') : L = L' := by
  cases L
  cases L'
  congr
  · exact ok.inj (h.classification.symm.trans h'.classification)
  · exact ok.inj (h.sensitiveKeys.symm.trans h'.sensitiveKeys)
  · exact ok.inj (h.perKey.symm.trans h'.perKey)

end Says

/-- How private a level is: `RANK`. -/
def rank (level : String) : ℕ := classifications.idxOf level

/-- After `applyClassification` and `tidy` the indexer reads the requested level for the key, which it
trims, and for every other key the level that it read before. -/
def WritesLevel (fm : List (String × Yaml)) (L : Levels) (key level : String) : Prop :=
  ∃ fm' L', (applyClassification key (.str level) fm).map tidy = .ok fm' ∧ Says fm' L' ∧
    L'.of (trim key) = some level ∧ ∀ k, k ≠ key → L'.of k = L.of k

/-- The key has no white space about it, unless the level is there already; and where every object
has a property of this name, the level is not that of the file. -/
def Choosable (L : Levels) (key level : String) : Prop :=
  (trim key = key ∨ L.of (trim key) = some level) ∧
    (key ∈ objectPrototype → level ≠ L.classification)

theorem trim_objectPrototype : ∀ key ∈ objectPrototype, trim key = key := by decide +kernel

theorem writesLevel_iff (h : Says fm L) (hl : level ∈ classifications) :
    WritesLevel fm L key level ↔ Choosable L key level := by
  obtain ⟨fm', happly, hsaid⟩ := h.applyClassification key hl
  have hwritten : (applyClassification key (.str level) fm).map tidy = .ok (tidy fm') := by
    rw [happly]
    rfl
  have hof (k : String) : ((L.clear key).record key level).of k = _ := Levels.of_record_clear
  constructor
  · rintro ⟨fm'', L', hok, hsaid', hkey, -⟩
    cases hwritten.symm.trans hok
    cases hsaid.tidy.unique hsaid'
    rw [hof] at hkey
    by_cases htrim : trim key = key
    · refine ⟨.inl htrim, fun hproto hclass => ?_⟩
      rw [if_pos htrim, if_neg (not_not.2 hclass), if_pos hproto] at hkey
      cases hkey
    · rw [if_neg htrim] at hkey
      exact ⟨.inr hkey, fun hproto => absurd (trim_objectPrototype key hproto) htrim⟩
  · rintro ⟨htrim, hproto⟩
    refine ⟨_, _, hwritten, hsaid.tidy, ?_, fun k hk => (hof k).trans (if_neg hk)⟩
    rw [hof]
    by_cases hkey : trim key = key
    · rw [if_pos hkey]
      split_ifs with hclass hmem
      · rfl
      · exact absurd (not_not.1 hclass) (hproto hmem)
      · rfl
    · rw [if_neg hkey]
      exact htrim.resolve_left hkey

/-! ### Renamed keys -/

/-- The indexer reads a level for the new key that is at least as private as the one that it read for
the old key. -/
def KeepsPrivacy (L : Levels) (p key : String) (fm' : List (String × Yaml)) : Prop :=
  ∀ old, L.of (trim p) = some old →
    ∃ L' new, Says fm' L' ∧ L'.of (trim key) = some new ∧ rank old ≤ rank new

/-- The level that was recorded for the old key goes to a key without white space about it, and where
every object has a property of this name, it is not the level of the file.  Otherwise the level that
the file gives the new key anyway, with the old key out, is private enough. -/
def RenameSafe (L : Levels) (p key : String) : Prop :=
  ∀ old, L.of (trim p) = some old →
    match L.recorded p with
    | some level =>
      if trim key = key then
        rank old ≤ rank level ∧ (key ∈ objectPrototype → level ≠ (L.drop p).classification)
      else ∃ new, (L.drop p).of (trim key) = some new ∧ rank old ≤ rank new
    | none => ∃ new, (L.drop p).of (trim key) = some new ∧ rank old ≤ rank new

/-- What the frontmatter says after a rename. -/
def Levels.renamed (p key : String) (L : Levels) : Levels :=
  match L.recorded p with
  | some level => ((L.drop p).clear key).record key level
  | none => L.drop p

variable {target : Target} {edit : FactEdit} {d d' : Document} {written : Written} {p : String}

theorem Says.cleared (h : Says d.frontmatter L) (hp : edit.renamed = some p) :
    Says (edit.cleared d).frontmatter (L.drop p) := by
  unfold FactEdit.cleared
  rw [hp]
  dsimp only
  split_ifs with hnotes
  · subst hnotes
    exact h.clearKeyLevel "notes"
  · exact h.drop p

theorem setProperty_eq_ok {fm' : List (String × Yaml)} (h : setProperty key value fm = .ok fm') :
    fm' = fm ∨ fm' = assign key value fm := by
  unfold setProperty at h
  split_ifs at h
  · split at h
    all_goals cases h
    all_goals exact .inl rfl
  · cases h
    exact .inr rfl

/-- A stated fact says the levels that it says. -/
theorem Says.stated (h : Says d.frontmatter L) (hkey : assertWritableKey target edit.key = .ok ())
    (hs : edit.stated d = .ok d') : Says d'.frontmatter L := by
  have hne (k : String) (hk : k ∈ reservedKeys) (hname : k ≠ "name") : edit.key ≠ k := by
    intro heq
    unfold assertWritableKey at hkey
    split_ifs at hkey with htrim hreserved
    exact hreserved ⟨heq ▸ hk, fun hn => hname (heq ▸ hn.1)⟩
  unfold FactEdit.stated at hs
  by_cases hnotes : edit.key = "notes"
  · rw [if_pos hnotes] at hs
    cases hs
    exact h
  · rw [if_neg hnotes] at hs
    cases hset : setProperty edit.key edit.value d.frontmatter with
    | error e =>
      rw [hset] at hs
      cases hs
    | ok fm' =>
      rw [hset] at hs
      cases hs
      rcases setProperty_eq_ok hset with rfl | rfl
      · exact h
      · exact h.assign_of_ne (hne _ (by decide) (by decide)) (hne _ (by decide) (by decide))
          (hne _ (by decide) (by decide))

theorem requested_of_renamed (hp : edit.renamed = some p)
    (hc : edit.classification = none ∨ edit.classification = some .null) :
    edit.requested d.frontmatter = keyLevel p d.frontmatter := by
  unfold FactEdit.requested
  rcases hc with hc | hc <;> rw [hc, hp]

/-- A fact that goes under another key takes its level along. -/
theorem Says.writeFactToVault (h : Says d.frontmatter L) (hp : edit.renamed = some p)
    (hc : edit.classification = none ∨ edit.classification = some .null)
    (hw : writeFactToVault target edit d = .ok written) :
    Says written.frontmatter (L.renamed p edit.key) := by
  obtain ⟨_, hkey, hw⟩ := bind_eq_ok.1 hw
  rw [requested_of_renamed hp hc] at hw
  unfold Levels.renamed
  cases hr : L.recorded p with
  | none =>
    rcases h.keyLevel_of_unrecorded hr with hlevel | hlevel
    · rw [hlevel] at hw
      obtain ⟨stated, hs, rfl⟩ := map_eq_ok.1 hw
      exact ((h.cleared hp).stated hkey hs).tidy
    · rw [hlevel] at hw
      cases hw
  | some level =>
    rw [h.keyLevel_of_recorded hr] at hw
    dsimp only at hw
    cases hs : edit.stated (edit.cleared d) with
    | error e =>
      rw [hs] at hw
      obtain ⟨_, _, hw⟩ := bind_eq_ok.1 hw
      cases hw
    | ok stated =>
      have hstated := (h.cleared hp).stated hkey hs
      obtain ⟨fm', happly, hsaid⟩ := hstated.applyClassification edit.key (h.recorded_mem hr)
      rw [hs] at hw
      dsimp only at hw
      rw [happly] at hw
      cases hw
      exact hsaid.tidy

theorem of_renamed {key : String} {new : String} : (L.renamed p key).of (trim key) = some new ↔
    match L.recorded p with
    | some level =>
      if trim key = key then
        new = level ∧ (key ∈ objectPrototype → level ≠ (L.drop p).classification)
      else (L.drop p).of (trim key) = some new
    | none => (L.drop p).of (trim key) = some new := by
  unfold Levels.renamed
  cases L.recorded p with
  | none => exact Iff.rfl
  | some level =>
    dsimp only
    rw [Levels.of_record_clear]
    split_ifs with hkey hclass hproto
    · simp [hclass, eq_comm]
    · simp [not_not.1 hclass, hproto]
    · simp [hproto, eq_comm]
    · exact Iff.rfl

theorem keepsPrivacy_iff {fm' : List (String × Yaml)} (h : Says fm' (L.renamed p key)) :
    KeepsPrivacy L p key fm' ↔ RenameSafe L p key := by
  refine forall_congr' fun old => imp_congr_right fun _ => ?_
  have hread : (∃ L' new, Says fm' L' ∧ L'.of (trim key) = some new ∧ rank old ≤ rank new) ↔
      ∃ new, (L.renamed p key).of (trim key) = some new ∧ rank old ≤ rank new := by
    constructor
    · rintro ⟨L', new, hsaid, hnew⟩
      exact ⟨new, h.unique hsaid ▸ hnew⟩
    · rintro ⟨new, hnew⟩
      exact ⟨_, new, h, hnew⟩
  rw [hread]
  simp only [of_renamed]
  cases L.recorded p with
  | none => exact Iff.rfl
  | some level =>
    dsimp only
    split_ifs
    · exact ⟨fun ⟨_, ⟨hnew, hproto⟩, hle⟩ => ⟨hnew ▸ hle, hproto⟩,
        fun ⟨hle, hproto⟩ => ⟨level, ⟨rfl, hproto⟩, hle⟩⟩
    · exact Iff.rfl

/-- What is read is what is written, exactly where the key is choosable for the level, and where the
rename is safe. -/
theorem written_is_read (h : Says fm L) :
    (∀ key, ∀ level ∈ classifications, WritesLevel fm L key level ↔ Choosable L key level) ∧
      ∀ (target : Target) (edit : FactEdit) (body p : String) (written : Written),
        edit.renamed = some p →
        (edit.classification = none ∨ edit.classification = some .null) →
        writeFactToVault target edit ⟨fm, body⟩ = .ok written →
        (KeepsPrivacy L p edit.key written.frontmatter ↔ RenameSafe L p edit.key) := by
  refine ⟨fun key level hl => writesLevel_iff h hl, ?_⟩
  intro target edit body p written hp hc hw
  have hsaid : Says (Document.mk fm body).frontmatter L := h
  exact keepsPrivacy_iff (hsaid.writeFactToVault hp hc hw)

/-- A private file with an address, a phone number and a nickname that may be known. -/
def sampleFrontmatter : List (String × Yaml) :=
  [("classification", .str "private"), ("alias", .str "Al"), ("phone", .str "555"),
    ("sensitive_keys", .seq [.str "phone"]),
    ("classifications", .map [("nickname", .str "public")])]

/-- What it says of its keys. -/
def sampleLevels : Levels := ⟨"private", ["phone"], [("nickname", "public")]⟩

theorem says_sample : Says sampleFrontmatter sampleLevels := ⟨rfl, rfl, rfl⟩

/-- The owner renames a key. -/
def renameEdit (p key value : String) : FactEdit := ⟨key, .str value, some p, none, false⟩

/-- What the file is after the phone number is called a mobile number. -/
def mobileFrontmatter : List (String × Yaml) :=
  [("classification", .str "private"), ("alias", .str "Al"),
    ("sensitive_keys", .seq [.str "mobile"]),
    ("classifications", .map [("nickname", .str "public")]), ("mobile", .str "555")]

theorem sample_written_is_read :
    WritesLevel sampleFrontmatter sampleLevels "alias" "public" ∧
      KeepsPrivacy sampleLevels "phone" "mobile" mobileFrontmatter := by
  obtain ⟨hwrites, hkeeps⟩ := written_is_read says_sample
  refine ⟨(hwrites "alias" "public" (by decide)).2 ⟨.inl (by decide +kernel), by decide⟩, ?_⟩
  have hsafe : RenameSafe sampleLevels "phone" "mobile" := by
    intro old hold
    cases hold
    change ite _ _ _
    rw [if_pos (by decide +kernel)]
    exact ⟨le_rfl, by decide⟩
  exact (hkeeps ⟨"people/al.md", false⟩ (renameEdit "phone" "mobile" "555") "" "phone"
    ⟨mobileFrontmatter, "", some (.str "sensitive")⟩ (by decide) (.inl rfl) rfl).2 hsafe

/-- What the file is after the alias is called a nickname. -/
def nicknameFrontmatter : List (String × Yaml) :=
  [("classification", .str "private"), ("phone", .str "555"),
    ("sensitive_keys", .seq [.str "phone"]),
    ("classifications", .map [("nickname", .str "public")]), ("nickname", .str "Al")]

/-- The level of the file cannot be chosen for a key that every object has; and what was private is
public under the name of a key that had a level of its own. -/
theorem written_is_not_read :
    ¬WritesLevel sampleFrontmatter sampleLevels "constructor" "private" ∧
      writeFactToVault ⟨"people/al.md", false⟩ (renameEdit "alias" "nickname" "Al")
          ⟨sampleFrontmatter, ""⟩ = .ok ⟨nicknameFrontmatter, "", none⟩ ∧
        ¬KeepsPrivacy sampleLevels "alias" "nickname" nicknameFrontmatter := by
  refine ⟨?_, rfl, fun h => ?_⟩
  · rw [writesLevel_iff says_sample (by decide)]
    exact fun h => h.2 (by decide) rfl
  · have hsaid : Says nicknameFrontmatter sampleLevels := ⟨rfl, rfl, rfl⟩
    obtain ⟨L', new, hsaid', hnew, hle⟩ := h "private" rfl
    cases hsaid.unique hsaid'
    cases hnew
    exact absurd hle (by decide)

end U2os.Server.Vault
