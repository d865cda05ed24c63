import U2os.Majordomo.Vault.Record
import U2os.Majordomo.Vault.Values

/-!
# Fields that both sides read alike

The fields of a record, as `describe` of `vault/indexer.js` reads them in the values that Node has
and `describe` of `vault/record.rs` in those that Majordomo has.

## Main results

* `agree_readClassification`, `agree_readSensitiveKeys`, `agree_readLevels`, `agree_readBoundId` :
  the fields.
* `scalarText_encode`, `heading_eq`, `humanize_eq` : the names.
* `agree_stateEntry` : an entry of the frontmatter.
-/

namespace U2os.Majordomo.Vault

open Fallible Trimming List Option Assoc Classification Server.Memory Server.Vault
open JsText (isSpace)
open Server.Vault (encode encodeItems encodeEntries isEntityId Refusal StatedFact)

variable {v : Yaml} {o : Option Yaml} {k : String} {es es' : List (String × Yaml)}
  {level : String → Classification} {level' : String → Option String}

/-- The value in JavaScript of a plain value of the core schema. -/
def Shared (v : Yaml) : Prop := ∃ w : CoreValue, w.Plain ∧ v = w.toYaml

theorem get?_perm {V : Type} {es es' : List (String × V)} (h : es.Perm es')
    (hnodup : (es'.map Prod.fst).Nodup) (k : String) : get? es k = get? es' k := by
  refine ext fun v => ?_
  rw [get?_eq_some_iff hnodup, get?_eq_some_iff ((h.map _).nodup_iff.2 hnodup)]
  exact h.mem_iff

theorem get?_encodeEntries (es : List (String × Yaml)) (k : String) :
    get? (encodeEntries es) k = (get? es k).map encode := by
  induction es with
  | nil => rfl
  | cons e es ih =>
    rw [encodeEntries, get?_cons, get?_cons, ih]
    split_ifs <;> rfl

theorem shared_of_mem {entries : List (CoreKey × CoreValue)} (h : entriesPlain entries) :
    ∀ e ∈ entriesToYaml entries, Shared e.2 := by
  rw [entriesToYaml_eq, List.forall_mem_map]
  exact fun e he => ⟨e.2, plain_of_mem h e he, rfl⟩

theorem encode_eq_null (h : Shared v) : encode v = .null ↔ isNull v = true := by
  obtain ⟨w, hw, rfl⟩ := h
  cases w with
  | null => exact ⟨fun _ => rfl, fun _ => rfl⟩
  | num n =>
    have hfinite : ["NaN", "Infinity", "-Infinity"].contains n.node = false := hw.2
    rw [CoreValue.toYaml, encode, if_neg (by rw [hfinite]; exact Bool.false_ne_true)]
    exact ⟨nofun, nofun⟩
  | bool b | str s | seq items | map entries => exact ⟨nofun, nofun⟩

theorem encode_num {text : String} (h : Shared (.num text)) : encode (.num text) = .num text := by
  obtain ⟨w, hw, hv⟩ := h
  cases w <;> cases hv
  rename_i n
  have hfinite : ["NaN", "Infinity", "-Infinity"].contains n.node = false := hw.2
  rw [encode, if_neg (by rw [hfinite]; exact Bool.false_ne_true)]

theorem Shared.not_date (h : Shared v) : (∀ t, v ≠ .date t) ∧ ∀ bs, v ≠ .bytes bs := by
  obtain ⟨w, _, rfl⟩ := h
  cases w <;> exact ⟨nofun, nofun⟩

theorem asStr?_encode (h : Shared v) : (encode v).asStr? = asStr? v := by
  obtain ⟨hdate, hbytes⟩ := h.not_date
  cases v with
  | num text =>
    rw [encode_num h]
    rfl
  | date t => exact absurd rfl (hdate t)
  | bytes bs => exact absurd rfl (hbytes bs)
  | _ => rfl

theorem shared_items {items : List Yaml} (h : Shared (.seq items)) : ∀ i ∈ items, Shared i := by
  obtain ⟨w, hw, hv⟩ := h
  cases w <;> cases hv
  rename_i vs
  have hitems : itemsPlain vs := hw
  clear hw
  induction vs with
  | nil => exact forall_mem_nil _
  | cons v vs ih => exact forall_mem_cons.2 ⟨⟨v, hitems.1, rfl⟩, ih hitems.2⟩

theorem shared_entries (h : Shared (.map es)) : ∀ e ∈ es, Shared e.2 := by
  obtain ⟨w, hw, hv⟩ := h
  cases w <;> cases hv
  rw [hw.2.2]
  exact shared_of_mem hw.1

/-! ### Classifications -/

theorem Classification.text_injective : Function.Injective text := by
  intro a b h
  cases a <;> cases b <;> first | rfl | exact absurd h (by decide)

variable {s : String}

theorem parse_eq_some {c : Classification} :
    parse (.str s) = some c ↔ s = c.text := by
  constructor
  · intro h
    have hfound := find?_some h
    exact (of_decide_eq_true hfound).symm
  · rintro rfl
    cases c <;> rfl

theorem mem_classifications :
    s ∈ classifications ↔ ∃ c : Classification, s = c.text := by
  constructor
  · intro h
    simp only [classifications, mem_cons, not_mem_nil, or_false] at h
    rcases h with rfl | rfl | rfl | rfl
    exacts [⟨.public_, rfl⟩, ⟨.personal, rfl⟩, ⟨.private_, rfl⟩, ⟨.sensitive, rfl⟩]
  · rintro ⟨c, rfl⟩
    cases c <;> decide

theorem notMem_classifications (h : parse (.str s) = none) :
    s ∉ classifications := by
  intro hmem
  obtain ⟨c, hc⟩ := mem_classifications.1 hmem
  rw [parse_eq_some.2 hc] at h
  cases h

theorem parse_encode (h : Shared v) :
    parse (encode v) = (asStr? v).bind fun s =>
      parse (.str s) := by
  rw [← asStr?_encode h]
  cases encode v <;> rfl

/-- Both sides read the same classification. -/
theorem agree_readClassification (h : ∀ v ∈ o, Shared v) :
    Agree (fun s c => s = c.text) (Server.Vault.readClassification o)
      (readClassification (o.map encode)) := by
  rcases o with _ | v
  · exact .ok rfl
  · have hv := h v rfl
    obtain ⟨hdate, hbytes⟩ := hv.not_date
    cases v with
    | null => exact .ok rfl
    | num text =>
      rw [map_some, encode_num hv]
      exact .error _ _
    | str s =>
      change Agree _ (if s ∈ classifications then _ else _)
        (readClassification (some (.str s)))
      cases hp : parse (.str s) with
      | some c =>
        have hs := parse_eq_some.1 hp
        rw [if_pos (mem_classifications.2 ⟨c, hs⟩)]
        simp only [readClassification, hp]
        exact .ok hs
      | none =>
        rw [if_neg (notMem_classifications hp)]
        simp only [readClassification, hp]
        exact .error _ _
    | date t => exact absurd rfl (hdate t)
    | bytes bs => exact absurd rfl (hbytes bs)
    | bool b | seq items | map entries => exact .error _ _

theorem encodeItems_eq (items : List Yaml) : encodeItems items = items.map encode := by
  induction items with
  | nil => rfl
  | cons v vs ih => rw [encodeItems, ih, map_cons]

theorem mapM_asStr?_encode {items : List Yaml} (h : ∀ i ∈ items, Shared i) :
    (items.map encode).mapM Json.asStr? = items.mapM asStr? := by
  induction items with
  | nil => rfl
  | cons v vs ih =>
    obtain ⟨hv, hvs⟩ := forall_mem_cons.1 h
    rw [map_cons, mapM_cons, mapM_cons, asStr?_encode hv, ih hvs]

theorem agree_readSensitiveKeys (h : ∀ v ∈ o, Shared v) :
    Agree (fun keys keys' => keys = keys') (Server.Vault.readSensitiveKeys o)
      (readSensitiveKeys (o.map encode)) := by
  rcases o with _ | v
  · exact .ok rfl
  · have hv := h v rfl
    obtain ⟨hdate, hbytes⟩ := hv.not_date
    cases v with
    | null => exact .ok rfl
    | num text =>
      rw [map_some, encode_num hv]
      exact .error _ _
    | seq items =>
      rw [map_some, encode, encodeItems_eq, Server.Vault.readSensitiveKeys,
        readSensitiveKeys, mapM_asStr?_encode (shared_items hv)]
      cases items.mapM asStr? with
      | some keys => exact .ok rfl
      | none => exact .error _ _
    | date t => exact absurd rfl (hdate t)
    | bytes bs => exact absurd rfl (hbytes bs)
    | bool b | str s | map entries => exact .error _ _

/-- A level, as Node has it. -/
def textLevel (e : String × Classification) : String × String := (e.1, e.2.text)

theorem mapM_levels (h : ∀ e ∈ es, Shared e.2) :
    (es.mapM fun e => ((asStr? e.2).filter (· ∈ classifications)).map
        (e.1, ·)) =
      ((es.map fun e => (e.1, encode e.2)).mapM fun e =>
        (parse e.2).map (e.1, ·)).map (List.map textLevel) := by
  induction es with
  | nil => rfl
  | cons e es ih =>
    obtain ⟨he, hes⟩ := forall_mem_cons.1 h
    have hfirst : ((asStr? e.2).filter (· ∈ classifications)).map
        (e.1, ·) = ((parse (encode e.2)).map (e.1, ·)).map textLevel := by
      rw [parse_encode he]
      cases asStr? e.2 with
      | none => rfl
      | some s =>
        rw [bind_some]
        cases hp : parse (.str s) with
        | some c =>
          have hs := parse_eq_some.1 hp
          rw [filter_some, if_pos (by simpa using mem_classifications.2 ⟨c, hs⟩), hs]
          rfl
        | none =>
          rw [filter_some, if_neg (by simpa using notMem_classifications hp)]
          rfl
    rw [map_cons, mapM_cons, mapM_cons, hfirst, ih hes]
    cases (parse (encode e.2)).map ((e.1, ·) : Classification → _) with
    | none => rfl
    | some first =>
      cases (es.map fun e => (e.1, encode e.2)).mapM fun e =>
        (parse e.2).map ((e.1, ·) : Classification → _) <;> rfl

theorem agree_readLevels (h : ∀ v ∈ o, Shared v) :
    Agree (fun levels perKey => levels = perKey.map textLevel) (readLevels o)
      (readPerKey (o.map encode)) := by
  rcases o with _ | v
  · exact .ok rfl
  · have hv := h v rfl
    obtain ⟨hdate, hbytes⟩ := hv.not_date
    cases v with
    | null => exact .ok rfl
    | num text =>
      rw [map_some, encode_num hv]
      exact .error _ _
    | map entries =>
      rw [map_some, encode, encodeEntries_eq, readLevels, readPerKey,
        mapM_levels (shared_entries hv)]
      cases (entries.map fun e => (e.1, encode e.2)).mapM fun e =>
          (parse e.2).map ((e.1, ·) : Classification → _) with
      | some levels => exact .ok rfl
      | none => exact .error _ _
    | date t => exact absurd rfl (hdate t)
    | bytes bs => exact absurd rfl (hbytes bs)
    | bool b | str s | seq items => exact .error _ _

theorem get?_textLevel (perKey : List (String × Classification)) (k : String) :
    get? (perKey.map textLevel) k = (get? perKey k).map (·.text) := by
  induction perKey with
  | nil => rfl
  | cons e es ih =>
    rw [map_cons, get?_cons, get?_cons, ih]
    by_cases hk : e.1 = k
    · rw [if_pos hk, if_pos (show (textLevel e).1 = k from hk)]
      rfl
    · rw [if_neg hk, if_neg (show (textLevel e).1 ≠ k from hk)]

/-- A key has the same level, where it is not one that every object has, or a level is given for it. -/
theorem levelFor_eq {sensitiveKeys : List String} {perKey : List (String × Classification)}
    {classification : Classification}
    (h : k ∈ objectPrototype → k ∈ sensitiveKeys ∨ (get? perKey k).isSome = true) :
    Server.Vault.levelFor sensitiveKeys (perKey.map textLevel) classification.text k =
      some (levelFor sensitiveKeys perKey classification k).text := by
  unfold Server.Vault.levelFor levelFor
  by_cases hs : k ∈ sensitiveKeys
  · rw [if_pos hs, if_pos hs]
    rfl
  · rw [if_neg hs, if_neg hs, get?_textLevel]
    cases hp : get? perKey k with
    | some c => rfl
    | none =>
      have hproto : k ∉ objectPrototype := fun hmem => by
        rcases h hmem with h | h
        · exact hs h
        · rw [hp] at h
          cases h
      rw [map_none, if_neg hproto]
      rfl

theorem validBoundId_eq {text : String} (h : isUuid text = false) :
    validBoundId text = isEntityId text := by
  unfold validBoundId isEntityId
  by_cases hpre : "ent_".toList.isPrefixOf text.toList = true
  · rw [if_pos hpre, hpre, Bool.true_and, Bool.and_comm]
    rfl
  · rw [if_neg hpre, h, Bool.eq_false_iff.2 hpre, Bool.false_and]

/-- Both sides read the same id, where neither takes the text for one of its own kind. -/
theorem agree_readBoundId (h : ∀ v ∈ o, Shared v)
    (huuid : ∀ v ∈ o, ∀ t, v.text = some t → isUuid t = false)
    (hlist : ∀ items t, o = some (.seq items) → (Yaml.seq items).text = some t →
      isEntityId t = false) :
    Agree (fun id id' => id = id') (Server.Vault.readBoundId o) (readBoundId (o.map encode)) := by
  rcases o with _ | v
  · exact .ok rfl
  · have hv := h v rfl
    obtain ⟨hdate, hbytes⟩ := hv.not_date
    have htext (t : String) (hvt : v.text = some t) (hid : idText (encode v) = some t) :
        Agree (fun id id' => id = id') (Server.Vault.readBoundId (some v))
          (readBoundId ((some v).map encode)) := by
      rw [map_some, Server.Vault.readBoundId, hvt, readBoundId, hid]
      dsimp only
      rw [validBoundId_eq (huuid v rfl t hvt)]
      by_cases hentity : isEntityId t = true
      · rw [if_pos hentity, if_pos hentity]
        exact .ok rfl
      · rw [if_neg hentity, if_neg hentity]
        exact .error _ _
    have hrefused (hno : ∀ t, v.text = some t → isEntityId t = false)
        (hid : idText (encode v) = none) :
        Agree (fun id id' => id = id') (Server.Vault.readBoundId (some v))
          (readBoundId ((some v).map encode)) := by
      rw [map_some, Server.Vault.readBoundId, readBoundId, hid]
      cases hvt : v.text with
      | none => exact .error _ _
      | some t =>
        dsimp only
        rw [if_neg (by rw [hno t hvt]; exact Bool.false_ne_true)]
        exact .error _ _
    cases v with
    | null => exact htext "null" rfl rfl
    | bool b => exact htext _ rfl rfl
    | num text => exact htext text rfl (by rw [encode_num hv]; rfl)
    | str s => exact htext s rfl rfl
    | seq items => exact hrefused (fun t ht => hlist items t rfl ht) rfl
    | map entries =>
      refine hrefused (fun t ht => ?_) rfl
      rw [Yaml.text] at ht
      split_ifs at ht
      cases ht
      decide
    | date t => exact absurd rfl (hdate t)
    | bytes bs => exact absurd rfl (hbytes bs)

/-! ### Names -/

/-- The text is trimmed alike. -/
abbrev Even (s : String) : Prop := EvenEnds isSpace isWhite s.toList

theorem trim_eq (h : Even s) : trim s = JsText.trim s :=
  congrArg String.ofList (trimBy_congr h).symm

/-- The text of a scalar value. -/
def rawText : Option Yaml → String
  | some (.str s) => s
  | some (.num text) => text
  | _ => ""

/-- Both sides read the same scalar text. -/
theorem scalarText_encode (h : ∀ v ∈ o, Shared v) (heven : Even (rawText o)) :
    scalarText (o.map encode) =
      if Server.Vault.scalarText o = "" then none else some (Server.Vault.scalarText o) := by
  rcases o with _ | v
  · rfl
  · have hv := h v rfl
    obtain ⟨hdate, hbytes⟩ := hv.not_date
    cases v with
    | num text =>
      have htrim : trim text = JsText.trim text := trim_eq heven
      rw [map_some, encode_num hv, scalarText, htrim]
      rfl
    | str s =>
      have htrim : trim s = JsText.trim s := trim_eq heven
      rw [map_some, encode, scalarText, htrim]
      rfl
    | date t => exact absurd rfl (hdate t)
    | bytes bs => exact absurd rfl (hbytes bs)
    | null | bool b | seq items | map entries => rfl

/-- The line of a heading, after the `#` and the blanks. -/
def headingLine (rest : List Char) : List Char :=
  (rest.dropWhile isSpace).takeWhile fun c => !JsText.isLineTerminator c

/-- Every `#` that starts a line does so after a line feed, the two sides agree on the blanks after
it, and its line is trimmed alike. -/
def PlainHeadings (body : List Char) : Prop :=
  ∀ before rest, body = before ++ '#' :: rest →
    (before.getLast?.all JsText.isLineTerminator) = true →
      (before.getLast?.all (· = '\n')) = true ∧
        (∀ c ∈ rest.takeWhile fun c => isSpace c || isWhite c, isSpace c = isWhite c) ∧
          EvenEnds isSpace isWhite (headingLine rest)

theorem headingText_eq {rest : List Char}
    (hrun : ∀ c ∈ rest.takeWhile fun c => isSpace c || isWhite c, isSpace c = isWhite c)
    (hends : EvenEnds isSpace isWhite (headingLine rest)) :
    headingText rest = Server.Vault.headingText rest := by
  have htrim : trimChars (headingLine rest) = JsText.trimChars (headingLine rest) :=
    (trimBy_congr hends).symm
  unfold headingLine at htrim
  unfold headingText Server.Vault.headingText
  rw [← dropWhile_congr hrun, ← head?_any_congr hrun]
  dsimp only
  rw [← htrim]
  rfl

theorem heading_append {body : List Char} (h : PlainHeadings body) (before cs : List Char)
    (hbody : body = before ++ cs) :
    heading (before.getLast?.all (· = '\n')) cs =
      Server.Vault.heading (before.getLast?.all JsText.isLineTerminator) cs := by
  induction cs generalizing before with
  | nil => rfl
  | cons c rest ih =>
    have hnext := ih (before ++ [c]) (by rw [hbody, append_assoc]; rfl)
    rw [getLast?_concat, all_some, all_some] at hnext
    have hhere : (if (before.getLast?.all (· = '\n')) = true ∧ c = '#' then headingText rest
          else none) =
        if (before.getLast?.all JsText.isLineTerminator) = true ∧ c = '#' then
          Server.Vault.headingText rest
        else none := by
      by_cases hc : c = '#'
      · by_cases hstart : (before.getLast?.all JsText.isLineTerminator) = true
        · obtain ⟨hlf, hrun, hends⟩ := h before rest (by rw [hbody, hc]) hstart
          rw [if_pos ⟨hlf, hc⟩, if_pos ⟨hstart, hc⟩, headingText_eq hrun hends]
        · have hlf : ¬(before.getLast?.all (· = '\n')) = true := by
            intro hlf
            refine hstart ?_
            cases hlast : before.getLast? with
            | none => rfl
            | some x =>
              rw [hlast, all_some, decide_eq_true_eq] at hlf
              rw [hlf]
              rfl
          rw [if_neg fun h => hlf h.1, if_neg fun h => hstart h.1]
      · rw [if_neg fun h => hc h.2, if_neg fun h => hc h.2]
    rw [heading, Server.Vault.heading, hhere]
    cases (if (before.getLast?.all JsText.isLineTerminator) = true ∧ c = '#' then
        Server.Vault.headingText rest else none) with
    | some text => rfl
    | none => exact hnext

theorem heading_eq {body : List Char} (h : PlainHeadings body) :
    heading true body = Server.Vault.heading true body :=
  heading_append h [] body rfl

theorem heading_ne_empty {atStart : Bool} {cs : List Char} {t : String}
    (h : Server.Vault.heading atStart cs = some t) : t ≠ "" := by
  induction cs generalizing atStart with
  | nil => cases h
  | cons c rest ih =>
    rw [Server.Vault.heading] at h
    split at h
    · next text htext =>
      cases h
      split_ifs at htext
      unfold Server.Vault.headingText at htext
      dsimp only at htext
      split_ifs at htext with hline
      cases htext
      intro hempty
      have hnil : trimBy isSpace (headingLine rest) = [] := String.ofList_injective hempty
      have hdrop := trimBy_eq_nil hnil
      obtain ⟨x, line, hx⟩ := exists_cons_of_ne_nil hline.2
      have hhead := head?_dropWhile_not isSpace rest
      have hfirst : (rest.dropWhile isSpace).head? = some x := by
        cases hrest : rest.dropWhile isSpace with
        | nil =>
          rw [hrest] at hx
          cases hx
        | cons y more =>
          rw [hrest, takeWhile_cons] at hx
          split_ifs at hx
          cases hx
          rfl
      rw [hfirst] at hhead
      unfold headingLine at hdrop
      rw [hx, dropWhile_cons_of_neg (by simpa using hhead)] at hdrop
      cases hdrop
    · exact ih h

theorem spaced_eq (inSep : Bool) (cs : List Char) :
    spaced inSep cs = Server.Vault.spaced inSep cs := by
  induction cs generalizing inSep with
  | nil => rfl
  | cons c cs ih => rw [spaced, Server.Vault.spaced, ih, ih]

theorem capitalized_eq (previous : Option Char) (cs : List Char) :
    capitalized (previous.any isWord) cs = Server.Vault.capitalized previous cs := by
  induction cs generalizing previous with
  | nil => rfl
  | cons c cs ih =>
    rw [capitalized, Server.Vault.capitalized, ← ih]
    rfl

/-- The name that a path gives, where the file has a name before its suffix. -/
theorem humanize_eq {relativePath : String}
    (hname : (relativePath.toList.reverse.takeWhile (· ≠ '/')).reverse ≠ ".md".toList)
    (heven : EvenEnds isSpace isWhite
      (Server.Vault.capitalized none (Server.Vault.spaced false
        (baseName relativePath)))) :
    humanize relativePath = Server.Vault.humanize relativePath := by
  have hstem : stem relativePath = baseName relativePath := by
    unfold stem baseName
    simp only [hname, ne_eq, not_false_eq_true, decide_true, Bool.and_true]
  unfold humanize Server.Vault.humanize
  rw [hstem, spaced_eq]
  have hcapital := capitalized_eq none (Server.Vault.spaced false
    (baseName relativePath))
  rw [any_none] at hcapital
  rw [hcapital]
  exact congrArg String.ofList (trimBy_congr heven).symm

end U2os.Majordomo.Vault
