import U2os.Lib.Fallible
import U2os.Server.Vault.Render

/-!
# A text that says what was meant

The check at the end of an edit lets no other text pass, so what is left to ask is when one of the
two texts passes it.  The clean text does where the frontmatter is not empty and its text reads back:
an empty one leaves two fences with no line between them, which hold no block.  The text with the
edited lines does where these lines read back, whatever else is in them.
-/

namespace U2os.Server.Vault

open JsText Fence Fallible List Option

variable {Y : YamlLibrary} {cs rest eol : List Char} {lines more : List (List Char)}
  {fm old new : List (String × Yaml)} {body text key : String} {d : Document} {value : Yaml}
  {written : Written} {target : Target} {edit : FileEdit}

theorem prefix_trimChars (cs : List Char) : trimChars cs <+: cs.dropWhile isSpace := by
  have hsuffix := dropWhile_suffix (l := (cs.dropWhile isSpace).reverse) isSpace
  have hpre := reverse_prefix.2 hsuffix
  rwa [reverse_reverse] at hpre

variable {t : List Char}

theorem isSpace_head_trimChars {c : Char} (h : trimChars cs = c :: t) :
    isSpace c = false := by
  obtain ⟨more, hmore⟩ := prefix_trimChars cs
  have hhead := head?_dropWhile_not isSpace cs
  rw [← hmore, h] at hhead
  exact hhead

theorem isSpace_last_trimChars {c : Char} (h : (trimChars cs).reverse = c :: t) :
    isSpace c = false := by
  have hhead := head?_dropWhile_not isSpace (cs.dropWhile isSpace).reverse
  rw [trimChars, reverse_reverse] at h
  rw [h] at hhead
  exact hhead

theorem trimChars_append {c : Char} (front : List Char) (hne : trimChars cs ≠ [])
    (hfront : front ++ trimChars cs = c :: t) (hc : isSpace c = false) :
    trimChars (front ++ (trimChars cs ++ ['\n'])) = front ++ trimChars cs := by
  obtain ⟨x, xs, hx⟩ := exists_cons_of_ne_nil (reverse_ne_nil_iff.2 hne)
  calc trimChars (front ++ (trimChars cs ++ ['\n']))
      = ((front ++ trimChars cs ++ ['\n']).reverse.dropWhile isSpace).reverse := by
        rw [trimChars, ← append_assoc, hfront, cons_append,
          dropWhile_cons_of_neg (by simp [hc])]
    _ = (((trimChars cs).reverse ++ front.reverse).dropWhile isSpace).reverse := by
        rw [reverse_append, reverse_singleton, singleton_append,
          dropWhile_cons_of_pos (by decide), reverse_append]
    _ = front ++ trimChars cs := by
        rw [hx, cons_append, dropWhile_cons_of_neg (by
          simp [isSpace_last_trimChars hx]), ← cons_append, ← hx, ← reverse_append,
          reverse_reverse]

theorem trimChars_bodyText (body : String) :
    trimChars (bodyText body) = trimChars body.toList := by
  unfold bodyText
  split_ifs with hempty
  · rw [hempty]
    rfl
  · obtain ⟨c, t, ht⟩ := exists_cons_of_ne_nil hempty
    exact trimChars_append [] hempty ht (isSpace_head_trimChars ht)

/-- The text between the fences reads back. -/
def Loads (Y : YamlLibrary) (yaml : List Char) (fm : List (String × Yaml)) : Prop :=
  ∃ entries, readFrontmatter Y yaml = .ok entries ∧ deepEq (.map entries) (.map fm) = true

/-- Lines that can stand between the fences. -/
structure Unfenced (eol : List Char) (lines : List (List Char)) : Prop where
  isLine : ∀ l ∈ lines, IsLine eol l
  notFence : ∀ l ∈ lines.tail, isFence l = false

theorem matchFrontmatter_fenced (heol : IsEol eol) (h : Unfenced eol lines) (rest : List Char) :
    matchFrontmatter (withoutBom (fenced eol (joinLines eol lines) rest).toList) =
      some (joinLines eol lines, rest) := by
  have hopening : opening (['-', '-', '-'] ++ (eol ++ (joinLines eol lines ++
      (eol ++ (['-', '-', '-'] ++ (eol ++ rest)))))) =
        some (joinLines eol lines ++ (eol ++ (['-', '-', '-'] ++ (eol ++ rest)))) := by
    unfold opening
    have hdashes (cs : List Char) : dashes? (['-', '-', '-'] ++ cs) = some cs := rfl
    rw [hdashes, bind_some, newline?_eol heol]
  rw [fenced, String.toList_ofList]
  have hbom (cs : List Char) : withoutBom (['-', '-', '-'] ++ cs) = ['-', '-', '-'] ++ cs :=
    if_neg (by simp)
  rw [hbom, matchFrontmatter, hopening, bind_some]
  exact block_joinLines heol h.isLine h.notFence rest

theorem readsAs_fenced (heol : IsEol eol) (h : Unfenced eol lines)
    (hrest : trimChars rest = trimChars body.toList) :
    readsAs Y (fenced eol (joinLines eol lines) rest) fm body = true ↔
      Loads Y (joinLines eol lines) fm := by
  unfold readsAs parseMarkdown Loads
  rw [matchFrontmatter_fenced heol h]
  dsimp only
  cases readFrontmatter Y (joinLines eol lines) with
  | error message => simp [Except.map]
  | ok entries => simp [Except.map, hrest, trim]

/-! ### Edited lines -/

/-- What is used of the texts that the library writes: a line feed ends them, they hold no carriage
return, and none of their lines starts with three dashes. -/
structure Dumps (Y : YamlLibrary) : Prop where
  ends : ∀ fm, fm ≠ [] → ∃ cs, (Y.dump fm).toList = cs ++ ['\n']
  noReturn : ∀ fm, '\r' ∉ (Y.dump fm).toList
  dashless : ∀ fm, Dashless (Y.dump fm).toList

/-- Lines that can stand anywhere between the fences. -/
def Inner (eol : List Char) (lines : List (List Char)) : Prop :=
  ∀ l ∈ lines, IsLine eol l ∧ isFence l = false

/-- More inner lines leave a block without fences. -/
theorem Unfenced.append (h : Unfenced eol lines) (hmore : Inner eol more) :
    Unfenced eol (lines ++ more) where
  isLine l hl := (List.mem_append.1 hl).elim (h.isLine l) fun hl => (hmore l hl).1
  notFence l hl := by
    cases lines with
    | nil => exact (hmore l (mem_of_mem_tail hl)).2
    | cons l' lines =>
      rw [cons_append, tail_cons] at hl
      exact (List.mem_append.1 hl).elim (h.notFence l) fun hl => (hmore l hl).2

theorem Unfenced.of_initial (h : Unfenced eol lines) (hpre : more <+: lines) :
    Unfenced eol more where
  isLine l hl := h.isLine l (hpre.subset hl)
  notFence l hl := by
    obtain ⟨after, rfl⟩ := hpre
    cases more with
    | nil => cases hl
    | cons l' more => exact h.notFence l (mem_append_left _ hl)

theorem Unfenced.drop_succ (h : Unfenced eol lines) (n : ℕ) : Inner eol (lines.drop (n + 1)) := by
  intro l hl
  rw [← drop_tail] at hl
  have hl' := mem_of_mem_drop hl
  exact ⟨h.isLine l (mem_of_mem_tail hl'), h.notFence l hl'⟩

theorem Inner.append (h : Inner eol lines) (hmore : Inner eol more) : Inner eol (lines ++ more) :=
  fun l hl => (List.mem_append.1 hl).elim (h l) (hmore l)

theorem prefix_withoutEmpty (lines : List (List Char)) : withoutEmpty lines <+: lines := by
  have hpre := reverse_prefix.2
    (dropWhile_suffix (l := lines.reverse) fun l => decide (l = []))
  rwa [reverse_reverse] at hpre

theorem inner_splitLines (hcr : '\r' ∉ cs) (hdashes : Dashless cs) : Inner eol (splitLines cs) :=
  fun l hl => ⟨⟨noLineFeed_splitLines l hl, fun _ hlast =>
      hcr (mem_of_mem_splitLines hl (mem_of_getLast? hlast))⟩,
    isFence_of_dashes? (dashes?_splitLines hdashes l hl)⟩

theorem trimEnd_append (cs : List Char) : ∃ blanks, cs = trimEnd cs ++ blanks := by
  obtain ⟨blanks, h⟩ := reverse_prefix.2
    (dropWhile_suffix (l := cs.reverse) isSpace)
  rw [reverse_reverse] at h
  exact ⟨blanks, h.symm⟩

theorem inner_entryLines (hY : Dumps Y) (key : String) (value : Yaml) :
    Inner eol (entryLines Y key value) := by
  obtain ⟨blanks, hblanks⟩ := trimEnd_append (Y.dump [(key, value)]).toList
  have hcr := hY.noReturn [(key, value)]
  have hdashes := hY.dashless [(key, value)]
  rw [hblanks] at hcr hdashes
  have hcr' : '\r' ∉ trimEnd (Y.dump [(key, value)]).toList :=
    fun hmem => hcr (mem_append_left _ hmem)
  rw [entryLines, splitOn_eq_splitLines hcr']
  exact inner_splitLines hcr' hdashes.of_append

theorem entryRange_stop {start stop : ℕ} (h : entryRange key lines = some (start, stop)) :
    ∃ n, stop = n + 1 := by
  obtain ⟨start', _, h⟩ := map_eq_some_iff.1 h
  cases h
  exact ⟨_, Nat.add_right_comm _ _ _⟩

/-- Setting an entry leaves a block without fences. -/
theorem Unfenced.setEntry (hY : Dumps Y) (h : Unfenced eol lines) (key : String) (value : Yaml) :
    Unfenced eol (setEntry Y key value lines) := by
  unfold Vault.setEntry
  split
  · exact (h.of_initial (prefix_withoutEmpty lines)).append (inner_entryLines hY key value)
  · next start stop hrange =>
    obtain ⟨n, rfl⟩ := entryRange_stop hrange
    exact (h.of_initial (List.take_prefix start lines)).append
      ((inner_entryLines hY key value).append (h.drop_succ n))

theorem Unfenced.removeEntry (h : Unfenced eol lines) (key : String) :
    Unfenced eol (removeEntry key lines) := by
  unfold Vault.removeEntry
  split
  · exact h
  · next start stop hrange =>
    obtain ⟨n, rfl⟩ := entryRange_stop hrange
    exact (h.of_initial (List.take_prefix start lines)).append (h.drop_succ n)

theorem Unfenced.editEntry (hY : Dumps Y) (h : Unfenced eol lines) (key : String) :
    Unfenced eol (editEntry Y old new lines key) := by
  unfold Vault.editEntry
  split
  · split_ifs
    · exact h
    · exact h.setEntry hY _ _
  · exact h.setEntry hY _ _
  · split_ifs
    · exact h.setEntry hY _ _
    · exact h.removeEntry _
  · exact h

theorem Unfenced.foldl (hY : Dumps Y) (h : Unfenced eol lines) (keys : List String) :
    Unfenced eol (keys.foldl (Vault.editEntry Y old new) lines) := by
  induction keys generalizing lines with
  | nil => exact h
  | cons key keys ih => exact ih (h.editEntry hY key)

theorem Unfenced.editLines (hY : Dumps Y) (h : Unfenced eol (splitLines cs)) :
    Unfenced eol (editLines Y old new cs) :=
  h.foldl hY _

theorem matchFrontmatter_eq_some {yaml : List Char} (h : matchFrontmatter cs = some (yaml, rest)) :
    ∃ front after, cs = ['-', '-', '-'] ++ (front ++ after) ∧ block after = some (yaml, rest) := by
  obtain ⟨after, hopening, hblock⟩ := bind_eq_some_iff.1 h
  obtain ⟨tail, htail, hnewline⟩ := bind_eq_some_iff.1 hopening
  unfold dashes? at htail
  split_ifs at htail with hdashes
  cases htail
  have hcs := take_append_drop 3 cs
  rw [hdashes] at hcs
  obtain ⟨front, hfront⟩ : ∃ front, cs.drop 3 = front ++ after := by
    obtain ⟨c, tail, htail⟩ := exists_cons_of_ne_nil (fun hnil : cs.drop 3 = [] => by
      rw [hnil] at hnewline
      cases hnewline)
    rw [htail, newline?] at hnewline
    rw [htail]
    split_ifs at hnewline with hlf hret
    · cases hnewline
      exact ⟨[c], rfl⟩
    · cases hnewline
      obtain ⟨after, rfl⟩ := head?_eq_some_iff.1 hret.2
      exact ⟨[c, '\n'], rfl⟩
  exact ⟨front, after, by rw [← hfront, hcs], hblock⟩

theorem isEol_eolOf (cs rest : List Char) : IsEol (eolOf cs rest) := by
  unfold eolOf
  split_ifs
  · exact .crlf
  · exact .lf

theorem unfenced_splitLines {yaml : List Char} (h : matchFrontmatter cs = some (yaml, rest)) :
    Unfenced (eolOf cs rest) (splitLines yaml) := by
  obtain ⟨front, after, rfl, hblock⟩ := matchFrontmatter_eq_some h
  refine ⟨isLine_of_block hblock fun hcrlf => ?_, notFence_of_block hblock⟩
  have hlength := length_block hblock
  have htake : (['-', '-', '-'] ++ (front ++ after)).take
      ((['-', '-', '-'] ++ (front ++ after)).length - rest.length) =
        (['-', '-', '-'] ++ front) ++ after.take (after.length - rest.length) := by
    rw [← append_assoc, List.length_append, Nat.add_sub_assoc (by omega),
      take_length_add_append]
  rw [eolOf, htake, hasCrlf_append _ hcrlf, if_pos rfl]
  simp

/-- The clean text of a frontmatter that is not empty says what the text of the library loads as,
without its last line feed. -/
theorem readsAs_cleanText (hY : Dumps Y) (hfm : fm ≠ []) :
    readsAs Y (cleanText Y fm body) fm body = true ↔
      Loads Y (Y.dump fm).toList.dropLast fm := by
  obtain ⟨cs, hcs⟩ := hY.ends fm hfm
  have hcr := hY.noReturn fm
  have hdashes := hY.dashless fm
  rw [hcs] at hcr hdashes
  have hcr' : '\r' ∉ cs := fun hmem => hcr (mem_append_left _ hmem)
  have hinner : Inner ['\n'] (splitLines cs) := inner_splitLines hcr' hdashes.of_append
  have hunfenced : Unfenced ['\n'] (splitLines cs) :=
    ⟨fun l hl => (hinner l hl).1, fun l hl => (hinner l (mem_of_mem_tail hl)).2⟩
  have hclean : cleanText Y fm body =
      fenced ['\n'] (joinLines ['\n'] (splitLines cs)) (bodyText body) := by
    change String.ofList (['-', '-', '-', '\n'] ++
      ((if fm = [] then [] else (Y.dump fm).toList) ++
        (['-', '-', '-', '\n'] ++ bodyText body))) = _
    rw [if_neg hfm, hcs, joinLines_splitLines hcr', fenced]
    simp only [append_assoc, cons_append, nil_append]
  rw [hclean, readsAs_fenced .lf hunfenced (trimChars_bodyText body), hcs, dropLast_concat,
    joinLines_splitLines hcr']

theorem length_trimChars_le (cs : List Char) : (trimChars cs).length ≤ cs.length :=
  (prefix_trimChars cs).length_le.trans (dropWhile_suffix _).length_le

theorem length_bodyText_le (body : String) :
    (bodyText body).length ≤ (trimChars body.toList).length + 1 := by
  unfold bodyText
  split_ifs
  · exact Nat.zero_le _
  · simp

/-- The clean text of an empty frontmatter is none of a block that is empty: two fences with no line
between them hold none, and a fence further on leaves less than the body after it. -/
theorem not_readsAs_cleanText (Y : YamlLibrary) (body : String) :
    readsAs Y (cleanText Y [] body) fm body = false := by
  have htext : (cleanText Y [] body).toList =
      ['-', '-', '-', '\n', '-', '-', '-', '\n'] ++ bodyText body := String.toList_ofList
  have hbom (cs : List Char) : withoutBom ('-' :: cs) = '-' :: cs := if_neg (by simp)
  have hmatch : matchFrontmatter (['-', '-', '-', '\n', '-', '-', '-', '\n'] ++ bodyText body) =
      (block ('\n' :: bodyText body)).map fun b => (['-', '-', '-'] ++ b.1, b.2) := by
    have hlast : ['-', '-', '-'].getLast? ≠ some '\r' := by decide
    exact block_append (l := ['-', '-', '-']) (by decide) fun h => absurd h hlast
  unfold readsAs parseMarkdown
  rw [htext, cons_append, hbom, ← cons_append, hmatch]
  cases hblock : block ('\n' :: bodyText body) with
  | none =>
    have hne : trimChars (['-', '-', '-', '\n', '-', '-', '-', '\n'] ++ bodyText body) ≠
        trimChars body.toList := by
      intro heq
      by_cases hempty : trimChars body.toList = []
      · rw [bodyText, if_pos hempty, hempty] at heq
        exact absurd heq (by decide)
      · rw [bodyText, if_neg hempty,
          trimChars_append ['-', '-', '-', '\n', '-', '-', '-', '\n'] hempty rfl (by decide)] at heq
        have hlength := congrArg List.length heq
        rw [List.length_append, length_cons] at hlength
        omega
    have htrim : String.ofList (trimChars (['-', '-', '-', '\n', '-', '-', '-', '\n'] ++
        bodyText body)) ≠ trim body := fun heq => hne (String.ofList_injective heq)
    exact Bool.and_eq_false_iff.2 (.inr (decide_eq_false htrim))
  | some b =>
    obtain ⟨yaml, rest⟩ := b
    dsimp only [Option.map]
    cases readFrontmatter Y (['-', '-', '-'] ++ yaml) with
    | error message => rfl
    | ok entries =>
      -- less than the body is left after the fence
      have hlength := length_block hblock
      have hbody := length_bodyText_le body
      have hrest := length_trimChars_le rest
      rw [length_cons] at hlength
      have hne : String.ofList (trimChars rest) ≠ trim body := by
        intro heq
        have heq := congrArg List.length (String.ofList_injective heq)
        omega
      simp [Except.map, hne]

/-- The clean text of a frontmatter reads back. -/
def Clean (Y : YamlLibrary) (fm : List (String × Yaml)) : Prop :=
  fm ≠ [] ∧ Loads Y (Y.dump fm).toList.dropLast fm

theorem readsAs_cleanText_iff (hY : Dumps Y) (fm : List (String × Yaml)) (body : String) :
    readsAs Y (cleanText Y fm body) fm body = true ↔ Clean Y fm := by
  by_cases hfm : fm = []
  · subst hfm
    simp [not_readsAs_cleanText, Clean]
  · rw [readsAs_cleanText hY hfm]
    exact (and_iff_right hfm).symm

/-! ### When an edit says what was meant -/

/-- One of the two texts of an edited file reads back, as far as the frontmatter decides it. -/
def Readable (Y : YamlLibrary) (text : String) (old new : List (String × Yaml)) : Prop :=
  match matchFrontmatter text.toList with
  | none => Clean Y new
  | some (yaml, rest) =>
    (∀ key ∈ old.map Prod.fst, dumpsFunction old new key = false) ∧
      (Loads Y (joinLines (eolOf text.toList rest) (editLines Y old new yaml)) new ∨ Clean Y new)

theorem withoutBom_of_match {b : List Char × List Char} (h : matchFrontmatter cs = some b) :
    withoutBom cs = cs := by
  obtain ⟨front, after, rfl, _⟩ := matchFrontmatter_eq_some h
  exact if_neg (by simp)

theorem body_of_match {b : List Char × List Char} (hd : parseMarkdown Y text = .ok d)
    (h : matchFrontmatter text.toList = some b) : d.body = String.ofList (trimChars b.2) := by
  unfold parseMarkdown at hd
  rw [withoutBom_of_match h, h] at hd
  obtain ⟨entries, _, rfl⟩ := map_eq_ok.1 hd
  rfl

/-- A text is rendered and read back just where it is readable. -/
theorem render_readsAs (hY : Dumps Y) (hd : parseMarkdown Y text = .ok d)
    (fm : List (String × Yaml)) (body : String) :
    (∃ t, render Y text d fm body = .ok t ∧ readsAs Y t fm body = true) ↔
      Readable Y text d.frontmatter fm := by
  unfold render Readable
  cases hmatch : matchFrontmatter text.toList with
  | none =>
    rw [← readsAs_cleanText_iff hY fm body]
    simp only [Except.ok.injEq, exists_eq_left']
  | some b =>
    obtain ⟨yaml, rest⟩ := b
    dsimp only
    have hrest : trimChars (if d.body = trim body then rest else bodyText body) =
        trimChars body.toList := by
      split_ifs with hbody
      · rw [body_of_match hd hmatch] at hbody
        exact String.ofList_injective hbody
      · exact trimChars_bodyText body
    generalize (if d.body = trim body then rest else bodyText body) = shown at hrest ⊢
    have hlines : Unfenced (eolOf text.toList rest) (editLines Y d.frontmatter fm yaml) :=
      (unfenced_splitLines hmatch).editLines hY
    have hcandidate : readsAs Y (fenced (eolOf text.toList rest) (joinLines (eolOf text.toList rest)
        (editLines Y d.frontmatter fm yaml)) shown) fm body = true ↔ _ :=
      readsAs_fenced (isEol_eolOf text.toList rest) hlines hrest
    rw [← readsAs_cleanText_iff hY fm body, ← hcandidate]
    by_cases hthrows : (d.frontmatter.map Prod.fst).any (dumpsFunction d.frontmatter fm) = true
    · rw [if_pos hthrows]
      obtain ⟨key, hkey, hdumps⟩ := List.any_eq_true.1 hthrows
      refine ⟨nofun, fun h => ?_⟩
      rw [h.1 key hkey] at hdumps
      cases hdumps
    · have hdumps (key : String) (hkey : key ∈ d.frontmatter.map Prod.fst) :
          dumpsFunction d.frontmatter fm key = false := by
        simpa using fun h => hthrows (List.any_eq_true.2 ⟨key, hkey, h⟩)
      rw [if_neg hthrows, and_iff_right hdumps]
      simp only [Except.ok.injEq, exists_eq_left']
      split_ifs with hreads
      · exact ⟨fun _ => .inl hreads, fun _ => hreads⟩
      · exact (or_iff_right hreads).symm

/-- The new value becomes the prototype of the frontmatter, where its level is not refused. -/
def FactEdit.SetsPrototype (edit : FactEdit) (d : Document) : Prop :=
  setProperty edit.key edit.value (edit.cleared d).frontmatter = .error cannotRender ∧
    match edit.requested d.frontmatter with
    | .unset => True
    | .recorded level => ∃ fm, applyClassification edit.key level
        ((edit.cleared d).frontmatter ++ inherits edit.value) = .ok fm
    | .inherited => False

/-- The edit asks for a frontmatter that is no mapping of its own. -/
def FileEdit.SetsPrototype (d : Document) : FileEdit → Prop
  | .write edit => edit.SetsPrototype d
  | _ => False

theorem setProperty_eq_error {e : EditError} (h : setProperty key value fm = .error e) :
    key = "__proto__" ∧ e = cannotRender := by
  unfold setProperty at h
  split_ifs at h with hproto
  split at h <;> cases h
  exact ⟨hproto.1, rfl⟩

theorem applyClassification_ne (key : String) (requested : Yaml) (fm : List (String × Yaml)) :
    applyClassification key requested fm ≠ .error cannotRender := by
  unfold applyClassification
  split
  · split_ifs <;> simp [cannotRender]
  · split_ifs <;> simp [cannotRender]
  · simp [cannotRender]

theorem stated_eq_error (edit : FactEdit) (d : Document) :
    edit.stated d = .error cannotRender ↔
      setProperty edit.key edit.value d.frontmatter = .error cannotRender := by
  unfold FactEdit.stated
  split_ifs with hnotes
  · refine ⟨nofun, fun h => ?_⟩
    rw [hnotes] at h
    exact absurd (setProperty_eq_error h).1 (by decide)
  · exact map_eq_error

theorem assertWritableKey_ne (target : Target) (key : String) :
    assertWritableKey target key ≠ .error cannotRender := by
  unfold assertWritableKey
  split_ifs <;> simp [cannotRender]

theorem assertWritableKey_proto (target : Target) :
    assertWritableKey target "__proto__" = .ok () := by
  unfold assertWritableKey
  rw [if_neg (by decide +kernel), if_neg fun h => absurd h.1 (by decide)]

/-- A fact cannot be rendered just where it sets the prototype. -/
theorem writeFactToVault_eq_error {edit : FactEdit} :
    writeFactToVault target edit d = .error cannotRender ↔ edit.SetsPrototype d := by
  have hstated := stated_eq_error edit (edit.cleared d)
  have hchecked : writeFactToVault target edit d = .error cannotRender ↔
      assertWritableKey target edit.key = .ok () ∧ _ :=
    bind_eq_error.trans ((or_iff_right (assertWritableKey_ne target edit.key)).trans
      ⟨fun ⟨_, ha, h⟩ => ⟨ha, h⟩, fun ⟨ha, h⟩ => ⟨(), ha, h⟩⟩)
  rw [hchecked]
  unfold FactEdit.SetsPrototype
  rw [← hstated]
  have hwritable (h : edit.stated (edit.cleared d) = .error cannotRender) :
      assertWritableKey target edit.key = .ok () := by
    rw [(setProperty_eq_error (hstated.1 h)).1]
    exact assertWritableKey_proto target
  cases edit.requested d.frontmatter with
  | unset =>
    rw [and_true]
    exact ⟨fun h => map_eq_error.1 h.2, fun h => ⟨hwritable h, map_eq_error.2 h⟩⟩
  | inherited => simp [cannotRender]
  | recorded level =>
    dsimp only
    cases hs : edit.stated (edit.cleared d) with
    | ok stated =>
      refine ⟨fun h => ?_, fun h => absurd h.1 nofun⟩
      exact absurd (map_eq_error.1 h.2) (applyClassification_ne _ _ _)
    | error e =>
      constructor
      · rintro ⟨_, h⟩
        rcases bind_eq_error.1 h with h | ⟨fm, hfm, h⟩
        · exact absurd h (applyClassification_ne _ _ _)
        · cases h
          exact ⟨rfl, fm, hfm⟩
      · rintro ⟨h, fm, hfm⟩
        cases h
        exact ⟨hwritable hs, bind_eq_error.2 (.inr ⟨fm, hfm, rfl⟩)⟩

theorem apply_eq_error : edit.apply target d = .error cannotRender ↔ edit.SetsPrototype d := by
  cases edit with
  | write edit => exact writeFactToVault_eq_error
  | remove key => exact ⟨nofun, nofun⟩
  | reclassify key classification =>
    refine ⟨fun h => ?_, nofun⟩
    rcases bind_eq_error.1 h with h | ⟨fm, _, h⟩
    · exact applyClassification_ne _ _ _ h
    · cases h

/-- An edit says what was meant: what it asks for can be asked of a file, and what is written reads
back as that. -/
def Renders (Y : YamlLibrary) (target : Target) (edit : FileEdit) (text : String) (d : Document) :
    Prop :=
  edit.apply target d ≠ .error cannotRender ∧
    ∀ written, edit.apply target d = .ok written →
      ∃ text' d', editVaultFile Y target edit text = .ok text' ∧ parseMarkdown Y text' = .ok d' ∧
        deepEq (.map d'.frontmatter) (.map written.frontmatter) = true ∧
          d'.body = trim written.body

/-- The file is not too large, and one of the two texts of what is asked for reads back. -/
def Renderable (Y : YamlLibrary) (target : Target) (edit : FileEdit) (text : String)
    (d : Document) : Prop :=
  ¬edit.SetsPrototype d ∧
    ∀ written, edit.apply target d = .ok written →
      text.utf8ByteSize ≤ maxVaultFileBytes ∧
        Readable Y text d.frontmatter written.frontmatter

theorem readsAs_iff : readsAs Y text fm body = true ↔
    ∃ d, parseMarkdown Y text = .ok d ∧ deepEq (.map d.frontmatter) (.map fm) = true ∧
      d.body = trim body := by
  unfold readsAs
  cases parseMarkdown Y text with
  | error message => simp
  | ok d => simp

/-- An edit succeeds just where its text is small enough and says what was meant. -/
theorem editVaultFile_eq_ok {text' : String} (hd : parseMarkdown Y text = .ok d)
    (hw : edit.apply target d = .ok written) :
    editVaultFile Y target edit text = .ok text' ↔
      text.utf8ByteSize ≤ maxVaultFileBytes ∧
        render Y text d written.frontmatter written.body = .ok text' ∧
          readsAs Y text' written.frontmatter written.body = true := by
  unfold editVaultFile
  split_ifs with hsize
  · exact ⟨nofun, fun h => absurd h.1 (Nat.not_le.2 hsize)⟩
  · rw [and_iff_right (Nat.not_lt.1 hsize), hd]
    dsimp only
    rw [hw]
    change render Y text d written.frontmatter written.body >>= checkWritten Y written = _ ↔ _
    refine bind_eq_ok.trans ?_
    constructor
    · rintro ⟨t, ht, hchecked⟩
      unfold checkWritten at hchecked
      split at hchecked
      · cases hchecked
      · split_ifs at hchecked with hreads
        cases hchecked
        exact ⟨ht, hreads⟩
    · rintro ⟨ht, hreads⟩
      refine ⟨text', ht, ?_⟩
      obtain ⟨d', hd', _⟩ := readsAs_iff.1 hreads
      unfold checkWritten
      rw [hd', if_pos hreads]

/-- An edit says what was meant just where one of the two texts does. -/
theorem renders_iff (hY : Dumps Y) (hd : parseMarkdown Y text = .ok d) :
    Renders Y target edit text d ↔ Renderable Y target edit text d := by
  refine and_congr (not_congr apply_eq_error) (forall_congr' fun written =>
    imp_congr_right fun hw => ?_)
  rw [← render_readsAs hY hd written.frontmatter written.body]
  constructor
  · rintro ⟨text', d', hedit, hd', hsame⟩
    obtain ⟨hsize, hrender, hreads⟩ := (editVaultFile_eq_ok hd hw).1 hedit
    exact ⟨hsize, text', hrender, hreads⟩
  · rintro ⟨hsize, text', hrender, hreads⟩
    obtain ⟨d', hd', hsame⟩ := readsAs_iff.1 hreads
    exact ⟨text', d', (editVaultFile_eq_ok hd hw).2 ⟨hsize, hrender, hreads⟩, hd', hsame⟩

/-- What the library makes of a role. -/
def sampleYaml : YamlLibrary where
  load text :=
    if text = "role: guest" then .ok (.map [("role", .str "guest")])
    else if text = "role: host" then .ok (.map [("role", .str "host")])
    else if text = "" then .ok .null
    else .error "unexpected end of the stream"
  dump fm :=
    if deepEq (.map fm) (.map [("role", .str "host")]) = true then "role: host\n" else "\x7b\x7d\n"

theorem dashless_of_notMem (h : '-' ∉ cs) : Dashless cs := by
  have hnone (b : List Char) (hb : '-' ∉ b) : dashes? b = none := by
    refine if_neg fun htake => ?_
    have hmem : '-' ∈ b.take 3 := htake ▸ mem_cons_self
    exact hb (mem_of_mem_take hmem)
  exact ⟨hnone cs h, fun a b hcs _ => hnone b fun hc => h (hcs ▸ mem_append_right a hc)⟩

theorem dumps_sample : Dumps sampleYaml where
  ends fm _ := by
    unfold sampleYaml
    dsimp only
    split_ifs
    · exact ⟨"role: host".toList, by decide⟩
    · exact ⟨"\x7b\x7d".toList, by decide⟩
  noReturn fm := by
    unfold sampleYaml
    dsimp only
    split_ifs <;> decide
  dashless fm := by
    unfold sampleYaml
    dsimp only
    split_ifs <;> exact dashless_of_notMem (by decide)

/-- The owner states a fact. -/
def factEdit (key value : String) : FileEdit := .write ⟨key, .str value, none, none, false⟩

theorem sample_renders :
    Renders sampleYaml ⟨"people/al.md", false⟩ (factEdit "role" "host")
      "---\nrole: guest\n---\nMet in Oslo." ⟨[("role", .str "guest")], "Met in Oslo."⟩ := by
  refine (renders_iff dumps_sample rfl).2 ⟨?_, ?_⟩
  · exact fun h => absurd (setProperty_eq_error h.1).1 (by decide)
  · intro written hw
    cases hw
    refine ⟨by decide +kernel, ?_⟩
    have hmatch : matchFrontmatter "---\nrole: guest\n---\nMet in Oslo.".toList =
        some ("role: guest".toList, "Met in Oslo.".toList) := rfl
    unfold Readable
    rw [hmatch]
    exact ⟨by decide, .inl ⟨[("role", .str "host")], rfl, rfl⟩⟩

/-- The notes of a file without frontmatter cannot be corrected. -/
theorem notes_not_rendered :
    parseMarkdown sampleYaml "Met in Oslo." = .ok ⟨[], "Met in Oslo."⟩ ∧
      editVaultFile sampleYaml ⟨"people/al.md", false⟩ (factEdit "notes" "Met in Bergen.")
          "Met in Oslo." = .error cannotRender ∧
        ¬Renders sampleYaml ⟨"people/al.md", false⟩ (factEdit "notes" "Met in Bergen.")
          "Met in Oslo." ⟨[], "Met in Oslo."⟩ := by
  refine ⟨rfl, rfl, fun h => ?_⟩
  obtain ⟨text', _, hedit, _⟩ := h.2 _ rfl
  have hrefused : editVaultFile sampleYaml ⟨"people/al.md", false⟩
      (factEdit "notes" "Met in Bergen.") "Met in Oslo." = .error cannotRender := rfl
  rw [hrefused] at hedit
  cases hedit

end U2os.Server.Vault
