import U2os.Lib.Fallible
import U2os.Server.Packages.Expression

/-!
# Templates of packages

`checkTemplate` and `resolveTemplate` of `packages/expression.js`.  The check finds the expressions of
a text one after the other (`PART`); the resolution first tries whether the text is one expression
and nothing else (`WHOLE`).  What a compiled expression evaluates to, in a scope, is a parameter.
-/

namespace U2os.Server.Packages

open JsText Fallible List

/-- What is before the first `\}\}`. -/
def content : List Char → Option (List Char)
  | [] => none
  | c :: cs => if c = '}' ∧ cs.head? = some '}' then some [] else (content cs).map (c :: ·)

/-- A piece of a text. -/
inductive Piece where
  /-- A character outside of the expressions. -/
  | text (c : Char)
  /-- The source of an expression. -/
  | expr (source : List Char)
deriving DecidableEq

/-- `PART`, where it starts at the first character. -/
def partAt : List Char → Option (List Char)
  | '{' :: '{' :: cs => content cs
  | _ => none

/-- The pieces of a text, of which the first characters belong to a match that is there. -/
def pieces : ℕ → List Char → List Piece
  | _, [] => []
  | skip + 1, _ :: cs => pieces skip cs
  | 0, c :: cs =>
    match partAt (c :: cs) with
    | some source => .expr source :: pieces (source.length + 3) cs
    | none => .text c :: pieces 0 cs

/-- The source of an expression. -/
def Piece.source? : Piece → Option (List Char)
  | .expr source => some source
  | .text _ => none

/-- The character of a text. -/
def Piece.char? : Piece → Option Char
  | .expr _ => none
  | .text c => some c

/-- The groups of `matchAll(PART)`. -/
def parts (s : List Char) : List (List Char) := (pieces 0 s).filterMap Piece.source?

/-- `replace(PART, '')`. -/
def outside (s : List Char) : List Char := (pieces 0 s).filterMap Piece.char?

/-- `\}\}\s*$`. -/
def closes : List Char → Bool
  | '}' :: '}' :: cs => cs.all isSpace
  | _ => false

/-- The group of `WHOLE`, after the braces that open it. -/
def wholeFrom : List Char → Option (List Char)
  | [] => none
  | c :: cs => if closes (c :: cs) then some [] else (wholeFrom cs).map (c :: ·)

/-- The group of `WHOLE`. -/
def whole (s : List Char) : Option (List Char) :=
  match s.dropWhile isSpace with
  | '{' :: '{' :: cs => wholeFrom cs
  | _ => none

/-- There are two opening braces. -/
def hasOpening : List Char → Bool
  | [] => false
  | c :: cs => (c = '{' && cs.head? = some '{') || hasOpening cs

/-- `checkTemplate`, of a text. -/
def checkString (place s : String) : List String :=
  (parts s.toList).filterMap (fun source =>
    (checkExpression (trimChars source)).map fun problem => place ++ ": " ++ problem) ++
  if hasOpening (outside s.toList) then [place ++ ": unclosed \"\x7b\x7b\""] else []

mutual
def checkTemplate (place : String) : Json → List String
  | .str s => checkString place s
  | .arr items => checkItems place 0 items
  | .obj fields => checkFields place fields
  | _ => []
/-- The check of the items of a list, from an index on. -/
def checkItems (place : String) (i : ℕ) : List Json → List String
  | [] => []
  | item :: items =>
    checkTemplate (place ++ "[" ++ toString i ++ "]") item ++ checkItems place (i + 1) items
/-- The check of the entries of a mapping. -/
def checkFields (place : String) : List (String × Json) → List String
  | [] => []
  | field :: fields => checkField place field ++ checkFields place fields
/-- The check of one entry. -/
def checkField (place : String) : String × Json → List String
  | (key, value) => checkTemplate (place ++ "." ++ key) value
end

/-- What is thrown: by the compiler, or by the interpreter. -/
inductive Failure (E : Type) where
  | uncompiled (message : String)
  | failed (e : E)

/-- A resolved template. -/
inductive Resolved (V : Type) where
  /-- What an expression evaluates to. -/
  | value (v : V)
  | text (s : String)
  /-- A value that is no template. -/
  | plain (j : Json)
  | list (items : List (Resolved V))
  | mapping (fields : List (String × Resolved V))

section Resolve

variable {E V : Type}

/-- `evaluate`, with what a compiled expression gives in the scope. -/
def evaluate (run : Node → Except E V) (source : List Char) : Except (Failure E) V :=
  match compile source with
  | .error message => .error (.uncompiled message)
  | .ok node => (run node).mapError .failed

variable {ε : Type} (eval : List Char → Except ε V) (toText : V → String)

/-- `replace(PART, ..)`, of the pieces. -/
def interpolate : List Piece → Except ε String
  | [] => .ok ""
  | .text c :: more => do return String.singleton c ++ (← interpolate more)
  | .expr source :: more => do
    let v ← eval (trimChars source)
    return toText v ++ (← interpolate more)

/-- `resolveTemplate`, of a text. -/
def resolveString (s : String) : Except ε (Resolved V) :=
  match whole s.toList with
  | some group =>
    if content group = none then .value <$> eval (trimChars group)
    else .text <$> interpolate eval toText (pieces 0 s.toList)
  | none => .text <$> interpolate eval toText (pieces 0 s.toList)

mutual
def resolveTemplate : Json → Except ε (Resolved V)
  | .str s => resolveString eval toText s
  | .arr items => .list <$> resolveItems items
  | .obj fields => .mapping <$> resolveFields fields
  | j => .ok (.plain j)
/-- The items of a list. -/
def resolveItems : List Json → Except ε (List (Resolved V))
  | [] => .ok []
  | item :: items => do return (← resolveTemplate item) :: (← resolveItems items)
/-- The entries of a mapping.  Assigning to `__proto__` makes no entry. -/
def resolveFields : List (String × Json) → Except ε (List (String × Resolved V))
  | [] => .ok []
  | field :: fields => do
    let entry ← resolveField field
    let more ← resolveFields fields
    return if entry.1 = "__proto__" then more else entry :: more
/-- One entry. -/
def resolveField : String × Json → Except ε (String × Resolved V)
  | (key, value) => do return (key, ← resolveTemplate value)
end

end Resolve

/-- The expressions of a text that the resolution passes on. -/
def passed (s : String) : List (List Char) :=
  match whole s.toList with
  | some group => if content group = none then [trimChars group]
    else (parts s.toList).map trimChars
  | none => (parts s.toList).map trimChars

mutual
/-- The texts of a template. -/
def texts : Json → List String
  | .str s => [s]
  | .arr items => textsOfItems items
  | .obj fields => textsOfFields fields
  | _ => []
/-- The texts of the items of a list. -/
def textsOfItems : List Json → List String
  | [] => []
  | item :: items => texts item ++ textsOfItems items
/-- The texts of the entries of a mapping. -/
def textsOfFields : List (String × Json) → List String
  | [] => []
  | field :: fields => textsOfField field ++ textsOfFields fields
/-- The texts of one entry. -/
def textsOfField : String × Json → List String
  | (_, value) => texts value
end

section Passed

variable {V ε : Type} (eval : List Char → Except ε V) (toText : V → String)

theorem calls_interpolate (ps : List Piece) :
    Calls eval ((ps.filterMap Piece.source?).map trimChars) (interpolate eval toText ps) := by
  induction ps with
  | nil => exact .pure _
  | cons p ps ih =>
    cases p with
    | text c => exact (Calls.pure c).bind fun _ => ih.map
    | expr source => exact (Calls.call (trimChars source)).bind fun _ => ih.map

theorem calls_resolveString (s : String) :
    Calls eval (passed s) (resolveString eval toText s) := by
  have hparts : Calls eval ((parts s.toList).map trimChars)
      (.text <$> interpolate eval toText (pieces 0 s.toList) : Except ε (Resolved V)) :=
    (calls_interpolate eval toText (pieces 0 s.toList)).map
  rw [passed, resolveString]
  cases whole s.toList with
  | none => exact hparts
  | some group =>
    dsimp only
    split_ifs
    · exact (Calls.call (trimChars group)).map
    · exact hparts

mutual
theorem calls_resolveTemplate : ∀ t : Json,
    Calls eval ((texts t).flatMap passed) (resolveTemplate eval toText t)
  | .str s => by
    rw [texts, resolveTemplate, flatMap_singleton]
    exact calls_resolveString eval toText s
  | .arr items => by
    rw [texts, resolveTemplate]
    exact (calls_resolveItems items).map
  | .obj fields => by
    rw [texts, resolveTemplate]
    exact (calls_resolveFields fields).map
  | .null | .bool _ | .num _ => .pure _
theorem calls_resolveItems : ∀ items : List Json,
    Calls eval ((textsOfItems items).flatMap passed) (resolveItems eval toText items)
  | [] => .pure _
  | item :: items => by
    rw [textsOfItems, resolveItems, flatMap_append]
    exact (calls_resolveTemplate item).bind fun _ => (calls_resolveItems items).map
theorem calls_resolveFields : ∀ fields : List (String × Json),
    Calls eval ((textsOfFields fields).flatMap passed) (resolveFields eval toText fields)
  | [] => .pure _
  | field :: fields => by
    rw [textsOfFields, resolveFields, flatMap_append]
    exact (calls_resolveField field).bind fun _ => (calls_resolveFields fields).map
theorem calls_resolveField : ∀ field : String × Json,
    Calls eval ((textsOfField field).flatMap passed) (resolveField eval toText field)
  | (_, value) => by
    rw [textsOfField, resolveField]
    exact (calls_resolveTemplate value).map
end

end Passed

/-- The source compiles. -/
def Compiles (source : List Char) : Prop := checkExpression source = none

theorem compiles_iff {source : List Char} : Compiles source ↔ ∃ node, compile source = .ok node := by
  rw [Compiles, checkExpression]
  cases compile source <;> simp

theorem compiles_of_checkString {place s : String} (h : checkString place s = []) :
    ∀ source ∈ parts s.toList, Compiles (trimChars source) := by
  intro source hmem
  have hnone := filterMap_eq_nil_iff.1 (append_eq_nil_iff.1 h).1 source hmem
  exact Option.map_eq_none_iff.1 hnone

mutual
theorem compiles_of_checkTemplate : ∀ (t : Json) (place : String), checkTemplate place t = [] →
    ∀ s ∈ texts t, ∀ source ∈ parts s.toList, Compiles (trimChars source)
  | .str s, place, h, s', hs => by
    rw [texts, mem_singleton] at hs
    rw [checkTemplate] at h
    exact hs ▸ compiles_of_checkString h
  | .arr items, place, h, s', hs => by
    rw [texts] at hs
    rw [checkTemplate] at h
    exact compiles_of_checkItems items place 0 h s' hs
  | .obj fields, place, h, s', hs => by
    rw [texts] at hs
    rw [checkTemplate] at h
    exact compiles_of_checkFields fields place h s' hs
  | .null, _, _, s', hs | .bool _, _, _, s', hs | .num _, _, _, s', hs => by
    rw [texts] at hs
    · cases hs
    all_goals nofun
theorem compiles_of_checkItems : ∀ (items : List Json) (place : String) (i : ℕ),
    checkItems place i items = [] →
    ∀ s ∈ textsOfItems items, ∀ source ∈ parts s.toList, Compiles (trimChars source)
  | [], _, _, _, _, hs => by
    rw [textsOfItems] at hs
    cases hs
  | item :: items, place, i, h, s', hs => by
    rw [checkItems] at h
    obtain ⟨hitem, hitems⟩ := append_eq_nil_iff.1 h
    rw [textsOfItems] at hs
    rcases List.mem_append.1 hs with hs | hs
    · exact compiles_of_checkTemplate item _ hitem s' hs
    · exact compiles_of_checkItems items place (i + 1) hitems s' hs
theorem compiles_of_checkFields : ∀ (fields : List (String × Json)) (place : String),
    checkFields place fields = [] →
    ∀ s ∈ textsOfFields fields, ∀ source ∈ parts s.toList, Compiles (trimChars source)
  | [], _, _, _, hs => by
    rw [textsOfFields] at hs
    cases hs
  | field :: fields, place, h, s', hs => by
    rw [checkFields] at h
    obtain ⟨hfield, hfields⟩ := append_eq_nil_iff.1 h
    rw [textsOfFields] at hs
    rcases List.mem_append.1 hs with hs | hs
    · exact compiles_of_checkField field place hfield s' hs
    · exact compiles_of_checkFields fields place hfields s' hs
theorem compiles_of_checkField : ∀ (field : String × Json) (place : String),
    checkField place field = [] →
    ∀ s ∈ textsOfField field, ∀ source ∈ parts s.toList, Compiles (trimChars source)
  | (key, value), place, h, s', hs => by
    rw [checkField] at h
    rw [textsOfField] at hs
    exact compiles_of_checkTemplate value _ h s' hs
end

/-! ### Stretched texts -/

/-- A text that is, but for white space around it, one expression closed by three braces, without
two of them in a row before. -/
def Stretched (s : String) : Prop :=
  ∃ before source after, s.toList = before ++ '{' :: '{' :: (source ++ '}' :: '}' :: '}' :: after) ∧
    (∀ c ∈ before, isSpace c = true) ∧ (∀ c ∈ after, isSpace c = true) ∧
    ¬ ['}', '}'] <:+: source ++ ['}']

section Texts

variable {c : Char} {cs source group before after : List Char} {s : String}

theorem content_eq_none_iff : content cs = none ↔ ¬ ['}', '}'] <:+: cs := by
  induction cs with
  | nil => simp [content]
  | cons c cs ih =>
    rw [infix_cons_iff, content]
    split_ifs with h
    · obtain ⟨rfl, h⟩ := h
      obtain ⟨cs', rfl⟩ := head?_eq_some_iff.1 h
      simp
    · rw [Option.map_eq_none_iff, ih]
      refine ⟨fun hn => not_or.2 ⟨fun hp => h ?_, hn⟩, fun hn => (not_or.1 hn).2⟩
      obtain ⟨more, hmore⟩ := hp
      cases hmore
      exact ⟨rfl, rfl⟩

theorem content_tail (h : content (c :: cs) = none) :
    content cs = none ∧ ¬ (c = '}' ∧ cs.head? = some '}') := by
  rw [content] at h
  split_ifs at h with hc
  exact ⟨Option.map_eq_none_iff.1 h, hc⟩

theorem content_append (h : content source = none) (hb : ¬ EndsInBrace source) :
    content (source ++ '}' :: '}' :: after) = some source := by
  induction source with
  | nil => simp [content]
  | cons c cs ih =>
    obtain ⟨hcs, hc⟩ := content_tail h
    rw [cons_append, content, if_neg, ih hcs (fun he => hb ?_)]
    · rfl
    · cases cs with
      | nil => exact absurd rfl he.ne_nil
      | cons d cs => simpa [EndsInBrace, getLast?_cons_cons] using he
    · rintro ⟨rfl, hd⟩
      cases cs with
      | nil => exact hb rfl
      | cons d cs => exact hc ⟨rfl, hd⟩

theorem closes_iff : closes cs = true ↔
    ∃ after, cs = '}' :: '}' :: after ∧ ∀ c ∈ after, isSpace c = true := by
  constructor
  · intro h
    rw [closes.eq_def] at h
    split at h
    · next after => exact ⟨after, rfl, all_eq_true.1 h⟩
    · cases h
  · rintro ⟨after, rfl, h⟩
    exact all_eq_true.2 h

theorem wholeFrom_eq_some (h : wholeFrom cs = some group) :
    ∃ after, cs = group ++ '}' :: '}' :: after ∧ ∀ c ∈ after, isSpace c = true := by
  induction cs generalizing group with
  | nil => cases h
  | cons c cs ih =>
    rw [wholeFrom] at h
    split_ifs at h with hc
    · cases h
      exact closes_iff.1 hc
    · obtain ⟨more, hmore, rfl⟩ := Option.map_eq_some_iff.1 h
      obtain ⟨after, rfl, hafter⟩ := ih hmore
      exact ⟨after, rfl, hafter⟩

theorem whole_eq_some (h : whole cs = some group) :
    ∃ before after, cs = before ++ '{' :: '{' :: (group ++ '}' :: '}' :: after) ∧
      (∀ c ∈ before, isSpace c = true) ∧ ∀ c ∈ after, isSpace c = true := by
  rw [whole] at h
  split at h
  · next more heq =>
    obtain ⟨after, rfl, hafter⟩ := wholeFrom_eq_some h
    refine ⟨cs.takeWhile isSpace, after, ?_, fun c hc => all_eq_true.1 all_takeWhile c hc, hafter⟩
    rw [← heq, takeWhile_append_dropWhile]
  · cases h

theorem wholeFrom_append (h : content group = none) (hafter : ∀ c ∈ after, isSpace c = true) :
    wholeFrom (group ++ '}' :: '}' :: after) = some group := by
  induction group with
  | nil => rw [nil_append, wholeFrom, if_pos (closes_iff.2 ⟨after, rfl, hafter⟩)]
  | cons c cs ih =>
    obtain ⟨hcs, hc⟩ := content_tail h
    rw [cons_append, wholeFrom, if_neg, ih hcs]
    · rfl
    · -- The braces at the end do not close the expression before: a brace is no white space.
      intro hcl
      obtain ⟨more, heq, hblank⟩ := closes_iff.1 hcl
      cases cs with
      | nil =>
        cases heq
        exact absurd (hblank '}' mem_cons_self) (by decide)
      | cons d cs =>
        cases heq
        exact hc ⟨rfl, rfl⟩

theorem whole_append (h : content group = none) (hbefore : ∀ c ∈ before, isSpace c = true)
    (hafter : ∀ c ∈ after, isSpace c = true) :
    whole (before ++ '{' :: '{' :: (group ++ '}' :: '}' :: after)) = some group := by
  have hdrop : (before ++ '{' :: '{' :: (group ++ '}' :: '}' :: after)).dropWhile isSpace =
      '{' :: '{' :: (group ++ '}' :: '}' :: after) := by
    rw [dropWhile_append_of_pos hbefore]
    exact dropWhile_cons_of_neg (by decide)
  rw [whole, hdrop]
  exact wholeFrom_append h hafter

theorem mem_parts (hbefore : ∀ c ∈ before, isSpace c = true) (h : content cs = some source) :
    source ∈ parts (before ++ '{' :: '{' :: cs) := by
  induction before with
  | nil =>
    rw [parts, nil_append, pieces, partAt, h]
    exact mem_cons_self
  | cons c before ih =>
    have hc : partAt (c :: (before ++ '{' :: '{' :: cs)) = none := by
      rw [partAt.eq_def]
      split
      · next heq =>
        rw [(cons_eq_cons.1 heq).1] at hbefore
        exact absurd (hbefore '{' mem_cons_self) (by decide)
      · rfl
    rw [parts, cons_append, pieces, hc]
    exact ih fun c' hc' => hbefore c' (mem_cons_of_mem c hc')

theorem EndsInBrace.trimChars (h : EndsInBrace cs) : EndsInBrace (trimChars cs) := by
  have hd : EndsInBrace (cs.dropWhile isSpace) := h.dropWhile (by decide)
  obtain ⟨more, hmore⟩ := getLast?_eq_some_iff.1 hd
  rw [JsText.trimChars, hmore, reverse_append, reverse_singleton, singleton_append,
    dropWhile_cons_of_neg (by decide), reverse_cons, reverse_reverse]
  exact getLast?_concat

/-- A text is stretched just where its whole is one group that has no content of its own. -/
theorem stretched_iff : Stretched s ↔
    ∃ group, whole s.toList = some group ∧ content group = none ∧ EndsInBrace group := by
  constructor
  · rintro ⟨before, source, after, hs, hbefore, hafter, hplain⟩
    have hnone : content (source ++ ['}']) = none := content_eq_none_iff.2 hplain
    refine ⟨source ++ ['}'], ?_, hnone, getLast?_concat⟩
    rw [hs, ← whole_append hnone hbefore hafter, append_assoc]
    rfl
  · rintro ⟨group, hw, hnone, hb⟩
    obtain ⟨before, after, hs, hbefore, hafter⟩ := whole_eq_some hw
    obtain ⟨source, rfl⟩ := getLast?_eq_some_iff.1 hb
    refine ⟨before, source, after, ?_, hbefore, hafter, content_eq_none_iff.1 hnone⟩
    rw [hs, append_assoc]
    rfl

instance : DecidablePred Stretched := fun s =>
  decidable_of_iff ((whole s.toList).any fun group =>
    (content group).isNone && group.getLast? == some '}') <| by
      rw [stretched_iff, Option.any_eq_true]
      simp [EndsInBrace]

theorem passed_subset_parts (hs : ¬ Stretched s) :
    ∀ source ∈ passed s, source ∈ (parts s.toList).map trimChars := by
  intro source hmem
  rw [passed] at hmem
  cases hw : whole s.toList with
  | none =>
    rw [hw] at hmem
    exact hmem
  | some group =>
    rw [hw] at hmem
    dsimp only at hmem
    split_ifs at hmem with hnone
    · cases mem_singleton.1 hmem
      have hb : ¬ EndsInBrace group := fun hb => hs (stretched_iff.2 ⟨group, hw, hnone, hb⟩)
      obtain ⟨before, after, hlist, hbefore, -⟩ := whole_eq_some hw
      rw [hlist]
      exact mem_map_of_mem (mem_parts hbefore (content_append hnone hb))
    · exact hmem

theorem Stretched.uncompiled (hs : Stretched s) : ∃ source ∈ passed s, ¬ Compiles source := by
  obtain ⟨group, hw, hnone, hb⟩ := stretched_iff.1 hs
  refine ⟨JsText.trimChars group, ?_, ?_⟩
  · rw [passed, hw]
    dsimp only
    rw [if_pos hnone]
    exact mem_singleton_self _
  · obtain ⟨message, hm⟩ := compile_of_endsInBrace hb.trimChars
    rw [Compiles, checkExpression, hm]
    exact nofun

end Texts

section Agreement

variable {E V : Type} {place : String} {t : Json}

/-- A checked template is resolved with compiled expressions only, whatever these evaluate to, just
where no text of it is stretched. -/
theorem resolves_compiled_iff [Inhabited V] (toText : V → String)
    (h : checkTemplate place t = []) :
    (∀ (run : Node → Except E V) (message : String),
      resolveTemplate (evaluate run) toText t ≠ .error (.uncompiled message)) ↔
    ∀ s ∈ texts t, ¬ Stretched s := by
  constructor
  · intro hall s hmem hs
    -- With expressions that never fail, the source that does not compile is what fails.
    let run : Node → Except E V := fun _ => .ok default
    have hcalls := calls_resolveTemplate (evaluate run) toText t
    cases hr : resolveTemplate (evaluate run) toText t with
    | ok r =>
      obtain ⟨source, hsource, hn⟩ := hs.uncompiled
      obtain ⟨v, hv⟩ := hcalls.of_ok r hr source (mem_flatMap.2 ⟨s, hmem, hsource⟩)
      refine hn (compiles_iff.2 ?_)
      rw [evaluate] at hv
      cases hc : compile source with
      | error message => rw [hc] at hv; cases hv
      | ok node => exact ⟨node, rfl⟩
    | error e =>
      obtain ⟨source, -, he⟩ := hcalls.of_error e hr
      rw [evaluate] at he
      cases hc : compile source with
      | error message =>
        rw [hc] at he
        cases he
        exact hall run message hr
      | ok node => rw [hc] at he; cases he
  · intro hall run message hr
    obtain ⟨source, hsource, he⟩ :=
      (calls_resolveTemplate (evaluate run) toText t).of_error _ hr
    obtain ⟨s, hs, hsource⟩ := mem_flatMap.1 hsource
    obtain ⟨part, hpart, rfl⟩ := mem_map.1 (passed_subset_parts (hall s hs) source hsource)
    obtain ⟨node, hnode⟩ := compiles_iff.1 (compiles_of_checkTemplate t place h s hs part hpart)
    rw [evaluate, hnode] at he
    dsimp only at he
    cases hn : run node <;> rw [hn] at he <;> cases he

end Agreement

/-- A step of a workflow, as packages write them. -/
def sampleTemplate : Json :=
  .obj [("to", .str " \x7b\x7b item.owner \x7d\x7d "),
    ("lines", .arr [.str "\x7b\x7b len(item.tags) \x7d\x7d of \x7b\x7b now() \x7d\x7d", .num "3"])]

theorem sampleTemplate_resolves :
    checkTemplate "value" sampleTemplate = [] ∧
    ∀ (run : Node → Except String String) (message : String),
      resolveTemplate (evaluate run) id sampleTemplate ≠ .error (.uncompiled message) :=
  have hcheck : checkTemplate "value" sampleTemplate = [] := by decide +kernel
  ⟨hcheck, (resolves_compiled_iff id hcheck).2 (by decide +kernel)⟩

/-- One brace too many: the check compiles `a`, the resolution `a` and a brace. -/
theorem stretched_template_fails :
    ¬ ∀ (t : Json), checkTemplate "value" t = [] →
      ∀ (run : Node → Except String String) (message : String),
        resolveTemplate (evaluate run) id t ≠ .error (.uncompiled message) := by
  intro hall
  have hcheck : checkTemplate "value" (.str "\x7b\x7b a \x7d\x7d\x7d") = [] := by decide +kernel
  have hfails : (evaluate (fun _ => .ok "") "a \x7d".toList : Except (Failure String) String) =
      .error (.uncompiled "Unexpected character \"\x7d\"") := by rfl
  exact hall _ hcheck (fun _ => .ok "") _ (congrArg (Resolved.value <$> ·) hfails)

end U2os.Server.Packages
