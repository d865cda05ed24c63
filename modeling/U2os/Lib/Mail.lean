import Mathlib.Data.List.SplitBy
import U2os.Lib.Base64
import U2os.Lib.Trimming
import U2os.Lib.Utf8

/-!
# Reading a message

A message of lines as a reader takes it: a header of fields, unfolded, and a body, which may have
parts.  Mailboxes are separated by commas outside of quotes, comments and brackets, encoded words of
a text are decoded, and so is a body in base64.

What an encoded word in another encoding or another character set says is a parameter.

## Main results

* `readWords_of_plain`, `readWords_encodeWord` : texts without encoded words, and one encoded word.
-/

namespace U2os.Mail

open List

/-- Characters. -/
abbrev Text := List Char

/-- Characters are checked one after another. -/
instance (priority := high) {p : Char → Prop} [DecidablePred p] (s : Text) :
    Decidable (∀ c ∈ s, p c) := List.decidableBAll p s

/-- What ends a line. -/
def crlf : Text := ['\r', '\n']

/-- The lines of a text. -/
def lines : Text → List Text
  | [] => [[]]
  | '\r' :: '\n' :: cs => [] :: lines cs
  | c :: cs => if c = '\r' ∨ c = '\n' then [] :: lines cs else (lines cs).modifyHead (c :: ·)

/-- Lines as one text. -/
def joinLines (ls : List Text) : Text := crlf.intercalate ls

/-- The text is one line. -/
def Unbroken (l : Text) : Prop := ∀ c ∈ l, ¬(c = '\r' ∨ c = '\n')

theorem lines_ne_nil (cs : Text) : lines cs ≠ [] := by
  fun_induction lines cs with
  | case1 => exact cons_ne_nil _ _
  | case2 => exact cons_ne_nil _ _
  | case3 => exact cons_ne_nil _ _
  | case4 c cs _ _ ih => simpa using ih

theorem modifyHead_append {α : Type*} {f : α → α} {xs ys : List α} (h : xs ≠ []) :
    (xs ++ ys).modifyHead f = xs.modifyHead f ++ ys := by
  cases xs with
  | nil => exact absurd rfl h
  | cons x xs => rfl

theorem lines_append_crlf (a b : Text) : lines (a ++ (crlf ++ b)) = lines a ++ lines b := by
  fun_induction lines a with
  | case1 => rfl
  | case2 cs ih => rw [cons_append, cons_append, lines, ih]; rfl
  | case3 c cs hnot hbreak ih =>
    rw [cons_append, lines, if_pos hbreak, ih]
    · rfl
    · rintro cs' rfl happ
      cases cs with
      | nil => cases happ
      | cons d cs =>
        rw [cons_append, List.cons.injEq] at happ
        exact hnot cs rfl (by rw [happ.1])
  | case4 c cs hnot hbreak ih =>
    rw [cons_append, lines, if_neg hbreak, ih, modifyHead_append (lines_ne_nil cs)]
    rintro cs' rfl
    exact absurd (.inl rfl) hbreak

theorem lines_cons {c : Char} (h : ¬(c = '\r' ∨ c = '\n')) (cs : Text) :
    lines (c :: cs) = (lines cs).modifyHead (c :: ·) := by
  rw [lines, if_neg h]
  rintro cs' rfl
  exact absurd (.inl rfl) h

theorem flatten_lines_cons {c : Char} (h : ¬(c = '\r' ∨ c = '\n')) (cs : Text) :
    (lines (c :: cs)).flatten = c :: (lines cs).flatten := by
  obtain ⟨l, ls, hl⟩ := exists_cons_of_ne_nil (lines_ne_nil cs)
  rw [lines_cons h, hl]
  rfl

theorem lines_unbroken {l : Text} (h : Unbroken l) : lines l = [l] := by
  induction l with
  | nil => rfl
  | cons c cs ih =>
    rw [lines_cons (h c mem_cons_self), ih fun d hd => h d (mem_cons_of_mem _ hd)]
    rfl

theorem lines_joinLines {ls : List Text} (h : ls ≠ []) :
    lines (joinLines ls) = ls.flatMap lines := by
  induction ls with
  | nil => exact absurd rfl h
  | cons l ls ih =>
    cases ls with
    | nil => simp [joinLines]
    | cons l' ls =>
      have hjoin : joinLines (l :: l' :: ls) = l ++ (crlf ++ joinLines (l' :: ls)) := by
        simp [joinLines, intercalate_cons_cons]
      rw [hjoin, lines_append_crlf, ih (cons_ne_nil _ _), ← flatMap_cons]

theorem mapM_eq_some {α β : Type*} {f : α → Option β} {g : α → β} {xs : List α}
    (h : ∀ x ∈ xs, f x = some (g x)) : xs.mapM f = some (xs.map g) := by
  induction xs with
  | nil => rfl
  | cons x xs ih =>
    rw [forall_mem_cons] at h
    rw [mapM_cons, h.1, ih h.2]
    rfl

/-! ### Headers -/

/-- White space within a line. -/
def isBlank (c : Char) : Bool := c = ' ' || c = '\t'

/-- A text without white space at its ends. -/
def trim (cs : Text) : Text := Trimming.trimBy isBlank cs

/-- A text in small letters. -/
def lower (cs : Text) : Text := cs.map Char.toLower

/-- The line goes on with the one before it. -/
def isContinuation (l : Text) : Bool := l.head?.any isBlank

/-- The lines of a header, each with those that go on with it. -/
def unfoldLines : List Text → List Text
  | [] => []
  | l :: ls =>
    match unfoldLines ls with
    | [] => [l]
    | next :: rest => if isContinuation next then (l ++ next) :: rest else l :: next :: rest

/-- A value without the space before it. -/
def dropSpace : Text → Text
  | ' ' :: cs => cs
  | cs => cs

/-- A field: a name without white space, a colon and a value. -/
def field? (l : Text) : Option (Text × Text) :=
  let name := l.takeWhile (· ≠ ':')
  match l.dropWhile (· ≠ ':') with
  | [] => none
  | _ :: value =>
    if name ≠ [] ∧ ∀ c ∈ name, 33 ≤ c.toNat ∧ c.toNat ≤ 126 then some (name, dropSpace value)
    else none

/-- A header and the lines of a body. -/
structure Entity where
  fields : List (Text × Text)
  body : List Text

/-- The header up to the first empty line, and the body after it. -/
def entity? (ls : List Text) : Option Entity :=
  ((unfoldLines (ls.takeWhile (· ≠ []))).mapM field?).map fun fields =>
    ⟨fields, (ls.dropWhile (· ≠ [])).drop 1⟩

/-- The value of the first field of a name. -/
def Entity.field? (e : Entity) (name : String) : Option Text :=
  (e.fields.find? fun f => lower f.1 = name.toList).map Prod.snd

variable {fields : List (Text × Text)}

theorem Entity.field?_of_ne {n v : Text} {body : List Text} {name : String}
    (h : lower n ≠ name.toList) :
    Entity.field? ⟨(n, v) :: fields, body⟩ name = Entity.field? ⟨fields, body⟩ name := by
  rw [Entity.field?, find?_cons_of_neg (by simpa using h), Entity.field?]

theorem Entity.field?_of_eq {n v : Text} {body : List Text} {name : String}
    (h : lower n = name.toList) :
    Entity.field? ⟨(n, v) :: fields, body⟩ name = some v := by
  rw [Entity.field?, find?_cons_of_pos (by simpa using h)]
  rfl

def fieldLine (name value : Text) : Text := name ++ (':' :: ' ' :: value)

/-- The text is the name of a field. -/
def IsName (name : Text) : Prop :=
  name ≠ [] ∧ ∀ c ∈ name, 33 ≤ c.toNat ∧ c.toNat ≤ 126 ∧ c ≠ ':'

instance (name : Text) : Decidable (IsName name) := inferInstanceAs (Decidable (_ ∧ _))

theorem IsName.unbroken {name : Text} (h : IsName name) : Unbroken name := by
  rintro c hc (rfl | rfl)
  · exact absurd (h.2 _ hc).1 (by decide)
  · exact absurd (h.2 _ hc).1 (by decide)

theorem unbroken_fieldLine {name value : Text} (hn : IsName name) (hv : Unbroken value) :
    Unbroken (fieldLine name value) := by
  intro c hc
  rcases List.mem_append.1 hc with hc | hc
  · exact hn.unbroken c hc
  simp only [mem_cons] at hc
  obtain rfl | rfl | hc := hc
  · decide
  · decide
  · exact hv c hc

theorem field?_fieldLine {name value : Text} (h : IsName name) :
    field? (fieldLine name value) = some (name, value) := by
  have hcolon : ∀ c ∈ name, decide (c ≠ ':') = true := fun c hc => by simpa using (h.2 c hc).2.2
  have htake : (fieldLine name value).takeWhile (· ≠ ':') = name := by
    rw [fieldLine, takeWhile_append_of_pos hcolon]
    simp
  have hdrop : (fieldLine name value).dropWhile (· ≠ ':') = ':' :: ' ' :: value := by
    rw [fieldLine, dropWhile_append_of_pos hcolon]
    simp
  unfold field?
  dsimp only
  rw [htake, hdrop]
  exact if_pos ⟨h.1, fun c hc => ⟨(h.2 c hc).1, (h.2 c hc).2.1⟩⟩

theorem fieldLine_ne_nil {name value : Text} : fieldLine name value ≠ [] := by
  simp [fieldLine]

theorem isContinuation_fieldLine {name value : Text} (h : IsName name) :
    isContinuation (fieldLine name value) = false := by
  obtain ⟨c, cs, rfl⟩ := exists_cons_of_ne_nil h.1
  have hc := (h.2 c mem_cons_self).1
  have hblank : isBlank c = false := by
    rw [isBlank, Bool.or_eq_false_iff, decide_eq_false_iff_not, decide_eq_false_iff_not]
    constructor <;>
    · rintro rfl
      exact absurd hc (by decide)
  simp [isContinuation, fieldLine, hblank]

theorem unfoldLines_of_not_continuation {ls : List Text}
    (h : ∀ l ∈ ls, isContinuation l = false) : unfoldLines ls = ls := by
  induction ls with
  | nil => rfl
  | cons l ls ih =>
    rw [forall_mem_cons] at h
    rw [unfoldLines, ih h.2]
    cases ls with
    | nil => rfl
    | cons next rest => simp [h.2 next mem_cons_self]

/-- The lines of a header and a body. -/
def Entity.toLines (e : Entity) : List Text :=
  e.fields.map (fun f => fieldLine f.1 f.2) ++ [] :: e.body

/-- The fields have names. -/
def Entity.Named (e : Entity) : Prop := ∀ f ∈ e.fields, IsName f.1

theorem entity?_toLines {e : Entity} (h : e.Named) : entity? e.toLines = some e := by
  have hne : ∀ l ∈ e.fields.map fun f => fieldLine f.1 f.2, decide (l ≠ []) = true := by
    intro l hl
    obtain ⟨f, -, rfl⟩ := mem_map.1 hl
    simpa using fieldLine_ne_nil
  have hfold : ∀ l ∈ e.fields.map fun f => fieldLine f.1 f.2, isContinuation l = false := by
    intro l hl
    obtain ⟨f, hf, rfl⟩ := mem_map.1 hl
    exact isContinuation_fieldLine (h f hf)
  have hfields : (e.fields.map fun f => fieldLine f.1 f.2).mapM Mail.field? = some e.fields := by
    rw [mapM_map]
    exact (mapM_eq_some fun f hf => field?_fieldLine (h f hf)).trans (congrArg some (map_id _))
  unfold entity? Entity.toLines
  rw [takeWhile_append_of_pos hne, dropWhile_append_of_pos hne]
  simp [unfoldLines_of_not_continuation hfold, hfields]

/-- What protects the characters of a structured value: a quoted string, comments, angle brackets or
a literal in square brackets. -/
structure Lex where
  quoted : Bool := false
  escaped : Bool := false
  comments : ℕ := 0
  angle : Bool := false
  literal : Bool := false
deriving DecidableEq

/-- One more character. -/
def Lex.step (s : Lex) (c : Char) : Lex :=
  if s.escaped then { s with escaped := false }
  else if s.quoted then
    if c = '\\' then { s with escaped := true } else { s with quoted := c ≠ '"' }
  else if s.comments ≠ 0 then
    if c = '\\' then { s with escaped := true }
    else if c = '(' then { s with comments := s.comments + 1 }
    else if c = ')' then { s with comments := s.comments - 1 }
    else s
  else
    match c with
    | '"' => { s with quoted := true }
    | '(' => { s with comments := 1 }
    | '<' => { s with angle := true }
    | '>' => { s with angle := false }
    | '[' => { s with literal := true }
    | ']' => { s with literal := false }
    | _ => s

/-- What protects what follows a text, if no separator of it is unprotected. -/
def passes (isSep : Char → Bool) (s : Lex) : Text → Option Lex
  | [] => some s
  | c :: cs => if s = {} ∧ isSep c = true then none else passes isSep (s.step c) cs

/-- The pieces of a value, each with the separator that ends it; none if something is left open. -/
def pieces (isSep : Char → Bool) (s : Lex) : Text → Option (List (Text × Option Char))
  | [] => if s = {} then some [([], none)] else none
  | c :: cs =>
    if s = {} ∧ isSep c = true then (pieces isSep {} cs).map (([], some c) :: ·)
    else (pieces isSep (s.step c) cs).map (List.modifyHead (Prod.map (c :: ·) id))

section

variable {isSep : Char → Bool} {s s' : Lex} {a b : Text} {c : Char}

theorem passes_append (h : passes isSep s a = some s') :
    passes isSep s (a ++ b) = passes isSep s' b := by
  induction a generalizing s with
  | nil => rw [nil_append, Option.some.inj h]
  | cons c a ih =>
    rw [passes] at h
    split_ifs at h with hsep
    rw [cons_append, passes, if_neg hsep, ih h]

theorem pieces_of_passes (h : passes isSep s a = some s') :
    pieces isSep s (a ++ b) =
      (pieces isSep s' b).map (List.modifyHead (Prod.map (a ++ ·) id)) := by
  induction a generalizing s with
  | nil =>
    obtain rfl := Option.some.inj h
    rw [nil_append]
    cases pieces isSep s b with
    | none => rfl
    | some ps => cases ps <;> rfl
  | cons c a ih =>
    rw [passes] at h
    split_ifs at h with hsep
    rw [cons_append, pieces, if_neg hsep, ih h, Option.map_map]
    cases pieces isSep s' b with
    | none => rfl
    | some ps => cases ps <;> rfl

theorem pieces_single (h : passes isSep {} a = some {}) :
    pieces isSep {} a = some [(a, none)] := by
  have happ := pieces_of_passes (b := []) h
  rw [append_nil] at happ
  simpa [pieces] using happ

theorem pieces_append (h : passes isSep {} a = some {}) (hc : isSep c = true) :
    pieces isSep {} (a ++ c :: b) = (pieces isSep {} b).map ((a, some c) :: ·) := by
  rw [pieces_of_passes h, pieces, if_pos ⟨rfl, hc⟩, Option.map_map]
  cases pieces isSep {} b with
  | none => rfl
  | some ps => simp

theorem passes_plain (h : ∀ c ∈ a, isSep c = false ∧ Lex.step {} c = {}) :
    passes isSep {} a = some {} := by
  induction a with
  | nil => rfl
  | cons c a ih =>
    rw [forall_mem_cons] at h
    rw [passes, if_neg (by simp [h.1.1]), h.1.2, ih h.2]

theorem passes_quoted (h : ∀ c ∈ a, c ≠ '"' ∧ c ≠ '\\') :
    passes isSep { quoted := true } (a ++ ['"']) = some {} := by
  induction a with
  | nil => rfl
  | cons c a ih =>
    rw [forall_mem_cons] at h
    have hstep : Lex.step { quoted := true } c = { quoted := true } := by
      simp [Lex.step, h.1.1, h.1.2]
    rw [cons_append, passes, if_neg (by simp), hstep, ih h.2]

end

/-- What separates mailboxes, and begins and ends a group of them. -/
def isAddressSeparator (c : Char) : Bool := c = ',' || c = ';' || c = ':'

/-- The mailboxes of a value: its pieces but for the names of groups and what is empty. -/
def mailboxes (value : Text) : Option (List Text) :=
  (pieces isAddressSeparator {} value).map fun ps =>
    ((ps.filter (·.2 ≠ some ':')).map fun p => trim p.1).filter (· ≠ [])

/-- By itself, the text is one mailbox: no separator stands unprotected, nothing is left open and
there is more than white space. -/
def IsMailbox (r : Text) : Prop :=
  passes isAddressSeparator {} r = some {} ∧ trim r ≠ []

instance (r : Text) : Decidable (IsMailbox r) := inferInstanceAs (Decidable (_ ∧ _))

theorem mailboxes_single {r : Text} (h : IsMailbox r) : mailboxes r = some [trim r] := by
  rw [mailboxes, pieces_single h.1]
  simp [h.2]

theorem mailboxes_append {r rest : Text} (h : IsMailbox r) :
    mailboxes (r ++ ',' :: rest) = (mailboxes rest).map (trim r :: ·) := by
  rw [mailboxes, pieces_append h.1 rfl, mailboxes, Option.map_map, Option.map_map]
  congr 1
  funext ps
  simp [h.2]

theorem trim_blank_cons (r : Text) : trim (' ' :: r) = trim r := rfl

theorem mailboxes_blank_cons (value : Text) : mailboxes (' ' :: value) = mailboxes value := by
  rw [mailboxes, pieces, if_neg (by decide), mailboxes, Option.map_map]
  change Option.map _ (pieces isAddressSeparator {} value) = _
  congr 1
  funext ps
  cases ps with
  | nil => rfl
  | cons p ps =>
    by_cases hgroup : p.2 = some ':' <;> simp [hgroup, trim_blank_cons]

theorem mailboxes_join {rs : List Text} (hne : rs ≠ []) (h : ∀ r ∈ rs, IsMailbox r) :
    mailboxes ([',', ' '].intercalate rs) = some (rs.map trim) := by
  induction rs with
  | nil => exact absurd rfl hne
  | cons r rs ih =>
    rw [forall_mem_cons] at h
    cases rs with
    | nil => simpa using mailboxes_single h.1
    | cons r' rs =>
      have hjoin : [',', ' '].intercalate (r :: r' :: rs) =
          r ++ ',' :: (' ' :: [',', ' '].intercalate (r' :: rs)) := by
        simp [intercalate_cons_cons]
      rw [hjoin, mailboxes_append h.1, mailboxes_blank_cons, ih (cons_ne_nil _ _) h.2]
      rfl

/-! ### Encoded words -/

section

variable (other : Text → Text → Text → Option Text)

/-- What an encoded word says: a character set, an encoding and a text between question marks. -/
def encodedWord? (w : Text) : Option Text :=
  match w.splitOn '?' with
  | [['='], charset, encoding, text, ['=']] =>
    if lower charset = ['u', 't', 'f', '-', '8'] ∧ lower encoding = ['b'] then
      Utf8.decode (Base64.decode .standard text)
    else other charset encoding text
  | _ => none

/-- The text has the form of an encoded word. -/
def isEncodedWord (w : Text) : Bool :=
  match w.splitOn '?' with
  | [['='], _, _, _, ['=']] => true
  | _ => false

/-- Runs of white space and of other characters. -/
def runs (value : Text) : List Text := value.splitBy fun c d => isBlank c == isBlank d

/-- A text of runs; white space between two encoded words is none. -/
def readRuns : Bool → List Text → Text
  | _, [] => []
  | afterWord, w :: ws =>
    match encodedWord? other w with
    | some text => text ++ readRuns true ws
    | none =>
      if (afterWord && w.all isBlank && ws.head?.any fun w => (encodedWord? other w).isSome) = true
      then readRuns true ws
      else w ++ readRuns false ws

/-- A text with encoded words. -/
def readWords (value : Text) : Text := readRuns other false (runs value)

/-- No word of the text has the form of an encoded word. -/
def PlainWords (value : Text) : Prop := ∀ w ∈ runs value, isEncodedWord w = false

instance (value : Text) : Decidable (PlainWords value) :=
  inferInstanceAs (Decidable (∀ w ∈ runs value, isEncodedWord w = false))

variable {other}

theorem encodedWord?_of_plain {w : Text} (h : isEncodedWord w = false) :
    encodedWord? other w = none := by
  unfold isEncodedWord at h
  unfold encodedWord?
  split at h
  · cases h
  · rfl

theorem readRuns_of_plain {ws : List Text} (h : ∀ w ∈ ws, isEncodedWord w = false) :
    readRuns other false ws = ws.flatten := by
  induction ws with
  | nil => rfl
  | cons w ws ih =>
    rw [forall_mem_cons] at h
    rw [readRuns, encodedWord?_of_plain h.1]
    simp [ih h.2]

theorem readWords_of_plain {value : Text} (h : PlainWords value) :
    readWords other value = value := by
  rw [readWords, readRuns_of_plain h, runs, flatten_splitBy]

/-- An encoded word of a text. -/
def encodeWord (cs : Text) : Text :=
  ['=', '?', 'U', 'T', 'F', '-', '8', '?', 'B', '?'] ++
    (Base64.encodePadded (Utf8.bytes cs) ++ ['?', '='])

theorem runs_of_not_blank {w : Text} (hne : w ≠ []) (h : ∀ c ∈ w, isBlank c = false) :
    runs w = [w] := by
  refine splitBy_of_isChain hne (List.Pairwise.isChain ?_)
  exact pairwise_of_forall_mem_list fun c hc d hd => by rw [h c hc, h d hd]; rfl

theorem encodedWord?_encodeWord (cs : Text) : encodedWord? other (encodeWord cs) = some cs := by
  have hmark : '?' ∉ Base64.encodePadded (Utf8.bytes cs) := fun h =>
    Base64.forall_encodePadded (p := (· ≠ '?')) (by decide) _ h rfl
  have hsplit : (encodeWord cs).splitOn '?' =
      [['='], ['U', 'T', 'F', '-', '8'], ['B'], Base64.encodePadded (Utf8.bytes cs), ['=']] := by
    have happ : encodeWord cs = ['='] ++ '?' :: (['U', 'T', 'F', '-', '8'] ++ '?' :: (['B'] ++
        '?' :: (Base64.encodePadded (Utf8.bytes cs) ++ '?' :: ['=']))) := rfl
    rw [happ, splitOn_append_cons_self_of_not_mem (by decide),
      splitOn_append_cons_self_of_not_mem (by decide),
      splitOn_append_cons_self_of_not_mem (by decide),
      splitOn_append_cons_self_of_not_mem hmark, splitOn_eq_singleton (by decide)]
  rw [encodedWord?, hsplit]
  exact (if_pos (by decide)).trans (by simp)

theorem visible_encodeWord (cs : Text) : ∀ c ∈ encodeWord cs, 33 ≤ c.toNat := by
  intro c hc
  rcases List.mem_append.1 hc with hc | hc
  · exact (by decide : ∀ c ∈ ['=', '?', 'U', 'T', 'F', '-', '8', '?', 'B', '?'],
      33 ≤ c.toNat) c hc
  rcases List.mem_append.1 hc with hc | hc
  · exact Base64.forall_encodePadded (p := (33 ≤ ·.toNat)) (by decide) c hc
  · exact (by decide : ∀ c ∈ ['?', '='], 33 ≤ c.toNat) c hc

theorem unbroken_encodeWord (cs : Text) : Unbroken (encodeWord cs) := by
  rintro c hc (rfl | rfl)
  · exact absurd (visible_encodeWord cs _ hc) (by decide)
  · exact absurd (visible_encodeWord cs _ hc) (by decide)

theorem readWords_encodeWord (cs : Text) : readWords other (encodeWord cs) = cs := by
  have hblank : ∀ c ∈ encodeWord cs, isBlank c = false := by
    intro c hc
    rw [isBlank, Bool.or_eq_false_iff, decide_eq_false_iff_not, decide_eq_false_iff_not]
    constructor <;>
    · rintro rfl
      exact absurd (visible_encodeWord cs _ hc) (by decide)
  have hruns : runs (encodeWord cs) = [encodeWord cs] :=
    runs_of_not_blank (cons_ne_nil _ _) hblank
  rw [readWords, hruns, readRuns, encodedWord?_encodeWord]
  simp [readRuns]

end

/-! ### Parameters of a value -/

/-- A quoted text up to its end. -/
def unescape : Text → Text
  | [] => []
  | '\\' :: c :: cs => c :: unescape cs
  | c :: cs => if c = '"' then [] else c :: unescape cs

/-- The value of a parameter. -/
def unquote : Text → Text
  | '"' :: cs => unescape cs
  | cs => cs

/-- The value that a piece sets a name to. -/
def assigned? (name : Text) (piece : Text) : Option Text :=
  if lower ((trim piece).takeWhile (· ≠ '=')) = name then
    some (unquote (((trim piece).dropWhile (· ≠ '=')).drop 1))
  else none

/-- The value of a parameter of a structured value. -/
def param? (name value : Text) : Option Text :=
  (pieces (· = ';') {} value).bind fun ps => (ps.drop 1).findSome? fun p => assigned? name p.1

/-- What a structured value says before its parameters. -/
def kind (value : Text) : Text := lower (trim (value.takeWhile (· ≠ ';')))

/-- A value with one parameter in quotes. -/
def withParam (head name value : Text) : Text :=
  head ++ ';' :: ' ' :: (name ++ '=' :: '"' :: (value ++ ['"']))

/-- Neither a quote nor an escape. -/
def IsQuotable (value : Text) : Prop := ∀ c ∈ value, c ≠ '"' ∧ c ≠ '\\'

/-- A name of a parameter, in small letters. -/
def IsParamName (name : Text) : Prop :=
  name ≠ [] ∧ lower name = name ∧
    ∀ c ∈ name, isBlank c = false ∧ c ≠ '=' ∧ c ≠ ';' ∧ Lex.step {} c = {}

section

variable {head name value : Text}

theorem kind_withParam (h : ∀ c ∈ head, c ≠ ';') :
    kind (withParam head name value) = lower (trim head) := by
  rw [kind, withParam, takeWhile_append_of_pos fun c hc => by simpa using h c hc]
  simp

theorem trim_of_ends {c d : Char} {mid : Text} (hc : isBlank c = false) (hd : isBlank d = false) :
    trim (c :: (mid ++ [d])) = c :: (mid ++ [d]) := by
  have hfirst : (c :: (mid ++ [d])).dropWhile isBlank = c :: (mid ++ [d]) :=
    dropWhile_cons_of_neg (by simp [hc])
  have hlast : (c :: (mid ++ [d])).reverse.dropWhile isBlank = (c :: (mid ++ [d])).reverse := by
    rw [reverse_cons, reverse_append, reverse_singleton, singleton_append,
      cons_append]
    exact dropWhile_cons_of_neg (by simp [hd])
  rw [trim, Trimming.trimBy, hfirst, hlast, reverse_reverse]

theorem unescape_quotable (h : IsQuotable value) : unescape (value ++ ['"']) = value := by
  induction value with
  | nil => rfl
  | cons c cs ih =>
    have hc := h c mem_cons_self
    have hcs := ih fun d hd => h d (mem_cons_of_mem _ hd)
    rw [cons_append, unescape, if_neg hc.1, hcs]
    rintro _ _ rfl
    exact absurd rfl hc.2

/-- A parameter is read as it was written. -/
theorem param?_withParam (hhead : ∀ c ∈ head, c ≠ ';' ∧ Lex.step {} c = {})
    (hname : IsParamName name) (hvalue : IsQuotable value) :
    param? name (withParam head name value) = some value := by
  obtain ⟨hne, hlower, hplain⟩ := hname
  obtain ⟨n, ns, rfl⟩ := exists_cons_of_ne_nil hne
  have hpassHead : passes (· = ';') {} head = some {} :=
    passes_plain fun c hc => ⟨by simpa using (hhead c hc).1, (hhead c hc).2⟩
  have hpassName : passes (· = ';') {} (' ' :: (n :: ns)) = some {} := by
    rw [passes, if_neg (by decide)]
    exact passes_plain fun c hc => ⟨by simpa using (hplain c hc).2.2.1, (hplain c hc).2.2.2⟩
  have hpassPiece : passes (· = ';') {} (' ' :: (n :: ns) ++ '=' :: '"' :: (value ++ ['"'])) =
      some {} := by
    rw [passes_append hpassName, passes, if_neg (by decide), passes, if_neg (by decide)]
    exact passes_quoted hvalue
  have htrim : trim (' ' :: (n :: ns) ++ '=' :: '"' :: (value ++ ['"'])) =
      (n :: ns) ++ '=' :: '"' :: (value ++ ['"']) := by
    have happ : (n :: ns) ++ '=' :: '"' :: (value ++ ['"']) =
        n :: ((ns ++ '=' :: '"' :: value) ++ ['"']) := by simp
    rw [cons_append, trim_blank_cons, happ]
    exact trim_of_ends (hplain n mem_cons_self).1 (by decide)
  have hequals : ∀ c ∈ n :: ns, decide (c ≠ '=') = true := fun c hc => by
    simpa using (hplain c hc).2.1
  have hassigned : assigned? (n :: ns) (' ' :: (n :: ns) ++ '=' :: '"' :: (value ++ ['"'])) =
      some value := by
    rw [assigned?, htrim, takeWhile_append_of_pos hequals,
      dropWhile_append_of_pos hequals]
    simp [hlower, unquote, unescape_quotable hvalue]
  rw [param?, withParam, pieces_append hpassHead (by decide), ← cons_append,
    pieces_single hpassPiece]
  simpa using hassigned

end

/-- The body is in base64. -/
def Entity.isBase64 (e : Entity) : Bool :=
  (e.field? "content-transfer-encoding").any fun v => kind v == "base64".toList

/-- The bytes of a body. -/
def Entity.bytes (e : Entity) : List UInt8 :=
  if e.isBase64 then Base64.decode .standard e.body.flatten else Utf8.bytes (joinLines e.body)

/-- The lines of a body that is a text. -/
def Entity.text? (e : Entity) : Option (List Text) :=
  if e.isBase64 then (Utf8.decode e.bytes).map lines else some e.body

/-- The name and the bytes of an attachment. -/
def Entity.attachment? (e : Entity) : Option (Text × List UInt8) :=
  ((e.field? "content-disposition").filter fun v => kind v == "attachment".toList).map fun v =>
    ((param? "filename".toList v).getD [], e.bytes)

/-- What separates the parts of a body. -/
def Entity.boundary? (e : Entity) : Option Text :=
  ((e.field? "content-type").filter fun v => "multipart/".toList.isPrefixOf (kind v)).bind fun v =>
    param? "boundary".toList v

/-- A line that begins a part begins with this. -/
def delimiter (boundary : Text) : Text := '-' :: '-' :: boundary

/-- The line that ends the last part begins with this. -/
def closing (boundary : Text) : Text := delimiter boundary ++ ['-', '-']

/-- The parts that follow a delimiter, the one that has begun first; none without an end. -/
def partsFrom (boundary : Text) : List Text → Option (List (List Text))
  | [] => none
  | l :: ls =>
    if (closing boundary).isPrefixOf l then some [[]]
    else if (delimiter boundary).isPrefixOf l then (partsFrom boundary ls).map ([] :: ·)
    else (partsFrom boundary ls).map (List.modifyHead (l :: ·))

/-- The parts of a body. -/
def partsOf (boundary : Text) (ls : List Text) : Option (List (List Text)) :=
  match ls.dropWhile fun l => !(delimiter boundary).isPrefixOf l with
  | [] => none
  | _ :: rest => partsFrom boundary rest

section

variable {boundary : Text}

theorem isPrefixOf_dash_eq_false {p l : Text} (h : l.head? ≠ some '-') :
    ('-' :: p).isPrefixOf l = false := by
  rw [Bool.eq_false_iff, Ne, isPrefixOf_iff_prefix]
  rintro ⟨t, rfl⟩
  exact h rfl

theorem partsFrom_append {part rest : List Text} (h : ∀ l ∈ part, l.head? ≠ some '-') :
    partsFrom boundary (part ++ rest) =
      (partsFrom boundary rest).map (List.modifyHead (part ++ ·)) := by
  induction part with
  | nil =>
    rw [nil_append]
    cases partsFrom boundary rest with
    | none => rfl
    | some ps => cases ps <;> rfl
  | cons l part ih =>
    rw [forall_mem_cons] at h
    have hclosing : (closing boundary).isPrefixOf l = false := isPrefixOf_dash_eq_false h.1
    have hdelimiter : (delimiter boundary).isPrefixOf l = false := isPrefixOf_dash_eq_false h.1
    rw [cons_append, partsFrom, hclosing, hdelimiter, ih h.2]
    cases partsFrom boundary rest with
    | none => rfl
    | some ps => cases ps <;> rfl

/-- The lines of parts between delimiters. -/
def delimited (boundary : Text) (parts : List (List Text)) : List Text :=
  parts.flatMap (delimiter boundary :: ·) ++ [closing boundary, []]

theorem closing_not_prefix : (closing boundary).isPrefixOf (delimiter boundary) = false := by
  rw [Bool.eq_false_iff, Ne, isPrefixOf_iff_prefix]
  intro h
  have hlen := h.length_le
  simp [closing] at hlen

theorem partsFrom_delimited {part : List Text} {parts : List (List Text)}
    (h : ∀ p ∈ part :: parts, ∀ l ∈ p, l.head? ≠ some '-') :
    partsFrom boundary (part ++ delimited boundary parts) = some (part :: parts) := by
  induction parts generalizing part with
  | nil =>
    rw [partsFrom_append (h part mem_cons_self)]
    simp [delimited, partsFrom]
  | cons p parts ih =>
    have hlist : delimited boundary (p :: parts) =
        delimiter boundary :: (p ++ delimited boundary parts) := by
      simp [delimited]
    rw [partsFrom_append (h part mem_cons_self), hlist, partsFrom, closing_not_prefix,
      ih fun q hq => h q (mem_cons_of_mem _ hq)]
    simp

theorem partsOf_delimited {part : List Text} {parts : List (List Text)}
    (h : ∀ p ∈ part :: parts, ∀ l ∈ p, l.head? ≠ some '-') :
    partsOf boundary (delimited boundary (part :: parts)) = some (part :: parts) := by
  have hlist : delimited boundary (part :: parts) =
      delimiter boundary :: (part ++ delimited boundary parts) := by
    simp [delimited]
  rw [partsOf, hlist, dropWhile_cons_of_neg (by simp)]
  exact partsFrom_delimited h

end

/-- What a message says: its fields, its texts and its attachments. -/
structure Message where
  fields : List (Text × Text)
  texts : List (List Text)
  attachments : List (Text × List UInt8)

/-- A message, by its lines. -/
def read (ls : List Text) : Option Message := do
  let e ← entity? ls
  match e.boundary? with
  | none =>
    let text ← e.text?
    some ⟨e.fields, [text], []⟩
  | some boundary =>
    let parts ← (← partsOf boundary e.body).mapM entity?
    let texts ← (parts.filter fun p => p.attachment?.isNone).mapM Entity.text?
    some ⟨e.fields, texts, parts.filterMap Entity.attachment?⟩

theorem read_single {e : Entity} {text : List Text} (h : e.Named) (hb : e.boundary? = none)
    (ht : e.text? = some text) : read e.toLines = some ⟨e.fields, [text], []⟩ := by
  simp [read, entity?_toLines h, hb, ht]

/-- A message of several parts says what its parts say. -/
theorem read_multipart {ι : Type*} {e text : Entity} {items : List ι} {part : ι → Entity}
    {boundary : Text} {said : List Text} {content : ι → Text × List UInt8}
    (h : e.Named) (hb : e.boundary? = some boundary)
    (hbody : e.body = delimited boundary ((text :: items.map part).map Entity.toLines))
    (hnamed : ∀ p ∈ text :: items.map part, p.Named)
    (hdash : ∀ p ∈ text :: items.map part, ∀ l ∈ p.toLines, l.head? ≠ some '-')
    (hnone : text.attachment? = none) (hsaid : text.text? = some said)
    (hsome : ∀ i ∈ items, (part i).attachment? = some (content i)) :
    read e.toLines = some ⟨e.fields, [said], items.map content⟩ := by
  have hparts : partsOf boundary e.body = some ((text :: items.map part).map Entity.toLines) := by
    rw [hbody, map_cons]
    refine partsOf_delimited fun ls hls l hl => ?_
    rw [← map_cons] at hls
    obtain ⟨p, hp, rfl⟩ := mem_map.1 hls
    exact hdash p hp l hl
  have hentities : ((text :: items.map part).map Entity.toLines).mapM entity? =
      some (text :: items.map part) := by
    rw [mapM_map]
    exact (mapM_eq_some fun p hp => entity?_toLines (hnamed p hp)).trans
      (congrArg some (map_id _))
  have hfilter : (items.map part).filter (fun p => p.attachment?.isNone) = [] := by
    refine filter_eq_nil_iff.2 fun p hp => ?_
    obtain ⟨i, hi, rfl⟩ := mem_map.1 hp
    simp [hsome i hi]
  have hattached : (items.map part).filterMap Entity.attachment? = items.map content := by
    rw [filterMap_map, ← filterMap_eq_map']
    exact filterMap_congr hsome
  have htexts : ((text :: items.map part).filter fun p => p.attachment?.isNone) = [text] := by
    rw [filter_cons_of_pos (by simp [hnone]), hfilter]
  have hall : (text :: items.map part).filterMap Entity.attachment? = items.map content := by
    rw [filterMap_cons_none hnone, hattached]
  simp only [read, entity?_toLines h, Option.bind_eq_bind, Option.bind_some, hb, hparts, hentities,
    htexts, hall]
  rw [mapM_cons, hsaid]
  rfl

/-- The values of the fields of a name. -/
def Message.values (m : Message) (name : String) : List Text :=
  (m.fields.filter fun f => lower f.1 = name.toList).map Prod.snd

theorem filter_field_of_ne {n v name : Text} (h : lower n ≠ name) :
    ((n, v) :: fields).filter (fun f => lower f.1 = name) =
      fields.filter fun f => lower f.1 = name :=
  filter_cons_of_neg (by simpa using h)

theorem filter_field_of_eq {n v name : Text} (h : lower n = name) :
    ((n, v) :: fields).filter (fun f => lower f.1 = name) =
      (n, v) :: fields.filter fun f => lower f.1 = name :=
  filter_cons_of_pos (by simpa using h)

/-- The mailboxes of the fields of a name. -/
def Message.mailboxes (m : Message) (name : String) : Option (List Text) :=
  ((m.values name).mapM Mail.mailboxes).map List.flatten

end U2os.Mail
