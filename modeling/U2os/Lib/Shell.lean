import Mathlib.Tactic.Common

/-!
# The words of a shell command

How a POSIX shell cuts a text into words and operators: blanks end a word, quotes and backslashes
take away the meaning of characters, and a comment runs to the end of its line.  What is quoted is
taken as it stands, without expansions, patterns or reserved words, so a word keeps for each
character whether it was quoted.

Texts with an expansion (`$` or a backquote that is not quoted) and texts with a NUL are not read.
An operator of several characters is read as its characters.
-/

namespace U2os.Shell

/-- A character of a word. -/
structure Letter where
  char : Char
  quoted : Bool
  deriving DecidableEq

/-- A word, or a character of an operator. -/
inductive Token where
  | word (letters : List Letter)
  | operator (c : Char)
  deriving DecidableEq

/-- What the next character stands in. -/
inductive Mode where
  | plain
  | single
  | double
  /-- After a backslash. -/
  | escaped
  /-- After a backslash in double quotes. -/
  | escapedDouble
  | comment
  deriving DecidableEq

/-- The tokens that are complete, the word that is not, and where the reader stands. -/
structure Reader where
  tokens : List Token := []
  word : Option (List Letter) := none
  mode : Mode := .plain
  deriving DecidableEq

def isBlank (c : Char) : Bool := c = ' ' || c = '\t'

def isOperator (c : Char) : Bool := ['&', ';', '|', '<', '>', '(', ')', '\n'].contains c

/-- An unquoted `$` or backquote begins an expansion. -/
def isExpansion (c : Char) : Bool := c = '$' || c = '`'

namespace Reader

/-- The word ends, if there is one. -/
def delimit (r : Reader) : Reader where
  tokens := r.tokens ++ (r.word.map Token.word).toList

/-- A character joins the word. -/
def push (r : Reader) (c : Char) (quoted : Bool) (mode : Mode) : Reader :=
  { r with word := some (r.word.getD [] ++ [⟨c, quoted⟩]), mode := mode }

/-- A quote opens: there is a word from here on, even if nothing follows. -/
def opens (r : Reader) (mode : Mode) : Reader :=
  { r with word := some (r.word.getD []), mode := mode }

/-- An unquoted character. -/
def stepPlain (r : Reader) (c : Char) : Option Reader :=
  if c = '\'' then some (r.opens .single)
  else if c = '"' then some (r.opens .double)
  else if c = '\\' then some { r with mode := .escaped }
  else if isExpansion c then none
  else if isBlank c then some r.delimit
  else if isOperator c then
    some { r.delimit with tokens := r.delimit.tokens ++ [.operator c] }
  else if c = '#' && r.word.isNone then some { r with mode := .comment }
  else some (r.push c false .plain)

/-- One character. -/
def step (r : Reader) (c : Char) : Option Reader :=
  if c = '\x00' then none
  else
    match r.mode with
    | .plain => r.stepPlain c
    | .single => some (if c = '\'' then { r with mode := .plain } else r.push c true .single)
    | .double =>
      if isExpansion c then none
      else if c = '"' then some { r with mode := .plain }
      else if c = '\\' then some { r with mode := .escapedDouble }
      else some (r.push c true .double)
    -- a backslash before a line end joins the lines
    | .escaped => some (if c = '\n' then { r with mode := .plain } else r.push c true .plain)
    | .escapedDouble =>
      if c = '\n' then some { r with mode := .double }
      else if isExpansion c ∨ c = '"' ∨ c = '\\' then some (r.push c true .double)
      else some ((r.push '\\' true .double).push c true .double)
    | .comment =>
      some (if c = '\n' then { r with tokens := r.tokens ++ [.operator c], mode := .plain } else r)

/-- A text is read on. -/
def read (r : Reader) (text : List Char) : Option Reader := text.foldlM step r

/-- The tokens at the end of the text; none inside of quotes or after a backslash. -/
def finish (r : Reader) : Option (List Token) :=
  match r.mode with
  | .plain | .comment => some r.delimit.tokens
  | _ => none

/-- The tokens there were before. -/
def after (ts : List Token) (r : Reader) : Reader := { r with tokens := ts ++ r.tokens }

end Reader

/-- The words and operators of a command. -/
def tokens (text : List Char) : Option (List Token) :=
  (Reader.read {} text).bind Reader.finish

/-- A word every character of which is taken as it stands. -/
def literal (s : List Char) : Token := .word (s.map (⟨·, true⟩))

/-- A word without quotes. -/
def bare (s : List Char) : Token := .word (s.map (⟨·, false⟩))

/-- The text ends between two words. -/
def Completes (text : List Char) (ts : List Token) : Prop :=
  Reader.read {} text = some { tokens := ts }

example : tokens "a'b c' \"d\\\"\"|e\\ f # g".toList = some
    [.word [⟨'a', false⟩, ⟨'b', true⟩, ⟨' ', true⟩, ⟨'c', true⟩],
      .word [⟨'d', true⟩, ⟨'"', true⟩], .operator '|',
      .word [⟨'e', false⟩, ⟨' ', true⟩, ⟨'f', false⟩]] := by decide +kernel

variable {r : Reader} {ts us : List Token} {s t u : List Char}

theorem read_append : r.read (s ++ t) = (r.read s).bind (·.read t) := List.foldlM_append

theorem read_cons {c : Char} : r.read (c :: s) = (r.step c).bind (·.read s) := List.foldlM_cons

@[simp] theorem after_word : (r.after ts).word = r.word := rfl

@[simp] theorem after_mode : (r.after ts).mode = r.mode := rfl

theorem delimit_after : (r.after ts).delimit = r.delimit.after ts := by
  simp [Reader.delimit, Reader.after]

theorem stepPlain_after (c : Char) :
    (r.after ts).stepPlain c = (r.stepPlain c).map (Reader.after ts) := by
  simp only [Reader.stepPlain, after_word, delimit_after]
  split_ifs <;> simp_all [Reader.after, Reader.opens, Reader.push]

theorem step_after (c : Char) : (r.after ts).step c = (r.step c).map (Reader.after ts) := by
  by_cases h0 : c = '\x00'
  · simp [Reader.step, h0]
  simp only [Reader.step, h0, after_mode, if_false]
  cases r.mode with
  | plain => exact stepPlain_after c
  | _ =>
    simp only
    split_ifs <;> simp [Reader.after, Reader.push]

theorem read_after : (r.after ts).read s = (r.read s).map (Reader.after ts) := by
  induction s generalizing r with
  | nil => rfl
  | cons c s ih =>
    rw [read_cons, read_cons, step_after, Option.bind_map, Option.map_bind]
    exact Option.bind_congr fun r' _ => ih

theorem finish_after : (r.after ts).finish = r.finish.map (ts ++ ·) := by
  cases r with
  | mk tokens word mode => cases mode <;> simp [Reader.finish, Reader.after, Reader.delimit]

/-- A text that completes words is read first, whatever comes after it. -/
theorem tokens_append (h : Completes s ts) : tokens (s ++ t) = (tokens t).map (ts ++ ·) := by
  have hstart : ({ tokens := ts } : Reader) = Reader.after ts {} := by simp [Reader.after]
  rw [tokens, read_append, h, Option.bind_some, hstart, read_after, tokens, Option.bind_map,
    Option.map_bind]
  exact Option.bind_congr fun r _ => finish_after

theorem Completes.append (h : Completes s ts) (h' : Completes t us) :
    Completes (s ++ t) (ts ++ us) := by
  have hstart : ({ tokens := ts } : Reader) = Reader.after ts {} := by simp [Reader.after]
  rw [Completes, read_append, h, Option.bind_some, hstart, read_after, h']
  rfl

end U2os.Shell
