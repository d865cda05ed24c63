import U2os.Lib.Json
import U2os.Lib.JsNumber
import U2os.Lib.JsText

/-!
# Expressions of packages

The tokenizer and the parser of `packages/expression.js`.  What an expression evaluates to is left to
a parameter of the templates: here an expression compiles or it does not.  A number is kept as it is
written; a character beyond the basic plane is one character.

The parser counts how deep it is and refuses to go deeper than `maxDepth`, so that it is built from
the innermost depth outwards: the parsers of one depth use those of the next.
-/

namespace U2os.Server.Packages

open JsText JsNumber

def maxLength : ℕ := 2000

def maxDepth : ℕ := 64

def keywords : List String := ["true", "false", "null", "and", "or", "not", "in"]

/-- The names of `FUNCTIONS`. -/
def functions : List String :=
  ["len", "lower", "upper", "contains", "startsWith", "endsWith", "min", "max", "abs", "round", "floor",
    "ceil", "coalesce", "join", "keys", "concat", "pluck", "unique", "slice", "now", "daysSince"]

inductive Token where
  | num (text : String)
  | str (value : String)
  | kw (value : String)
  | id (value : String)
  | op (value : String)
deriving DecidableEq

/-- `[A-Za-z_$]`. -/
def isNameStart (c : Char) : Bool := c.isAlpha || c = '_' || c = '$'

/-- `[A-Za-z0-9_$]`. -/
def isNameChar (c : Char) : Bool := c.isAlphanum || c = '_' || c = '$'

/-- What is left after `\d+\.?\d*`. -/
def afterDecimal (cs : List Char) : List Char :=
  match cs.dropWhile isDigit with
  | '.' :: rest => rest.dropWhile isDigit
  | rest => rest

/-- What is left after `[eE][+-]?\d+`, where it follows. -/
def afterExponent (cs : List Char) : List Char :=
  match cs with
  | c :: rest =>
    if c = 'e' ∨ c = 'E' then
      let digits := match rest with
        | s :: more => if s = '+' ∨ s = '-' then more else rest
        | [] => []
      if digits.head?.any isDigit then digits.dropWhile isDigit else cs
    else cs
  | [] => []

/-- What is left after a number. -/
def afterNumber (cs : List Char) : List Char :=
  afterExponent (match cs with
    | '.' :: rest => rest.dropWhile isDigit
    | _ => afterDecimal cs)

/-- A text in quotes, after the quote that opens it: its value, and what is left. -/
def literal (quote : Char) : List Char → Option (List Char × List Char)
  | [] => none
  | c :: cs =>
    if c = quote then some ([], cs)
    else if c = '\\' then
      match cs with
      | [] => none
      | next :: cs => (literal quote cs).map fun r =>
          ((if next = 'n' then '\n' else if next = 't' then '\t' else next) :: r.1, r.2)
    else (literal quote cs).map fun r => (c :: r.1, r.2)

/-- The operators of two characters. -/
def operators₂ : List (List Char) :=
  [['=', '='], ['!', '='], ['<', '='], ['>', '='], ['&', '&'], ['|', '|']]

/-- The operators of one character. -/
def operators₁ : List Char := "<>!+-*/%?:()[],.".toList

/-- The token at the start of what is left, if it is not white space, and what is left then. -/
def tokenAt (c : Char) (cs : List Char) : Except String (Option Token × List Char) :=
  if isSpace c then .ok (none, cs)
  else if isDigit c ∨ c = '.' ∧ cs.head?.any isDigit = true then
    let rest := afterNumber (c :: cs)
    .ok (some (.num (String.ofList ((c :: cs).take ((c :: cs).length - rest.length)))), rest)
  else if c = '"' ∨ c = '\'' then
    match literal c cs with
    | some (value, rest) => .ok (some (.str (String.ofList value)), rest)
    | none => .error "Unterminated string"
  else if isNameStart c then
    let name := String.ofList (c :: cs.takeWhile isNameChar)
    .ok (some (if name ∈ keywords then .kw name else .id name), cs.dropWhile isNameChar)
  else if operators₂.contains ((c :: cs).take 2) then
    .ok (some (.op (String.ofList ((c :: cs).take 2))), cs.drop 1)
  else if c ∈ operators₁ then .ok (some (.op (String.singleton c)), cs)
  else .error ("Unexpected character \"" ++ String.singleton c ++ "\"")

/-- The tokens of a source, of which the first characters belong to a token that is there. -/
def tokens : ℕ → List Char → Except String (List Token)
  | _, [] => .ok []
  | skip + 1, _ :: cs => tokens skip cs
  | 0, c :: cs => do
    let (token, rest) ← tokenAt c cs
    let more ← tokens (cs.length - rest.length) cs
    return token.toList ++ more

/-- `tokenize`; the end of the tokens is that of the list. -/
def tokenize (source : List Char) : Except String (List Token) := tokens 0 source

example : tokenize "a.b >= 1.5e3".toList = .ok
    [.id "a", .op ".", .id "b", .op ">=", .num "1.5e3"] := by decide +kernel

/-- A node of the tree of an expression. -/
inductive Node where
  | lit (v : Json)
  | id (name : String)
  | list (items : List Node)
  | member (obj prop : Node)
  | call (name : String) (args : List Node)
  | unary (op : String) (arg : Node)
  | cond (test then_ else_ : Node)
  | bin (op : String) (l r : Node)

/-- A parser reads a node from the tokens that are left. -/
abbrev Parse := List Token → Except String (Node × List Token)

/-- The parsers that may be called at a depth. -/
structure Level where
  ternary : Parse
  not : Parse
  unary : Parse

/-- `enter`, where it is refused. -/
def Level.refused : Level :=
  ⟨fun _ => .error "Expression is nested too deeply", fun _ => .error "Expression is nested too deeply",
    fun _ => .error "Expression is nested too deeply"⟩

def expectOp (op : String) : List Token → Except String (List Token)
  | .op o :: rest => if o = op then .ok rest else .error ("Expected \"" ++ op ++ "\"")
  | _ => .error ("Expected \"" ++ op ++ "\"")

/-- The rest of a list that a comma goes on with: as many items as there are tokens at most. -/
def moreItems (item : Parse) : ℕ → List Token → Except String (List Node × List Token)
  | n + 1, .op "," :: rest => do
    let (x, rest) ← item rest
    let (xs, rest) ← moreItems item n rest
    return (x :: xs, rest)
  | _, rest => .ok ([], rest)

/-- The items up to the operator that closes them. -/
def items (item : Parse) (close : String) (toks : List Token) :
    Except String (List Node × List Token) :=
  if toks.head? = some (.op close) then .ok ([], toks.drop 1)
  else do
    let (x, rest) ← item toks
    let (xs, rest) ← moreItems item rest.length rest
    let rest ← expectOp close rest
    return (x :: xs, rest)

def primary (deeper : Level) : Parse
  | .num text :: rest => .ok (.lit (.num text), rest)
  | .str value :: rest => .ok (.lit (.str value), rest)
  | .kw value :: rest =>
    if value = "true" then .ok (.lit (.bool true), rest)
    else if value = "false" then .ok (.lit (.bool false), rest)
    else if value = "null" then .ok (.lit .null, rest)
    else .error ("Unexpected \"" ++ value ++ "\"")
  | .id name :: rest => .ok (.id name, rest)
  | .op "(" :: rest => do
    let (node, rest) ← deeper.ternary rest
    let rest ← expectOp ")" rest
    return (node, rest)
  | .op "[" :: rest => do
    let (nodes, rest) ← items deeper.ternary "]" rest
    return (.list nodes, rest)
  | _ => .error "Unexpected end of expression"

/-- The loop of `postfix`, for as many turns as there are tokens at most. -/
def postfixes (deeper : Level) : ℕ → Node → Parse
  | n + 1, node, .op "." :: rest =>
    match rest with
    | .id name :: rest => postfixes deeper n (.member node (.lit (.str name))) rest
    | .kw name :: rest => postfixes deeper n (.member node (.lit (.str name))) rest
    | _ => .error "Expected a property name after \".\""
  | n + 1, node, .op "[" :: rest => do
    let (prop, rest) ← deeper.ternary rest
    let rest ← expectOp "]" rest
    postfixes deeper n (.member node prop) rest
  | n + 1, node, .op "(" :: rest =>
    match node with
    | .id name =>
      if name ∈ functions then do
        let (args, rest) ← items deeper.ternary ")" rest
        postfixes deeper n (.call name args) rest
      else .error ("Unknown function \"" ++ name ++ "\"")
    | _ => .error "Only built-in functions can be called"
  | _, node, rest => .ok (node, rest)

/-- `postfix`. -/
def postfixOp (deeper : Level) : Parse := fun toks => do
  let (node, rest) ← primary deeper toks
  postfixes deeper rest.length node rest

def unary (deeper : Level) : Parse
  | .op op :: rest =>
    if op = "-" ∨ op = "!" then do
      let (node, rest) ← deeper.unary rest
      return (.unary op node, rest)
    else postfixOp deeper (.op op :: rest)
  | toks => postfixOp deeper toks

/-- The loop of a binary operator, for as many turns as there are tokens at most. -/
def operands (name : Token → Option String) (operand : Parse) : ℕ → Node → Parse
  | n + 1, left, t :: rest =>
    match name t with
    | some op => do
      let (right, rest) ← operand rest
      operands name operand n (.bin op left right) rest
    | none => .ok (left, t :: rest)
  | _, left, rest => .ok (left, rest)

/-- Operands, with binary operators between them. -/
def binary (name : Token → Option String) (operand : Parse) : Parse := fun toks => do
  let (left, rest) ← operand toks
  operands name operand rest.length left rest

/-- The token is one of the operators. -/
def isOneOf (ops : List String) : Token → Option String
  | .op op => if op ∈ ops then some op else none
  | _ => none

def multiplicative (deeper : Level) : Parse := binary (isOneOf ["*", "/", "%"]) (unary deeper)

def additive (deeper : Level) : Parse := binary (isOneOf ["+", "-"]) (multiplicative deeper)

def comparison (deeper : Level) : Parse := fun toks => do
  let (left, rest) ← additive deeper toks
  match rest with
  | .op op :: more =>
    if op ∈ ["==", "!=", "<", "<=", ">", ">="] then do
      let (right, rest) ← additive deeper more
      return (.bin op left right, rest)
    else return (left, rest)
  | .kw "in" :: more => do
    let (right, rest) ← additive deeper more
    return (.bin "in" left right, rest)
  | .kw "not" :: .kw "in" :: more => do
    let (right, rest) ← additive deeper more
    return (.unary "!" (.bin "in" left right), rest)
  | .kw "not" :: _ => throw "Expected \"in\" after \"not\""
  | _ => return (left, rest)

/-- `not`. -/
def notOp (deeper : Level) : Parse
  | .op "!" :: rest => do
    let (node, rest) ← deeper.not rest
    return (.unary "!" node, rest)
  | .kw "not" :: rest =>
    if rest.head? = some (.kw "in") then comparison deeper (.kw "not" :: rest)
    else do
      let (node, rest) ← deeper.not rest
      return (.unary "!" node, rest)
  | toks => comparison deeper toks

def Level.and (l : Level) : Parse :=
  binary (fun t => if t = .op "&&" ∨ t = .kw "and" then some "&&" else none) l.not

def Level.or (l : Level) : Parse :=
  binary (fun t => if t = .op "||" ∨ t = .kw "or" then some "||" else none) l.and

def ternary (deeper : Level) : Parse := fun toks => do
  let (test, rest) ← deeper.or toks
  if rest.head? = some (.op "?") then do
    let (then_, rest) ← deeper.ternary (rest.drop 1)
    let rest ← expectOp ":" rest
    let (else_, rest) ← deeper.ternary rest
    return (.cond test then_ else_, rest)
  else return (test, rest)

/-- The parsers of a depth, by those of the next one. -/
def nextLevel (deeper : Level) : Level := ⟨ternary deeper, notOp deeper, unary deeper⟩

/-- The parsers, where so many levels may still be entered. -/
def levelAt : ℕ → Level
  | 0 => nextLevel .refused
  | n + 1 => nextLevel (levelAt n)

def parse (toks : List Token) : Except String Node := do
  let (node, rest) ← (levelAt maxDepth).ternary toks
  if rest = [] then return node else throw "Unexpected trailing input"

def compile (source : List Char) : Except String Node :=
  if maxLength < length (String.ofList source) then
    .error ("Expression is longer than " ++ toString maxLength ++ " characters")
  else tokenize source >>= parse

/-- `checkExpression`: the message of an error. -/
def checkExpression (source : List Char) : Option String :=
  match compile source with
  | .ok _ => none
  | .error message => some message

example : checkExpression "not a in [1, 2] ? len(b) : -c.d[0]".toList = none := by decide +kernel

/-- The last character is a closing brace. -/
def EndsInBrace (cs : List Char) : Prop := cs.getLast? = some '}'

section EndsInBrace

variable {c : Char} {cs : List Char}

theorem EndsInBrace.ne_nil (h : EndsInBrace cs) : cs ≠ [] := by
  rintro rfl
  simp [EndsInBrace] at h

theorem EndsInBrace.tail (h : EndsInBrace (c :: cs)) (hc : c ≠ '}') : EndsInBrace cs := by
  cases cs with
  | nil => exact absurd (by simpa [EndsInBrace] using h) hc
  | cons d cs => simpa [EndsInBrace, List.getLast?_cons_cons] using h

theorem EndsInBrace.dropWhile {p : Char → Bool} (hp : p '}' = false) (h : EndsInBrace cs) :
    EndsInBrace (cs.dropWhile p) := by
  induction cs with
  | nil => exact h
  | cons c cs ih =>
    by_cases hc : p c = true
    · rw [List.dropWhile_cons_of_pos hc]
      exact ih (h.tail fun e => by rw [e, hp] at hc; cases hc)
    · rwa [List.dropWhile_cons_of_neg hc]

theorem EndsInBrace.afterDecimal (h : EndsInBrace cs) : EndsInBrace (afterDecimal cs) := by
  have hd : EndsInBrace (cs.dropWhile isDigit) := h.dropWhile rfl
  rw [Packages.afterDecimal]
  split
  · next heq => exact ((heq ▸ hd).tail (by decide)).dropWhile rfl
  · exact hd

theorem EndsInBrace.afterExponent (h : EndsInBrace cs) : EndsInBrace (afterExponent cs) := by
  cases cs with
  | nil => exact h
  | cons c rest =>
    rw [Packages.afterExponent.eq_def]
    dsimp only
    split_ifs with he hd
    · have hrest : EndsInBrace rest := h.tail (by rcases he with rfl | rfl <;> decide)
      -- The digits follow at once, or after a sign.
      cases rest with
      | nil => exact absurd rfl hrest.ne_nil
      | cons s more =>
        dsimp only
        split_ifs with hs
        · exact (hrest.tail (by rcases hs with rfl | rfl <;> decide)).dropWhile rfl
        · exact hrest.dropWhile rfl
    · exact h
    · exact h

theorem EndsInBrace.afterNumber (h : EndsInBrace cs) : EndsInBrace (afterNumber cs) := by
  refine EndsInBrace.afterExponent ?_
  split
  · exact (h.tail (by decide)).dropWhile rfl
  · exact h.afterDecimal

theorem EndsInBrace.of_cons (h : EndsInBrace (c :: cs)) (hne : cs ≠ []) : EndsInBrace cs := by
  cases cs with
  | nil => exact absurd rfl hne
  | cons d cs => simpa [EndsInBrace, List.getLast?_cons_cons] using h

theorem ne_nil_of_literal {quote : Char} {r : List Char × List Char}
    (hr : literal quote cs = some r) : cs ≠ [] := by
  rintro rfl
  cases hr

/-- Past a literal the rest still ends in a brace. -/
theorem EndsInBrace.literal {quote : Char} {r : List Char × List Char} (hq : quote ≠ '}')
    (h : EndsInBrace cs) (hr : literal quote cs = some r) : EndsInBrace r.2 := by
  induction cs using literal.induct quote generalizing r with
  | case1 => cases hr
  | case2 cs =>
    rw [literal.eq_def] at hr
    simp only [if_true] at hr
    cases hr
    exact h.tail hq
  | case3 hne =>
    rw [literal.eq_def] at hr
    simp [hne] at hr
  | case4 next cs hne ih =>
    rw [literal.eq_def] at hr
    simp only [if_neg hne, if_true] at hr
    obtain ⟨r', hr', rfl⟩ := Option.map_eq_some_iff.1 hr
    -- The character after a backslash is not the last one: the quote follows it.
    exact ih (r := r') ((h.tail (by decide)).of_cons (ne_nil_of_literal hr')) hr'
  | case5 c cs hne hb ih =>
    rw [literal.eq_def] at hr
    simp only [if_neg hne, if_neg hb] at hr
    obtain ⟨r', hr', rfl⟩ := Option.map_eq_some_iff.1 hr
    exact ih (r := r') (h.of_cons (ne_nil_of_literal hr')) hr'

/-- A token takes no closing brace, and the rest still ends in one. -/
theorem EndsInBrace.tokenAt {r : Option Token × List Char} (h : EndsInBrace (c :: cs))
    (hr : tokenAt c cs = .ok r) : c ≠ '}' ∧ EndsInBrace r.2 := by
  rw [Packages.tokenAt] at hr
  split_ifs at hr with h1 h2 h3 h4 h5 h6
  · have hc : c ≠ '}' := by rintro rfl; cases h1
    cases hr
    exact ⟨hc, h.tail hc⟩
  · have hc : c ≠ '}' := by
      rintro rfl
      rcases h2 with h2 | ⟨h2, -⟩ <;> cases h2
    cases hr
    exact ⟨hc, h.afterNumber⟩
  · have hc : c ≠ '}' := by
      rintro rfl
      rcases h3 with h3 | h3 <;> cases h3
    split at hr
    · next value rest heq =>
      cases hr
      exact ⟨hc, (h.tail hc).literal (by rcases h3 with rfl | rfl <;> decide) heq⟩
    · cases hr
  · have hc : c ≠ '}' := by rintro rfl; cases h4
    cases hr
    exact ⟨hc, (h.tail hc).dropWhile rfl⟩
  · have hc : c ≠ '}' := by
      rintro rfl
      simp [operators₂] at h5
    have hcs : EndsInBrace cs := h.tail hc
    cases hr
    cases cs with
    | nil => exact absurd rfl hcs.ne_nil
    | cons d cs =>
      refine ⟨hc, hcs.tail ?_⟩
      rintro rfl
      simp [operators₂] at h5
  · have hc : c ≠ '}' := by
      rintro rfl
      exact absurd h6 (by decide)
    cases hr
    exact ⟨hc, h.tail hc⟩

theorem tokens_of_endsInBrace (skip : ℕ) (h : EndsInBrace cs) (hskip : skip < cs.length) :
    ∃ message, tokens skip cs = .error message := by
  induction skip, cs using tokens.induct with
  | case1 => exact absurd rfl h.ne_nil
  | case2 skip c cs ih =>
    rw [tokens]
    cases cs with
    | nil => simp at hskip
    | cons d cs =>
      exact ih (h.of_cons (by simp)) (by simpa using hskip)
  | case3 c cs ih =>
    rw [tokens]
    cases hr : tokenAt c cs with
    | error message => exact ⟨message, rfl⟩
    | ok r =>
      obtain ⟨hc, hrest⟩ := h.tokenAt hr
      have hcs : EndsInBrace cs := h.tail hc
      have hlt : cs.length - r.2.length < cs.length :=
        Nat.sub_lt (List.length_pos_iff.2 hcs.ne_nil) (List.length_pos_iff.2 hrest.ne_nil)
      obtain ⟨message, hm⟩ := ih r.2 hcs hlt
      refine ⟨message, ?_⟩
      change (tokens (cs.length - r.2.length) cs >>= _) = _
      rw [hm]
      rfl

theorem tokenize_of_endsInBrace (h : EndsInBrace cs) : ∃ message, tokenize cs = .error message :=
  tokens_of_endsInBrace 0 h (List.length_pos_iff.2 h.ne_nil)

theorem compile_of_endsInBrace (h : EndsInBrace cs) : ∃ message, compile cs = .error message := by
  rw [compile]
  split_ifs
  · exact ⟨_, rfl⟩
  · obtain ⟨message, hm⟩ := tokenize_of_endsInBrace h
    exact ⟨message, by rw [hm]; rfl⟩

end EndsInBrace

end U2os.Server.Packages
