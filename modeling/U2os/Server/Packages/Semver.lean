import U2os.Lib.JsNumber
import U2os.Lib.JsText

/-!
# Versions and ranges

`packages/semver.js`: versions, the comparators of a range, and whether a version satisfies them.
-/

namespace U2os.Server.Packages

open JsText JsNumber

/-- A parsed version. -/
structure Version where
  major : WithTop ℕ
  minor : WithTop ℕ
  patch : WithTop ℕ
  /-- What follows a hyphen. -/
  pre : Option String
deriving DecidableEq

/-- A version of which the last numbers may be missing. -/
structure Partial where
  major : WithTop ℕ
  minor : Option (WithTop ℕ)
  patch : Option (WithTop ℕ)
  pre : Option String
deriving DecidableEq

/-- `[0-9A-Za-z.-]`. -/
def isPreChar (c : Char) : Bool := c.isAlphanum || c = '.' || c = '-'

/-- `\d+`: the number, and what is left. -/
def number (cs : List Char) : Option (WithTop ℕ × List Char) :=
  if cs.takeWhile isDigit = [] then none
  else some (ofDigits (cs.takeWhile isDigit), cs.dropWhile isDigit)

/-- `\.(\d+)`. -/
def dotNumber : List Char → Option (WithTop ℕ × List Char)
  | '.' :: cs => number cs
  | _ => none

/-- `(?:-([0-9A-Za-z.-]+))?$`. -/
def preEnd : List Char → Option (Option String)
  | [] => some none
  | '-' :: cs => if cs ≠ [] ∧ cs.all isPreChar then some (some (String.ofList cs)) else none
  | _ => none

def parseVersion (text : String) : Option Version := do
  let (major, cs) ← number (trimChars text.toList)
  let (minor, cs) ← dotNumber cs
  let (patch, cs) ← dotNumber cs
  let pre ← preEnd cs
  return ⟨major, minor, patch, pre⟩

def parsePartial (text : List Char) : Option Partial := do
  let (major, cs) ← number (trimChars text)
  match dotNumber cs with
  | none => return ⟨major, none, none, ← preEnd cs⟩
  | some (minor, cs) =>
    match dotNumber cs with
    | none => return ⟨major, some minor, none, ← preEnd cs⟩
    | some (patch, cs) => return ⟨major, some minor, some patch, ← preEnd cs⟩

def compareVersions (left right : Version) : Ordering :=
  if left.major ≠ right.major then if left.major < right.major then .lt else .gt
  else if left.minor ≠ right.minor then if left.minor < right.minor then .lt else .gt
  else if left.patch ≠ right.patch then if left.patch < right.patch then .lt else .gt
  else match left.pre, right.pre with
    | none, none => .eq
    -- A release comes after its prereleases.
    | none, some _ => .gt
    | some _, none => .lt
    | some l, some r => if l = r then .eq else if l < r then .lt else .gt

/-- The operator of a comparator. -/
inductive Op where
  | gt
  | ge
  | lt
  | le
  | eq
deriving DecidableEq

/-- A comparator of a range. -/
structure Comparator where
  op : Op
  version : Version
deriving DecidableEq

/-- What stands before the version of a part of a range. -/
inductive Lead where
  | caret
  | tilde
  | op (op : Op)

/-- `(\^|~|>=|<=|>|<|=)?`. -/
def lead : List Char → Lead × List Char
  | '^' :: cs => (.caret, cs)
  | '~' :: cs => (.tilde, cs)
  | '>' :: '=' :: cs => (.op .ge, cs)
  | '<' :: '=' :: cs => (.op .le, cs)
  | '>' :: cs => (.op .gt, cs)
  | '<' :: cs => (.op .lt, cs)
  | '=' :: cs => (.op .eq, cs)
  | cs => (.op .eq, cs)

/-- The missing numbers are zero. -/
def Partial.base (p : Partial) : Version := ⟨p.major, p.minor.getD 0, p.patch.getD 0, p.pre⟩

/-- The versions from the base on, before another. -/
def Version.upTo (base : Version) (major minor patch : WithTop ℕ) : List Comparator :=
  [⟨.ge, base⟩, ⟨.lt, ⟨major, minor, patch, none⟩⟩]

/-- The line of a partial version: of its minor number, where it has one. -/
def Partial.line (p : Partial) : List Comparator :=
  if p.minor = none then p.base.upTo (succ p.base.major) 0 0
  else p.base.upTo p.base.major (succ p.base.minor) 0

/-- The comparators of a part of a range. -/
def Partial.comparators (p : Partial) : Lead → List Comparator
  | .caret =>
    if 0 < p.base.major ∨ p.minor = none then p.base.upTo (succ p.base.major) 0 0
    else if 0 < p.base.minor ∨ p.patch = none then p.base.upTo 0 (succ p.base.minor) 0
    else p.base.upTo 0 0 (succ p.base.patch)
  | .tilde => p.line
  | .op op =>
    if op = .eq ∧ (p.minor = none ∨ p.patch = none) then p.line else [⟨op, p.base⟩]

/-- The parts of a text between white space. -/
def words (cs : List Char) : List (List Char) := (cs.splitOnP isSpace).filter (· ≠ [])

/-- `parseRange`; `none` for an invalid range. -/
def parseRange (range : String) : Option (List Comparator) :=
  let text := trimChars range.toList
  if text ∈ [[], ['*'], ['x'], "latest".toList] then some []
  else (words text).foldrM (fun part comparators => do
    let p ← parsePartial (lead part).2
    return p.comparators (lead part).1 ++ comparators) []

/-- The comparator holds of a version. -/
def Comparator.holds (c : Comparator) (v : Version) : Bool :=
  match c.op with
  | .gt => compareVersions v c.version = .gt
  | .ge => compareVersions v c.version ≠ .lt
  | .lt => compareVersions v c.version = .lt
  | .le => compareVersions v c.version ≠ .gt
  | .eq => compareVersions v c.version = .eq

def satisfies (version range : String) : Bool :=
  match parseVersion version, parseRange range with
  | some v, some comparators => comparators.all fun c => c.holds v
  | _, _ => false

example : satisfies "1.4.2" ">=1.2 <2.0" ∧ satisfies "2.0.0-rc.1" "^1.2" := by decide +kernel

end U2os.Server.Packages
