import Mathlib.Algebra.Group.Nat.Even
import U2os.Majordomo.Events.Log
import U2os.Majordomo.Vault.Markdown

/-!
# The links in the body of a record

`inline_links` reads the `u2os` links of a text, but not those in fenced code.  Any line that starts
with three backticks or tildes turns its reading off or on; what a fenced block is says more about
where one starts and ends.  So a fence of the other character, a shorter one or one with a text after
it turns the reading on inside of a block, and a code span or a deep indentation turns it off outside
of any.

Main results.
* `inlineLinks_eq_flatten`: the links are those of the lines that are read.
* `inlineLinks_iff`: where the links of the text are those outside of the blocks.
-/

namespace U2os.Majordomo.Memory.Links

open List Option

open Vault (isWhite)

/-- The text and the target of a link. -/
structure Link where
  text : List Char
  target : List Char
  deriving DecidableEq

def maxTargetChars : ℕ := 200

def validTarget (t : List Char) : Bool :=
  !t.isEmpty && decide (t.length ≤ maxTargetChars) && !t.any isControl

/-- What follows a fixed text. -/
def after? (fixed cs : List Char) : Option (List Char) :=
  if fixed.isPrefixOf cs then some (cs.drop fixed.length) else none

/-- `([^)\s]+)\)`, for one of the closing characters, and what follows. -/
def target? (close : Char) (cs : List Char) : Option (List Char × List Char) :=
  let target := cs.takeWhile fun c => c ≠ close && !isWhite c
  if target = [] then none
  else (after? [close] (cs.drop target.length)).map fun rest => (target, rest)

/-- The pattern, from a place on: `\[([^\]\n]*)\]\(u2os:([^)\s]+)\)` or `<u2os:([^>\s]+)>`. -/
def matchAt (cs : List Char) : Option (Link × List Char) :=
  if cs.head? = some '[' then
    let text := cs.tail.takeWhile fun c => c ≠ ']' && c ≠ '\n'
    (after? "](u2os:".toList (cs.tail.drop text.length)).bind fun cs =>
      (target? ')' cs).map fun m => (⟨text, m.1⟩, m.2)
  else
    (after? "<u2os:".toList cs).bind fun cs => (target? '>' cs).map fun m => (⟨[], m.1⟩, m.2)

/-- `captures_iter`: the matches from left to right, none inside of another.  The number is of the
characters that belong to the match before. -/
def captures : ℕ → List Char → List Link
  | _, [] => []
  | skip + 1, _ :: cs => captures skip cs
  | 0, c :: cs =>
    match matchAt (c :: cs) with
    | none => captures 0 cs
    | some (link, rest) => link :: captures (cs.length - rest.length) cs

/-- The links of a line with a valid target. -/
def linksOn (line : List Char) : List Link :=
  (captures 0 line).filter fun link => validTarget link.target

/-- `strip_suffix('\r')`. -/
def stripReturn (line : List Char) : List Char :=
  if line.getLast? = some '\r' then line.dropLast else line

/-- `markdown.lines()`: what follows the last line feed is a line if there is something. -/
def lines (markdown : List Char) : List (List Char) :=
  let parts := markdown.splitOn '\n'
  parts.dropLast.map stripReturn ++ parts.getLast?.toList.filter (· ≠ [])

/-- `trimmed.starts_with("```") || trimmed.starts_with("~~~")`. -/
def isFence (line : List Char) : Bool :=
  let trimmed := line.dropWhile isWhite
  "```".toList.isPrefixOf trimmed || "~~~".toList.isPrefixOf trimmed

/-- A line of the loop: whether the reading is off, and the links so far. -/
def step (s : Bool × List Link) (line : List Char) : Bool × List Link :=
  if isFence line then (!s.1, s.2)
  else if s.1 then s
  else (s.1, s.2 ++ linksOn line)

def inlineLinks (markdown : List Char) : List Link := ((lines markdown).foldl step (false, [])).2

/-- For each line, whether it is read. -/
def readLines : Bool → List (List Char) → List Bool
  | _, [] => []
  | inFence, line :: ls => (!isFence line && !inFence) :: readLines (isFence line ^^ inFence) ls

/-- The character of a fence, and how many of it. -/
structure Fence where
  char : Char
  length : ℕ
  deriving DecidableEq

/-- At most three spaces and at least three of a character, and what follows these. -/
def fence? (line : List Char) : Option (Fence × List Char) :=
  let indent := (line.takeWhile (· = ' ')).length
  (line.drop indent).head?.bind fun c =>
    let n := ((line.drop indent).takeWhile (· = c)).length
    if indent ≤ 3 ∧ 3 ≤ n ∧ (c = '`' ∨ c = '~') then some (⟨c, n⟩, line.drop (indent + n)) else none

/-- The fence of a line that starts a block. -/
def opens (line : List Char) : Option Fence :=
  (fence? line).bind fun m => if m.1.char = '`' ∧ m.2.contains '`' then none else some m.1

/-- The line ends a block that was started with the fence. -/
def closes (fence : Fence) (line : List Char) : Bool :=
  (fence? line).any fun m =>
    m.1.char = fence.char && decide (fence.length ≤ m.1.length) && m.2.all fun c => c = ' ' || c = '\t'

/-- The block after a line. -/
def block (open? : Option Fence) (line : List Char) : Option Fence :=
  match open? with
  | none => opens line
  | some fence => if closes fence line then none else some fence

/-- For each line, whether it is outside of the fenced blocks, their fences included. -/
def outsideLines : Option Fence → List (List Char) → List Bool
  | _, [] => []
  | open?, line :: ls => (open?.isNone && (opens line).isNone) :: outsideLines (block open? line) ls

/-- For each line its links, if the line is taken. -/
def linksByLine (taken : List Bool) (ls : List (List Char)) : List (List Link) :=
  zipWith (fun t line => if t then linksOn line else []) taken ls

/-- The links on the lines outside of the fenced blocks. -/
def outsideLinks (markdown : List Char) : List Link :=
  (linksByLine (outsideLines none (lines markdown)) (lines markdown)).flatten

/-- The line looks like a fence and is none where it stands.  In a block: the other character, a
shorter run, a text after it or a deep indentation.  Outside: a code span or a deep indentation. -/
def isStray (open? : Option Fence) (line : List Char) : Bool :=
  isFence line && match open? with
    | none => (fence? line).all fun m => m.1.char = '`' && m.2.contains '`'
    | some fence => (fence? line).all fun m => m.1.char ≠ fence.char ||
        decide (m.1.length < fence.length) || !m.2.all fun c => c = ' ' || c = '\t'

/-- The number of stray lines. -/
def strays : Option Fence → List (List Char) → ℕ
  | _, [] => 0
  | open?, line :: ls => (isStray open? line).toNat + strays (block open? line) ls

/-- Before a line with links the stray lines are even in number, and it is not stray itself, except
in a block, where no such line is read. -/
def StraysPaired (markdown : List Char) : Prop :=
  ∀ (i : ℕ) line, (lines markdown)[i]? = some line → linksOn line ≠ [] →
    let before := (lines markdown).take i
    if isFence line then (before.foldl block none).isSome ∨ isStray none line = false
    else Even (strays none before)

example : inlineLinks
    "See [Alice](u2os:ent_alice) and <u2os:projects/house.md>.\n```\n[no](u2os:ent_code)\n```".toList =
    [⟨"Alice".toList, "ent_alice".toList⟩, ⟨[], "projects/house.md".toList⟩] := by decide +kernel

variable {ls : List (List Char)} {line : List Char} {taken taken' : List Bool}

theorem foldl_step (inFence : Bool) (out : List Link) :
    (ls.foldl step (inFence, out)).2 = out ++ (linksByLine (readLines inFence ls) ls).flatten := by
  induction ls generalizing inFence out with
  | nil => simp [linksByLine]
  | cons line ls ih =>
    rw [foldl_cons, step]
    -- a fence turns the reading around and has no links of its own
    by_cases hfence : isFence line
    · rw [if_pos hfence, ih]
      simp [linksByLine, readLines, hfence]
    · rw [if_neg hfence]
      cases inFence <;> simp [ih, linksByLine, readLines, hfence]

theorem inlineLinks_eq_flatten (markdown : List Char) :
    inlineLinks markdown =
      (linksByLine (readLines false (lines markdown)) (lines markdown)).flatten := by
  rw [inlineLinks, foldl_step, nil_append]

theorem length_readLines (inFence : Bool) : (readLines inFence ls).length = ls.length := by
  induction ls generalizing inFence with
  | nil => rfl
  | cons line ls ih => simp [readLines, ih]

theorem length_outsideLines (open? : Option Fence) :
    (outsideLines open? ls).length = ls.length := by
  induction ls generalizing open? with
  | nil => rfl
  | cons line ls ih => simp [outsideLines, ih]

theorem linksByLine_cons (t : Bool) (line : List Char) :
    linksByLine (t :: taken) (line :: ls) =
      (if t then linksOn line else []) :: linksByLine taken ls := rfl

/-- The links of a text are those that the lines in question have. -/
theorem linksByLine_eq_iff (h : taken.length = ls.length) (h' : taken'.length = ls.length) :
    linksByLine taken ls = linksByLine taken' ls ↔
      ∀ (i : ℕ) line, ls[i]? = some line → linksOn line ≠ [] → taken[i]? = taken'[i]? := by
  induction ls generalizing taken taken' with
  | nil => simp [linksByLine]
  | cons line ls ih =>
    obtain ⟨t, taken, rfl⟩ := exists_cons_of_length_eq_add_one h
    obtain ⟨t', taken', rfl⟩ := exists_cons_of_length_eq_add_one h'
    have hfirst : (if t then linksOn line else []) = (if t' then linksOn line else []) ↔
        (linksOn line ≠ [] → t = t') := by
      cases t <;> cases t' <;> simp [eq_comm (a := ([] : List Link))]
    rw [linksByLine_cons, linksByLine_cons, cons.injEq, hfirst,
      ih (by simpa using h) (by simpa using h')]
    constructor
    · rintro ⟨hline, hls⟩ (_ | i) l hl hne
      · simp_all
      · simpa using hls i l (by simpa using hl) hne
    · intro hall
      exact ⟨fun hne => by simpa using hall 0 line rfl hne,
        fun i l hl hne => by simpa using hall (i + 1) l (by simpa using hl) hne⟩

theorem linksByLine_subset {link : Link} (h : link ∈ (linksByLine taken ls).flatten) :
    link ∈ ls.flatMap linksOn := by
  induction ls generalizing taken with
  | nil => simp [linksByLine] at h
  | cons line ls ih =>
    cases taken with
    | nil => simp [linksByLine] at h
    | cons t taken =>
      rw [linksByLine_cons, flatten_cons, mem_append] at h
      rw [flatMap_cons, mem_append]
      refine h.imp (fun h => ?_) ih
      cases t with
      | true => exact h
      | false => simp at h

/-- Where no link stands twice, the lists of the lines are equal if the whole lists are. -/
theorem linksByLine_eq_of_flatten (hnodup : (ls.flatMap linksOn).Nodup)
    (h : taken.length = ls.length) (h' : taken'.length = ls.length)
    (hflat : (linksByLine taken ls).flatten = (linksByLine taken' ls).flatten) :
    linksByLine taken ls = linksByLine taken' ls := by
  induction ls generalizing taken taken' with
  | nil => simp [linksByLine]
  | cons line ls ih =>
    obtain ⟨t, taken, rfl⟩ := exists_cons_of_length_eq_add_one h
    obtain ⟨t', taken', rfl⟩ := exists_cons_of_length_eq_add_one h'
    rw [flatMap_cons, nodup_append] at hnodup
    obtain ⟨-, hrest, hdisjoint⟩ := hnodup
    simp only [linksByLine_cons, flatten_cons] at hflat ⊢
    -- links of the line are not among those of the lines after it
    have hnone : ∀ {taken₁ taken₂ : List Bool},
        linksOn line ++ (linksByLine taken₁ ls).flatten = (linksByLine taken₂ ls).flatten →
          linksOn line = [] := by
      intro taken₁ taken₂ heq
      refine eq_nil_iff_forall_not_mem.mpr fun link hlink => ?_
      have hlater : link ∈ (linksByLine taken₂ ls).flatten :=
        heq ▸ mem_append_left _ hlink
      exact hdisjoint link hlink link (linksByLine_subset hlater) rfl
    have hfirst : (if t then linksOn line else []) = (if t' then linksOn line else []) := by
      cases t <;> cases t'
      · rfl
      · exact (hnone hflat.symm).symm
      · exact hnone hflat
      · rfl
    rw [hfirst] at hflat ⊢
    rw [ih hrest (by simpa using h) (by simpa using h') (append_cancel_left hflat)]

/-! ### Stray lines -/

theorem isFence_of_fence? {m : Fence × List Char} (h : fence? line = some m) :
    isFence line = true := by
  obtain ⟨c, hc, h⟩ := bind_eq_some_iff.1 h
  obtain ⟨⟨-, hn, hchar⟩, -⟩ := ite_none_right_eq_some.1 h
  have hwhite : isWhite c = false := by rcases hchar with rfl | rfl <;> decide
  set rest := line.drop (line.takeWhile (· = ' ')).length with hrest
  have hline : line = line.takeWhile (· = ' ') ++ rest := by
    conv_lhs => rw [← take_append_drop (line.takeWhile (· = ' ')).length line]
    rw [← prefix_iff_eq_take.1 (List.takeWhile_prefix _)]
  -- what is left after the spaces begins with the run of the character, which is no white space
  have hrun : [c, c, c] <+: rest := by
    refine List.IsPrefix.trans ?_ (List.takeWhile_prefix (p := (· = c)) (l := rest))
    have hall : rest.takeWhile (· = c) = replicate (rest.takeWhile (· = c)).length c :=
      eq_replicate_of_mem fun x hx => by simpa using mem_takeWhile_imp hx
    rw [hall, show [c, c, c] = replicate 3 c from rfl]
    exact ⟨_, (replicate_append_replicate ..).trans (by rw [Nat.add_sub_cancel' hn])⟩
  have htrim : line.dropWhile isWhite = rest := by
    obtain ⟨tail, htail⟩ := hrun
    rw [hline, dropWhile_append_of_pos fun x hx => by
      simp [show x = ' ' by simpa using mem_takeWhile_imp hx, isWhite]]
    rw [← htail]
    exact dropWhile_cons_of_neg (by simp [hwhite])
  rw [isFence, htrim]
  rw [Bool.or_eq_true, isPrefixOf_iff_prefix, isPrefixOf_iff_prefix]
  rcases hchar with rfl | rfl
  · exact .inl hrun
  · exact .inr hrun

theorem isStray_none : isStray none line = (isFence line && (opens line).isNone) := by
  rw [isStray, opens]
  cases fence? line with
  | none => rfl
  | some m =>
    rw [bind_some, all_some]
    split_ifs with h <;> simp_all

theorem isStray_some {fence : Fence} :
    isStray (some fence) line = (isFence line && !closes fence line) := by
  rw [isStray, closes]
  cases fence? line with
  | none => rfl
  | some m => simp only [all_some, any_some]; grind

/-- Every line that looks like a fence turns the reading around, and a block starts or ends there,
unless it is stray. -/
theorem isSome_block (open? : Option Fence) (line : List Char) :
    (isFence line ^^ (block open? line).isSome) = (open?.isSome ^^ isStray open? line) := by
  cases open? with
  | none =>
    rw [isStray_none, block]
    cases hopens : opens line with
    | none => simp
    | some fence =>
      obtain ⟨m, hm, -⟩ := bind_eq_some_iff.1 hopens
      simp [isFence_of_fence? hm]
  | some fence =>
    rw [isStray_some, block]
    by_cases hcloses : closes fence line = true
    · obtain ⟨m, hm, -⟩ := (any_eq_true _ _).1 hcloses
      simp [hcloses, isFence_of_fence? hm]
    · simp [hcloses]

theorem getElem?_readLines {i : ℕ} (inFence : Bool) (h : ls[i]? = some line) :
    (readLines inFence ls)[i]? =
      some (!isFence line && !(ls.take i).foldl (fun s l => isFence l ^^ s) inFence) := by
  induction ls generalizing i inFence with
  | nil => simp at h
  | cons l ls ih =>
    cases i with
    | zero => simp_all [readLines]
    | succ i => simpa [readLines] using ih _ h

theorem getElem?_outsideLines {i : ℕ} (open? : Option Fence) (h : ls[i]? = some line) :
    (outsideLines open? ls)[i]? =
      some (((ls.take i).foldl block open?).isNone && (opens line).isNone) := by
  induction ls generalizing i open? with
  | nil => simp at h
  | cons l ls ih =>
    cases i with
    | zero => simp_all [outsideLines]
    | succ i => simpa [outsideLines] using ih _ h

/-- The reading is off in a block, and turned around once for each stray line. -/
theorem foldl_isFence (inFence : Bool) (open? : Option Fence) :
    ls.foldl (fun s l => isFence l ^^ s) inFence =
      ((ls.foldl block open?).isSome ^^ open?.isSome ^^ inFence ^^
        decide (strays open? ls % 2 = 1)) := by
  induction ls generalizing inFence open? with
  | nil => simp [strays]
  | cons line ls ih =>
    have hline := isSome_block open? line
    have hparity (b : Bool) (n : ℕ) :
        decide ((b.toNat + n) % 2 = 1) = (b ^^ decide (n % 2 = 1)) := by
      by_cases h : n % 2 = 1 <;> cases b <;> simp [h] <;> omega
    rw [foldl_cons, foldl_cons, ih (isFence line ^^ inFence) (block open? line), strays,
      hparity]
    have hxor : ∀ x b f i d o s : Bool, (f ^^ b) = (o ^^ s) →
        (x ^^ b ^^ (f ^^ i) ^^ d) = (x ^^ o ^^ i ^^ (s ^^ d)) := by decide
    exact hxor _ _ _ _ _ _ _ hline

theorem readLines_eq_outsideLines_iff (markdown : List Char) :
    (∀ (i : ℕ) line, (lines markdown)[i]? = some line → linksOn line ≠ [] →
      (readLines false (lines markdown))[i]? = (outsideLines none (lines markdown))[i]?) ↔
    StraysPaired markdown := by
  refine forall₄_congr fun i line hi _ => ?_
  rw [getElem?_readLines false hi, getElem?_outsideLines none hi, foldl_isFence false none]
  generalize hopen : ((lines markdown).take i).foldl block none = open?
  by_cases hfence : isFence line = true
  · rw [if_pos hfence, isStray_none, hfence]
    cases open? <;> cases opens line <;> simp [hopen]
  · have hopens : opens line = none := by
      refine eq_none_iff_forall_ne_some.2 fun fence hfence' => hfence ?_
      obtain ⟨m, hm, -⟩ := bind_eq_some_iff.1 hfence'
      exact isFence_of_fence? hm
    rw [if_neg hfence, Nat.even_iff, hopens]
    rcases Nat.mod_two_eq_zero_or_one (strays none ((lines markdown).take i)) with h | h <;>
      cases open? <;> simp [hfence, h]

/-- Line by line, the links are those outside of the fenced blocks just where the stray lines are
paired; then they are so all in all, and only then, unless a link is there twice. -/
theorem inlineLinks_iff (markdown : List Char) :
    (linksByLine (readLines false (lines markdown)) (lines markdown) =
        linksByLine (outsideLines none (lines markdown)) (lines markdown) ↔
      StraysPaired markdown) ∧
    (StraysPaired markdown → inlineLinks markdown = outsideLinks markdown) ∧
    (((lines markdown).flatMap linksOn).Nodup →
      (inlineLinks markdown = outsideLinks markdown ↔ StraysPaired markdown)) := by
  have hbyLine := (linksByLine_eq_iff (@length_readLines (lines markdown) false)
    (@length_outsideLines (lines markdown) none)).trans (readLines_eq_outsideLines_iff markdown)
  have hagree (h : StraysPaired markdown) : inlineLinks markdown = outsideLinks markdown := by
    rw [inlineLinks_eq_flatten, hbyLine.mpr h, outsideLinks]
  refine ⟨hbyLine, hagree, fun hnodup => ⟨fun h => ?_, hagree⟩⟩
  rw [inlineLinks_eq_flatten, outsideLinks] at h
  exact hbyLine.mp (linksByLine_eq_of_flatten hnodup (length_readLines false)
    (length_outsideLines none) h)

/-- A block of tildes that shows a fence of backticks. -/
theorem inlineLinks_tildes :
    inlineLinks "~~~\n```\n[no](u2os:ent_code)\n~~~".toList =
        [⟨"no".toList, "ent_code".toList⟩] ∧
      outsideLinks "~~~\n```\n[no](u2os:ent_code)\n~~~".toList = [] := by
  decide +kernel

end U2os.Majordomo.Memory.Links
