import U2os.Lib.Shell

/-!
# Paths in a shell command

Scrubbing paths out of the history runs `git filter-branch` with a command text of its own, which a
shell reads once per commit.  The paths stand in that text in single quotes.

Main results.
* `tokens_script`: the command has the words of the source and one word per path.
* `tokens_shQuote`: a quoted text is one word, and the word is the text.
-/

namespace U2os.Majordomo.Git

open Shell

/-- `s.replace('\'', "'\\''")`. -/
def replaceQuotes (s : List Char) : List Char :=
  s.flatMap fun c => if c = '\'' then ['\'', '\\', '\'', '\''] else [c]

def shQuote (s : List Char) : List Char := '\'' :: (replaceQuotes s ++ ['\''])

/-- The command before the paths. -/
def removal : List Char := "git --literal-pathspecs rm --cached --ignore-unmatch -q -- ".toList

/-- The words before the paths. -/
def removalWords : List (List Char) :=
  ["git".toList, "--literal-pathspecs".toList, "rm".toList, "--cached".toList,
    "--ignore-unmatch".toList, "-q".toList, "--".toList]

/-- `quoted.join(" ")`. -/
def joinWords (words : List (List Char)) : List Char := (words.intersperse [' ']).flatten

/-- The index filter of `scrub_history`. -/
def script (paths : List (List Char)) : List Char :=
  removal ++ joinWords (paths.map shQuote)

variable {s : List Char} {paths : List (List Char)}

/-- A character of the text, read inside of the quotes.  A quote leaves them, stands escaped outside
and enters them again. -/
theorem read_replaced (ts : List Token) (w : List Letter) {c : Char} (hc : c ≠ '\x00') :
    Reader.read ⟨ts, some w, .single⟩ (if c = '\'' then ['\'', '\\', '\'', '\''] else [c]) =
      some ⟨ts, some (w ++ [⟨c, true⟩]), .single⟩ := by
  split_ifs with hq
  · subst hq
    rfl
  · simp [Reader.read, Reader.step, Reader.push, hc, hq]

/-- Quotes inside a quoted word are read as quotes. -/
theorem read_replaceQuotes (ts : List Token) (w : List Letter) (hs : '\x00' ∉ s) :
    Reader.read ⟨ts, some w, .single⟩ (replaceQuotes s) =
      some ⟨ts, some (w ++ s.map (⟨·, true⟩)), .single⟩ := by
  induction s generalizing w with
  | nil => simp [replaceQuotes, Reader.read]
  | cons c s ih =>
    obtain ⟨hc, hs⟩ := not_or.mp (List.mem_cons.not.mp hs)
    have hsplit : replaceQuotes (c :: s) =
        (if c = '\'' then ['\'', '\\', '\'', '\''] else [c]) ++ replaceQuotes s := rfl
    rw [hsplit, read_append, read_replaced ts w (Ne.symm hc), Option.bind_some, ih _ hs]
    simp

theorem read_shQuote (hs : '\x00' ∉ s) :
    Reader.read {} (shQuote s) = some { word := some (s.map (⟨·, true⟩)) } := by
  have hopen : Reader.step {} '\'' = some ⟨[], some [], .single⟩ := rfl
  rw [shQuote, read_cons, hopen, Option.bind_some, read_append, read_replaceQuotes _ _ hs]
  rfl

theorem completes_shQuote (hs : '\x00' ∉ s) : Completes (shQuote s ++ [' ']) [literal s] := by
  rw [Completes, read_append, read_shQuote hs]
  rfl

theorem tokens_quoted (hs : '\x00' ∉ s) : tokens (shQuote s) = some [literal s] := by
  rw [tokens, read_shQuote hs]
  rfl

theorem completes_removal : Completes removal (removalWords.map bare) := by
  unfold Completes
  decide +kernel

/-- The shell reads quoted paths as these paths, one word each. -/
theorem tokens_joinWords (hpaths : ∀ p ∈ paths, '\x00' ∉ p) :
    tokens (joinWords (paths.map shQuote)) = some (paths.map literal) := by
  induction paths with
  | nil => rfl
  | cons p paths ih =>
    obtain ⟨hp, hpaths⟩ := List.forall_mem_cons.mp hpaths
    cases paths with
    | nil => simpa [joinWords] using tokens_quoted hp
    | cons q paths =>
      have hsplit : joinWords ((p :: q :: paths).map shQuote) =
          shQuote p ++ [' '] ++ joinWords ((q :: paths).map shQuote) := by simp [joinWords]
      rw [hsplit, tokens_append (completes_shQuote hp), ih hpaths]
      rfl

theorem tokens_script (hpaths : ∀ p ∈ paths, '\x00' ∉ p) :
    tokens (script paths) = some (removalWords.map bare ++ paths.map literal) := by
  rw [script, tokens_append completes_removal, tokens_joinWords hpaths, Option.map_some]

/-- A text without NUL is quoted as one word, and the word is the text: alone, between other words,
and among the paths of the command. -/
theorem tokens_shQuote (s : List Char) (hs : '\x00' ∉ s) :
    tokens (shQuote s) = some [literal s] ∧
      (∀ pre ts, Completes pre ts →
        tokens (pre ++ shQuote s) = some (ts ++ [literal s]) ∧
        ∀ post, tokens (pre ++ shQuote s ++ ' ' :: post) =
          (tokens post).map (ts ++ literal s :: ·)) ∧
      ∀ before after, (∀ p ∈ before ++ after, '\x00' ∉ p) →
        tokens (script (before ++ s :: after)) =
          some (removalWords.map bare ++ before.map literal ++ literal s :: after.map literal) := by
  refine ⟨tokens_quoted hs, fun pre ts hpre => ⟨?alone, fun post => ?between⟩,
    fun before after hpaths => ?script⟩
  case alone => rw [tokens_append hpre, tokens_quoted hs, Option.map_some]
  case between =>
    have hboth : Completes (pre ++ (shQuote s ++ [' '])) (ts ++ [literal s]) :=
      hpre.append (completes_shQuote hs)
    simpa using tokens_append (t := post) hboth
  case script =>
    have hall : ∀ p ∈ before ++ s :: after, '\x00' ∉ p := by
      intro p hp
      rcases List.mem_append.mp hp with h | h
      · exact hpaths p (List.mem_append_left _ h)
      rcases List.mem_cons.mp h with rfl | h
      · exact hs
      · exact hpaths p (List.mem_append_right _ h)
    rw [tokens_script hall]
    simp

/-- A file name with quotes, an operator and an expansion. -/
theorem tokens_shQuote_name :
    tokens (shQuote "it's; $(rm) 'x'".toList) = some [literal "it's; $(rm) 'x'".toList] :=
  (tokens_shQuote "it's; $(rm) 'x'".toList (by decide)).1

end U2os.Majordomo.Git
