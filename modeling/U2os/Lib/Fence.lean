import Mathlib.Data.List.Basic
import Mathlib.Tactic.Common

/-!
# Fenced blocks of lines

A text that starts with a line of three dashes holds a block: the lines up to the next line that is
three dashes and blanks.  The closing fence needs a line break of its own before it, so the first
line of the block is never taken for one, and the opening fence directly followed by the closing one
holds no block at all.

A line ends in a line feed, which a carriage return may precede.
-/

namespace U2os.Fence

open List Option

variable {cs rest l g eol : List Char} {lines : List (List Char)} {c : Char}

/-- `\r?\n`. -/
def newline? : List Char → Option (List Char)
  | [] => none
  | c :: cs =>
    if c = '\n' then some cs
    else if c = '\r' ∧ cs.head? = some '\n' then some cs.tail
    else none

/-- `---`. -/
def dashes? (cs : List Char) : Option (List Char) :=
  if cs.take 3 = ['-', '-', '-'] then some (cs.drop 3) else none

/-- `[ \t]`. -/
def isBlank (c : Char) : Bool := c = ' ' || c = '\t'

/-- `---\r?\n`: what follows the opening fence. -/
def opening (cs : List Char) : Option (List Char) := (dashes? cs).bind newline?

/-- `[ \t]*(?:\r?\n|$)`. -/
def lineEnd (cs : List Char) : Option (List Char) :=
  if cs.dropWhile isBlank = [] then some [] else newline? (cs.dropWhile isBlank)

/-- `\r?\n---[ \t]*(?:\r?\n|$)`: what follows the closing fence. -/
def closing (cs : List Char) : Option (List Char) :=
  (newline? cs).bind fun cs => (dashes? cs).bind lineEnd

/-- The shortest text before a closing fence, and what follows the fence. -/
def block : List Char → Option (List Char × List Char)
  | [] => none
  | c :: cs =>
    match closing (c :: cs) with
    | some rest => some ([], rest)
    | none => (block cs).map fun b => (c :: b.1, b.2)

/-- `split(/\r?\n/)`. -/
def splitLines : List Char → List (List Char)
  | [] => [[]]
  | c :: cs =>
    if c = '\n' then [] :: splitLines cs
    else if c = '\r' ∧ cs.head? = some '\n' then splitLines cs
    else (c :: (splitLines cs).headD []) :: (splitLines cs).tail

/-- `join`. -/
def joinLines (eol : List Char) : List (List Char) → List Char
  | [] => []
  | [l] => l
  | l :: l' :: lines => l ++ (eol ++ joinLines eol (l' :: lines))

/-- A line of dashes and blanks. -/
def isFence (l : List Char) : Bool := (dashes? l).any fun rest => rest.all isBlank

example : block "a: 1\n---\nb".toList = some ("a: 1".toList, "b".toList) := by decide

/-- What ends the lines of a text. -/
inductive IsEol : List Char → Prop where
  | lf : IsEol ['\n']
  | crlf : IsEol ['\r', '\n']

/-- No line feed is within a line, and no carriage return is before the line feed that ends it. -/
structure IsLine (eol l : List Char) : Prop where
  noLineFeed : '\n' ∉ l
  noReturn : eol = ['\n'] → l.getLast? ≠ some '\r'

/-! ### What is at a place -/

theorem newline?_eol (h : IsEol eol) (cs : List Char) : newline? (eol ++ cs) = some cs := by
  cases h <;> simp [newline?]

theorem newline?_append (h : newline? cs = some rest) (more : List Char) :
    newline? (cs ++ more) = some (rest ++ more) := by
  cases cs with
  | nil => cases h
  | cons c cs =>
    rw [newline?] at h
    rw [cons_append, newline?]
    split_ifs at h with hlf hcr
    · cases h
      rw [if_pos hlf]
    · cases h
      obtain ⟨after, rfl⟩ : ∃ after, cs = '\n' :: after := head?_eq_some_iff.1 hcr.2
      rw [if_neg hlf, if_pos ⟨hcr.1, rfl⟩]
      rfl

theorem length_newline? (h : newline? cs = some rest) : rest.length < cs.length := by
  cases cs with
  | nil => cases h
  | cons c cs =>
    simp only [newline?] at h
    split_ifs at h with hlf hcr
    · cases h
      simp
    · cases h
      simp only [length_tail, length_cons]
      omega

theorem length_closing (h : closing cs = some rest) : rest.length + 4 ≤ cs.length := by
  obtain ⟨after, hafter, h⟩ := bind_eq_some_iff.1 h
  obtain ⟨tail, htail, h⟩ := bind_eq_some_iff.1 h
  have hlength := length_newline? hafter
  unfold dashes? at htail
  split_ifs at htail with hdashes
  cases htail
  have hthree : 3 ≤ after.length := by
    have htake := congrArg List.length hdashes
    simp only [length_take, length_cons, length_nil] at htake
    omega
  have hdrop : (after.drop 3).length = after.length - 3 := length_drop
  have hrest : rest.length ≤ (after.drop 3).length := by
    have hsuffix := (dropWhile_suffix (l := after.drop 3) isBlank).length_le
    unfold lineEnd at h
    split_ifs at h
    · cases h
      exact Nat.zero_le _
    · exact Nat.le_trans (Nat.le_of_lt (length_newline? h)) hsuffix
  omega

theorem length_block (h : block cs = some (g, rest)) :
    g.length + rest.length + 4 ≤ cs.length := by
  induction cs generalizing g with
  | nil => cases h
  | cons c cs ih =>
    rw [block] at h
    split at h
    · next hclosing =>
      cases h
      simpa using length_closing hclosing
    · obtain ⟨⟨g', rest'⟩, hb, hg⟩ := map_eq_some_iff.1 h
      cases hg
      have hlength := ih hb
      dsimp only at hlength ⊢
      simp only [length_cons]
      omega

theorem closing_fence (h : IsEol eol) (rest : List Char) :
    closing (eol ++ (['-', '-', '-'] ++ (eol ++ rest))) = some rest := by
  unfold closing
  rw [newline?_eol h]
  cases h <;> simp [dashes?, lineEnd, newline?, isBlank, List.dropWhile]

theorem dashes?_append (h : IsEol eol) (l cs : List Char) :
    dashes? (l ++ (eol ++ cs)) = (dashes? l).map fun rest => rest ++ (eol ++ cs) := by
  -- three dashes are there within the line or not at all
  rcases l with _ | ⟨a, _ | ⟨b, _ | ⟨c, l⟩⟩⟩
  · cases h <;> simp [dashes?]
  · cases h <;> simp [dashes?]
  · cases h <;> simp [dashes?]
  · unfold dashes?
    simp only [cons_append, take_succ_cons, take_zero, drop_succ_cons,
      drop_zero]
    split_ifs <;> rfl

theorem IsLine.tail (h : IsLine eol (c :: l)) : IsLine eol l where
  noLineFeed hmem := h.noLineFeed (List.mem_cons_of_mem _ hmem)
  noReturn heol hlast := by
    cases l with
    | nil => cases hlast
    | cons a l =>
      refine h.noReturn heol ?_
      rwa [getLast?_cons_cons]

theorem newline?_cons (hc : c ≠ '\n') (hcr : c = '\r' → cs.head? ≠ some '\n') :
    newline? (c :: cs) = none := by
  rw [newline?, if_neg hc, if_neg fun h => hcr h.1 h.2]

theorem IsLine.newline? (heol : IsEol eol) (h : IsLine eol (c :: l)) (cs : List Char) :
    newline? (c :: (l ++ (eol ++ cs))) = none := by
  refine newline?_cons (fun hc => h.noLineFeed (hc ▸ mem_cons_self)) fun hc hhead => ?_
  cases l with
  | nil =>
    cases heol with
    | lf => exact h.noReturn rfl (by rw [hc]; rfl)
    | crlf => simp at hhead
  | cons a l =>
    rw [cons_append, head?_cons, some.injEq] at hhead
    exact h.noLineFeed (by simp [hhead])

theorem lineEnd_append (heol : IsEol eol) (h : IsLine eol l) (cs : List Char) :
    lineEnd (l ++ (eol ++ cs)) = if l.all isBlank = true then some cs else none := by
  induction l with
  | nil =>
    have hdrop : (eol ++ cs).dropWhile isBlank = eol ++ cs := by
      cases heol <;> simp [isBlank]
    have hne : eol ++ cs ≠ [] := by cases heol <;> simp
    rw [nil_append, lineEnd, hdrop, if_neg hne, newline?_eol heol]
    rfl
  | cons c l ih =>
    by_cases hc : isBlank c = true
    · have hskip : lineEnd (c :: l ++ (eol ++ cs)) = lineEnd (l ++ (eol ++ cs)) := by
        simp only [lineEnd, cons_append, dropWhile_cons_of_pos hc]
      rw [hskip, ih h.tail, all_cons, hc, Bool.true_and]
    · have hstop : ((c :: l) ++ (eol ++ cs)).dropWhile isBlank = c :: (l ++ (eol ++ cs)) := by
        rw [cons_append, dropWhile_cons_of_neg hc]
      rw [lineEnd, hstop, if_neg (cons_ne_nil _ _), h.newline? heol, if_neg]
      simp [hc]

theorem isLine_drop (h : IsLine eol l) (n : ℕ) : IsLine eol (l.drop n) := by
  induction n generalizing l with
  | zero => exact h
  | succ n ih =>
    cases l with
    | nil => exact h
    | cons c l => exact ih h.tail

theorem closing_line (heol : IsEol eol) (h : IsLine eol l) (cs : List Char) :
    closing (eol ++ (l ++ (eol ++ cs))) = if isFence l = true then some cs else none := by
  unfold closing isFence
  rw [newline?_eol heol, bind_some, dashes?_append heol]
  unfold dashes?
  by_cases hdashes : l.take 3 = ['-', '-', '-']
  · rw [if_pos hdashes, map_some, bind_some,
      lineEnd_append heol (isLine_drop h 3), any_some]
  · rw [if_neg hdashes, map_none, bind_none, any_none, if_neg]
    exact Bool.false_ne_true

theorem block_append (hl : '\n' ∉ l)
    (hr : l.getLast? = some '\r' → cs.head? ≠ some '\n') :
    block (l ++ cs) = (block cs).map fun b => (l ++ b.1, b.2) := by
  induction l with
  | nil => simp
  | cons c l ih =>
    have hnone : closing (c :: (l ++ cs)) = none := by
      unfold closing
      rw [newline?_cons, bind_none]
      · exact fun hc => hl (hc ▸ mem_cons_self)
      · intro hc hhead
        cases l with
        | nil => exact hr (by rw [hc]; rfl) hhead
        | cons a l =>
          rw [cons_append, head?_cons, Option.some.injEq] at hhead
          exact hl (by simp [hhead])
    have hrest : l.getLast? = some '\r' → cs.head? ≠ some '\n' := by
      intro hlast
      cases l with
      | nil => cases hlast
      | cons a l => exact hr (by rwa [getLast?_cons_cons])
    rw [cons_append, block, hnone]
    dsimp only
    rw [ih (fun hmem => hl (mem_cons_of_mem _ hmem)) hrest, Option.map_map]
    rfl

theorem IsLine.append (heol : IsEol eol) (h : IsLine eol l) (cs : List Char) :
    block (l ++ (eol ++ cs)) = (block (eol ++ cs)).map fun b => (l ++ b.1, b.2) := by
  refine block_append h.noLineFeed fun hlast => ?_
  cases heol with
  | lf => exact absurd hlast (h.noReturn rfl)
  | crlf => simp

theorem block_eol (heol : IsEol eol) (h : closing (eol ++ cs) = none) :
    block (eol ++ cs) = (block cs).map fun b => (eol ++ b.1, b.2) := by
  cases heol with
  | lf =>
    rw [singleton_append] at h ⊢
    rw [block, h]
    rfl
  | crlf =>
    have hlf : closing ('\n' :: cs) = none := by
      simpa [closing, newline?] using h
    rw [cons_append, singleton_append] at h ⊢
    rw [block, h, block, hlf]
    dsimp only
    rw [Option.map_map]
    rfl

theorem block_fence (heol : IsEol eol) (rest : List Char) :
    block (eol ++ (['-', '-', '-'] ++ (eol ++ rest))) = some ([], rest) := by
  have h := closing_fence heol rest
  cases heol <;> rw [cons_append] at h ⊢ <;> rw [block, h]

theorem block_joinLines (heol : IsEol eol) (hlines : ∀ l ∈ lines, IsLine eol l)
    (hfence : ∀ l ∈ lines.tail, isFence l = false) (rest : List Char) :
    block (joinLines eol lines ++ (eol ++ (['-', '-', '-'] ++ (eol ++ rest)))) =
      some (joinLines eol lines, rest) := by
  induction lines with
  | nil => exact block_fence heol rest
  | cons l lines ih =>
    obtain ⟨hl, hlines⟩ := forall_mem_cons.1 hlines
    cases lines with
    | nil =>
      rw [joinLines, hl.append heol, block_fence heol, map_some, append_nil]
    | cons l' lines =>
      have htail : ∀ m ∈ lines, isFence m = false :=
        fun m hm => hfence m (mem_cons_of_mem _ hm)
      have hl' : closing (eol ++ (joinLines eol (l' :: lines) ++
          (eol ++ (['-', '-', '-'] ++ (eol ++ rest))))) = none := by
        have hnot := hfence l' mem_cons_self
        cases lines with
        | nil =>
          rw [joinLines, closing_line heol (hlines l' mem_cons_self), hnot]
          rfl
        | cons l'' lines =>
          rw [joinLines, append_assoc, append_assoc,
            closing_line heol (hlines l' mem_cons_self), hnot]
          rfl
      rw [joinLines, append_assoc, append_assoc, hl.append heol, block_eol heol hl',
        ih hlines htail]
      rfl

/-! ### The lines of a block -/

theorem splitLines_ne_nil (cs : List Char) : splitLines cs ≠ [] := by
  induction cs with
  | nil => exact cons_ne_nil _ _
  | cons c cs ih =>
    rw [splitLines]
    split_ifs
    · exact cons_ne_nil _ _
    · exact ih
    · exact cons_ne_nil _ _

theorem splitLines_cons (hc : c ≠ '\n') (hcr : ¬(c = '\r' ∧ cs.head? = some '\n')) :
    ∃ first others, splitLines cs = first :: others ∧
      splitLines (c :: cs) = (c :: first) :: others := by
  obtain ⟨first, others, h⟩ := exists_cons_of_ne_nil (splitLines_ne_nil cs)
  exact ⟨first, others, h, by rw [splitLines, if_neg hc, if_neg hcr, h]; rfl⟩

theorem noLineFeed_splitLines : ∀ l ∈ splitLines cs, '\n' ∉ l := by
  induction cs with
  | nil => simp [splitLines]
  | cons c cs ih =>
    by_cases hc : c = '\n'
    · rw [splitLines, if_pos hc]
      exact forall_mem_cons.2 ⟨not_mem_nil, ih⟩
    · by_cases hcr : c = '\r' ∧ cs.head? = some '\n'
      · rw [splitLines, if_neg hc, if_pos hcr]
        exact ih
      · obtain ⟨first, others, h, hcons⟩ := splitLines_cons hc hcr
        rw [h] at ih
        obtain ⟨hfirst, hothers⟩ := forall_mem_cons.1 ih
        rw [hcons]
        refine forall_mem_cons.2 ⟨fun hmem => ?_, hothers⟩
        exact (mem_cons.1 hmem).elim (fun h => hc h.symm) hfirst

theorem mem_of_mem_splitLines (hl : l ∈ splitLines cs) (hc : c ∈ l) : c ∈ cs := by
  induction cs generalizing l with
  | nil =>
    rw [splitLines, mem_singleton] at hl
    exact hl ▸ hc
  | cons a cs ih =>
    by_cases ha : a = '\n'
    · rw [splitLines, if_pos ha] at hl
      rcases mem_cons.1 hl with rfl | hl
      · cases hc
      · exact mem_cons_of_mem _ (ih hl hc)
    · by_cases hcr : a = '\r' ∧ cs.head? = some '\n'
      · rw [splitLines, if_neg ha, if_pos hcr] at hl
        exact mem_cons_of_mem _ (ih hl hc)
      · obtain ⟨first, others, hsplit, hcons⟩ := splitLines_cons ha hcr
        rw [hsplit] at ih
        rw [hcons] at hl
        rcases mem_cons.1 hl with rfl | hl
        · rcases mem_cons.1 hc with rfl | hc
          · exact mem_cons_self
          · exact mem_cons_of_mem _ (ih mem_cons_self hc)
        · exact mem_cons_of_mem _ (ih (mem_cons_of_mem _ hl) hc)

theorem first_line {first : List Char} {others : List (List Char)}
    (h : splitLines cs = first :: others) :
    ∃ rest, cs = first ++ rest ∧ (rest = [] ∨ ∃ after, newline? rest = some after) := by
  induction cs generalizing first others with
  | nil =>
    cases h
    exact ⟨[], rfl, .inl rfl⟩
  | cons c cs ih =>
    by_cases hc : c = '\n'
    · rw [splitLines, if_pos hc] at h
      cases h
      exact ⟨c :: cs, rfl, .inr ⟨cs, if_pos hc⟩⟩
    · by_cases hcr : c = '\r' ∧ cs.head? = some '\n'
      · rw [splitLines, if_neg hc, if_pos hcr] at h
        -- the line feed that follows ends the line too
        obtain ⟨after, rfl⟩ : ∃ after, cs = '\n' :: after := head?_eq_some_iff.1 hcr.2
        rw [splitLines, if_pos rfl] at h
        cases h
        refine ⟨c :: '\n' :: after, rfl, .inr ⟨after, ?_⟩⟩
        rw [newline?, if_neg hc, if_pos hcr, tail_cons]
      · obtain ⟨first', others', hsplit, hcons⟩ := splitLines_cons hc hcr
        rw [hcons] at h
        cases h
        obtain ⟨rest, rfl, hrest⟩ := ih hsplit
        exact ⟨rest, rfl, hrest⟩

theorem closing_of_block (h : block cs = some (g, rest)) :
    ∃ fence, cs = g ++ fence ∧ closing fence = some rest := by
  induction cs generalizing g with
  | nil => cases h
  | cons c cs ih =>
    rw [block] at h
    split at h
    · next hclosing =>
      cases h
      exact ⟨_, rfl, hclosing⟩
    · obtain ⟨⟨g', rest'⟩, hb, hg⟩ := map_eq_some_iff.1 h
      cases hg
      obtain ⟨fence, rfl, hclosing⟩ := ih hb
      exact ⟨fence, rfl, hclosing⟩

theorem first_line_of_block {first : List Char} {others : List (List Char)}
    (h : block cs = some (g, rest)) (hsplit : splitLines g = first :: others) :
    ∃ tail after, cs = first ++ tail ∧ newline? tail = some after := by
  obtain ⟨fence, rfl, hfenced⟩ := closing_of_block h
  obtain ⟨tail, rfl, rfl | ⟨after, hafter⟩⟩ := first_line hsplit
  · obtain ⟨after, hafter, _⟩ := bind_eq_some_iff.1 hfenced
    exact ⟨fence, after, by rw [append_nil], hafter⟩
  · exact ⟨_, _, append_assoc _ _ _, newline?_append hafter fence⟩

theorem closing_of_isFence {after : List Char} (hl : isFence l = true)
    (hafter : newline? cs = some after) :
    closing ('\n' :: (l ++ cs)) = some after := by
  unfold isFence dashes? at hl
  have hdashes : l.take 3 = ['-', '-', '-'] := by
    by_contra hne
    rw [if_neg hne] at hl
    cases hl
  rw [if_pos hdashes] at hl
  have hblank : ∀ c ∈ l.drop 3, isBlank c = true := List.all_eq_true.1 hl
  obtain ⟨c, cs, rfl⟩ := exists_cons_of_ne_nil (fun h : cs = [] => by
    rw [h] at hafter
    cases hafter)
  have hc : isBlank c = false := by
    rw [newline?] at hafter
    split_ifs at hafter with hlf hcr
    · rw [hlf]
      rfl
    · rw [hcr.1]
      rfl
  have hl3 : l = '-' :: '-' :: '-' :: l.drop 3 := by
    conv_lhs => rw [← take_append_drop 3 l, hdashes]
    rfl
  have hdrop : (l.drop 3 ++ c :: cs).dropWhile isBlank = c :: cs := by
    rw [dropWhile_append_of_pos hblank, dropWhile_cons_of_neg (by simp [hc])]
  unfold closing
  rw [newline?, if_pos rfl, bind_some, hl3]
  simp only [dashes?, cons_append, take_succ_cons, take_zero, drop_succ_cons,
    drop_zero, if_true, bind_some, lineEnd]
  rw [hdrop, if_neg (cons_ne_nil _ _)]
  exact hafter

/-- No line of a block is a fence, but the first. -/
theorem notFence_of_block (h : block cs = some (g, rest)) :
    ∀ l ∈ (splitLines g).tail, isFence l = false := by
  induction cs generalizing g with
  | nil => cases h
  | cons c cs ih =>
    rw [block] at h
    split at h
    · cases h
      simp [splitLines]
    · next hclosing =>
      obtain ⟨⟨g', rest'⟩, hb, hg⟩ := map_eq_some_iff.1 h
      cases hg
      have hothers := ih hb
      by_cases hc : c = '\n'
      · rw [splitLines, if_pos hc, tail_cons]
        obtain ⟨first, others, hsplit⟩ := exists_cons_of_ne_nil (splitLines_ne_nil g')
        rw [hsplit] at hothers ⊢
        refine forall_mem_cons.2 ⟨?_, hothers⟩
        -- the first line after this line break would have closed the block here
        by_contra hfence
        obtain ⟨tail, after, rfl, hafter⟩ := first_line_of_block hb hsplit
        rw [hc, closing_of_isFence (by simpa using hfence) hafter] at hclosing
        cases hclosing
      · by_cases hcr : c = '\r' ∧ g'.head? = some '\n'
        · rw [splitLines, if_neg hc, if_pos hcr]
          exact hothers
        · obtain ⟨first, others, hsplit, hcons⟩ := splitLines_cons hc hcr
          rw [hsplit] at hothers
          rw [hcons]
          exact hothers

/-- `includes('\r\n')`. -/
def hasCrlf : List Char → Bool
  | [] => false
  | c :: cs => (c = '\r' && cs.head? = some '\n') || hasCrlf cs

theorem hasCrlf_cons (c : Char) (h : hasCrlf cs = true) : hasCrlf (c :: cs) = true := by
  rw [hasCrlf, h, Bool.or_true]

theorem hasCrlf_return (h : cs.head? = some '\n') : hasCrlf ('\r' :: cs) = true := by
  simp [hasCrlf, h]

theorem hasCrlf_append (l : List Char) (h : hasCrlf cs = true) : hasCrlf (l ++ cs) = true := by
  induction l with
  | nil => exact h
  | cons c l ih => exact hasCrlf_cons c ih

/-- A line of a block that ends in a return was read from a text with such line ends. -/
theorem hasCrlf_of_block (h : block cs = some (g, rest)) (hl : l ∈ splitLines g)
    (hlast : l.getLast? = some '\r') :
    hasCrlf (cs.take (cs.length - rest.length)) = true := by
  induction cs generalizing g l with
  | nil => cases h
  | cons c cs ih =>
    rw [block] at h
    split at h
    · cases h
      rw [splitLines, mem_singleton] at hl
      rw [hl] at hlast
      cases hlast
    · next hclosing =>
      obtain ⟨⟨g', rest'⟩, hb, hg⟩ := map_eq_some_iff.1 h
      cases hg
      have hlength := length_block hb
      dsimp only at hl ⊢
      have htake : (c :: cs).take ((c :: cs).length - rest'.length) =
          c :: cs.take (cs.length - rest'.length) := by
        rw [length_cons, Nat.sub_add_comm (by omega), take_succ_cons]
      rw [htake]
      obtain ⟨n, hn⟩ : ∃ n, cs.length - rest'.length = n + 2 :=
        ⟨cs.length - rest'.length - 2, by omega⟩
      have hhead (k : ℕ) (cs : List Char) : (cs.take (k + 1)).head? = cs.head? := by
        cases cs <;> rfl
      by_cases hc : c = '\n'
      · rw [splitLines, if_pos hc] at hl
        rcases mem_cons.1 hl with rfl | hl
        · cases hlast
        · exact hasCrlf_cons c (ih hb hl hlast)
      · by_cases hcr : c = '\r' ∧ g'.head? = some '\n'
        · obtain ⟨fence, rfl, _⟩ := closing_of_block hb
          rw [hcr.1, hn]
          refine hasCrlf_return ((hhead _ _).trans ?_)
          rw [head?_append, hcr.2]
          rfl
        · obtain ⟨first, others, hsplit, hcons⟩ := splitLines_cons hc hcr
          have hrest (m : List Char) (hm : m ∈ first :: others) (hmlast : m.getLast? = some '\r') :
              hasCrlf (c :: cs.take (cs.length - rest'.length)) = true :=
            hasCrlf_cons c (ih hb (hsplit ▸ hm) hmlast)
          rw [hcons] at hl
          rcases mem_cons.1 hl with rfl | hl
          · cases first with
            | cons a first =>
              refine hrest _ mem_cons_self ?_
              rwa [getLast?_cons_cons] at hlast
            | nil =>
              -- the carriage return stands before the line break that ends the line
              obtain rfl : c = '\r' := by simpa using hlast
              obtain ⟨tail, after, hcs, hafter⟩ := first_line_of_block hb hsplit
              obtain rfl : cs = tail := hcs
              rw [hn]
              cases cs with
              | nil => cases hafter
              | cons a cs =>
                rw [newline?] at hafter
                split_ifs at hafter with hlf hret
                · exact hasCrlf_return ((hhead _ _).trans (by rw [hlf]; rfl))
                · rw [hret.1, take_succ_cons]
                  exact hasCrlf_cons _ (hasCrlf_return ((hhead _ _).trans hret.2))
          · exact hrest l (mem_cons_of_mem _ hl) hlast

theorem isLine_of_block (h : block cs = some (g, rest))
    (hcrlf : hasCrlf (cs.take (cs.length - rest.length)) = true → eol ≠ ['\n']) :
    ∀ l ∈ splitLines g, IsLine eol l := by
  intro l hl
  refine ⟨noLineFeed_splitLines l hl, fun hlf hlast => ?_⟩
  exact hcrlf (hasCrlf_of_block h hl hlast) hlf

theorem splitOn_eq_splitLines (h : '\r' ∉ cs) : cs.splitOn '\n' = splitLines cs := by
  induction cs with
  | nil => rfl
  | cons c cs ih =>
    have hc : c ≠ '\r' := fun hc => h (hc ▸ mem_cons_self)
    have hrest := ih fun hmem => h (mem_cons_of_mem _ hmem)
    rw [splitOn_eq_splitOnP] at hrest ⊢
    rw [splitOnP_cons_eq_if_modifyHead, hrest, splitLines]
    by_cases hlf : c = '\n'
    · simp [hlf]
    · obtain ⟨first, others, hsplit⟩ := exists_cons_of_ne_nil (splitLines_ne_nil cs)
      simp [hlf, hc, hsplit]

theorem joinLines_splitLines (h : '\r' ∉ cs) : joinLines ['\n'] (splitLines cs) = cs := by
  induction cs with
  | nil => rfl
  | cons c cs ih =>
    have hc : c ≠ '\r' := fun hc => h (hc ▸ mem_cons_self)
    have hrest := ih fun hmem => h (mem_cons_of_mem _ hmem)
    obtain ⟨first, others, hsplit⟩ := exists_cons_of_ne_nil (splitLines_ne_nil cs)
    rw [splitLines]
    rw [hsplit] at hrest ⊢
    by_cases hlf : c = '\n'
    · rw [if_pos hlf, joinLines, hrest, hlf]
      rfl
    · rw [if_neg hlf, if_neg fun h => hc h.1]
      cases others with
      | nil => rw [← hrest]; rfl
      | cons l others => rw [← hrest]; rfl

/-- No line begins with three dashes. -/
structure Dashless (cs : List Char) : Prop where
  first : dashes? cs = none
  later : ∀ a b, cs = a ++ b → a.getLast? = some '\n' → dashes? b = none

theorem dashes?_of_append (more : List Char) (h : dashes? (l ++ more) = none) :
    dashes? l = none := by
  by_contra hne
  unfold dashes? at h hne
  split_ifs at hne with hdashes
  · have hlength := congrArg List.length hdashes
    simp only [length_take, length_cons, length_nil] at hlength
    rw [take_append_of_le_length (by omega), if_pos hdashes] at h
    cases h
  · exact hne rfl

theorem Dashless.of_append (h : Dashless (l ++ cs)) : Dashless l where
  first := dashes?_of_append cs h.first
  later a b hl hlast := by
    refine dashes?_of_append cs (h.later a (b ++ cs) ?_ hlast)
    rw [hl, append_assoc]

theorem dashes?_splitLines (h : Dashless cs) : ∀ l ∈ splitLines cs, dashes? l = none := by
  have hothers : ∀ cs, (∀ a b, cs = a ++ b → a.getLast? = some '\n' → dashes? b = none) →
      ∀ l ∈ (splitLines cs).tail, dashes? l = none := by
    intro cs
    induction cs with
    | nil => simp [splitLines]
    | cons c cs ih =>
      intro hlater
      have hrest := ih fun a b hcs hlast => hlater (c :: a) b (by rw [hcs]; rfl) (by
        cases a with
        | nil => cases hlast
        | cons x a => rwa [getLast?_cons_cons])
      by_cases hc : c = '\n'
      · rw [splitLines, if_pos hc, tail_cons]
        obtain ⟨first, others, hsplit⟩ := exists_cons_of_ne_nil (splitLines_ne_nil cs)
        obtain ⟨tail, hcs, _⟩ := first_line hsplit
        rw [hsplit] at hrest ⊢
        refine forall_mem_cons.2 ⟨dashes?_of_append tail ?_, hrest⟩
        exact hlater [c] (first ++ tail) (by rw [hcs]; rfl) (by rw [hc]; rfl)
      · by_cases hcr : c = '\r' ∧ cs.head? = some '\n'
        · rw [splitLines, if_neg hc, if_pos hcr]
          exact hrest
        · obtain ⟨first, others, hsplit, hcons⟩ := splitLines_cons hc hcr
          rw [hsplit] at hrest
          rw [hcons]
          exact hrest
  obtain ⟨first, others, hsplit⟩ := exists_cons_of_ne_nil (splitLines_ne_nil cs)
  obtain ⟨tail, hcs, _⟩ := first_line hsplit
  have hrest := hothers cs h.later
  rw [hsplit] at hrest ⊢
  exact forall_mem_cons.2 ⟨dashes?_of_append tail (hcs ▸ h.first), hrest⟩

theorem isFence_of_dashes? (h : dashes? l = none) : isFence l = false := by
  rw [isFence, h]
  rfl

end U2os.Fence
