import U2os.Majordomo.Date
import U2os.Majordomo.Vault.Markdown

/-!
# The history of a record

What `git log -z --name-status` prints in the format of `history.rs`, and how `parse_log` reads it.
Records are told apart by U+001E, the fields of a record by U+001F, and paths by NUL.  Git keeps NUL
out of all of these, but the other two may stand in a name, a subject or a path.

Main results.
* `not_mem_of_mem_parseLog`: no entry that is read has a separator in it.
* `parseLog_log`: just the commits without a separator are read as they are.
-/

namespace U2os.Majordomo.Git

open List Option

open Vault (isWhite trimChars)
open Scheduler (digitsValue)

structure Change where
  status : Char
  path : List Char
  oldPath : Option (List Char)
  deriving DecidableEq

structure Entry where
  commit : List Char
  author : List Char
  timestamp : ℤ
  date : List Char
  subject : List Char
  changes : List Change
  deriving DecidableEq

/-- `str::parse::<i64>`. -/
def parseI64 (s : List Char) : Option ℤ :=
  let value := match s with
    | '-' :: ds => (digitsValue ds).map fun n => -n
    | '+' :: ds => digitsValue ds
    | ds => digitsValue ds
  value.filter fun n => -2 ^ 63 ≤ n ∧ n < 2 ^ 63

/-- The loop over the tokens after the header. -/
def parseChanges : List (List Char) → List Change
  | [] => []
  | raw :: tokens =>
    match raw.dropWhile (· = '\n') with
    | [] => parseChanges tokens
    | status :: _ =>
      match tokens with
      | [] => []
      | path :: tokens =>
        if status = 'R' ∨ status = 'C' then
          match tokens with
          | [] => []
          | newPath :: tokens => ⟨status, newPath, some path⟩ :: parseChanges tokens
        else ⟨status, path, none⟩ :: parseChanges tokens

/-- A chunk; one with fewer than five fields is left out. -/
def parseChunk (chunk : List Char) : Option Entry :=
  let tokens := chunk.splitOn '\x00'
  match (tokens.headD []).splitOn '\x1f' with
  | commit :: author :: ts :: date :: subject :: _ => some {
      commit := trimChars commit
      author := author
      timestamp := (parseI64 ts).getD 0
      date := date
      subject := subject
      changes := parseChanges tokens.tail }
  | _ => none

def parseLog (text : List Char) : List Entry :=
  ((text.splitOn '\x1e').filter fun c => trimChars c ≠ []).filterMap parseChunk

/-- A change as Git lists it; a renamed or copied file has two paths. -/
structure NameStatus where
  status : Char
  score : List Char
  oldPath : Option (List Char)
  path : List Char
  upper : status.isUpper = true
  moved : oldPath.isSome = true ↔ status = 'R' ∨ status = 'C'
  digits : ∀ c ∈ score, c.isDigit = true
  paths : ∀ p ∈ path :: oldPath.toList, '\x00' ∉ p

/-- The characters of a date in ISO 8601. -/
def isIsoChar (c : Char) : Bool := c.isDigit || ['-', '+', ':', 'T', 'Z'].contains c

def isHex (c : Char) : Bool := c.isDigit || "abcdef".toList.contains c

structure Commit where
  hash : List Char
  author : List Char
  epoch : ℤ
  date : List Char
  subject : List Char
  changes : List NameStatus
  hash_ne : hash ≠ []
  hex : ∀ c ∈ hash, isHex c = true
  range : -2 ^ 63 ≤ epoch ∧ epoch < 2 ^ 63
  iso : ∀ c ∈ date, isIsoChar c = true

def NameStatus.change (n : NameStatus) : Change := ⟨n.status, n.path, n.oldPath⟩

/-- `STATUS \0 PATH \0 [PATH2 \0]`. -/
def NameStatus.print (n : NameStatus) : List Char :=
  n.status :: n.score ++ '\x00' :: (n.oldPath.toList ++ [n.path]).flatMap (· ++ ['\x00'])

/-- `%at`. -/
def epochText : ℤ → List Char
  | .ofNat n => Nat.toDigits 10 n
  | .negSucc n => '-' :: Nat.toDigits 10 (n + 1)

namespace Commit

/-- The entry of a commit. -/
def entry (c : Commit) : Entry where
  commit := c.hash
  author := c.author
  timestamp := c.epoch
  date := c.date
  subject := c.subject
  changes := c.changes.map NameStatus.change

/-- `HASH \x1f NAME \x1f EPOCH \x1f ISO \x1f SUBJECT`. -/
def header (c : Commit) : List Char :=
  c.hash ++ '\x1f' :: (c.author ++ '\x1f' :: (epochText c.epoch ++ '\x1f' ::
    (c.date ++ '\x1f' :: c.subject)))

/-- A record without the character before it. -/
def print (c : Commit) : List Char :=
  c.header ++ '\x00' :: ('\n' :: c.changes.flatMap NameStatus.print)

/-- No separator is in a text of the commit. -/
structure Separable (c : Commit) : Prop where
  author : ∀ x ∈ ['\x00', '\x1e', '\x1f'], x ∉ c.author
  subject : ∀ x ∈ ['\x00', '\x1e', '\x1f'], x ∉ c.subject
  paths : ∀ n ∈ c.changes, ∀ p ∈ n.path :: n.oldPath.toList, '\x1e' ∉ p

end Commit

/-- The output of `git log`. -/
def log (commits : List Commit) : List Char := commits.flatMap fun c => '\x1e' :: c.print

variable {a b s chunk : List Char} {x : Char} {parts : List (List Char)} {commits : List Commit}

theorem splitOn_cons_append (h : x ∉ a) : (a ++ x :: b).splitOn x = a :: b.splitOn x :=
  splitOn_append_cons_self_of_not_mem h b

theorem splitOn_flatMap (h : ∀ p ∈ parts, x ∉ p) :
    (parts.flatMap (x :: ·)).splitOn x = [] :: parts := by
  suffices hsuffix : ∀ a, x ∉ a → (a ++ parts.flatMap (x :: ·)).splitOn x = a :: parts from
    hsuffix [] (by simp)
  induction parts with
  | nil =>
    intro a ha
    simpa using splitOn_eq_singleton ha
  | cons p parts ih =>
    intro a ha
    obtain ⟨hp, hparts⟩ := forall_mem_cons.mp h
    rw [flatMap_cons, cons_append, splitOn_cons_append ha, ih hparts p hp]

theorem splitOn_spec {p : List Char} (h : p ∈ s.splitOn x) : x ∉ p ∧ ∀ c ∈ p, c ∈ s := by
  induction s generalizing p with
  | nil =>
    rw [splitOn_nil, mem_singleton] at h
    simp [h]
  | cons d s ih =>
    obtain ⟨first, rest, hsplit⟩ := exists_cons_of_ne_nil (splitOn_ne_nil x s)
    rw [splitOn_cons_eq_if_modifyHead, hsplit] at h
    have hfirst := ih (p := first) (by simp [hsplit])
    split_ifs at h with hd
    · rcases mem_cons.mp h with rfl | h
      · simp
      · have hp := ih (hsplit ▸ h)
        exact ⟨hp.1, fun c hc => mem_cons_of_mem _ (hp.2 c hc)⟩
    · rcases mem_cons.mp h with rfl | h
      · refine ⟨fun hx => ?_, fun c hc => ?_⟩
        · rcases mem_cons.mp hx with rfl | hx
          · simp at hd
          · exact hfirst.1 hx
        · exact mem_cons.mpr ((mem_cons.mp hc).imp_right (hfirst.2 c))
      · have hp := ih (p := p) (by simp [hsplit, h])
        exact ⟨hp.1, fun c hc => mem_cons_of_mem _ (hp.2 c hc)⟩

/-- A printing character of ASCII that is not a blank. -/
def IsVisible (c : Char) : Prop := 33 ≤ c.toNat ∧ c.toNat < 127

theorem IsVisible.not_isWhite {c : Char} (h : IsVisible c) : isWhite c = false := by
  obtain ⟨hlow, hhigh⟩ := h
  simp [isWhite]
  omega

theorem IsVisible.ne {c : Char} (h : IsVisible c) (hx : x.toNat < 33) : x ≠ c := by
  rintro rfl
  have hlow := h.1
  omega

theorem isVisible_of_isDigit {c : Char} (h : c.isDigit = true) : IsVisible c := by
  obtain ⟨hlow, hhigh⟩ := Char.isDigit_iff_toNat.mp h
  exact ⟨(by decide : 33 ≤ '0'.toNat).trans hlow, hhigh.trans_lt (by decide)⟩

theorem isVisible_of_isUpper {c : Char} (h : c.isUpper = true) : IsVisible c := by
  have hrange : 'A'.val ≤ c.val ∧ c.val ≤ 'Z'.val := of_decide_eq_true h
  obtain ⟨hlow, hhigh⟩ := hrange.imp UInt32.le_iff_toNat_le.1 UInt32.le_iff_toNat_le.1
  exact ⟨(by decide : 33 ≤ 'A'.val.toNat).trans hlow, hhigh.trans_lt (by decide)⟩

theorem isVisible_of_isHex {c : Char} (h : isHex c = true) : IsVisible c := by
  rw [isHex, Bool.or_eq_true, contains_iff_mem] at h
  rcases h with h | h
  · exact isVisible_of_isDigit h
  · have hall : ∀ d ∈ "abcdef".toList, IsVisible d := by
      unfold IsVisible
      decide +kernel
    exact hall c h

theorem isVisible_of_isIsoChar {c : Char} (h : isIsoChar c = true) : IsVisible c := by
  rw [isIsoChar, Bool.or_eq_true, contains_iff_mem] at h
  rcases h with h | h
  · exact isVisible_of_isDigit h
  · have hall : ∀ d ∈ ['-', '+', ':', 'T', 'Z'], IsVisible d := by
      unfold IsVisible
      decide +kernel
    exact hall c h

theorem isVisible_of_mem_epochText {n : ℤ} {c : Char} (h : c ∈ epochText n) : IsVisible c := by
  cases n with
  | ofNat n => exact isVisible_of_isDigit (Nat.isDigit_of_mem_toDigits (by decide) (by decide) h)
  | negSucc n =>
    rcases mem_cons.mp h with rfl | h
    · exact ⟨by decide, by decide⟩
    · exact isVisible_of_isDigit (Nat.isDigit_of_mem_toDigits (by decide) (by decide) h)

theorem trimChars_of_visible (h : ∀ c ∈ s, IsVisible c) : trimChars s = s := by
  have hkeep : ∀ t : List Char, (∀ c ∈ t, IsVisible c) → t.dropWhile isWhite = t := by
    intro t ht
    cases t with
    | nil => rfl
    | cons c t => exact dropWhile_cons_of_neg (by simp [(ht c mem_cons_self).not_isWhite])
  rw [trimChars, Trimming.trimBy, hkeep s h, hkeep _ (by simpa using h), reverse_reverse]

theorem digitsValue_toDigits (n : ℕ) : digitsValue (Nat.toDigits 10 n) = some (n : ℤ) := by
  have hdigit : ∀ c ∈ Nat.toDigits 10 n, c.isDigit = true := fun c hc =>
    Nat.isDigit_of_mem_toDigits (by decide) (by decide) hc
  rw [Date.digitsValue_eq Nat.toDigits_ne_nil hdigit, Nat.ofDigitChars_ten_toDigits]

/-- A time of 64 bits is read as it was printed. -/
theorem parseI64_epochText {n : ℤ} (h : -2 ^ 63 ≤ n ∧ n < 2 ^ 63) :
    parseI64 (epochText n) = some n := by
  cases n with
  | ofNat n =>
    have hfirst : ∀ c ∈ Nat.toDigits 10 n, c ≠ '-' ∧ c ≠ '+' := by
      intro c hc
      have hdigit := Nat.isDigit_of_mem_toDigits (by decide) (by decide) hc
      exact ⟨by rintro rfl; simp at hdigit, by rintro rfl; simp at hdigit⟩
    have hvalue := digitsValue_toDigits n
    obtain ⟨c, ds, hds⟩ := exists_cons_of_ne_nil (Nat.toDigits_ne_nil (n := n) (b := 10))
    have htext : epochText (.ofNat n) = c :: ds := hds
    rw [hds] at hfirst hvalue
    obtain ⟨hminus, hplus⟩ := hfirst c mem_cons_self
    have hparse : parseI64 (c :: ds) =
        (digitsValue (c :: ds)).filter fun n => -2 ^ 63 ≤ n ∧ n < 2 ^ 63 := by
      unfold parseI64
      split <;> simp_all
    rw [htext, hparse, hvalue, filter_some]
    exact if_pos (decide_eq_true h)
  | negSucc n =>
    unfold epochText parseI64
    simp only [digitsValue_toDigits, map_some]
    rw [filter_some, if_pos]
    · rfl
    · exact decide_eq_true h

/-- The changes of a commit are read as they were printed, after line feeds if there are any. -/
theorem parseChanges_print (ns : List NameStatus) {feeds : List Char}
    (hfeeds : ∀ c ∈ feeds, c = '\n') :
    parseChanges ((feeds ++ ns.flatMap NameStatus.print).splitOn '\x00') =
      ns.map NameStatus.change := by
  have hnul : '\x00' ∉ feeds := fun h => by cases hfeeds _ h
  have hskip (t : List Char) : (feeds ++ t).dropWhile (· = '\n') = t.dropWhile (· = '\n') :=
    dropWhile_append_of_pos (by simpa using hfeeds)
  induction ns generalizing feeds with
  | nil =>
    rw [flatMap_nil, append_nil, splitOn_eq_singleton hnul, parseChanges]
    rw [← append_nil feeds, hskip]
    rfl
  | cons n ns ih =>
    have hstatus : '\x00' ∉ feeds ++ n.status :: n.score := by
      have hupper := (isVisible_of_isUpper n.upper).ne (x := '\x00') (by decide)
      have hdigits : '\x00' ∉ n.score := fun h => by cases n.digits _ h
      simp [hnul, hupper, hdigits]
    have hline : n.status ≠ '\n' := ((isVisible_of_isUpper n.upper).ne (by decide)).symm
    have hrest := @ih [] (by simp) (by simp) fun t => rfl
    have hpath : '\x00' ∉ n.path := n.paths _ mem_cons_self
    have hmoved := n.moved
    rw [flatMap_cons, NameStatus.print, map_cons, NameStatus.change]
    cases hold : n.oldPath with
    | none =>
      have hsplit : feeds ++ ((n.status :: n.score ++ '\x00' ::
            ((none : Option (List Char)).toList ++ [n.path]).flatMap (· ++ ['\x00'])) ++
              ns.flatMap NameStatus.print) =
          (feeds ++ n.status :: n.score) ++ '\x00' :: (n.path ++ '\x00' ::
            ([] ++ ns.flatMap NameStatus.print)) := by simp
      rw [hsplit, splitOn_cons_append hstatus, splitOn_cons_append hpath, parseChanges, hskip,
        dropWhile_cons_of_neg (by simpa using hline)]
      rw [hold] at hmoved
      simp only [if_neg (fun h => by simpa using hmoved.mpr h), hrest]
    | some old =>
      have hold' : '\x00' ∉ old := n.paths _ (by simp [hold])
      have hsplit : feeds ++ ((n.status :: n.score ++ '\x00' ::
            ((some old).toList ++ [n.path]).flatMap (· ++ ['\x00'])) ++
              ns.flatMap NameStatus.print) =
          (feeds ++ n.status :: n.score) ++ '\x00' :: (old ++ '\x00' :: (n.path ++ '\x00' ::
            ([] ++ ns.flatMap NameStatus.print))) := by simp
      rw [hsplit, splitOn_cons_append hstatus, splitOn_cons_append hold', splitOn_cons_append hpath,
        parseChanges, hskip, dropWhile_cons_of_neg (by simpa using hline)]
      rw [hold] at hmoved
      simp only [if_pos (hmoved.mp rfl), hrest]

namespace Commit

variable {c : Commit}

theorem not_mem_hash (hx : x.toNat < 33) : x ∉ c.hash := fun h =>
  (isVisible_of_isHex (c.hex x h)).ne hx rfl

theorem not_mem_epoch (hx : x.toNat < 33) : x ∉ epochText c.epoch := fun h =>
  (isVisible_of_mem_epochText h).ne hx rfl

theorem not_mem_date (hx : x.toNat < 33) : x ∉ c.date := fun h =>
  (isVisible_of_isIsoChar (c.iso x h)).ne hx rfl

theorem not_mem_header (h : c.Separable) (hx : x = '\x00' ∨ x = '\x1e') : x ∉ c.header := by
  have hlow : x.toNat < 33 := by rcases hx with rfl | rfl <;> decide
  have hne : x ≠ '\x1f' := by rcases hx with rfl | rfl <;> decide
  have hmem : x ∈ ['\x00', '\x1e', '\x1f'] := by rcases hx with rfl | rfl <;> decide
  simp [header, not_mem_hash hlow, not_mem_epoch hlow, not_mem_date hlow, h.author x hmem,
    h.subject x hmem, hne]

theorem not_mem_print (h : c.Separable) : '\x1e' ∉ c.print := by
  have hchanges : '\x1e' ∉ c.changes.flatMap NameStatus.print := by
    rw [mem_flatMap]
    rintro ⟨n, hn, hmem⟩
    have hupper := (isVisible_of_isUpper n.upper).ne (x := '\x1e') (by decide)
    have hdigits : '\x1e' ∉ n.score := fun h => by cases n.digits _ h
    have hpaths := h.paths n hn
    cases hold : n.oldPath <;> simp_all [NameStatus.print]
  simp [print, not_mem_header h (.inr rfl), hchanges]

theorem parseChunk_print (h : c.Separable) : parseChunk c.print = some c.entry := by
  have hheader : c.header.splitOn '\x1f' =
      [c.hash, c.author, epochText c.epoch, c.date, c.subject] := by
    rw [header, splitOn_cons_append (not_mem_hash (by decide)),
      splitOn_cons_append (h.author _ (by decide)),
      splitOn_cons_append (not_mem_epoch (by decide)),
      splitOn_cons_append (not_mem_date (by decide)),
      splitOn_eq_singleton (h.subject _ (by decide))]
  have htokens : c.print.splitOn '\x00' =
      c.header :: (['\n'] ++ c.changes.flatMap NameStatus.print).splitOn '\x00' :=
    splitOn_cons_append (not_mem_header h (.inl rfl))
  have hchanges := @parseChanges_print c.changes ['\n'] (by simp)
  simp only [parseChunk, htokens, headD_cons, tail_cons, hheader, hchanges,
    parseI64_epochText c.range, getD_some,
    trimChars_of_visible fun x hx => isVisible_of_isHex (c.hex x hx)]
  rfl

theorem trimChars_print_ne : trimChars c.print ≠ [] := by
  obtain ⟨d, ds, hhash⟩ := exists_cons_of_ne_nil c.hash_ne
  have hd : isWhite d = false := (isVisible_of_isHex (c.hex d (by simp [hhash]))).not_isWhite
  have hdrop : c.print.dropWhile isWhite = c.print := by
    rw [print, header, hhash]
    exact dropWhile_cons_of_neg (by simp [hd])
  intro h
  rw [trimChars, Trimming.trimBy, hdrop, reverse_eq_nil_iff, dropWhile_eq_nil_iff] at h
  have := h d (by simp [print, header, hhash])
  simp [hd] at this

end Commit

theorem parseLog_log_of_separable (h : ∀ c ∈ commits, c.Separable) :
    parseLog (log commits) = commits.map Commit.entry := by
  have hsplit : (log commits).splitOn '\x1e' = [] :: commits.map Commit.print := by
    rw [log, ← flatMap_map Commit.print, splitOn_flatMap]
    rintro p hp
    obtain ⟨c, hc, rfl⟩ := List.mem_map.mp hp
    exact Commit.not_mem_print (h c hc)
  rw [parseLog, hsplit, filter_cons_of_neg (by decide), filter_eq_self.mpr]
  · rw [filterMap_map]
    exact filterMap_eq_map_iff_forall_eq_some.mpr fun c hc => Commit.parseChunk_print (h c hc)
  · intro p hp
    obtain ⟨c, -, rfl⟩ := List.mem_map.mp hp
    exact decide_eq_true Commit.trimChars_print_ne

theorem mem_of_mem_parseChanges {tokens : List (List Char)} {ch : Change}
    (h : ch ∈ parseChanges tokens) : ∀ p ∈ ch.path :: ch.oldPath.toList, p ∈ tokens := by
  fun_induction parseChanges tokens with
  | case1 => cases h
  | case2 raw tokens hraw ih => exact fun p hp => mem_cons_of_mem _ (ih h p hp)
  | case3 => cases h
  | case4 => cases h
  | case5 raw status rest hraw path hmoved newPath tokens ih =>
    rcases mem_cons.mp h with rfl | h
    · simp
    · exact fun p hp => by simp [ih h p hp]
  | case6 raw status rest hraw path tokens hmoved ih =>
    rcases mem_cons.mp h with rfl | h
    · simp
    · exact fun p hp => by simp [ih h p hp]

theorem not_mem_of_mem_parseLog {text : List Char} {e : Entry} (h : e ∈ parseLog text) :
    (∀ x ∈ ['\x00', '\x1e', '\x1f'], x ∉ e.author ∧ x ∉ e.subject) ∧
      ∀ ch ∈ e.changes, ∀ p ∈ ch.path :: ch.oldPath.toList, '\x1e' ∉ p := by
  obtain ⟨chunk, hchunk, he⟩ := mem_filterMap.mp h
  have hrecord := (splitOn_spec (mem_of_mem_filter hchunk)).1
  have htoken {t : List Char} (ht : t ∈ chunk.splitOn '\x00') : '\x1e' ∉ t ∧ '\x00' ∉ t :=
    ⟨fun hx => hrecord ((splitOn_spec ht).2 _ hx), (splitOn_spec ht).1⟩
  obtain ⟨header, tokens, hsplit⟩ := exists_cons_of_ne_nil (splitOn_ne_nil '\x00' chunk)
  rw [hsplit] at htoken
  simp only [parseChunk, hsplit, headD_cons, tail_cons] at he
  split at he
  case h_2 => cases he
  case h_1 commit author ts date subject others hfields =>
    obtain rfl := some.inj he
    -- a field of the header has none of the three
    have hfield {f : List Char} (hf : f ∈ header.splitOn '\x1f') :
        ∀ x ∈ ['\x00', '\x1e', '\x1f'], x ∉ f := by
      have hheader := htoken mem_cons_self
      have hin := splitOn_spec hf
      simp only [forall_mem_cons, not_mem_nil, false_imp_iff, implies_true, and_true]
      exact ⟨fun hx => hheader.2 (hin.2 _ hx), fun hx => hheader.1 (hin.2 _ hx), hin.1⟩
    refine ⟨fun x hx => ⟨hfield (by simp [hfields]) x hx, hfield (by simp [hfields]) x hx⟩,
      fun ch hch p hp => ?_⟩
    exact (htoken (mem_cons_of_mem _ (mem_of_mem_parseChanges hch p hp))).1

/-- The commits are read as they are, in order and with all their changes, just where no separator
is in a name, a subject or a path. -/
theorem parseLog_log (commits : List Commit) :
    parseLog (log commits) = commits.map Commit.entry ↔ ∀ c ∈ commits, c.Separable := by
  refine ⟨fun h c hc => ?_, parseLog_log_of_separable⟩
  have hentry : c.entry ∈ parseLog (log commits) := h ▸ List.mem_map_of_mem hc
  obtain ⟨hfields, hpaths⟩ := not_mem_of_mem_parseLog hentry
  exact ⟨fun x hx => (hfields x hx).1, fun x hx => (hfields x hx).2,
    fun n hn => hpaths n.change (List.mem_map_of_mem hn)⟩

/-- A commit with a separator in its subject. -/
def unitSeparated : Commit where
  hash := ['a']
  author := "Al".toList
  epoch := 200
  date := "2026-01-02T00:00:00+00:00".toList
  subject := ['a', '\x1f', 'b']
  changes := []
  hash_ne := by simp
  hex := by decide
  range := by decide
  iso := by decide +kernel

/-- What follows the separator is lost. -/
theorem parseLog_unitSeparated :
    (parseLog (log [unitSeparated])).map Entry.subject = [['a']] ∧
      parseLog (log [unitSeparated]) ≠ [unitSeparated].map Commit.entry := by
  decide +kernel

end U2os.Majordomo.Git
