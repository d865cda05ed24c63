import U2os.Lib.Decimal
import U2os.Lib.Utf8
import U2os.Majordomo.Scheduler.Zone
import Mathlib.Data.List.Basic

/-!
# Dates of history queries

A date is read strictly (`majordomo/src/date.rs`): a day, which means its last second, or a day and
a time of day with `Z` or an offset.  It is handed on in one normal form, in UTC.

The year that is written lies between 1970 and 9999.  The offset is taken off afterwards, so the
instant may lie up to a day before the first of January 1970 or after the end of 9999; what is
printed for it is not read again.

Numbers have at most four digits and nothing overflows 64 bits, so integers are used.  The divisions
of the source are Euclidean or of numbers that are not negative.

## Main results

* `parseEpoch_eq_ok_iff` : the texts that are read are those of stamps, and never does reading panic.
-/

namespace U2os.Majordomo.Date

open List Option

open Calendar Decimal Utf8
open Scheduler (digitsValue daysFromCivil civilFromDays daysFromCivil_eq civilFromDays_spec
  civilFromDays_dayNumber civilFromDays_year)

/-- The number of days of a month. -/
def daysInMonth (y m : ℤ) : ℤ :=
  if m = 1 ∨ m = 3 ∨ m = 5 ∨ m = 7 ∨ m = 8 ∨ m = 10 ∨ m = 12 then 31
  else if m = 4 ∨ m = 6 ∨ m = 9 ∨ m = 11 then 30
  else if y % 4 = 0 ∧ y % 100 ≠ 0 ∨ y % 400 = 0 then 29
  else 28

/-- `s.parse().ok()` for a text of digits. -/
def parseI64 (s : List Char) : Option ℤ := (digitsValue s).filter fun n => n < 2 ^ 63

/-- `num`: a number of exactly so many digits. -/
def num (s : List Char) (len : ℕ) : Option ℤ :=
  if (bytes s).length = len ∧ (bytes s).all isAsciiDigit = true then parseI64 s else none

/-- How `parse_epoch` ends without a date. -/
inductive Stop where
  /-- `Error::Invalid`, with a message that names the input. -/
  | bad (input : String)
  | panic
deriving DecidableEq

/-- `ok_or_else(b)?`. -/
def okOrBad {α : Type*} (input : String) : Option α → Except Stop α
  | some a => .ok a
  | none => .error (.bad input)

def splitOnce (sep : Char) : List Char → Option (List Char × List Char)
  | [] => none
  | c :: cs =>
    if c = sep then some ([], cs) else (splitOnce sep cs).map fun r => (c :: r.1, r.2)

/-- Three numbers and nothing else: one of so many digits and two of two. -/
def numbers (sep : Char) (len : ℕ) (text : List Char) : Option (ℤ × ℤ × ℤ) := do
  let parts := text.splitOn sep
  let a ← num (← parts[0]?) len
  let b ← num (← parts[1]?) 2
  let c ← num (← parts[2]?) 2
  if parts[3]?.isSome then none else some (a, b, c)

/-- The seconds of an offset `HH:MM`. -/
def parseOffset (input : String) (text : List Char) : Except Stop ℤ := do
  let (oh, om) ← okOrBad input (splitOnce ':' text)
  let oh ← okOrBad input (num oh 2)
  let om ← okOrBad input (num om 2)
  if 23 < oh ∨ 59 < om then .error (.bad input) else .ok (oh * 3600 + om * 60)

/-- The clock and the offset of a time of day. -/
def splitZone (input : String) (time : List Char) : Except Stop (List Char × ℤ) :=
  if time.getLast? = some 'Z' then .ok (time.dropLast, 0)
  else if 6 < (bytes time).length then
    match (bytes time)[(bytes time).length - 6]? with
    | none => .error .panic
    | some sign =>
      if sign.toNat = '+'.toNat ∨ sign.toNat = '-'.toNat then
        match splitAt? time ((bytes time).length - 6) with
        | none => .error .panic
        | some (c, off) =>
          let sign : ℤ := if off.head? = some '-' then -1 else 1
          match splitAt? off 1 with
          | none => .error .panic
          | some (_, rest) => (parseOffset input rest).map fun size => (c, sign * size)
      else .error (.bad input)
  else .error (.bad input)

/-- `parse_epoch`: seconds since the Unix epoch. -/
def parseEpoch (input : String) : Except Stop ℤ := do
  let (date, time) := match splitOnce 'T' input.toList with
    | some (d, t) => (d, some t)
    | none => (input.toList, none)
  let (y, m, d) ← okOrBad input (numbers '-' 4 date)
  if ¬(1 ≤ m ∧ m ≤ 12) ∨ d < 1 ∨ daysInMonth y m < d ∨ y < 1970 then .error (.bad input)
  else
    let day := daysFromCivil y m d * 86400
    match time with
    | none => .ok (day + 86399)
    | some time => do
      let (clock, offset) ← splitZone input time
      let (h, mi, s) ← okOrBad input (numbers ':' 2 clock)
      if 23 < h ∨ 59 < mi ∨ 59 < s then .error (.bad input)
      else .ok (day + h * 3600 + mi * 60 + s - offset)

def formatUtc (epoch : ℤ) : String :=
  let days := epoch / 86400
  let secs := epoch % 86400
  let (y, m, d) := civilFromDays days
  String.ofList (padded 4 y ++ '-' :: padded 2 m ++ '-' :: padded 2 d ++ 'T' ::
    padded 2 (secs / 3600) ++ ':' :: padded 2 (secs % 3600 / 60) ++ ':' :: padded 2 (secs % 60) ++
      ['Z'])

def normalize (input : String) : Except Stop String := (parseEpoch input).map formatUtc

/-- A time of day. -/
structure Clock where
  hour : ℕ
  minute : ℕ
  second : ℕ
  hour_le : hour ≤ 23
  minute_le : minute ≤ 59
  second_le : second ≤ 59

/-- An offset from UTC. -/
structure Offset where
  negative : Bool
  hour : ℕ
  minute : ℕ
  hour_le : hour ≤ 23
  minute_le : minute ≤ 59

/-- The time of day of a stamp, with its offset; none for `Z`. -/
structure Time where
  clock : Clock
  offset : Option Offset

/-- A day of the years 1970 to 9999, and a time of day if one is written. -/
structure Stamp where
  date : Date
  time : Option Time
  year_ge : 1970 ≤ date.year
  year_le : date.year ≤ 9999

/-- The seconds from midnight. -/
def Clock.seconds (c : Clock) : ℤ := c.hour * 3600 + c.minute * 60 + c.second

/-- The seconds of an offset, without its sign. -/
def Offset.size (o : Offset) : ℤ := o.hour * 3600 + o.minute * 60

/-- The seconds that the offset adds. -/
def Offset.seconds (o : Offset) : ℤ := if o.negative then -o.size else o.size

/-- `HH:MM:SS`. -/
def Clock.text (c : Clock) : List Char :=
  digits 2 c.hour ++ ':' :: digits 2 c.minute ++ ':' :: digits 2 c.second

/-- `±HH:MM`. -/
def Offset.text (o : Offset) : List Char :=
  (if o.negative then '-' else '+') :: digits 2 o.hour ++ ':' :: digits 2 o.minute

/-- `YYYY-MM-DD`. -/
def dateText (d : Date) : List Char :=
  digits 4 d.year.toNat ++ '-' :: digits 2 d.month.toNat ++ '-' :: digits 2 d.day.toNat

/-- A time of day and its zone. -/
def Time.text (t : Time) : List Char :=
  t.clock.text ++ match t.offset with
    | none => ['Z']
    | some o => o.text

/-- The stamp as it is written. -/
def Stamp.text (s : Stamp) : List Char :=
  dateText s.date ++ match s.time with
    | none => []
    | some t => 'T' :: t.text

/-- The seconds from midnight UTC; a day alone means its last second. -/
def Stamp.seconds (s : Stamp) : ℤ :=
  match s.time with
  | none => 86399
  | some t => t.clock.seconds - (t.offset.map Offset.seconds).getD 0

def Stamp.instant (s : Stamp) : ℤ := s.date.dayNumber * 86400 + s.seconds

/-- The instant lies before the first of January 1970: it is on this day with an offset to the east
that is longer than the clock shows. -/
def Stamp.BeforeYears (s : Stamp) : Prop :=
  s.date = Date.epoch ∧ ∃ t o, s.time = some t ∧ t.offset = some o ∧ o.negative = false ∧
    t.clock.seconds < o.size

/-- The last of December 9999. -/
def lastDay : Date := .ofNumbers 9999 12 31 (by decide)

/-- The instant lies after the year 9999: it is on its last day with an offset to the west that is
longer than what is left of the day. -/
def Stamp.AfterYears (s : Stamp) : Prop :=
  s.date = lastDay ∧ ∃ t o, s.time = some t ∧ t.offset = some o ∧ o.negative = true ∧
    86400 ≤ t.clock.seconds + o.size

/-- The input is a stamp whose offset takes it out of the years that may be written. -/
def LeavesYears (input : String) : Prop :=
  ∃ s : Stamp, input.toList = s.text ∧ (s.BeforeYears ∨ s.AfterYears)

variable {input : String} {s cs before after time : List Char} {len : ℕ} {n e : ℤ}

/-! ### Numbers -/

theorem digitsValue_eq (hne : cs ≠ []) (h : ∀ c ∈ cs, c.isDigit = true) :
    digitsValue cs = some (Nat.ofDigitChars 10 cs 0 : ℤ) := by
  have hfold : ∀ init : ℕ, cs.foldl (fun n c => 10 * n + ((c.toNat - '0'.toNat : ℕ) : ℤ)) (init : ℤ) =
      (Nat.ofDigitChars 10 cs init : ℤ) := by
    clear hne h
    induction cs with
    | nil => intro init; rfl
    | cons c cs ih =>
      intro init
      rw [foldl_cons, Nat.ofDigitChars_cons, ← ih]
      push_cast
      rfl
  unfold digitsValue
  rw [if_pos ⟨hne, List.all_eq_true.2 h⟩]
  exact congrArg some (hfold 0)

theorem num_eq_some_iff (hpos : 0 < len) (hlen : len ≤ 18) :
    num s len = some n ↔ ∃ k : ℕ, k < 10 ^ len ∧ s = digits len k ∧ n = k := by
  have hbound : (10 : ℕ) ^ len ≤ 10 ^ 18 := Nat.pow_le_pow_right (by decide) hlen
  unfold num
  rw [all_isAsciiDigit]
  constructor
  · intro h
    split_ifs at h with hfield
    obtain ⟨hsize, hall⟩ := hfield
    have hdigit := List.all_eq_true.1 hall
    rw [length_bytes_of_isDigit hdigit] at hsize
    have hne : s ≠ [] := ne_nil_of_length_pos (by omega)
    unfold parseI64 at h
    rw [digitsValue_eq hne hdigit, Option.filter_eq_some_iff] at h
    refine ⟨_, hsize ▸ ofDigitChars_lt hdigit, ?_, (some.inj h.1).symm⟩
    rw [← hsize, digits_ofDigitChars hdigit]
  · rintro ⟨k, hk, rfl, rfl⟩
    have hdigit : ∀ c ∈ digits len k, c.isDigit = true := fun _ => isDigit_of_mem_digits
    have hne : digits len k ≠ [] := ne_nil_of_length_pos (by rwa [length_digits])
    rw [if_pos ⟨by rw [length_bytes_of_isDigit hdigit, length_digits], List.all_eq_true.2 hdigit⟩]
    unfold parseI64
    rw [digitsValue_eq hne hdigit, ofDigitChars_digits_of_lt hk, Option.filter_eq_some_iff]
    refine ⟨rfl, decide_eq_true ?_⟩
    omega

theorem splitOnce_eq_some_iff {sep : Char} {a b : List Char} :
    splitOnce sep cs = some (a, b) ↔ cs = a ++ sep :: b ∧ sep ∉ a := by
  induction cs generalizing a with
  | nil => simp [splitOnce]
  | cons c cs ih =>
    unfold splitOnce
    split_ifs with hc
    · subst hc
      constructor
      · intro h
        obtain ⟨rfl, rfl⟩ := Prod.mk.inj (some.inj h)
        exact ⟨rfl, not_mem_nil⟩
      · rintro ⟨h, hmem⟩
        cases a with
        | nil => rw [(List.cons.inj h).2]
        | cons d a => exact absurd (mem_cons.2 (.inl (List.cons.inj h).1)) hmem
    · constructor
      · intro h
        obtain ⟨⟨x, y⟩, hr, hxy⟩ := map_eq_some_iff.1 h
        obtain ⟨rfl, rfl⟩ := Prod.mk.inj hxy
        obtain ⟨rfl, hmem⟩ := ih.1 hr
        exact ⟨rfl, fun h => (mem_cons.1 h).elim (fun h => hc h.symm) hmem⟩
      · rintro ⟨h, hmem⟩
        cases a with
        | nil => exact absurd (List.cons.inj h).1 hc
        | cons d a =>
          obtain ⟨rfl, rfl⟩ := List.cons.inj h
          rw [ih.2 ⟨rfl, fun h => hmem (mem_cons_of_mem _ h)⟩]
          rfl

theorem splitOnce_eq_none {sep : Char} (h : splitOnce sep cs = none) : sep ∉ cs := by
  intro hmem
  obtain ⟨a, b, rfl, ha⟩ := eq_append_cons_of_mem hmem
  rw [splitOnce_eq_some_iff.2 ⟨rfl, ha⟩] at h
  cases h

theorem numbers_eq_some_iff {sep : Char} (hsep : sep.isDigit = false) (hpos : 0 < len)
    (hlen : len ≤ 18) {a b c : ℤ} :
    numbers sep len cs = some (a, b, c) ↔ ∃ x y z : ℕ, x < 10 ^ len ∧ y < 10 ^ 2 ∧ z < 10 ^ 2 ∧
      cs = digits len x ++ sep :: digits 2 y ++ sep :: digits 2 z ∧ a = x ∧ b = y ∧ c = z := by
  have hjoin : ∀ p q r : List Char, [sep].intercalate [p, q, r] = p ++ sep :: q ++ sep :: r := by
    intro p q r
    simp [intercalate]
  unfold numbers
  constructor
  · intro h
    have htext : [sep].intercalate (cs.splitOn sep) = cs := intercalate_splitOn sep
    generalize cs.splitOn sep = parts at h htext
    match parts, h with
    | [p, q, r], h =>
      simp only [getElem?_cons_zero, getElem?_cons_succ, bind_eq_bind,
        bind_some, getElem?_nil, isSome_none, Bool.false_eq_true, if_false,
        bind_eq_some_iff, some.injEq, Prod.mk.injEq] at h
      obtain ⟨_, hp, _, hq, _, hr, rfl, rfl, rfl⟩ := h
      obtain ⟨x, hx, rfl, rfl⟩ := (num_eq_some_iff hpos hlen).1 hp
      obtain ⟨y, hy, rfl, rfl⟩ := (num_eq_some_iff (by decide) (by decide)).1 hq
      obtain ⟨z, hz, rfl, rfl⟩ := (num_eq_some_iff (by decide) (by decide)).1 hr
      exact ⟨x, y, z, hx, hy, hz, by rw [← htext, hjoin], rfl, rfl, rfl⟩
    | p :: q :: r :: t :: parts, h =>
      simp at h
    | [], h => simp at h
    | [_], h => simp at h
    | [_, _], h => simp at h
  · rintro ⟨x, y, z, hx, hy, hz, rfl, rfl, rfl, rfl⟩
    have hparts : (digits len x ++ sep :: digits 2 y ++ sep :: digits 2 z).splitOn sep =
        [digits len x, digits 2 y, digits 2 z] := by
      rw [← hjoin]
      refine splitOn_intercalate sep ?_ (by simp)
      simp [not_mem_digits hsep]
    rw [hparts]
    simp [(num_eq_some_iff hpos hlen).2 ⟨x, hx, rfl, rfl⟩,
      (num_eq_some_iff (by decide) (by decide)).2 ⟨y, hy, rfl, rfl⟩,
      (num_eq_some_iff (by decide) (by decide)).2 ⟨z, hz, rfl, rfl⟩]

/-! ### Offsets -/

theorem okOrBad_bind_eq {α β : Type} {o : Option α} {f : α → Except Stop β} {r : Except Stop β}
    (hr : r ≠ .error (.bad input)) :
    (okOrBad input o >>= f) = r ↔ ∃ a, o = some a ∧ f a = r := by
  cases o with
  | none => simpa [okOrBad, bind, Except.bind] using hr.symm
  | some a => simp [okOrBad, bind, Except.bind]

variable {r : Except Stop ℤ}

theorem parseOffset_eq (hr : r ≠ .error (.bad input)) :
    parseOffset input cs = r ↔ ∃ h m : ℕ, h ≤ 23 ∧ m ≤ 59 ∧
      cs = digits 2 h ++ ':' :: digits 2 m ∧ r = .ok (h * 3600 + m * 60 : ℤ) := by
  unfold parseOffset
  rw [okOrBad_bind_eq hr]
  constructor
  · rintro ⟨⟨p, q⟩, hsplit, h⟩
    obtain ⟨rfl, -⟩ := splitOnce_eq_some_iff.1 hsplit
    obtain ⟨oh, hoh, h⟩ := (okOrBad_bind_eq hr).1 h
    obtain ⟨om, hom, h⟩ := (okOrBad_bind_eq hr).1 h
    obtain ⟨h', -, rfl, rfl⟩ := (num_eq_some_iff (by decide) (by decide)).1 hoh
    obtain ⟨m, -, rfl, rfl⟩ := (num_eq_some_iff (by decide) (by decide)).1 hom
    split_ifs at h with hrange
    · exact absurd h.symm hr
    · exact ⟨h', m, by omega, by omega, rfl, h.symm⟩
  · rintro ⟨h, m, hh, hm, rfl, rfl⟩
    refine ⟨_, splitOnce_eq_some_iff.2 ⟨rfl, not_mem_digits rfl⟩, ?_⟩
    refine (okOrBad_bind_eq hr).2
      ⟨h, (num_eq_some_iff (by decide) (by decide)).2 ⟨h, by omega, rfl, rfl⟩, ?_⟩
    refine (okOrBad_bind_eq hr).2
      ⟨m, (num_eq_some_iff (by decide) (by decide)).2 ⟨m, by omega, rfl, rfl⟩, ?_⟩
    exact if_neg (by omega)

/-- The character of a sign, and the number that it multiplies by. -/
def signOf (negative : Bool) : Char := if negative then '-' else '+'

theorem splitZone_of_sign (input : String) {negative : Bool} (hbefore : before ≠ [])
    (hZ : (before ++ signOf negative :: after).getLast? ≠ some 'Z')
    (hafter : (bytes after).length = 5) :
    splitZone input (before ++ signOf negative :: after) =
      (parseOffset input after).map fun size =>
        (before, (if negative then -1 else 1) * size) := by
  have hascii : (signOf negative).toNat < 128 ∧
      ((signOf negative).toNat = '+'.toNat ∨ (signOf negative).toNat = '-'.toNat) ∧
      ((if (signOf negative :: after).head? = some '-' then -1 else 1 : ℤ) =
        if negative then -1 else 1) := by
    cases negative <;> exact ⟨by decide, by decide, rfl⟩
  obtain ⟨hlt, hsign, hfactor⟩ := hascii
  have hone : bytes [signOf negative] = [UInt8.ofNat (signOf negative).toNat] := by
    rw [bytes_cons, bytes_nil, append_nil, utf8EncodeChar_ascii hlt]
  have hbytes : bytes (before ++ signOf negative :: after) =
      bytes before ++ UInt8.ofNat (signOf negative).toNat :: bytes after := by
    rw [bytes_append, bytes_cons, utf8EncodeChar_ascii hlt, singleton_append]
  have hpos : 0 < (bytes before).length := by
    obtain ⟨c, cs, rfl⟩ := exists_cons_of_ne_nil hbefore
    have := c.utf8Size_pos
    simp
    omega
  have hlen : (bytes (before ++ signOf negative :: after)).length = (bytes before).length + 6 := by
    rw [hbytes, List.length_append, length_cons, hafter]
  have hcut : splitAt? (signOf negative :: after) 1 = some ([signOf negative], after) := by
    have := splitAt?_append [signOf negative] after
    rwa [hone] at this
  have hbyte : (bytes (before ++ signOf negative :: after))[(bytes before).length]? =
      some (UInt8.ofNat (signOf negative).toNat) := by
    rw [hbytes, getElem?_append_right le_rfl, Nat.sub_self, getElem?_cons_zero]
  unfold splitZone
  rw [if_neg hZ, if_pos (by omega), hlen, Nat.add_sub_cancel, hbyte]
  dsimp only
  rw [toNat_ofNat_ascii hlt, if_pos hsign, splitAt?_append]
  dsimp only
  rw [hcut, hfactor]

/-- What stands behind a time of day: the letter or an offset. -/
theorem splitZone_eq {r : Except Stop (List Char × ℤ)} (hr : r ≠ .error (.bad input)) :
    splitZone input time = r ↔
      (∃ clock, time = clock ++ ['Z'] ∧ r = .ok (clock, 0)) ∨
      ∃ (clock : List Char) (o : Offset), clock ≠ [] ∧ time = clock ++ o.text ∧
        r = .ok (clock, o.seconds) := by
  constructor
  · intro h
    by_cases hZ : time.getLast? = some 'Z'
    · unfold splitZone at h
      rw [if_pos hZ] at h
      obtain ⟨clock, rfl⟩ := getLast?_eq_some_iff.1 hZ
      exact .inl ⟨clock, rfl, by rw [← h, dropLast_concat]⟩
    · -- The byte six from the end is a sign, and so the text is cut there.
      have hsign : ∃ negative before after, time = before ++ signOf negative :: after ∧
          before ≠ [] ∧ (bytes after).length = 5 := by
        unfold splitZone at h
        rw [if_neg hZ] at h
        split_ifs at h with hlong
        · have hget : (bytes time).length - 6 < (bytes time).length := by omega
          rw [getElem?_eq_getElem hget] at h
          dsimp only at h
          split_ifs at h with hb
          · have hlt : (bytes time)[(bytes time).length - 6].toNat < 128 := by
              rcases hb with hb | hb <;> rw [hb] <;> decide
            obtain ⟨before, after, htime, hlen⟩ :=
              exists_split_of_ascii (getElem?_eq_getElem hget) hlt
            obtain ⟨negative, hnegative⟩ : ∃ negative,
                Char.ofNat (bytes time)[(bytes time).length - 6].toNat = signOf negative := by
              rcases hb with hb | hb
              · exact ⟨false, by rw [hb]; rfl⟩
              · exact ⟨true, by rw [hb]; rfl⟩
            rw [hnegative] at htime
            have hall := congrArg (fun cs => (bytes cs).length) htime
            have hsize : (String.utf8EncodeChar (signOf negative)).length = 1 := by
              cases negative <;> rfl
            simp only [bytes_append, bytes_cons, List.length_append, hsize] at hall
            refine ⟨negative, before, after, htime, ?_, by omega⟩
            rintro rfl
            simp at hlen
            omega
          · exact absurd h.symm hr
        · exact absurd h.symm hr
      obtain ⟨negative, before, after, rfl, hbefore, hafter⟩ := hsign
      rw [splitZone_of_sign input hbefore hZ hafter] at h
      right
      by_cases hbad : parseOffset input after = .error (.bad input)
      · rw [hbad] at h
        exact absurd h.symm hr
      · obtain ⟨oh, om, hh, hm, rfl, hok⟩ := (parseOffset_eq hbad).1 rfl
        refine ⟨before, ⟨negative, oh, om, hh, hm⟩, hbefore, rfl, ?_⟩
        rw [← h, hok]
        cases negative <;> simp [Except.map, Offset.seconds, Offset.size]
  · rintro (⟨clock, rfl, rfl⟩ | ⟨clock, o, hclock, rfl, rfl⟩)
    · unfold splitZone
      rw [if_pos (by simp), dropLast_concat]
    · have htext : o.text = signOf o.negative :: (digits 2 o.hour ++ ':' :: digits 2 o.minute) := rfl
      have hafter : (bytes (digits 2 o.hour ++ ':' :: digits 2 o.minute)).length = 5 := by
        have hdigits : ∀ n, (bytes (digits 2 n)).length = 2 := fun n => by
          rw [length_bytes_of_isDigit fun _ => isDigit_of_mem_digits, length_digits]
        rw [bytes_append, bytes_cons, List.length_append, List.length_append, hdigits, hdigits]
        rfl
      have hlast : (clock ++ o.text).getLast? ≠ some 'Z' := by
        rw [htext, getLast?_append_of_ne_nil _ (cons_ne_nil _ _)]
        intro hlast
        have hmem := mem_of_getLast? hlast
        have hsign : 'Z' ≠ signOf o.negative := by cases o.negative <;> decide
        simp [hsign, not_mem_digits] at hmem
      rw [htext] at hlast ⊢
      rw [splitZone_of_sign input hclock hlast hafter,
        (parseOffset_eq (r := .ok (o.hour * 3600 + o.minute * 60 : ℤ)) nofun).2
          ⟨_, _, o.hour_le, o.minute_le, rfl, rfl⟩]
      cases hneg : o.negative <;> simp [Except.map, Offset.seconds, Offset.size, hneg]

/-! ### Dates -/

theorem daysInMonth_eq (y : ℤ) {m : ℤ} (h : 1 ≤ m) (h' : m ≤ 12) :
    daysInMonth y m = Calendar.daysInMonth y m := by
  have hleap : (y % 4 = 0 ∧ y % 100 ≠ 0 ∨ y % 400 = 0) ↔ IsLeap y := by
    unfold IsLeap
    omega
  unfold daysInMonth Calendar.daysInMonth
  simp only [hleap]
  split_ifs <;> omega

theorem numbers_date {P : ℤ → ℤ → ℤ → Prop} :
    (∃ y m d, numbers '-' 4 cs = some (y, m, d) ∧
      ¬(¬(1 ≤ m ∧ m ≤ 12) ∨ d < 1 ∨ daysInMonth y m < d ∨ y < 1970) ∧ P y m d) ↔
    ∃ D : Date, 1970 ≤ D.year ∧ D.year ≤ 9999 ∧ cs = dateText D ∧ P D.year D.month D.day := by
  constructor
  · rintro ⟨y, m, d, hnumbers, hrange, hP⟩
    obtain ⟨a, b, c, ha, -, -, rfl, rfl, rfl, rfl⟩ :=
      (numbers_eq_some_iff rfl (by decide) (by decide)).1 hnumbers
    simp only [not_or, not_not, not_lt] at hrange
    obtain ⟨⟨hm, hm'⟩, hd, hlen, hy⟩ := hrange
    rw [daysInMonth_eq _ hm hm'] at hlen
    exact ⟨⟨a, b, c, hm, hm', hd, hlen⟩, hy, by dsimp only; omega, rfl, hP⟩
  · rintro ⟨D, hy, hy', rfl, hP⟩
    have hm := D.month_pos
    have hm' := D.month_le
    have hd := D.day_pos
    have hlen := D.day_le
    have hd' : D.day ≤ 31 := hlen.trans (by unfold Calendar.daysInMonth; split_ifs <;> decide)
    refine ⟨D.year, D.month, D.day, ?_, ?_, hP⟩
    · exact (numbers_eq_some_iff rfl (by decide) (by decide)).2
        ⟨D.year.toNat, D.month.toNat, D.day.toNat, by omega, by omega, by omega, rfl, by omega,
          by omega, by omega⟩
    · rw [daysInMonth_eq _ hm hm']
      omega

theorem numbers_clock {P : ℤ → ℤ → ℤ → Prop} :
    (∃ h mi s, numbers ':' 2 cs = some (h, mi, s) ∧ ¬(23 < h ∨ 59 < mi ∨ 59 < s) ∧ P h mi s) ↔
    ∃ c : Clock, cs = c.text ∧ P c.hour c.minute c.second := by
  constructor
  · rintro ⟨h, mi, s, hnumbers, hrange, hP⟩
    obtain ⟨a, b, c, -, -, -, rfl, rfl, rfl, rfl⟩ :=
      (numbers_eq_some_iff rfl (by decide) (by decide)).1 hnumbers
    exact ⟨⟨a, b, c, by omega, by omega, by omega⟩, rfl, hP⟩
  · rintro ⟨c, rfl, hP⟩
    have hh := c.hour_le
    have hm := c.minute_le
    have hs := c.second_le
    exact ⟨c.hour, c.minute, c.second, (numbers_eq_some_iff rfl (by decide) (by decide)).2
      ⟨_, _, _, by omega, by omega, by omega, rfl, rfl, rfl, rfl⟩, by omega, hP⟩

theorem not_mem_dateText (D : Date) : 'T' ∉ dateText D := by
  simp [dateText, not_mem_digits]

/-- A time of day is read just where it is written with two digits each, in range. -/
theorem splitZone_bind_eq {f : ℤ → ℤ → ℤ → ℤ → ℤ} (hr : r ≠ .error (.bad input)) :
    (do
      let (clock, offset) ← splitZone input time
      let (h, mi, s) ← okOrBad input (numbers ':' 2 clock)
      if 23 < h ∨ 59 < mi ∨ 59 < s then .error (.bad input)
      else .ok (f h mi s offset)) = r ↔
    ∃ t : Time, time = t.text ∧ r = .ok (f t.clock.hour t.clock.minute t.clock.second
      ((t.offset.map Offset.seconds).getD 0)) := by
  have hclock : ∀ (clock : List Char) (offset : ℤ), (do
      let (h, mi, s) ← okOrBad input (numbers ':' 2 clock)
      if 23 < h ∨ 59 < mi ∨ 59 < s then .error (.bad input)
      else .ok (f h mi s offset)) = r ↔
        ∃ c : Clock, clock = c.text ∧ r = .ok (f c.hour c.minute c.second offset) := by
    intro clock offset
    rw [okOrBad_bind_eq hr,
      ← numbers_clock (P := fun h mi s => r = Except.ok (f h mi s offset))]
    constructor
    · rintro ⟨⟨h, mi, s⟩, hnumbers, heq⟩
      dsimp only at heq
      split_ifs at heq with hrange
      · exact absurd heq.symm hr
      · exact ⟨h, mi, s, hnumbers, hrange, heq.symm⟩
    · rintro ⟨h, mi, s, hnumbers, hrange, rfl⟩
      exact ⟨_, hnumbers, if_neg hrange⟩
  have hbind : ∀ {z : Except Stop (List Char × ℤ)} {g : List Char × ℤ → Except Stop ℤ},
      (z >>= g) = r ↔ (∃ a, z = .ok a ∧ g a = r) ∨ ∃ e, z = .error e ∧ r = .error e := by
    intro z g
    cases z with
    | ok a => simp [bind, Except.bind]
    | error e => simp [bind, Except.bind, eq_comm]
  rw [hbind]
  constructor
  · rintro (⟨⟨clock, offset⟩, hz, h⟩ | ⟨e, hz, rfl⟩)
    · obtain ⟨c, rfl, rfl⟩ := (hclock clock offset).1 h
      rcases (splitZone_eq (r := .ok _) nofun).1 hz with ⟨cs, rfl, heq⟩ | ⟨cs, o, -, rfl, heq⟩
      · obtain ⟨rfl, rfl⟩ := Prod.mk.inj (Except.ok.inj heq)
        exact ⟨⟨c, none⟩, rfl, rfl⟩
      · obtain ⟨rfl, rfl⟩ := Prod.mk.inj (Except.ok.inj heq)
        exact ⟨⟨c, some o⟩, rfl, rfl⟩
    · rcases (splitZone_eq fun h => hr (congrArg _ (Except.error.inj h))).1 hz with
        ⟨_, _, h⟩ | ⟨_, _, _, _, h⟩ <;> cases h
  · rintro ⟨⟨c, offset⟩, rfl, rfl⟩
    have hne : c.text ≠ [] := by simp [Clock.text]
    cases offset with
    | none =>
      exact .inl ⟨(c.text, 0), (splitZone_eq (r := .ok _) nofun).2 (.inl ⟨_, rfl, rfl⟩),
        (hclock _ _).2 ⟨c, rfl, rfl⟩⟩
    | some o =>
      exact .inl ⟨(c.text, o.seconds),
        (splitZone_eq (r := .ok _) nofun).2 (.inr ⟨_, o, hne, rfl, rfl⟩),
        (hclock _ _).2 ⟨c, rfl, rfl⟩⟩

/-- A stamp is read just where it is written as one. -/
theorem parseEpoch_eq (hr : r ≠ .error (.bad input)) :
    parseEpoch input = r ↔ ∃ s : Stamp, input.toList = s.text ∧ r = .ok s.instant := by
  unfold parseEpoch
  cases hsplit : splitOnce 'T' input.toList with
  | none =>
    have hnone := splitOnce_eq_none hsplit
    dsimp only
    rw [okOrBad_bind_eq hr]
    trans ∃ y m d, numbers '-' 4 input.toList = some (y, m, d) ∧
      ¬(¬(1 ≤ m ∧ m ≤ 12) ∨ d < 1 ∨ daysInMonth y m < d ∨ y < 1970) ∧
        r = .ok (daysFromCivil y m d * 86400 + 86399)
    · constructor
      · rintro ⟨⟨y, m, d⟩, hnumbers, h⟩
        dsimp only at h
        split_ifs at h with hrange
        · exact absurd h.symm hr
        · exact ⟨y, m, d, hnumbers, hrange, h.symm⟩
      · rintro ⟨y, m, d, hnumbers, hrange, rfl⟩
        exact ⟨_, hnumbers, if_neg hrange⟩
    rw [numbers_date (P := fun y m d => r = .ok (daysFromCivil y m d * 86400 + 86399))]
    constructor
    · rintro ⟨D, hy, hy', htext, rfl⟩
      exact ⟨⟨D, none, hy, hy'⟩, by rw [htext]; exact (append_nil _).symm,
        by rw [daysFromCivil_eq]; rfl⟩
    · rintro ⟨⟨D, t, hy, hy'⟩, htext, rfl⟩
      cases t with
      | none => exact ⟨D, hy, hy', by rw [htext]; exact append_nil _,
          by rw [daysFromCivil_eq]; rfl⟩
      | some t =>
        refine absurd ?_ hnone
        rw [htext]
        exact mem_append_right _ mem_cons_self
  | some parts =>
    obtain ⟨date, time⟩ := parts
    obtain ⟨htext, hdate⟩ := splitOnce_eq_some_iff.1 hsplit
    dsimp only
    rw [okOrBad_bind_eq hr]
    trans ∃ y m d, numbers '-' 4 date = some (y, m, d) ∧
      ¬(¬(1 ≤ m ∧ m ≤ 12) ∨ d < 1 ∨ daysInMonth y m < d ∨ y < 1970) ∧
        ∃ t : Time, time = t.text ∧ r = .ok (daysFromCivil y m d * 86400 + t.clock.hour * 3600 +
          t.clock.minute * 60 + t.clock.second - (t.offset.map Offset.seconds).getD 0)
    · constructor
      · rintro ⟨⟨y, m, d⟩, hnumbers, h⟩
        dsimp only at h
        split_ifs at h with hrange
        · exact absurd h.symm hr
        · exact ⟨y, m, d, hnumbers, hrange, (splitZone_bind_eq
            (f := fun h mi s offset => daysFromCivil y m d * 86400 + h * 3600 + mi * 60 + s - offset)
            hr).1 h⟩
      · rintro ⟨y, m, d, hnumbers, hrange, h⟩
        exact ⟨_, hnumbers, (if_neg hrange).trans ((splitZone_bind_eq
          (f := fun h mi s offset => daysFromCivil y m d * 86400 + h * 3600 + mi * 60 + s - offset)
          hr).2 h)⟩
    rw [numbers_date (P := fun y m d => ∃ t : Time, time = t.text ∧ r = .ok (daysFromCivil y m d *
      86400 + t.clock.hour * 3600 + t.clock.minute * 60 + t.clock.second -
        (t.offset.map Offset.seconds).getD 0))]
    have hinstant : ∀ (D : Date) (t : Time) (hy hy'), D.dayNumber * 86400 + t.clock.hour * 3600 +
        t.clock.minute * 60 + t.clock.second - (t.offset.map Offset.seconds).getD 0 =
          Stamp.instant ⟨D, some t, hy, hy'⟩ := by
      intro D t _ _
      simp only [Stamp.instant, Stamp.seconds, Clock.seconds]
      omega
    constructor
    · rintro ⟨D, hy, hy', rfl, t, rfl, rfl⟩
      exact ⟨⟨D, some t, hy, hy'⟩, htext, by rw [daysFromCivil_eq, hinstant]⟩
    · rintro ⟨⟨D, t, hy, hy'⟩, hstamp, rfl⟩
      cases t with
      | none =>
        have hstamp : input.toList = dateText D := hstamp.trans (append_nil _)
        refine absurd ?_ (not_mem_dateText D)
        rw [← hstamp, htext]
        exact mem_append_right _ mem_cons_self
      | some t =>
        have hcut := splitOnce_eq_some_iff.2 ⟨hstamp, not_mem_dateText D⟩
        obtain ⟨rfl, rfl⟩ := Prod.mk.inj (Option.some.inj (hsplit.symm.trans hcut))
        exact ⟨D, hy, hy', rfl, t, rfl, by rw [daysFromCivil_eq, hinstant]⟩

theorem parseEpoch_eq_ok_iff : parseEpoch input = .ok e ↔
    ∃ s : Stamp, input.toList = s.text ∧ e = s.instant := by
  rw [parseEpoch_eq (r := .ok e) nofun]
  simp

theorem parseEpoch_ne_panic (input : String) : parseEpoch input ≠ .error .panic := by
  intro h
  obtain ⟨s, -, hs⟩ := (parseEpoch_eq (by simp)).1 h
  cases hs

/-- The first second after the year 9999. -/
def endOfYears : ℤ := 253402300800

theorem Clock.seconds_bounds (c : Clock) : 0 ≤ c.seconds ∧ c.seconds < 86400 := by
  have hh := c.hour_le
  have hm := c.minute_le
  have hs := c.second_le
  unfold Clock.seconds
  omega

theorem Offset.size_bounds (o : Offset) : 0 ≤ o.size ∧ o.size < 86400 := by
  have hh := o.hour_le
  have hm := o.minute_le
  unfold Offset.size
  omega

theorem date_eq {D D' : Date} (h : D.dayNumber = D'.dayNumber) : D = D' := by
  have hcivil := civilFromDays_dayNumber D
  rw [h, civilFromDays_dayNumber] at hcivil
  simp only [Prod.mk.injEq] at hcivil
  exact Date.ext hcivil.1.symm hcivil.2.1.symm hcivil.2.2.symm

theorem dayNumber_of_years {D : Date} (h : 1970 ≤ D.year) (h' : D.year ≤ 9999) :
    0 ≤ D.dayNumber ∧ D.dayNumber ≤ 2932896 := by
  obtain ⟨hlow, hhigh⟩ := D.dayNumber_bounds
  have hfirst := daysBeforeYear_mono h
  have hlast := daysBeforeYear_mono (show D.year + 1 ≤ 10000 by omega)
  have h1970 : daysBeforeYear 1970 = 0 := by decide
  have h10000 : daysBeforeYear 10000 = 2932897 := by decide
  omega

/-- **An instant before the years that may be written** is that of an offset to the east. -/
theorem Stamp.beforeYears_iff (s : Stamp) : s.BeforeYears ↔ s.instant < 0 := by
  obtain ⟨D, t, hy, hy'⟩ := s
  have hday := (dayNumber_of_years hy hy').1
  have hepoch := Date.dayNumber_epoch
  unfold Stamp.BeforeYears Stamp.instant Stamp.seconds
  dsimp only
  constructor
  · rintro ⟨rfl, t, o, rfl, ho, hnegative, hlt⟩
    simp [ho, Offset.seconds, hnegative]
    omega
  · intro h
    cases t with
    | none =>
      dsimp only at h
      omega
    | some t =>
      have hclock := t.clock.seconds_bounds
      cases ho : t.offset with
      | none =>
        simp only [ho, map_none, getD_none] at h
        omega
      | some o =>
        have hsize := o.size_bounds
        simp only [ho, map_some, getD_some, Offset.seconds] at h
        split_ifs at h with hnegative
        · omega
        · exact ⟨date_eq (by omega), t, o, rfl, ho, by simpa using hnegative, by omega⟩

theorem Stamp.afterYears_iff (s : Stamp) : s.AfterYears ↔ endOfYears ≤ s.instant := by
  obtain ⟨D, t, hy, hy'⟩ := s
  have hday := (dayNumber_of_years hy hy').2
  have hlast : lastDay.dayNumber = 2932896 := by decide
  unfold Stamp.AfterYears Stamp.instant Stamp.seconds endOfYears
  dsimp only
  constructor
  · rintro ⟨rfl, t, o, rfl, ho, hnegative, hle⟩
    simp [ho, Offset.seconds, hnegative]
    omega
  · intro h
    cases t with
    | none =>
      dsimp only at h
      omega
    | some t =>
      have hclock := t.clock.seconds_bounds
      cases ho : t.offset with
      | none =>
        simp only [ho, map_none, getD_none] at h
        omega
      | some o =>
        have hsize := o.size_bounds
        simp only [ho, map_some, getD_some, Offset.seconds] at h
        split_ifs at h with hnegative
        · exact ⟨date_eq (by omega), t, o, rfl, ho, hnegative, by omega⟩
        · omega

theorem Stamp.instant_bounds (s : Stamp) :
    -86400 ≤ s.instant ∧ s.instant < endOfYears + 86400 := by
  obtain ⟨D, t, hy, hy'⟩ := s
  have hday := dayNumber_of_years hy hy'
  unfold Stamp.instant Stamp.seconds endOfYears
  cases t with
  | none =>
    dsimp only
    omega
  | some t =>
    have hclock := t.clock.seconds_bounds
    cases ho : t.offset with
    | none =>
      simp only [ho, map_none, getD_none]
      omega
    | some o =>
      have hsize := o.size_bounds
      simp only [ho, map_some, getD_some, Offset.seconds]
      split_ifs <;> omega

/-! ### Round trips -/

theorem formatUtc_eq {D : Date} (h : 1970 ≤ D.year) (h' : D.year ≤ 9999)
    (hD : D.dayNumber = e / 86400) :
    ∃ s : Stamp, (formatUtc e).toList = s.text ∧ s.instant = e := by
  have hm := D.month_pos
  have hm' := D.month_le
  have hd := D.day_pos
  have hd' : D.day ≤ 31 := D.day_le.trans (by unfold Calendar.daysInMonth; split_ifs <;> decide)
  have hsecs : 0 ≤ e % 86400 ∧ e % 86400 < 86400 := by omega
  have hfield : ∀ {width : ℕ} {n : ℤ}, 0 < width → 0 ≤ n → n < 10 ^ width →
      padded width n = digits width n.toNat := by
    intro width n hpos hn hlt
    obtain ⟨k, rfl⟩ := Int.eq_ofNat_of_zero_le hn
    exact padded_eq_digits (by exact_mod_cast hlt) hpos
  refine ⟨⟨D, some ⟨⟨(e % 86400 / 3600).toNat, (e % 86400 % 3600 / 60).toNat,
    (e % 86400 % 60).toNat, by omega, by omega, by omega⟩, none⟩, h, h'⟩, ?_, ?_⟩
  · have hcivil := civilFromDays_dayNumber D
    rw [hD] at hcivil
    unfold formatUtc
    dsimp only
    rw [hcivil]
    dsimp only
    rw [hfield (by decide) (by omega) (by omega), hfield (by decide) (by omega) (by omega),
      hfield (by decide) (by omega) (by omega), hfield (by decide) (by omega) (by omega),
      hfield (by decide) (by omega) (by omega), hfield (by decide) (by omega) (by omega),
      String.toList_ofList]
    simp [Stamp.text, dateText, Time.text, Clock.text]
  · simp only [Stamp.instant, Stamp.seconds, Clock.seconds, map_none, getD_none]
    omega

theorem parseEpoch_formatUtc (h : 1970 ≤ (civilFromDays (e / 86400)).1)
    (h' : (civilFromDays (e / 86400)).1 ≤ 9999) : parseEpoch (formatUtc e) = .ok e := by
  obtain ⟨D, hD, hnumber⟩ := civilFromDays_spec (e / 86400)
  rw [hD] at h h'
  obtain ⟨s, htext, hs⟩ := formatUtc_eq h h' hnumber
  exact parseEpoch_eq_ok_iff.2 ⟨s, htext, hs.symm⟩

theorem year_of_instant (h : 0 ≤ e) (h' : e < endOfYears) :
    1970 ≤ (civilFromDays (e / 86400)).1 ∧ (civilFromDays (e / 86400)).1 ≤ 9999 := by
  obtain ⟨D, hD, hnumber⟩ := civilFromDays_spec (e / 86400)
  rw [hD]
  obtain ⟨hlow, hhigh⟩ := D.dayNumber_bounds
  have h1970 : daysBeforeYear 1970 = 0 := by decide
  have h10000 : daysBeforeYear 10000 = 2932897 := by decide
  unfold endOfYears at h'
  constructor
  · by_contra hlt
    have hmono := daysBeforeYear_mono (show D.year + 1 ≤ 1970 by omega)
    omega
  · by_contra hlt
    have hmono := daysBeforeYear_mono (show 10000 ≤ D.year by omega)
    omega

theorem formatUtc_not_stamp (h : e / 86400 = -1 ∨ e / 86400 = 2932897) (s : Stamp) :
    (formatUtc e).toList ≠ s.text := by
  intro htext
  have hyear : s.text = digits 4 s.date.year.toNat ++ '-' :: (s.text.drop 5) := by
    simp [Stamp.text, dateText, drop_append]
  have hprinted : ∀ y m d, civilFromDays (e / 86400) = (y, m, d) →
      ∃ rest, (formatUtc e).toList = padded 4 y ++ '-' :: rest := by
    intro y m d hcivil
    unfold formatUtc
    dsimp only
    rw [hcivil, String.toList_ofList]
    exact ⟨_, by simp only [append_assoc, cons_append]; rfl⟩
  have hge := s.year_ge
  have hle := s.year_le
  rcases h with h | h
  · obtain ⟨rest, hrest⟩ := hprinted 1969 12 31 (by rw [h]; decide)
    have h1969 : padded 4 1969 = digits 4 1969 := by decide
    rw [hrest, hyear, h1969] at htext
    have heq := digits_inj (by decide) (by omega) (append_inj htext (by simp)).1
    omega
  · obtain ⟨rest, hrest⟩ := hprinted 10000 1 1 (by rw [h]; decide)
    have h10000 : padded 4 10000 = digits 4 1000 ++ ['0'] := by decide
    rw [hrest, hyear, h10000, append_assoc] at htext
    cases (append_inj htext (by simp)).2

/-- **What is read is read back from its normal form unless the offset leaves the years that may be
written.**  All instants of these years are read back, and nothing makes reading panic. -/
theorem roundTrip_iff (input : String) :
    (∀ e, parseEpoch input = .ok e →
      ((parseEpoch (formatUtc e) = .ok e ∧ normalize (formatUtc e) = .ok (formatUtc e)) ↔
        ¬LeavesYears input)) ∧
    (∀ e, 1970 ≤ (civilFromDays (e / 86400)).1 → (civilFromDays (e / 86400)).1 ≤ 9999 →
      parseEpoch (formatUtc e) = .ok e) ∧
    parseEpoch input ≠ .error .panic := by
  refine ⟨fun e hread => ?_, fun e => parseEpoch_formatUtc, parseEpoch_ne_panic input⟩
  have hleaves : LeavesYears input ↔ e < 0 ∨ endOfYears ≤ e := by
    constructor
    · rintro ⟨s, htext, hs⟩
      have heq := hread.symm.trans (parseEpoch_eq_ok_iff.2 ⟨s, htext, rfl⟩)
      rwa [Except.ok.inj heq, ← s.beforeYears_iff, ← s.afterYears_iff]
    · obtain ⟨s, htext, rfl⟩ := parseEpoch_eq_ok_iff.1 hread
      rw [← s.beforeYears_iff, ← s.afterYears_iff]
      exact fun hs => ⟨s, htext, hs⟩
  constructor
  · rintro ⟨hback, -⟩ hout
    obtain ⟨s, -, rfl⟩ := parseEpoch_eq_ok_iff.1 hread
    have hbounds := s.instant_bounds
    have hout := hleaves.1 hout
    obtain ⟨s', htext, -⟩ := parseEpoch_eq_ok_iff.1 hback
    unfold endOfYears at hbounds hout
    exact formatUtc_not_stamp (by omega) s' htext
  · intro hin
    rw [hleaves, not_or, not_lt, not_le] at hin
    obtain ⟨h, h'⟩ := year_of_instant hin.1 hin.2
    have hback := parseEpoch_formatUtc h h'
    exact ⟨hback, by unfold normalize; rw [hback]; rfl⟩

/-- Half past midnight of the first of January 1970, an hour to the east, is not read back. -/
theorem first_hour_not_read_back :
    ¬∀ input e, parseEpoch input = .ok e → parseEpoch (formatUtc e) = .ok e := fun h =>
  absurd (h "1970-01-01T00:30:00+01:00" (-1800) (by decide +kernel)) (by decide +kernel)

end U2os.Majordomo.Date
