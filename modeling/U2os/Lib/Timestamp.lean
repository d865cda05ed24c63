import Mathlib.Data.Rat.Init
import Mathlib.Tactic.FieldSimp
import Mathlib.Tactic.Linarith
import Mathlib.Tactic.Push
import Mathlib.Tactic.Ring
import U2os.Lib.JsDate

/-!
# Timestamps with an offset

`YYYY-MM-DDTHH:MM`, with or without seconds and a fraction of them, and `Z` or an offset.  Such a
timestamp stands for one instant exactly, whatever number of digits its fraction has.  Readers that
count milliseconds drop the digits after the third.
-/

namespace U2os

open JsDate List Option Char

/-- What is left after characters of these kinds. -/
def fits : List (Char → Bool) → List Char → Option (List Char)
  | [], cs => some cs
  | _ :: _, [] => none
  | p :: ps, c :: cs => if p c then fits ps cs else none

theorem exists_of_fits {ps : List (Char → Bool)} {cs rest : List Char}
    (h : fits ps cs = some rest) :
    ∃ lead, cs = lead ++ rest ∧ ∀ c ∈ lead, ∃ p ∈ ps, p c = true := by
  induction ps generalizing cs with
  | nil => exact ⟨[], some.inj h, nofun⟩
  | cons p ps ih =>
    cases cs with
    | nil => cases h
    | cons c cs =>
      simp only [fits, ite_none_right_eq_some] at h
      obtain ⟨lead, rfl, hlead⟩ := ih h.2
      refine ⟨c :: lead, rfl, fun x hx => ?_⟩
      rcases mem_cons.1 hx with rfl | hx
      · exact ⟨p, mem_cons_self, h.1⟩
      · obtain ⟨q, hq, hqx⟩ := hlead x hx
        exact ⟨q, mem_cons_of_mem _ hq, hqx⟩

/-- One character. -/
def one (x : Char) : Char → Bool := fun c => c == x

/-- `\d{4}-\d{2}-\d{2}`. -/
def dayShape : List (Char → Bool) :=
  [isDigit, isDigit, isDigit, isDigit, one '-', isDigit, isDigit,
    one '-', isDigit, isDigit]

/-- The number in a field of a text. -/
def numberAt (cs : List Char) (start width : ℕ) : ℕ :=
  Nat.ofDigitChars 10 ((cs.drop start).take width) 0

/-- `[1-9]`. -/
def isNonzero (c : Char) : Bool := '1' ≤ c && c ≤ '9'

def digitValue (c : Char) : ℕ := if isNonzero c then c.toNat - 48 else 0

/-- The value of the digits after a point. -/
def fractionOf : List Char → ℚ
  | [] => 0
  | c :: cs => (digitValue c + fractionOf cs) / 10

/-- The first three digits after a point. -/
def millisOf (cs : List Char) : ℕ :=
  100 * digitValue (cs.getD 0 '0') + 10 * digitValue (cs.getD 1 '0') + digitValue (cs.getD 2 '0')

theorem fractionOf_eq_zero {cs : List Char} (h : ∀ c ∈ cs, isNonzero c = false) :
    fractionOf cs = 0 := by
  induction cs with
  | nil => rfl
  | cons c cs ih =>
    rw [fractionOf, ih fun x hx => h x (mem_cons_of_mem _ hx), digitValue,
      h c mem_cons_self]
    simp

theorem thousand_fractionOf {cs : List Char} (h : ∀ c ∈ cs.drop 3, isNonzero c = false) :
    1000 * fractionOf cs = millisOf cs := by
  have hzero : digitValue '0' = 0 := by decide
  match cs, h with
  | [], _ => simp [fractionOf, millisOf, hzero]
  | [a], _ => simp [fractionOf, millisOf, hzero]; ring
  | [a, b], _ => simp [fractionOf, millisOf, hzero]; ring
  | a :: b :: c :: rest, h =>
    have hrest : fractionOf rest = 0 := fractionOf_eq_zero h
    simp [fractionOf, millisOf, hrest]
    ring

/-- `\.(\d+)`: the digits after the first point that has some. -/
def fractionDigits : List Char → List Char
  | [] => []
  | c :: cs =>
    if c = '.' ∧ cs.takeWhile isDigit ≠ [] then cs.takeWhile isDigit
    else fractionDigits cs

theorem fractionDigits_append {lead : List Char} (h : '.' ∉ lead) (cs : List Char) :
    fractionDigits (lead ++ cs) = fractionDigits cs := by
  induction lead with
  | nil => rfl
  | cons c lead ih =>
    rw [mem_cons, not_or] at h
    rw [cons_append, fractionDigits, if_neg fun hc => h.1 hc.1.symm, ih h.2]

theorem fractionDigits_eq_nil {cs : List Char} (h : '.' ∉ cs) : fractionDigits cs = [] := by
  simpa [fractionDigits] using fractionDigits_append h []

/-- An offset of hours and minutes, in minutes. -/
def readOffset (sign h₁ h₂ m₁ m₂ : Char) : Option ℤ :=
  if (sign = '+' ∨ sign = '-') ∧ [h₁, h₂, m₁, m₂].all isDigit then
    some ((if sign = '-' then -1 else 1) *
      (60 * Nat.ofDigitChars 10 [h₁, h₂] 0 + Nat.ofDigitChars 10 [m₁, m₂] 0 : ℕ))
  else none

/-- `[zZ]|[+-]\d{2}:?\d{2}`, in minutes. -/
def readZone : List Char → Option ℤ
  | [z] => if z = 'Z' ∨ z = 'z' then some 0 else none
  | [sign, h₁, h₂, m₁, m₂] => readOffset sign h₁ h₂ m₁ m₂
  | [sign, h₁, h₂, colon, m₁, m₂] => if colon = ':' then readOffset sign h₁ h₂ m₁ m₂ else none
  | _ => none

/-- A timestamp: the milliseconds up to its second, and the fraction of the second. -/
structure Stamp where
  time : ℤ
  fraction : List Char

/-- The instant of a timestamp, in milliseconds. -/
def Stamp.instant (s : Stamp) : ℚ := s.time + 1000 * fractionOf s.fraction

/-- The milliseconds that were completed. -/
def Stamp.millis (s : Stamp) : ℤ := s.time + millisOf s.fraction

/-- The fraction that a text begins with, and the rest. -/
def readFraction : List Char → Option (List Char × List Char)
  | [] => some ([], [])
  | c :: cs =>
    if c = '.' then
      if cs.takeWhile isDigit = [] then none
      else some (cs.takeWhile isDigit, cs.dropWhile isDigit)
    else some ([], c :: cs)

/-- Seconds, their fraction and the rest; without seconds there is no fraction. -/
def readSeconds (cs : List Char) : Option (ℕ × List Char × List Char) :=
  match fits [one ':', isDigit, isDigit] cs with
  | some rest => (readFraction rest).map fun r => (numberAt cs 1 2, r)
  | none => some (0, [], cs)

/-- `YYYY-MM-DDTHH:MM`. -/
def minuteShape : List (Char → Bool) :=
  dayShape ++ [fun c => c = 'T' || c = 't', isDigit, isDigit, one ':', isDigit,
    isDigit]

/-- The timestamp that is written. -/
def Stamp.read? (cs : List Char) : Option Stamp :=
  (fits minuteShape cs).bind fun rest =>
    (readSeconds rest).bind fun (seconds, fraction, zone) =>
      (readZone zone).map fun offset =>
        { time := makeDate (makeDay (numberAt cs 0 4) (numberAt cs 5 2 - 1) (numberAt cs 8 2))
            (makeTime (numberAt cs 11 2) (numberAt cs 14 2) (1000 * seconds)) -
              offset * msPerMinute
          fraction }

example : (Stamp.read? "2026-01-01T12:00:00.0010-05:00".toList).map Stamp.millis =
    some 1767286800001 := by decide +kernel

namespace Stamp

variable {cs zone : List Char}

theorem point_not_mem_zone {offset : ℤ} (h : readZone zone = some offset) : '.' ∉ zone := by
  have hdigit : ∀ sign h₁ h₂ m₁ m₂, readOffset sign h₁ h₂ m₁ m₂ = some offset →
      '.' ≠ sign ∧ '.' ≠ h₁ ∧ '.' ≠ h₂ ∧ '.' ≠ m₁ ∧ '.' ≠ m₂ := by
    intro sign h₁ h₂ m₁ m₂ hread
    have hpoint : ∀ c : Char, c.isDigit = true → '.' ≠ c := by
      rintro c hc rfl
      exact absurd hc (by decide)
    simp only [readOffset, ite_none_right_eq_some, all_cons, all_nil,
      Bool.and_true, Bool.and_eq_true] at hread
    obtain ⟨⟨hsign, hd₁, hd₂, hd₃, hd₄⟩, -⟩ := hread
    refine ⟨?_, hpoint _ hd₁, hpoint _ hd₂, hpoint _ hd₃, hpoint _ hd₄⟩
    rcases hsign with rfl | rfl <;> decide
  unfold readZone at h
  split at h
  · rw [ite_none_right_eq_some] at h
    rcases h.1 with rfl | rfl <;> decide
  · simpa using hdigit _ _ _ _ _ h
  · rw [ite_none_right_eq_some] at h
    obtain ⟨rfl, h⟩ := h
    simpa using hdigit _ _ _ _ _ h
  · cases h

theorem point_not_mem_of_fits {ps : List (Char → Bool)} {rest : List Char}
    (hps : ∀ p ∈ ps, p '.' = false) (h : fits ps cs = some rest) :
    fractionDigits cs = fractionDigits rest := by
  obtain ⟨lead, rfl, hlead⟩ := exists_of_fits h
  refine fractionDigits_append (fun hmem => ?_) rest
  obtain ⟨p, hp, hpoint⟩ := hlead _ hmem
  rw [hps p hp] at hpoint
  cases hpoint

theorem fractionDigits_of_readFraction {fraction : List Char}
    (h : readFraction cs = some (fraction, zone)) (hzone : '.' ∉ zone) :
    fractionDigits cs = fraction := by
  cases cs with
  | nil =>
    cases h
    rfl
  | cons c cs =>
    simp only [readFraction] at h
    split_ifs at h with hc hnil
    · cases h
      exact if_pos ⟨hc, hnil⟩
    · cases h
      exact fractionDigits_eq_nil hzone

theorem fractionDigits_eq {s : Stamp} (h : read? cs = some s) : fractionDigits cs = s.fraction := by
  obtain ⟨rest, hrest, h⟩ := bind_eq_some_iff.1 h
  obtain ⟨⟨seconds, fraction, zone⟩, hseconds, h⟩ := bind_eq_some_iff.1 h
  obtain ⟨offset, hoffset, rfl⟩ := map_eq_some_iff.1 h
  have hzone := point_not_mem_zone hoffset
  rw [point_not_mem_of_fits (by decide) hrest]
  unfold readSeconds at hseconds
  split at hseconds
  · next tail htail =>
    obtain ⟨r, hr, heq⟩ := map_eq_some_iff.1 hseconds
    cases heq
    rw [point_not_mem_of_fits (by decide) htail]
    exact fractionDigits_of_readFraction hr hzone
  · cases hseconds
    exact fractionDigits_eq_nil hzone

theorem instant_eq {s : Stamp} (h : ∀ c ∈ s.fraction.drop 3, isNonzero c = false) :
    s.instant = s.millis := by
  rw [instant, millis, thousand_fractionOf h]
  push_cast
  rfl

end Stamp

end U2os
