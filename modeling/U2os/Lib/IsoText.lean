import U2os.Lib.Decimal
import U2os.Lib.JsDate
import Mathlib.Data.String.Basic

/-!
# Times as texts

`toISOString` of a time value.  From the year 0 to 9999 all its fields have their width, so that the
order of texts is that of times; a later year has six digits and a sign, which sorts before every
digit.
-/

namespace U2os

namespace Decimal

variable {width m n : ℕ} {a b : List Char} {c : Char}

theorem append_lt_append (hlen : a.length = b.length) (h : a < b) (s t : List Char) :
    a ++ s < b ++ t := by
  induction a generalizing b with
  | nil =>
    obtain rfl : b = [] := List.length_eq_zero_iff.1 hlen.symm
    exact absurd h (lt_irrefl _)
  | cons x a ih =>
    cases b with
    | nil => exact absurd hlen (by simp)
    | cons y b =>
      rw [List.cons_append, List.cons_append, List.cons_lt_cons_iff]
      rcases List.cons_lt_cons_iff.1 h with hlt | ⟨rfl, hlt⟩
      · exact .inl hlt
      · exact .inr ⟨rfl, ih (by simpa using hlen) hlt⟩

theorem digitChar_lt (hm : m < n) (hn : n < 10) : Nat.digitChar m < Nat.digitChar n := by
  have hm' := hm.trans hn
  interval_cases n <;> interval_cases m <;> decide

theorem digits_lt (hn : n < 10 ^ width) (h : m < n) : digits width m < digits width n := by
  induction width generalizing m n with
  | zero =>
    rw [pow_zero] at hn
    omega
  | succ width ih =>
    rw [digits, digits]
    have hn' : n / 10 < 10 ^ width := by
      rw [pow_succ] at hn
      omega
    rcases Nat.lt_or_ge (m / 10) (n / 10) with hlt | hge
    · exact append_lt_append (by simp) (ih hn' hlt) _ _
    · have heq : m / 10 = n / 10 := by omega
      rw [heq]
      refine List.append_left_lt (List.cons_lt_cons_iff.2 (.inl ?_))
      exact digitChar_lt (by omega) (Nat.mod_lt _ (by decide))

/-- A field, and what follows it. -/
def field (width : ℕ) (n : ℤ) (rest : List Char) : List Char := digits width n.toNat ++ rest

theorem field_lt {m n : ℤ} (hm : 0 ≤ m) (hn : n < 10 ^ width)
    (h : m < n ∨ m = n ∧ a < b) : field width m (c :: a) < field width n (c :: b) := by
  unfold field
  rcases h with hlt | ⟨rfl, hlt⟩
  · have hn' : n.toNat < 10 ^ width := by
      refine (Int.toNat_lt (by omega)).2 ?_
      rwa [Nat.cast_pow]
    exact append_lt_append (by simp) (digits_lt hn' (by omega)) _ _
  · exact List.append_left_lt (List.cons_lt_cons_iff.2 (.inr ⟨rfl, hlt⟩))

end Decimal

namespace JsDate

open Calendar Decimal

/-- The year: four digits, or six and a sign. -/
def yearText (year : ℤ) (rest : List Char) : List Char :=
  if 0 ≤ year ∧ year ≤ 9999 then field 4 year rest
  else (if year < 0 then '-' else '+') :: field 6 |year| rest

/-- The time of the day in milliseconds. -/
def timeText (time : ℤ) : List Char :=
  field 2 (time / msPerHour) (':' :: field 2 (time / msPerMinute % 60)
    (':' :: field 2 (time / 1000 % 60) ('.' :: field 3 (time % 1000) ['Z'])))

def toISOString (t : ℤ) : String :=
  String.ofList (yearText (date t).year ('-' :: field 2 (date t).month
    ('-' :: field 2 (date t).day ('T' :: timeText (timeWithinDay t)))))

/-- The times from the year 0 to 9999. -/
def InYears (t : ℤ) : Prop := -62167219200000 ≤ t ∧ t < 253402300800000

instance (t : ℤ) : Decidable (InYears t) := inferInstanceAs (Decidable (_ ∧ _))

variable {t t' : ℤ}

theorem timeText_lt (h : 0 ≤ t) (hlt : t < t') (h' : t' < msPerDay) :
    timeText t < timeText t' := by
  unfold timeText msPerHour msPerMinute
  unfold msPerDay at h'
  -- the smaller time has the smaller field first, or the same field and less in the rest
  have hhour : t / 3600000 < t' / 3600000 ∨ t / 3600000 = t' / 3600000 ∧
      (t / 60000 % 60 < t' / 60000 % 60 ∨ t / 60000 % 60 = t' / 60000 % 60 ∧
        (t / 1000 % 60 < t' / 1000 % 60 ∨ t / 1000 % 60 = t' / 1000 % 60 ∧
          t % 1000 < t' % 1000)) := by omega
  refine field_lt (by omega) (by omega) (hhour.imp_right fun h => ⟨h.1, ?_⟩)
  refine field_lt (by omega) (by omega) (h.2.imp_right fun h => ⟨h.1, ?_⟩)
  refine field_lt (by omega) (by omega) (h.2.imp_right fun h => ⟨h.1, ?_⟩)
  exact field_lt (by omega) (by omega) (.inl h.2)

theorem inYears_iff : InYears t ↔ 0 ≤ (date t).year ∧ (date t).year ≤ 9999 := by
  have hbounds := (Date.ofDay (day t)).dayNumber_bounds
  rw [Date.dayNumber_ofDay] at hbounds
  have hzero : daysBeforeYear 0 = -719528 := by decide
  have hend : daysBeforeYear 10000 = 2932897 := by decide
  unfold date InYears
  generalize (Date.ofDay (day t)).year = year at *
  unfold day msPerDay at *
  constructor
  · rintro ⟨hlow, hhigh⟩
    constructor
    · by_contra hneg
      have hmono := daysBeforeYear_mono (show year + 1 ≤ 0 by omega)
      omega
    · by_contra hlate
      have hmono := daysBeforeYear_mono (show 10000 ≤ year by omega)
      omega
  · rintro ⟨hlow, hhigh⟩
    have hmono := daysBeforeYear_mono hlow
    have hmono' := daysBeforeYear_mono (show year + 1 ≤ 10000 by omega)
    omega

/-- The text of a later time comes later. -/
theorem toISOString_lt (h : InYears t) (h' : InYears t') (hlt : t < t') :
    toISOString t < toISOString t' := by
  rw [String.lt_iff_toList_lt, toISOString, toISOString, String.toList_ofList, String.toList_ofList,
    yearText, yearText, if_pos (inYears_iff.1 h), if_pos (inYears_iff.1 h')]
  have hyear := inYears_iff.1 h
  have hyear' := inYears_iff.1 h'
  have htime : timeWithinDay t < timeWithinDay t' ∧ day t = day t' ∨ day t < day t' := by
    unfold timeWithinDay day msPerDay
    omega
  unfold date at *
  -- either the date is smaller, or it is the same and the time is smaller
  have hlex : (Date.ofDay (day t)).year < (Date.ofDay (day t')).year ∨
      (Date.ofDay (day t)).year = (Date.ofDay (day t')).year ∧
        ((Date.ofDay (day t)).month < (Date.ofDay (day t')).month ∨
          (Date.ofDay (day t)).month = (Date.ofDay (day t')).month ∧
            ((Date.ofDay (day t)).day < (Date.ofDay (day t')).day ∨
              (Date.ofDay (day t)).day = (Date.ofDay (day t')).day ∧
                timeWithinDay t < timeWithinDay t')) := by
    rcases htime with ⟨hless, hday⟩ | hday
    · rw [hday]
      exact .inr ⟨rfl, .inr ⟨rfl, .inr ⟨rfl, hless⟩⟩⟩
    · have hdates : (Date.ofDay (day t)).dayNumber < (Date.ofDay (day t')).dayNumber := by
        rwa [Date.dayNumber_ofDay, Date.dayNumber_ofDay]
      exact (Date.lex_of_dayNumber_lt hdates).imp_right fun h =>
        ⟨h.1, h.2.imp_right fun h => ⟨h.1, .inl h.2⟩⟩
  generalize Date.ofDay (day t) = d at *
  generalize Date.ofDay (day t') = d' at *
  have hpos := d.month_pos
  have hle := d'.month_le
  have hday := d.day_pos
  have hday' : d'.day ≤ 31 := d'.day_le.trans (by unfold daysInMonth; split_ifs <;> decide)
  refine field_lt (by omega) (by omega) (hlex.imp_right fun h => ⟨h.1, ?_⟩)
  refine field_lt (by omega) (by omega) (h.2.imp_right fun h => ⟨h.1, ?_⟩)
  refine field_lt (by omega) (by omega) (h.2.imp_right fun h => ⟨h.1, ?_⟩)
  refine timeText_lt ?_ h.2 ?_
  · unfold timeWithinDay msPerDay
    omega
  · unfold timeWithinDay msPerDay
    omega

/-- Times are in the order of their texts. -/
theorem toISOString_le_iff (h : InYears t) (h' : InYears t') :
    toISOString t ≤ toISOString t' ↔ t ≤ t' := by
  constructor
  · intro hle
    by_contra hlt
    exact absurd hle (not_le.2 (toISOString_lt h' h (not_le.1 hlt)))
  · intro hle
    rcases eq_or_lt_of_le hle with rfl | hlt
    · exact le_rfl
    · exact (toISOString_lt h h' hlt).le

theorem toISOString_lt_of_not_inYears (h : ¬InYears t) (h' : InYears t') :
    toISOString t < toISOString t' := by
  rw [String.lt_iff_toList_lt, toISOString, toISOString, String.toList_ofList, String.toList_ofList,
    yearText, yearText, if_neg fun hyear => h (inYears_iff.2 hyear), if_pos (inYears_iff.1 h')]
  cases hdigits : digits 4 (date t').year.toNat with
  | nil =>
    have hlen := length_digits 4 (date t').year.toNat
    rw [hdigits] at hlen
    cases hlen
  | cons c ds =>
    have hdigit : c.isDigit = true := isDigit_of_mem_digits (hdigits ▸ List.mem_cons_self)
    unfold field
    rw [hdigits, List.cons_append, List.cons_lt_cons_iff]
    left
    rw [Char.isDigit, Bool.and_eq_true, decide_eq_true_iff] at hdigit
    refine lt_of_lt_of_le ?_ hdigit.1
    split_ifs <;> decide

end JsDate

end U2os
