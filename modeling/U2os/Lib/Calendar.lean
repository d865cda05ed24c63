import Mathlib.Tactic.Common
import Mathlib.Tactic.IntervalCases
import Mathlib.Data.Int.Init

/-!
# The Gregorian calendar

The proleptic Gregorian calendar over all years.  A date carries its validity; the day after a date
is the only notion of time, and the number of a day counts it from the first of January 1970, a
Thursday.

Computations count years from March, so that the leap day is the last day of a year, and by eras of
400 years, which all have the same number of days.

## Main results

* `Date.dayNumber_ofDay`, `Date.ofDay_dayNumber` : each day has one date.
-/

namespace U2os.Calendar

open List

/-- Every fourth year, but of the full centuries only every fourth. -/
def IsLeap (y : ℤ) : Prop := 4 ∣ y ∧ (¬100 ∣ y ∨ 400 ∣ y)

instance (y : ℤ) : Decidable (IsLeap y) := inferInstanceAs (Decidable (_ ∧ _))

/-- The number of days of a month. -/
def daysInMonth (y m : ℤ) : ℤ :=
  if m = 2 then if IsLeap y then 29 else 28
  else if m = 4 ∨ m = 6 ∨ m = 9 ∨ m = 11 then 30 else 31

/-- A valid date. -/
@[ext] structure Date where
  year : ℤ
  month : ℤ
  day : ℤ
  month_pos : 1 ≤ month
  month_le : month ≤ 12
  day_pos : 1 ≤ day
  day_le : day ≤ daysInMonth year month

theorem daysInMonth_pos (y m : ℤ) : 28 ≤ daysInMonth y m := by
  unfold daysInMonth
  split_ifs <;> omega

namespace Date

/-- The first of January 1970. -/
def epoch : Date := ⟨1970, 1, 1, by decide, by decide, by decide, by decide⟩

/-- The date of three numbers. -/
abbrev ofNumbers (year month day : ℤ)
    (h : 1 ≤ month ∧ month ≤ 12 ∧ 1 ≤ day ∧ day ≤ daysInMonth year month) : Date :=
  ⟨year, month, day, h.1, h.2.1, h.2.2.1, h.2.2.2⟩

end Date

/-- The days from the first of January 1970 to that of the year. -/
def daysBeforeYear (y : ℤ) : ℤ :=
  365 * (y - 1970) + ((y - 1) / 4 - (y - 1) / 100 + (y - 1) / 400 - 477)

/-- The days of a year before a month. -/
def daysBeforeMonth (y m : ℤ) : ℤ :=
  ((range (m.toNat - 1)).map fun i : ℕ => daysInMonth y (i + 1)).sum

theorem daysBeforeYear_succ (y : ℤ) :
    daysBeforeYear (y + 1) = daysBeforeYear y + if IsLeap y then 366 else 365 := by
  unfold daysBeforeYear IsLeap
  split_ifs <;> omega

variable {a b y : ℤ}

theorem daysBeforeYear_mono (h : a ≤ b) : daysBeforeYear a ≤ daysBeforeYear b := by
  unfold daysBeforeYear
  omega

theorem year_unique {y' n : ℤ} (h : daysBeforeYear y ≤ n ∧ n < daysBeforeYear (y + 1))
    (h' : daysBeforeYear y' ≤ n ∧ n < daysBeforeYear (y' + 1)) : y = y' := by
  rcases lt_trichotomy y y' with hlt | heq | hlt
  · have hmono := daysBeforeYear_mono (show y + 1 ≤ y' from hlt)
    omega
  · exact heq
  · have hmono := daysBeforeYear_mono (show y' + 1 ≤ y from hlt)
    omega

theorem daysBeforeMonth_succ (y : ℤ) {m : ℤ} (h : 1 ≤ m) :
    daysBeforeMonth y (m + 1) = daysBeforeMonth y m + daysInMonth y m := by
  obtain ⟨k, rfl⟩ : ∃ k : ℕ, m = k + 1 := ⟨(m - 1).toNat, by omega⟩
  have hsucc : ((k : ℤ) + 1 + 1).toNat - 1 = k + 1 := by omega
  have hself : ((k : ℤ) + 1).toNat - 1 = k := by omega
  rw [daysBeforeMonth, hsucc, range_succ, map_append, sum_append, daysBeforeMonth,
    hself, map_singleton, sum_singleton]

theorem daysBeforeMonth_eq (y : ℤ) {m : ℤ} (h : 1 ≤ m) (h' : m ≤ 12) :
    daysBeforeMonth y m =
      if m = 1 then 0 else if m = 2 then 31
      else (153 * (m - 3) + 2) / 5 + 59 + if IsLeap y then 1 else 0 := by
  unfold daysBeforeMonth daysInMonth
  by_cases hleap : IsLeap y
  · simp only [if_pos hleap]
    interval_cases m <;> rfl
  · simp only [if_neg hleap]
    interval_cases m <;> rfl

namespace Date

variable (d : Date)

def dayNumber : ℤ := daysBeforeYear d.year + daysBeforeMonth d.year d.month + (d.day - 1)

/-- The day of the week, from Sunday as 0. -/
def weekday : ℤ := (d.dayNumber + 4) % 7

theorem dayNumber_epoch : epoch.dayNumber = 0 := by decide

/-- The number of a day lies in its year. -/
theorem dayNumber_bounds : daysBeforeYear d.year ≤ d.dayNumber ∧
    d.dayNumber < daysBeforeYear (d.year + 1) := by
  have hpos := d.month_pos
  have hle := d.month_le
  have hday := d.day_pos
  have hlen : d.day ≤ 31 := d.day_le.trans (by unfold daysInMonth; split_ifs <;> decide)
  unfold dayNumber
  rw [daysBeforeYear_succ, daysBeforeMonth_eq _ hpos hle]
  split_ifs <;> omega

end Date

theorem daysBeforeMonth_mono (y : ℤ) {m m' : ℤ} (h : 1 ≤ m) (hle : m ≤ m') :
    daysBeforeMonth y m ≤ daysBeforeMonth y m' := by
  obtain ⟨k, rfl⟩ : ∃ k : ℕ, m' = m + k := ⟨(m' - m).toNat, by omega⟩
  induction k with
  | zero => simp
  | succ k ih =>
    have hsucc := daysBeforeMonth_succ y (m := m + k) (by omega)
    have hpos := daysInMonth_pos y (m + k)
    rw [Nat.cast_succ, ← add_assoc, hsucc]
    have := ih (by omega)
    omega

/-- The year of a day: at most one off the one by the mean length of a year. -/
def yearOfDay (n : ℤ) : ℤ :=
  let y := 1970 + 400 * n / 146097
  if daysBeforeYear (y + 1) ≤ n then y + 1 else if daysBeforeYear y ≤ n then y else y - 1

theorem yearOfDay_spec (n : ℤ) :
    daysBeforeYear (yearOfDay n) ≤ n ∧ n < daysBeforeYear (yearOfDay n + 1) := by
  unfold yearOfDay
  dsimp only
  have hlow : daysBeforeYear (1970 + 400 * n / 146097 - 1) ≤ n := by
    unfold daysBeforeYear
    omega
  have hhigh : n < daysBeforeYear (1970 + 400 * n / 146097 + 1 + 1) := by
    unfold daysBeforeYear
    omega
  split_ifs with ha hb
  · exact ⟨ha, hhigh⟩
  · exact ⟨hb, by omega⟩
  · refine ⟨hlow, ?_⟩
    rw [Int.sub_add_cancel]
    omega

/-- The month of a day of a year. -/
def monthOfDay (y doy : ℤ) : ℤ :=
  ((range 11).find? fun i : ℕ => doy < daysBeforeMonth y (i + 2)).elim 12 fun i => i + 1

/-- The month found for a day of the year is the one whose days it is among. -/
theorem monthOfDay_spec {doy : ℤ} (h : 0 ≤ doy)
    (h' : doy < daysBeforeYear (y + 1) - daysBeforeYear y) :
    (1 ≤ monthOfDay y doy ∧ monthOfDay y doy ≤ 12) ∧ daysBeforeMonth y (monthOfDay y doy) ≤ doy ∧
      doy < daysBeforeMonth y (monthOfDay y doy + 1) := by
  unfold monthOfDay
  cases hfind : (range 11).find? fun i : ℕ => doy < daysBeforeMonth y (i + 2) with
  | none =>
    have hlast := find?_eq_none.1 hfind 10 (by decide)
    have hend := daysBeforeMonth_succ y (m := 12) (by decide)
    have hlen : daysInMonth y 12 = 31 := rfl
    have hstart := daysBeforeMonth_eq y (m := 12) (by decide) (by decide)
    rw [daysBeforeYear_succ] at h'
    simp only [decide_eq_true_eq, not_lt] at hlast
    refine ⟨⟨by decide, by decide⟩, hlast, ?_⟩
    change doy < daysBeforeMonth y (12 + 1)
    rw [hend, hlen, hstart]
    split_ifs at h' ⊢ <;> omega
  | some i =>
    obtain ⟨hlt, hi, hbefore⟩ := find?_range_eq_some.1 hfind
    have hi' := mem_range.1 hi
    refine ⟨⟨?_, ?_⟩, ?_, ?_⟩
    · change (1 : ℤ) ≤ i + 1
      omega
    · change (i : ℤ) + 1 ≤ 12
      omega
    · change daysBeforeMonth y (i + 1) ≤ doy
      cases i with
      | zero => exact h
      | succ j =>
        have hj := hbefore j (by omega)
        simp only [Bool.not_eq_true', decide_eq_false_iff_not, not_lt] at hj
        rw [Nat.cast_succ, add_assoc]
        exact hj
    · change doy < daysBeforeMonth y (i + 1 + 1)
      rw [add_assoc]
      exact of_decide_eq_true hlt

theorem monthOfDay_yearOfDay (n : ℤ) :
    let m := monthOfDay (yearOfDay n) (n - daysBeforeYear (yearOfDay n))
    (1 ≤ m ∧ m ≤ 12) ∧ daysBeforeMonth (yearOfDay n) m ≤ n - daysBeforeYear (yearOfDay n) ∧
      n - daysBeforeYear (yearOfDay n) < daysBeforeMonth (yearOfDay n) (m + 1) := by
  have hspec := yearOfDay_spec n
  exact monthOfDay_spec (by omega) (by omega)

def Date.ofDay (n : ℤ) : Date where
  year := yearOfDay n
  month := monthOfDay (yearOfDay n) (n - daysBeforeYear (yearOfDay n))
  day := n - daysBeforeYear (yearOfDay n) - daysBeforeMonth (yearOfDay n)
    (monthOfDay (yearOfDay n) (n - daysBeforeYear (yearOfDay n))) + 1
  month_pos := (monthOfDay_yearOfDay n).1.1
  month_le := (monthOfDay_yearOfDay n).1.2
  day_pos := by
    have := monthOfDay_yearOfDay n
    omega
  day_le := by
    have hspec := monthOfDay_yearOfDay n
    have := daysBeforeMonth_succ (yearOfDay n) hspec.1.1
    omega

theorem Date.dayNumber_ofDay (n : ℤ) : (ofDay n).dayNumber = n := by
  unfold dayNumber ofDay
  dsimp only
  omega

theorem month_unique {m m' doy : ℤ} (hm : 1 ≤ m) (hm' : 1 ≤ m')
    (h : daysBeforeMonth y m ≤ doy ∧ doy < daysBeforeMonth y (m + 1))
    (h' : daysBeforeMonth y m' ≤ doy ∧ doy < daysBeforeMonth y (m' + 1)) : m = m' := by
  rcases lt_trichotomy m m' with hlt | heq | hlt
  · have hmono := daysBeforeMonth_mono y (by omega) (show m + 1 ≤ m' from hlt)
    omega
  · exact heq
  · have hmono := daysBeforeMonth_mono y (by omega) (show m' + 1 ≤ m from hlt)
    omega

theorem Date.dayOfYear_bounds (d : Date) :
    daysBeforeMonth d.year d.month ≤ d.dayNumber - daysBeforeYear d.year ∧
      d.dayNumber - daysBeforeYear d.year < daysBeforeMonth d.year (d.month + 1) := by
  have hpos := d.day_pos
  have hle := d.day_le
  have hsucc := daysBeforeMonth_succ d.year d.month_pos
  unfold dayNumber
  omega

theorem Date.dayNumber_injective : Function.Injective dayNumber := by
  intro d d' h
  have hyear : d.year = d'.year := year_unique d.dayNumber_bounds (h ▸ d'.dayNumber_bounds)
  have hmonth : d.month = d'.month := by
    have hd' := d'.dayOfYear_bounds
    rw [← hyear, ← h] at hd'
    exact month_unique d.month_pos d'.month_pos d.dayOfYear_bounds hd'
  refine Date.ext hyear hmonth ?_
  unfold dayNumber at h
  rw [hyear, hmonth] at h
  omega

theorem Date.lex_of_dayNumber_lt {d d' : Date} (h : d.dayNumber < d'.dayNumber) :
    d.year < d'.year ∨ d.year = d'.year ∧
      (d.month < d'.month ∨ d.month = d'.month ∧ d.day < d'.day) := by
  rcases lt_trichotomy d.year d'.year with hlt | heq | hgt
  · exact .inl hlt
  · refine .inr ⟨heq, ?_⟩
    have hbounds := d.dayOfYear_bounds
    have hbounds' := d'.dayOfYear_bounds
    rw [← heq] at hbounds'
    rcases lt_trichotomy d.month d'.month with hlt | hmonth | hgt
    · exact .inl hlt
    · refine .inr ⟨hmonth, ?_⟩
      unfold dayNumber at h
      rw [heq, hmonth] at h
      omega
    · have hmono := daysBeforeMonth_mono d.year (m := d'.month + 1) (by have := d'.month_pos; omega)
        (show d'.month + 1 ≤ d.month from hgt)
      omega
  · have hmono := daysBeforeYear_mono (show d'.year + 1 ≤ d.year from hgt)
    have hlow := d.dayNumber_bounds.1
    have hhigh := d'.dayNumber_bounds.2
    omega

theorem Date.ofDay_dayNumber (d : Date) : ofDay d.dayNumber = d :=
  dayNumber_injective (dayNumber_ofDay _)

/-- The days from the first of March of the year 0 to that of a year. -/
def marchStart (yoe : ℤ) : ℤ := 365 * yoe + yoe / 4 - yoe / 100 + yoe / 400

/-- The year from March that holds a day of an era. -/
def marchYear (doe : ℤ) : ℤ := (doe - doe / 1460 + doe / 36524 - doe / 146096) / 365

theorem daysBeforeYear_eq (y : ℤ) : daysBeforeYear y = marchStart (y - 1) - 719162 := by
  unfold daysBeforeYear marchStart
  omega

theorem marchStart_era (era yoe : ℤ) :
    marchStart (era * 400 + yoe) = era * 146097 + marchStart yoe := by
  unfold marchStart
  omega

theorem marchYear_mono (h : a ≤ b) : marchYear a ≤ marchYear b := by
  unfold marchYear
  refine Int.ediv_le_ediv (by decide) ?_
  omega

theorem marchYear_ends (h : 0 ≤ y) (h' : y < 400) :
    marchYear (marchStart y) = y ∧ marchYear (marchStart (y + 1) - 1) = y := by
  have hall : (range 400).all (fun n =>
      marchYear (marchStart n) = n ∧ marchYear (marchStart (n + 1) - 1) = n) = true := by
    decide +kernel
  obtain ⟨n, rfl⟩ := Int.eq_ofNat_of_zero_le h
  exact of_decide_eq_true (all_eq_true.1 hall n (mem_range.2 (by omega)))

theorem marchStart_mono (h : a ≤ b) : marchStart a ≤ marchStart b := by
  unfold marchStart
  omega

/-- **The year of a day of an era is the one between whose starts the day lies.** -/
theorem marchYear_eq {doe : ℤ} (h : 0 ≤ y) (h' : y < 400) (hlow : marchStart y ≤ doe)
    (hhigh : doe < marchStart (y + 1)) : marchYear doe = y := by
  obtain ⟨hstart, hend⟩ := marchYear_ends h h'
  refine le_antisymm ?_ ?_
  · have hle := marchYear_mono (show doe ≤ marchStart (y + 1) - 1 by omega)
    rwa [hend] at hle
  · have hle := marchYear_mono hlow
    rwa [hstart] at hle

/-- The year within an era, from the first of March, is the one whose days the day is among. -/
theorem marchYear_spec {doe : ℤ} (h : 0 ≤ doe) (h' : doe < 146097) :
    (0 ≤ marchYear doe ∧ marchYear doe < 400) ∧ marchStart (marchYear doe) ≤ doe ∧
      doe < marchStart (marchYear doe + 1) := by
  have hbound : 0 ≤ marchYear doe ∧ marchYear doe < 400 := by
    unfold marchYear
    omega
  refine ⟨hbound, ?_, ?_⟩
  · by_contra hlt
    -- the day would lie in an earlier year
    have hpos : 1 ≤ marchYear doe := by
      by_contra hzero
      have h0 : marchYear doe = 0 := by omega
      rw [h0] at hlt
      exact hlt h
    have hend := (marchYear_ends (y := marchYear doe - 1) (by omega) (by omega)).2
    rw [Int.sub_add_cancel] at hend
    have hle := marchYear_mono (show doe ≤ marchStart (marchYear doe) - 1 by omega)
    omega
  · by_contra hge
    rw [not_lt] at hge
    by_cases hy : marchYear doe = 399
    · rw [hy] at hge
      exact absurd h' (not_lt.2 hge)
    · -- the day would lie in a later year
      have hstart := (marchYear_ends (y := marchYear doe + 1) (by omega) (by omega)).1
      have hle := marchYear_mono hge
      omega

end U2os.Calendar
