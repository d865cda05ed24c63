import U2os.Lib.Calendar
import U2os.Lib.WallClock

/-!
# Local wall-clock time

Daily triggers run at a local time of day (`scheduler/zone.rs`).  A zone has a constant offset, or
the rules of the United States: an hour more from the second Sunday of March to the first Sunday of
November, both at two o'clock of the time in force.

Numbers are integers here; what does not fit 64 bits is the subject of `Scheduler/Checked`.  The
divisions of the source are Euclidean or of numbers that are not negative.
-/

namespace U2os.Majordomo.Scheduler

open Calendar WallClock

def msPerMin : ℤ := 60000

def msPerDay : ℤ := 86400000

/-- `days_from_civil`: days since 1970-01-01. -/
def daysFromCivil (y m d : ℤ) : ℤ :=
  let y := if m ≤ 2 then y - 1 else y
  let era := y / 400
  let yoe := y - era * 400
  let mp := (m + 9) % 12
  let doy := (153 * mp + 2) / 5 + d - 1
  let doe := yoe * 365 + yoe / 4 - yoe / 100 + doy
  era * 146097 + doe - 719468

def civilFromDays (z : ℤ) : ℤ × ℤ × ℤ :=
  let z := z + 719468
  let era := z / 146097
  let doe := z - era * 146097
  let yoe := (doe - doe / 1460 + doe / 36524 - doe / 146096) / 365
  let y := yoe + era * 400
  let doy := doe - (365 * yoe + yoe / 4 - yoe / 100)
  let mp := (5 * doy + 2) / 153
  let d := doy - (153 * mp + 2) / 5 + 1
  let m := if mp < 10 then mp + 3 else mp - 9
  (if m ≤ 2 then y + 1 else y, m, d)

/-- `weekday_of_days`: 0 = Sunday. -/
def weekdayOfDays (days : ℤ) : ℤ := (days + 4) % 7

/-- `nth_sunday`: the nth Sunday of a month, as a day number. -/
def nthSunday (year month n : ℤ) : ℤ :=
  let first := daysFromCivil year month 1
  let toSunday := (7 - weekdayOfDays first) % 7
  first + toSunday + (n - 1) * 7

/-- Local calendar fields. -/
@[ext] structure Local where
  year : ℤ
  month : ℤ
  day : ℤ
  hour : ℤ
  minute : ℤ
  /-- 0 = Sunday. -/
  weekday : ℤ
  deriving DecidableEq, Repr

inductive Zone where
  /-- A constant offset from UTC in minutes (east positive). -/
  | fixed (offsetMin : ℤ)
  /-- United States rules since 2007, with the given standard offset. -/
  | usDst (stdOffsetMin : ℤ)
  deriving DecidableEq, Repr

/-- The value of decimal digits. -/
def digitsValue (ds : List Char) : Option ℤ :=
  if ds ≠ [] ∧ ds.all Char.isDigit = true then
    some (ds.foldl (fun n c => 10 * n + (c.toNat - '0'.toNat : ℕ)) 0)
  else none

/-- `str::parse::<i32>`. -/
def parseI32 (s : List Char) : Option ℤ :=
  let value := match s with
    | '-' :: ds => (digitsValue ds).map fun n => -n
    | '+' :: ds => digitsValue ds
    | ds => digitsValue ds
  value.filter fun n => -2 ^ 31 ≤ n ∧ n < 2 ^ 31

namespace Zone

def utc : Zone := .fixed 0

/-- `parse`: `fixed:<minutes>` or `us:<standard-offset-minutes>`. -/
def parse (spec : String) : Option Zone :=
  match spec.toList.span (· ≠ ':') with
  | (_, []) => none
  | (kind, _ :: n) => do
    let n ← parseI32 n
    if -14 * 60 ≤ n ∧ n ≤ 14 * 60 then
      if kind = "fixed".toList then some (.fixed n)
      else if kind = "us".toList then some (.usDst n)
      else none
    else none

/-- `offset_min_at`: the offset in force at an instant. -/
def offsetMinAt (zone : Zone) (utcMs : ℤ) : ℤ :=
  match zone with
  | .fixed offsetMin => offsetMin
  | .usDst stdOffsetMin =>
    let year := (civilFromDays ((utcMs + stdOffsetMin * msPerMin) / msPerDay)).1
    -- 02:00 local standard time, then 02:00 local daylight time
    let start := nthSunday year 3 2 * msPerDay + 2 * 60 * msPerMin - stdOffsetMin * msPerMin
    let stop := nthSunday year 11 1 * msPerDay + 2 * 60 * msPerMin -
      (stdOffsetMin + 60) * msPerMin
    if start ≤ utcMs ∧ utcMs < stop then stdOffsetMin + 60 else stdOffsetMin

/-- `local`. -/
def localAt (zone : Zone) (utcMs : ℤ) : Local :=
  let localMs := utcMs + zone.offsetMinAt utcMs * msPerMin
  let days := localMs / msPerDay
  let rem := localMs % msPerDay
  let civil := civilFromDays days
  { year := civil.1
    month := civil.2.1
    day := civil.2.2
    hour := rem / (60 * msPerMin)
    minute := rem / msPerMin % 60
    weekday := weekdayOfDays days }

/-- `wall_to_utc`: the instant of a local wall time. -/
def wallToUtc (zone : Zone) (year month day hour minute : ℤ) : ℤ :=
  let wall := daysFromCivil year month day * msPerDay + hour * 60 * msPerMin + minute * msPerMin
  let before := zone.offsetMinAt (wall - msPerDay)
  let after := zone.offsetMinAt (wall + msPerDay)
  let valid := fun offset =>
    let t := wall - offset * msPerMin
    if zone.offsetMinAt t = offset then some t else none
  match valid before, valid after with
  | some a, some b => min a b
  | some t, none => t
  | none, some t => t
  -- the wall time falls in a gap: the offset from before it
  | none, none => wall - before * msPerMin

end Zone

/-! ### Days -/

theorem eraDays_eq (y : ℤ) :
    y / 400 * 146097 + ((y - y / 400 * 400) * 365 + (y - y / 400 * 400) / 4 -
      (y - y / 400 * 400) / 100) = marchStart y := by
  unfold marchStart
  omega

/-- The day of a date is counted as the calendar counts it. -/
theorem daysFromCivil_eq (d : Date) : daysFromCivil d.year d.month d.day = d.dayNumber := by
  obtain ⟨y, m, d, h, h', -, -⟩ := d
  unfold daysFromCivil Date.dayNumber
  dsimp only
  rw [daysBeforeMonth_eq y h h']
  by_cases hm : m ≤ 2
  · rw [if_pos hm, daysBeforeYear_eq]
    have hera := eraDays_eq (y - 1)
    obtain rfl | rfl : m = 1 ∨ m = 2 := by omega
    · rw [if_pos rfl]
      omega
    · rw [if_neg (by decide), if_pos rfl]
      omega
  · have hera := eraDays_eq y
    have hyear := daysBeforeYear_succ y
    have hnext := daysBeforeYear_eq (y + 1)
    have hmp : (m + 9) % 12 = m - 3 := by omega
    rw [Int.add_sub_cancel] at hnext
    rw [if_neg hm, if_neg (by omega), if_neg (by omega), hmp]
    split_ifs at hyear ⊢ <;> omega

/-- The date of a day of a year from March. -/
def marchDate (year doy : ℤ) : ℤ × ℤ × ℤ :=
  let mp := (5 * doy + 2) / 153
  let m := if mp < 10 then mp + 3 else mp - 9
  (if m ≤ 2 then year + 1 else year, m, doy - (153 * mp + 2) / 5 + 1)

/-- A day that lies in a year from March. -/
def InMarchYear (year doy : ℤ) : Prop := 0 ≤ doy ∧ doy < marchStart (year + 1) - marchStart year

variable {year doy : ℤ}

theorem InMarchYear.le (h : InMarchYear year doy) : doy ≤ 365 := by
  obtain ⟨-, h⟩ := h
  unfold marchStart at h
  omega

theorem InMarchYear.month (h : InMarchYear year doy) :
    (0 ≤ (5 * doy + 2) / 153 ∧ (5 * doy + 2) / 153 ≤ 11) ∧
      (153 * ((5 * doy + 2) / 153) + 2) / 5 ≤ doy ∧
      doy < (153 * ((5 * doy + 2) / 153 + 1) + 2) / 5 := by
  have hle := h.le
  have hpos := h.1
  omega

theorem exists_marchYear (z : ℤ) :
    ∃ year doy, InMarchYear year doy ∧ z = marchStart year + doy - 719468 := by
  have hday : 0 ≤ (z + 719468) % 146097 ∧ (z + 719468) % 146097 < 146097 := by omega
  obtain ⟨hy, hlow, hhigh⟩ := marchYear_spec hday.1 hday.2
  have hera := marchStart_era ((z + 719468) / 146097)
  refine ⟨(z + 719468) / 146097 * 400 + marchYear ((z + 719468) % 146097),
    (z + 719468) % 146097 - marchStart (marchYear ((z + 719468) % 146097)), ⟨by omega, ?_⟩, ?_⟩
  · rw [add_assoc, hera, hera]
    omega
  · rw [hera]
    omega

theorem civilFromDays_march (h : InMarchYear year doy) :
    civilFromDays (marchStart year + doy - 719468) = marchDate year doy := by
  obtain ⟨era, yoe, rfl, h0, h1⟩ : ∃ era yoe, year = era * 400 + yoe ∧ 0 ≤ yoe ∧ yoe < 400 :=
    ⟨year / 400, year % 400, by omega, by omega, by omega⟩
  obtain ⟨hpos, hlt⟩ := h
  rw [add_assoc, marchStart_era, marchStart_era] at hlt
  have hfirst : 0 ≤ marchStart yoe := marchStart_mono h0
  have hlast : marchStart (yoe + 1) ≤ 146097 := marchStart_mono (b := 400) (by omega)
  have hyear := marchYear_eq h0 h1 (show marchStart yoe ≤ marchStart yoe + doy by omega) (by omega)
  have hstart : 365 * yoe + yoe / 4 - yoe / 100 = marchStart yoe := by
    unfold marchStart
    omega
  have hera : (marchStart (era * 400 + yoe) + doy - 719468 + 719468) / 146097 = era := by
    rw [marchStart_era]
    omega
  have hdoe : marchStart (era * 400 + yoe) + doy - 719468 + 719468 - era * 146097 =
      marchStart yoe + doy := by
    rw [marchStart_era]
    omega
  unfold marchYear at hyear
  unfold civilFromDays marchDate
  dsimp only
  rw [hera, hdoe, hyear, hstart, add_sub_cancel_left, add_comm yoe]

theorem daysFromCivil_march (h : InMarchYear year doy) :
    daysFromCivil (marchDate year doy).1 (marchDate year doy).2.1 (marchDate year doy).2.2 =
      marchStart year + doy - 719468 := by
  obtain ⟨⟨hmp0, hmp1⟩, -⟩ := h.month
  have hera := eraDays_eq year
  unfold marchDate daysFromCivil
  dsimp only
  generalize (5 * doy + 2) / 153 = mp at hmp0 hmp1 ⊢
  have hyear : (if (if mp < 10 then mp + 3 else mp - 9) ≤ 2 then
      (if (if mp < 10 then mp + 3 else mp - 9) ≤ 2 then year + 1 else year) - 1
      else if (if mp < 10 then mp + 3 else mp - 9) ≤ 2 then year + 1 else year) = year := by
    split_ifs <;> omega
  have hmonth : ((if mp < 10 then mp + 3 else mp - 9) + 9) % 12 = mp := by
    split_ifs <;> omega
  rw [hyear, hmonth]
  omega

theorem daysInMonth_eq (y : ℤ) {mp : ℤ} (h : 0 ≤ mp) (h' : mp ≤ 10) :
    daysInMonth y (if mp < 10 then mp + 3 else mp - 9) =
      (153 * (mp + 1) + 2) / 5 - (153 * mp + 2) / 5 := by
  interval_cases mp <;> rfl

theorem daysInMonth_february (year : ℤ) :
    daysInMonth (year + 1) 2 = marchStart (year + 1) - marchStart year - 337 := by
  have hlen : daysInMonth (year + 1) 2 = if IsLeap (year + 1) then 29 else 28 := rfl
  rw [hlen]
  unfold IsLeap marchStart
  split_ifs <;> omega

theorem marchDate_valid (h : InMarchYear year doy) : ∃ d : Date,
    marchDate year doy = (d.year, d.month, d.day) := by
  obtain ⟨⟨hmp0, hmp1⟩, hfirst, hlast⟩ := h.month
  have hlt := h.2
  unfold marchDate
  dsimp only
  generalize (5 * doy + 2) / 153 = mp at hmp0 hmp1 hfirst hlast ⊢
  refine ⟨⟨if (if mp < 10 then mp + 3 else mp - 9) ≤ 2 then year + 1 else year,
    if mp < 10 then mp + 3 else mp - 9, doy - (153 * mp + 2) / 5 + 1, ?_, ?_, ?_, ?_⟩, rfl⟩
  · split_ifs <;> omega
  · split_ifs <;> omega
  · omega
  · by_cases hfeb : mp = 11
    · subst hfeb
      show doy - 337 + 1 ≤ daysInMonth (year + 1) 2
      rw [daysInMonth_february]
      omega
    · rw [daysInMonth_eq _ hmp0 (by omega)]
      omega

theorem exists_marchDate (d : Date) :
    ∃ year doy, InMarchYear year doy ∧ marchDate year doy = (d.year, d.month, d.day) := by
  obtain ⟨y, m, d, h, h', hd, hd'⟩ := d
  obtain ⟨mp, hmp, hm⟩ : ∃ mp, (0 ≤ mp ∧ mp ≤ 11) ∧ m = if mp < 10 then mp + 3 else mp - 9 :=
    ⟨(m + 9) % 12, by omega, by split_ifs <;> omega⟩
  have hlen : ∀ year, marchStart (year + 1) - marchStart year ≥ 365 := fun year => by
    unfold marchStart
    omega
  have hday : d ≤ (153 * (mp + 1) + 2) / 5 - (153 * mp + 2) / 5 ∧
      ∀ year, y = (if m ≤ 2 then year + 1 else year) →
        InMarchYear year ((153 * mp + 2) / 5 + d - 1) := by
    by_cases hfeb : mp = 11
    · subst hfeb
      obtain rfl : m = 2 := hm
      refine ⟨?_, fun year hy => ?_⟩
      · unfold daysInMonth at hd'
        rw [if_pos rfl] at hd'
        split_ifs at hd' <;> omega
      · rw [if_pos le_rfl] at hy
        subst hy
        rw [daysInMonth_february] at hd'
        exact ⟨by omega, by omega⟩
    · have hle := hd'
      rw [hm, daysInMonth_eq _ hmp.1 (by omega)] at hle
      refine ⟨hle, fun year _ => ⟨by omega, lt_of_lt_of_le ?_ (hlen year)⟩⟩
      omega
  have hmonth : (5 * ((153 * mp + 2) / 5 + d - 1) + 2) / 153 = mp := by omega
  refine ⟨if m ≤ 2 then y - 1 else y, _, hday.2 _ (by split_ifs <;> omega), ?_⟩
  unfold marchDate
  dsimp only
  rw [hmonth, ← hm]
  refine Prod.ext ?_ (Prod.ext rfl ?_)
  · show (if m ≤ 2 then (if m ≤ 2 then y - 1 else y) + 1 else if m ≤ 2 then y - 1 else y) = y
    split_ifs <;> omega
  · show (153 * mp + 2) / 5 + d - 1 - (153 * mp + 2) / 5 + 1 = d
    omega

theorem civilFromDays_spec (z : ℤ) : ∃ d : Date, civilFromDays z = (d.year, d.month, d.day) ∧
    d.dayNumber = z := by
  obtain ⟨year, doy, h, rfl⟩ := exists_marchYear z
  obtain ⟨d, hd⟩ := marchDate_valid h
  have hnumber := daysFromCivil_march h
  rw [hd, daysFromCivil_eq] at hnumber
  exact ⟨d, (civilFromDays_march h).trans hd, hnumber⟩

theorem civilFromDays_dayNumber (d : Date) :
    civilFromDays d.dayNumber = (d.year, d.month, d.day) := by
  obtain ⟨year, doy, h, hd⟩ := exists_marchDate d
  have hnumber := daysFromCivil_march h
  rw [hd, daysFromCivil_eq] at hnumber
  rw [hnumber, civilFromDays_march h, hd]

theorem civilFromDays_year {z y : ℤ} (h : daysBeforeYear y ≤ z) (h' : z < daysBeforeYear (y + 1)) :
    (civilFromDays z).1 = y := by
  obtain ⟨d, hd, rfl⟩ := civilFromDays_spec z
  rw [hd]
  exact year_unique d.dayNumber_bounds ⟨h, h'⟩

/-! ### Offsets -/

/-- The start of daylight time in a year. -/
def usStart (std year : ℤ) : ℤ :=
  nthSunday year 3 2 * msPerDay + 2 * 60 * msPerMin - std * msPerMin

/-- The end of daylight time in a year. -/
def usStop (std year : ℤ) : ℤ :=
  nthSunday year 11 1 * msPerDay + 2 * 60 * msPerMin - (std + 60) * msPerMin

/-- The year in standard time. -/
def usYear (std t : ℤ) : ℤ := (civilFromDays ((t + std * msPerMin) / msPerDay)).1

theorem offsetMinAt_usDst (std t : ℤ) : (Zone.usDst std).offsetMinAt t =
    if usStart std (usYear std t) ≤ t ∧ t < usStop std (usYear std t) then std + 60 else std := rfl

theorem nthSunday_bounds (year month n : ℤ) :
    daysFromCivil year month 1 + (n - 1) * 7 ≤ nthSunday year month n ∧
      nthSunday year month n ≤ daysFromCivil year month 1 + (n - 1) * 7 + 6 := by
  unfold nthSunday
  dsimp only
  omega

theorem daysFromCivil_first (y : ℤ) {m : ℤ} (h : 1 ≤ m) (h' : m ≤ 12) :
    daysFromCivil y m 1 = daysBeforeYear y + daysBeforeMonth y m := by
  have hdate := daysFromCivil_eq ⟨y, m, 1, h, h', le_rfl, by
    have := daysInMonth_pos y m
    omega⟩
  rw [hdate, Date.dayNumber, sub_self, add_zero]

variable {std : ℤ}

theorem usStart_bounds (std y : ℤ) :
    (daysBeforeYear y + 66) * msPerDay ≤ usStart std y + std * msPerMin ∧
      usStart std y + std * msPerMin < (daysBeforeYear y + 75) * msPerDay := by
  obtain ⟨hlow, hhigh⟩ := nthSunday_bounds y 3 2
  rw [daysFromCivil_first y (by decide) (by decide), daysBeforeMonth_eq y (by decide) (by decide),
    if_neg (by decide), if_neg (by decide)] at hlow hhigh
  unfold usStart msPerDay msPerMin
  split_ifs at hlow hhigh <;> omega

theorem usStop_bounds (std y : ℤ) :
    (daysBeforeYear y + 304) * msPerDay ≤ usStop std y + std * msPerMin ∧
      usStop std y + std * msPerMin < (daysBeforeYear y + 313) * msPerDay := by
  obtain ⟨hlow, hhigh⟩ := nthSunday_bounds y 11 1
  rw [daysFromCivil_first y (by decide) (by decide), daysBeforeMonth_eq y (by decide) (by decide),
    if_neg (by decide), if_neg (by decide)] at hlow hhigh
  unfold usStop msPerDay msPerMin
  split_ifs at hlow hhigh <;> omega

theorem daysBeforeYear_bounds (y : ℤ) : daysBeforeYear y + 365 ≤ daysBeforeYear (y + 1) ∧
    daysBeforeYear (y + 1) ≤ daysBeforeYear y + 366 := by
  rw [daysBeforeYear_succ]
  split_ifs <;> omega

theorem offsetMinAt_of_between {t y : ℤ} (h : usStop std (y - 1) ≤ t) (h' : t < usStop std y) :
    (Zone.usDst std).offsetMinAt t = if t < usStart std y then std else std + 60 := by
  have hstart := usStart_bounds std y
  have hstop := usStop_bounds std y
  have hstart' := usStart_bounds std (y - 1)
  have hstop' := usStop_bounds std (y - 1)
  have hyear := daysBeforeYear_bounds (y - 1)
  have hyear' := daysBeforeYear_bounds y
  rw [sub_add_cancel] at hyear
  unfold msPerDay msPerMin at hstart hstop hstart' hstop'
  rw [offsetMinAt_usDst]
  by_cases hold : (t + std * 60000) / 86400000 < daysBeforeYear y
  · have hsame : usYear std t = y - 1 := by
      refine civilFromDays_year (z := (t + std * 60000) / 86400000) (by omega) ?_
      rw [sub_add_cancel]
      exact hold
    rw [hsame, if_neg (by omega), if_pos (by omega)]
  · have hsame : usYear std t = y :=
      civilFromDays_year (z := (t + std * 60000) / 86400000) (by omega) (by omega)
    rw [hsame]
    split_ifs <;> omega

theorem exists_usStop (std t : ℤ) : ∃ y, usStop std (y - 1) ≤ t ∧ t < usStop std y := by
  obtain ⟨d, -, hd⟩ := civilFromDays_spec ((t + std * 60000) / 86400000)
  obtain ⟨hlow, hhigh⟩ := d.dayNumber_bounds
  have hstop := usStop_bounds std (d.year - 1)
  have hstop' := usStop_bounds std (d.year + 1)
  have hyear := daysBeforeYear_bounds (d.year - 1)
  rw [sub_add_cancel] at hyear
  unfold msPerDay msPerMin at hstop hstop'
  by_cases h : t < usStop std d.year
  · exact ⟨d.year, by omega, h⟩
  · exact ⟨d.year + 1, by rw [add_sub_cancel_right]; omega, by omega⟩

namespace Zone

/-- The offset in milliseconds. -/
def offsetMs (zone : Zone) (t : ℤ) : ℤ := zone.offsetMinAt t * msPerMin

/-- The clock of a zone changes at most once within two days. -/
theorem changesOnce (zone : Zone) {low high : ℤ} (h : high ≤ low + 2 * msPerDay) :
    ChangesOnce zone.offsetMs low high := by
  cases zone with
  | fixed o =>
    refine ⟨low, fun t _ _ => ?_⟩
    split_ifs <;> rfl
  | usDst std =>
    obtain ⟨y, hy, hy'⟩ := exists_usStop std low
    have hstart := usStart_bounds std y
    have hstop := usStop_bounds std y
    have hnext := usStart_bounds std (y + 1)
    have hnext' := usStop_bounds std (y + 1)
    have hyear := daysBeforeYear_bounds y
    unfold msPerDay msPerMin at *
    by_cases hlow : low < usStart std y
    · refine ⟨usStart std y, fun t ht ht' => ?_⟩
      have hbetween : ∀ u, low ≤ u → u ≤ high → (usDst std).offsetMs u =
          (if u < usStart std y then std else std + 60) * msPerMin := fun u hu hu' =>
        congrArg (· * msPerMin) (offsetMinAt_of_between (by omega) (by omega))
      rw [hbetween t ht ht', hbetween low le_rfl (ht.trans ht'),
        hbetween high (ht.trans ht') le_rfl, if_pos hlow]
      split_ifs
      · rfl
      · omega
      · rfl
    · refine ⟨usStop std y, fun t ht ht' => ?_⟩
      have hbetween : ∀ u, low ≤ u → u ≤ high → (usDst std).offsetMs u =
          (if u < usStop std y then std + 60 else std) * msPerMin := by
        intro u hu hu'
        refine congrArg (· * msPerMin) ?_
        by_cases hold : u < usStop std y
        · rw [offsetMinAt_of_between (by omega) hold, if_neg (by omega), if_pos hold]
        · rw [offsetMinAt_of_between (y := y + 1) (by rw [add_sub_cancel_right]; omega) (by omega),
            if_pos (by omega), if_neg hold]
      rw [hbetween t ht ht', hbetween low le_rfl (ht.trans ht'),
        hbetween high (ht.trans ht') le_rfl, if_pos hy']
      split_ifs
      · rfl
      · omega
      · rfl

/-- The offset at most. -/
def Moderate : Zone → Prop
  | fixed offsetMin => -14 * 60 ≤ offsetMin ∧ offsetMin ≤ 14 * 60
  | usDst stdOffsetMin => -14 * 60 ≤ stdOffsetMin ∧ stdOffsetMin ≤ 14 * 60

theorem moderate_of_parse {zone : Zone} {spec : String} (h : parse spec = some zone) :
    zone.Moderate := by
  unfold parse at h
  split at h
  · cases h
  · simp only [Option.bind_eq_bind, Option.bind_eq_some_iff] at h
    obtain ⟨n, -, h⟩ := h
    split_ifs at h with hn hfixed hus
    · cases h
      exact hn
    · cases h
      exact hn

theorem offsetMs_small {zone : Zone} (h : zone.Moderate) (t : ℤ) :
    -msPerDay < zone.offsetMs t ∧ zone.offsetMs t < msPerDay := by
  unfold offsetMs msPerDay msPerMin
  cases zone with
  | fixed o =>
    obtain ⟨h, h'⟩ := h
    show -86400000 < o * 60000 ∧ o * 60000 < 86400000
    omega
  | usDst std =>
    obtain ⟨h, h'⟩ := h
    rw [offsetMinAt_usDst]
    split_ifs <;> omega

/-- The offsets of a zone are whole minutes. -/
theorem whole (zone : Zone) : Whole zone.offsetMs msPerMin where
  pos := by decide
  dvd t := ⟨zone.offsetMinAt t, mul_comm _ _⟩
  start t := by
    refine congrArg (· * msPerMin) ?_
    cases zone with
    | fixed o => rfl
    | usDst std =>
      have hyear : usYear std (t - t % msPerMin) = usYear std t := by
        unfold usYear msPerMin msPerDay
        rw [show (t - t % 60000 + std * 60000) / 86400000 = (t + std * 60000) / 86400000 by omega]
      rw [offsetMinAt_usDst, offsetMinAt_usDst, hyear]
      refine if_congr ?_ rfl rfl
      unfold usStart usStop msPerMin msPerDay
      omega

/-- The local time of a date and a time of day, in milliseconds. -/
def wallMs (d : Date) (hour minute : ℤ) : ℤ :=
  d.dayNumber * msPerDay + hour * 60 * msPerMin + minute * msPerMin

theorem wallToUtc_eq (zone : Zone) (d : Date) (hour minute : ℤ) :
    zone.wallToUtc d.year d.month d.day hour minute =
      resolve zone.offsetMs msPerDay (wallMs d hour minute) := by
  have hms : ∀ a b : ℤ, a * msPerMin = b * msPerMin ↔ a = b := fun a b => by
    unfold msPerMin
    omega
  unfold wallToUtc resolve
  rw [daysFromCivil_eq]
  simp only [offsetMs, hms, wallMs]
  split_ifs <;> rfl

/-- The clock of the zone shows the date and the time of day. -/
def Shows (zone : Zone) (t : ℤ) (d : Date) (hour minute : ℤ) : Prop :=
  (zone.localAt t).year = d.year ∧ (zone.localAt t).month = d.month ∧
    (zone.localAt t).day = d.day ∧ (zone.localAt t).hour = hour ∧ (zone.localAt t).minute = minute

/-- A clock shows a time of day in the minute that its reading begins with. -/
theorem shows_iff {zone : Zone} {t hour minute : ℤ} {d : Date} (h : 0 ≤ hour) (h' : hour < 24)
    (hm : 0 ≤ minute) (hm' : minute < 60) : zone.Shows t d hour minute ↔
      reading zone.offsetMs t - reading zone.offsetMs t % msPerMin = wallMs d hour minute := by
  obtain ⟨e, he, hen⟩ := civilFromDays_spec (reading zone.offsetMs t / msPerDay)
  have hdate : (e.year = d.year ∧ e.month = d.month ∧ e.day = d.day) ↔
      reading zone.offsetMs t / msPerDay = d.dayNumber := by
    rw [← hen]
    refine ⟨fun hed => congrArg Date.dayNumber (Date.ext hed.1 hed.2.1 hed.2.2), fun hed => ?_⟩
    have hsame := civilFromDays_dayNumber d
    rw [← hed, civilFromDays_dayNumber e] at hsame
    exact ⟨congrArg (·.1) hsame, congrArg (·.2.1) hsame, congrArg (·.2.2) hsame⟩
  have hshows : zone.Shows t d hour minute ↔ (e.year = d.year ∧ e.month = d.month ∧
      e.day = d.day) ∧ reading zone.offsetMs t % msPerDay / (60 * msPerMin) = hour ∧
      reading zone.offsetMs t % msPerDay / msPerMin % 60 = minute := by
    unfold Shows localAt
    dsimp only
    rw [show zone.offsetMinAt t * msPerMin = zone.offsetMs t from rfl]
    rw [show t + zone.offsetMs t = reading zone.offsetMs t from rfl, he]
    simp only [and_assoc]
  rw [hshows, hdate]
  unfold wallMs msPerDay msPerMin
  omega

theorem localAt_valid (zone : Zone) (t : ℤ) : ∃ (d : Date) (hour minute : ℤ),
    zone.localAt t = ⟨d.year, d.month, d.day, hour, minute, d.weekday⟩ ∧
      (0 ≤ hour ∧ hour < 24) ∧ 0 ≤ minute ∧ minute < 60 := by
  obtain ⟨d, hd, hn⟩ := civilFromDays_spec ((t + zone.offsetMinAt t * msPerMin) / msPerDay)
  refine ⟨d, (zone.localAt t).hour, (zone.localAt t).minute, Local.ext ?_ ?_ ?_ rfl rfl ?_, ?_⟩
  · exact congrArg (·.1) hd
  · exact congrArg (·.2.1) hd
  · exact congrArg (·.2.2) hd
  · show weekdayOfDays _ = (d.dayNumber + 4) % 7
    rw [hn]
    rfl
  · unfold localAt msPerMin msPerDay
    dsimp only
    omega

theorem Shows.weekday {zone : Zone} {t hour minute : ℤ} {d : Date}
    (h : zone.Shows t d hour minute) : (zone.localAt t).weekday = d.weekday := by
  obtain ⟨e, eh, em, he, -⟩ := localAt_valid zone t
  obtain ⟨hy, hm, hd, -⟩ := h
  rw [he] at hy hm hd ⊢
  exact congrArg Date.weekday (Date.ext hy hm hd)

section

variable {zone : Zone} {hour minute : ℤ} {d : Date}

/-- **A wall time that exists is resolved to the first instant that shows it.** -/
theorem wallToUtc_isLeast (hz : zone.Moderate) (h : 0 ≤ hour) (h' : hour < 24) (hm : 0 ≤ minute)
    (hm' : minute < 60) (hex : ∃ t, zone.Shows t d hour minute) :
    IsLeast {t | zone.Shows t d hour minute}
      (zone.wallToUtc d.year d.month d.day hour minute) := by
  simp only [shows_iff h h' hm hm'] at hex ⊢
  rw [wallToUtc_eq]
  exact resolve_isLeast_unit (offsetMs_small hz) (changesOnce zone (by omega)) zone.whole hex

/-- **A wall time that does not exist is resolved to the instant that shows an hour more.** -/
theorem reading_wallToUtc (hz : zone.Moderate) (h : 0 ≤ hour) (h' : hour < 24) (hm : 0 ≤ minute)
    (hm' : minute < 60) (hno : ¬∃ t, zone.Shows t d hour minute) :
    reading zone.offsetMs (zone.wallToUtc d.year d.month d.day hour minute) =
      wallMs d hour minute + 60 * msPerMin := by
  simp only [shows_iff h h' hm hm', not_exists] at hno
  have hskipped : ∀ t, reading zone.offsetMs t ≠ wallMs d hour minute := by
    intro t ht
    refine hno t ?_
    rw [ht]
    unfold wallMs msPerDay msPerMin
    omega
  rw [wallToUtc_eq]
  obtain ⟨hread, hgrows⟩ := reading_resolve (offsetMs_small hz)
    (changesOnce zone (show wallMs d hour minute + msPerDay ≤
      wallMs d hour minute - msPerDay + 2 * msPerDay by omega)) hskipped
  rw [hread]
  -- the offset grows by an hour
  cases zone with
  | fixed o => exact absurd hgrows (lt_irrefl _)
  | usDst std =>
    unfold offsetMs at hgrows ⊢
    rw [offsetMinAt_usDst, offsetMinAt_usDst] at hgrows ⊢
    unfold msPerMin at hgrows ⊢
    split_ifs at hgrows ⊢ <;> omega

end

end Zone

end U2os.Majordomo.Scheduler
