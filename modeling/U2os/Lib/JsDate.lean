import U2os.Lib.Calendar
import U2os.Lib.FirstShown

/-!
# Dates of the language

Local time as `Date` of JavaScript has it.  A time value counts milliseconds; the local time value
is the time value with the offset of the zone, and its fields are those of the calendar.  A setter
computes a local time value and resolves it: the first instant that shows it, or, where a gap
swallows it, the one that would show it without the gap.

In two days the offset of a zone changes at most once.

## Main results

* `makeDay_next`, `month_of_lt_nextMonth` : the first day of the next month.
-/

namespace U2os.JsDate

open Calendar WallClock

def msPerMinute : ℤ := 60000

def msPerHour : ℤ := 3600000

def msPerDay : ℤ := 86400000

variable (r : ℤ)

def day : ℤ := r / msPerDay

def timeWithinDay : ℤ := r % msPerDay

/-- `getHours`. -/
def hour : ℤ := r / msPerHour % 24

/-- `getMinutes`. -/
def minute : ℤ := r / msPerMinute % 60

/-- The date of a local time value. -/
def date : Date := Date.ofDay (day r)

/-- `getMonth`: 0 is January. -/
def month : ℤ := (date r).month - 1

/-- `getDay`: 0 is Sunday. -/
def weekDay : ℤ := (date r).weekday

/-- `MakeTime`; the seconds and milliseconds are one number. -/
def makeTime (hour minute ms : ℤ) : ℤ := hour * msPerHour + minute * msPerMinute + ms

def makeDay (year month date : ℤ) : ℤ :=
  daysBeforeYear (year + month / 12) + daysBeforeMonth (year + month / 12) (month % 12 + 1) + date - 1

def makeDate (day time : ℤ) : ℤ := day * msPerDay + time

variable {r}

theorem makeDate_minute :
    makeDate (day r) (makeTime (hour r) (minute r) 0) = r - r % msPerMinute := by
  unfold makeDate makeTime day hour minute msPerDay msPerHour msPerMinute
  omega

theorem makeDate_add_minute :
    makeDate (day r) (makeTime (hour r) (minute r + 1) (r % msPerMinute)) = r + msPerMinute := by
  unfold makeDate makeTime day hour minute msPerDay msPerHour msPerMinute
  omega

theorem makeDate_next_minute :
    makeDate (day r) (makeTime (hour r) (minute r + 1) 0) = r - r % msPerMinute + msPerMinute := by
  unfold makeDate makeTime day hour minute msPerDay msPerHour msPerMinute
  omega

theorem makeDate_next_hour :
    makeDate (day r) (makeTime (hour r + 1) 0 0) = r - r % msPerHour + msPerHour := by
  unfold makeDate makeTime day hour msPerDay msPerHour msPerMinute
  omega

theorem makeDate_day : makeDate (day r) (makeTime 0 0 0) = r - r % msPerDay := by
  unfold makeDate makeTime day msPerDay msPerHour msPerMinute
  omega

theorem makeDay_date {d : Date} : makeDay d.year (d.month - 1) (d.day + 1) = d.dayNumber + 1 := by
  have hpos := d.month_pos
  have hle := d.month_le
  have hyear : (d.month - 1) / 12 = 0 := by omega
  have hmonth : (d.month - 1) % 12 + 1 = d.month := by omega
  unfold makeDay Date.dayNumber
  rw [hyear, hmonth, add_zero]
  omega

theorem makeDate_next_day :
    makeDate (makeDay (date r).year (month r) ((date r).day + 1)) (timeWithinDay r) =
      r + msPerDay := by
  rw [month, makeDay_date, date, Date.dayNumber_ofDay]
  unfold makeDate day timeWithinDay msPerDay
  omega

/-- The first day of the month after that of a day. -/
def nextMonth (n : ℤ) : ℤ := makeDay (Date.ofDay n).year (Date.ofDay n).month 1

theorem makeDay_next (d : Date) : makeDay d.year d.month 1 =
    daysBeforeYear d.year + daysBeforeMonth d.year (d.month + 1) := by
  have hpos := d.month_pos
  have hle := d.month_le
  unfold makeDay
  by_cases hlast : d.month = 12
  · have hend := daysBeforeMonth_succ d.year (m := 12) (by decide)
    have hlen : daysInMonth d.year 12 = 31 := rfl
    have hstart := daysBeforeMonth_eq d.year (m := 12) (by decide) (by decide)
    have hfirst : daysBeforeMonth (d.year + 1) 1 = 0 := rfl
    rw [hlast]
    change daysBeforeYear (d.year + 1) + daysBeforeMonth (d.year + 1) 1 + 1 - 1 = _
    rw [hfirst, daysBeforeYear_succ, hend, hlen, hstart]
    split_ifs <;> omega
  · have hyear : d.month / 12 = 0 := by omega
    have hmonth : d.month % 12 + 1 = d.month + 1 := by omega
    rw [hyear, hmonth, add_zero]
    omega

theorem lt_nextMonth (n : ℤ) : n < nextMonth n := by
  have hbounds := (Date.ofDay n).dayOfYear_bounds
  rw [Date.dayNumber_ofDay] at hbounds
  rw [nextMonth, makeDay_next]
  omega

/-- No day before the first of the next month is in it. -/
theorem month_of_lt_nextMonth {n n' : ℤ} (h : n ≤ n') (h' : n' < nextMonth n) :
    (Date.ofDay n').month = (Date.ofDay n).month := by
  have hbounds := (Date.ofDay n).dayOfYear_bounds
  rw [Date.dayNumber_ofDay] at hbounds
  rw [nextMonth, makeDay_next] at h'
  generalize Date.ofDay n = d at *
  have hsucc := daysBeforeMonth_succ d.year d.month_pos
  -- the date of the later day has the same year and month
  let d' : Date :=
    { d with
      day := n' - daysBeforeYear d.year - daysBeforeMonth d.year d.month + 1
      day_pos := by omega
      day_le := by
        omega }
  have hd' : d'.dayNumber = n' := by
    change daysBeforeYear d.year + daysBeforeMonth d.year d.month +
      (n' - daysBeforeYear d.year - daysBeforeMonth d.year d.month + 1 - 1) = n'
    omega
  rw [← hd', Date.ofDay_dayNumber]

/-- A local time zone. -/
structure Zone where
  /-- What the local time is ahead, in milliseconds. -/
  offset : ℤ → ℤ
  small : ∀ t, -msPerDay < offset t ∧ offset t < msPerDay
  once : ∀ r, ChangesOnce offset (r - msPerDay) (r + msPerDay)

namespace Zone

variable (z : Zone) {t : ℤ}

def localTime (t : ℤ) : ℤ := reading z.offset t

def utc (r : ℤ) : ℤ := resolve z.offset msPerDay r

end Zone

/-- The last time value, and but for the sign the first. -/
def maxTime : ℤ := 8640000000000000

/-- `TimeClip`; none is `NaN`. -/
def timeClip (t : ℤ) : Option ℤ := if -maxTime ≤ t ∧ t ≤ maxTime then some t else none

/-- A setter, by what it makes of the local time value. -/
def Zone.set (z : Zone) (f : ℤ → ℤ) (date : Option ℤ) : Option ℤ :=
  date.bind fun t => timeClip (z.utc (f (z.localTime t)))

theorem timeClip_eq_some {t t' : ℤ} (h : timeClip t = some t') : t' = t := by
  unfold timeClip at h
  split_ifs at h
  exact (Option.some_inj.1 h).symm

end U2os.JsDate
