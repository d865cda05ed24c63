import U2os.Lib.JsDate
import U2os.Lib.JsText

/-!
# Cron expressions

`packages/cron.js`: five fields, and the search for the next minute that matches them in local time.
The search leaves out the rest of a month, a day, an hour or a minute that does not match, with the
setters of `Date`.
-/

namespace U2os.Server.Packages

open JsDate JsText

/-- A field of an expression. -/
structure CronField where
  name : String
  min : ℕ
  max : ℕ

/-- `FIELDS`. -/
def cronFields : List CronField :=
  [⟨"minute", 0, 59⟩, ⟨"hour", 0, 23⟩, ⟨"day of month", 1, 31⟩, ⟨"month", 1, 12⟩,
    ⟨"day of week", 0, 7⟩]

/-- `DAYS`. -/
def cronDays : List (String × ℕ) :=
  [("sun", 0), ("mon", 1), ("tue", 2), ("wed", 3), ("thu", 4), ("fri", 5), ("sat", 6)]

/-- `MACROS`. -/
def cronMacros : List (String × String) :=
  [("@hourly", "0 * * * *"), ("@daily", "0 0 * * *"), ("@weekly", "0 0 * * 0")]

/-- A parsed expression. -/
structure Cron where
  minutes : List ℤ
  hours : List ℤ
  days : List ℤ
  months : List ℤ
  weekdays : List ℤ
  /-- Both day fields are restricted: either may match. -/
  dayOr : Bool
  deriving DecidableEq

/-- `[a-z0-9]+`. -/
def isCronWord (cs : List Char) : Bool := cs ≠ [] && cs.all fun c => c.isLower || c.isDigit

def toNumber (field : CronField) (value : List Char) : Except String ℕ :=
  match if field.name = "day of week" then cronDays.lookup (String.ofList value) else none with
  | some n => .ok n
  | none =>
    if value.all Char.isDigit then .ok (Nat.ofDigitChars 10 value 0)
    else .error ("invalid " ++ field.name ++ " \"" ++ String.ofList value ++ "\"")

/-- The parts of an item: a star or one or two words, and a step. -/
def matchItem (item : List Char) : Option (List (List Char) × Option (List Char)) :=
  let (range, step) := match item.splitOn '/' with
    | [range] => (range, none)
    | range :: step => (range, some (['/'].intercalate step))
    | [] => ([], none)
  let words := range.splitOn '-'
  if (range = ['*'] || (words.length ≤ 2 && words.all isCronWord)) &&
      step.all fun ds => ds ≠ [] && ds.all Char.isDigit then
    some (words, step)
  else none

/-- `for (let value = lo; value <= hi; value += step)`. -/
def steps (lo hi step : ℕ) : List ℤ :=
  (List.range ((hi - lo) / step + 1)).map fun i : ℕ => ((lo + i * step : ℕ) : ℤ)

/-- An item of a field. -/
def parseItem (field : CronField) (item : List Char) : Except String (List ℤ) := do
  match matchItem item with
  | none => throw ("invalid " ++ field.name ++ " \"" ++ String.ofList item ++ "\"")
  | some (words, digits) =>
    let step := digits.elim 1 fun ds => Nat.ofDigitChars 10 ds 0
    if step < 1 then throw ("invalid " ++ field.name ++ " step")
    let range ← if words = [['*']] then pure [field.min, field.max] else words.mapM (toNumber field)
    let lo := range.getD 0 0
    -- a single number with a step goes up to the end of the field
    let hi := range.getD 1 (if digits.isNone then lo else field.max)
    if lo < field.min ∨ field.max < hi ∨ hi < lo then throw (field.name ++ " out of range")
    return steps lo hi step

def parseField (part : List Char) (field : CronField) : Except String (List ℤ) :=
  ((part.splitOn ',').mapM (parseItem field)).map List.flatten

/-- `MACROS[text] || text`; what every object inherits is no text. -/
def expandMacro (text : String) : Except String String :=
  match cronMacros.lookup text with
  | some expansion => .ok expansion
  | none => if text ∈ objectPrototype then .error "text.split is not a function" else .ok text

/-- `parseCron`.  Letters outside ASCII are in no field. -/
def parseCron (expression : String) : Except String Cron := do
  let text ← expandMacro (trim expression)
  match (text.toList.splitOnP isSpace).filter (· ≠ []) with
  | [minute, hour, dayOfMonth, month, dayOfWeek] =>
    let sets ← ([minute, hour, dayOfMonth, month, dayOfWeek].zip cronFields).mapM fun p =>
      parseField (p.1.map Char.toLower) p.2
    let weekdays := sets.getD 4 []
    return {
      minutes := sets.getD 0 []
      hours := sets.getD 1 []
      days := sets.getD 2 []
      months := sets.getD 3 []
      weekdays := if 7 ∈ weekdays then weekdays.filter (· ≠ 7) ++ [0] else weekdays
      dayOr := dayOfMonth ≠ ['*'] && dayOfWeek ≠ ['*'] }
  | _ => throw "cron must have five fields: minute hour day-of-month month day-of-week"

example : (parseCron "*/20 9-11/2 1,15 * mon-tue").toOption =
    some ⟨[0, 20, 40], [9, 11], [1, 15], [1, 2, 3, 4, 5, 6, 7, 8, 9, 10, 11, 12], [1, 2], true⟩ := by
  decide +kernel

def Cron.matchesDay (cron : Cron) (r : ℤ) : Bool :=
  let dom := cron.days.contains (date r).day
  let dow := cron.weekdays.contains (weekDay r)
  if cron.dayOr then dom || dow else dom && dow

/-- What the search leaves out the rest of. -/
inductive Jump where
  | month
  | day
  | hour
  | minute
  deriving DecidableEq

/-- The first field that does not match a local time. -/
def Cron.jump (cron : Cron) (r : ℤ) : Option Jump :=
  if !cron.months.contains (month r + 1) then some .month
  else if !cron.matchesDay r then some .day
  else if !cron.hours.contains (hour r) then some .hour
  else if !cron.minutes.contains (minute r) then some .minute
  else none

variable (z : Zone)

/-- `setHours(0, 0, 0, 0)`. -/
def startOfDay (date : Option ℤ) : Option ℤ :=
  z.set (fun r => makeDate (day r) (makeTime 0 0 0)) date

/-- The setters of a jump. -/
def applyJump (jump : Jump) (d : Option ℤ) : Option ℤ :=
  match jump with
  | .month => startOfDay z
      (z.set (fun r => makeDate (makeDay (date r).year (month r + 1) 1) (timeWithinDay r)) d)
  | .day => startOfDay z
      (z.set (fun r => makeDate (makeDay (date r).year (month r) ((date r).day + 1))
        (timeWithinDay r)) d)
  | .hour => z.set (fun r => makeDate (day r) (makeTime (hour r + 1) 0 0)) d
  | .minute => z.set (fun r => makeDate (day r) (makeTime (hour r) (minute r + 1) 0)) d

/-- The date that the search starts from: `setSeconds(0, 0)`, then a minute more. -/
def start (from_ : ℤ) : Option ℤ :=
  z.set (fun r => makeDate (day r) (makeTime (hour r) (minute r + 1) (r % msPerMinute)))
    (z.set (fun r => makeDate (day r) (makeTime (hour r) (minute r) 0)) (some from_))

/-- `limit`. -/
def cronLimit (from_ : ℤ) : ℤ := from_ + 4 * 366 * 86400000

/-- The loop, for at most so many rounds.  No comparison with an invalid date holds. -/
def search (cron : Cron) (limit : ℤ) : ℕ → Option ℤ → Option (Option ℤ)
  | 0, _ => none
  | _ + 1, none => some none
  | fuel + 1, some t =>
    if t ≤ limit then
      match cron.jump (z.localTime t) with
      | none => some (some t)
      | some jump => search cron limit fuel (applyJump z jump (some t))
    else some none

/-- `nextCronTime`, for at most so many rounds of its loop. -/
def nextCronTime (expression : String) (from_ : ℤ) (fuel : ℕ) : Except String (Option (Option ℤ)) :=
  (parseCron expression).map fun cron => search z cron (cronLimit from_) fuel (start z from_)

/-- The first local time that a jump does not leave out. -/
def boundary (r : ℤ) : Jump → ℤ
  | .month => nextMonth (day r) * msPerDay
  | .day => r - r % msPerDay + msPerDay
  | .hour => r - r % msPerHour + msPerHour
  | .minute => r - r % msPerMinute + msPerMinute

/-- The fields of a local time match the expression. -/
structure Cron.Matches (cron : Cron) (r : ℤ) : Prop where
  month : month r + 1 ∈ cron.months
  day : cron.matchesDay r = true
  hour : hour r ∈ cron.hours
  minute : minute r ∈ cron.minutes

variable {z} {cron : Cron} {r r' t t' limit : ℤ} {j : Jump}

theorem jump_eq_none_iff : cron.jump r = none ↔ cron.Matches r := by
  unfold Cron.jump
  constructor
  · intro h
    split_ifs at h with hmonth hday hhour hminute
    simp only [Bool.not_eq_true', Bool.not_eq_false, List.contains_iff_mem] at *
    exact ⟨hmonth, hday, hhour, hminute⟩
  · intro h
    simp [h.month, h.day, h.hour, h.minute]

theorem lt_boundary : r < boundary r j := by
  have hmonth := lt_nextMonth (day r)
  cases j <;> simp only [boundary, day, msPerDay, msPerHour, msPerMinute] at * <;> omega

theorem boundary_emod : boundary r j % msPerMinute = 0 := by
  cases j <;> simp only [boundary, msPerDay, msPerHour, msPerMinute] <;> omega

/-- No time before the boundary of a jump matches. -/
theorem not_matches_of_lt_boundary (hj : cron.jump r = some j) (h : r ≤ r')
    (h' : r' < boundary r j) : ¬cron.Matches r' := by
  intro hmatch
  unfold Cron.jump at hj
  split_ifs at hj with hmonth hday hhour hminute <;> cases hj
  · have hstart : day r ≤ day r' := by
      simp only [day, msPerDay]
      omega
    have hstop : day r' < nextMonth (day r) := by
      simp only [boundary, day, msPerDay] at h' ⊢
      omega
    have hsame : month r' = month r := by
      rw [month, date, month_of_lt_nextMonth hstart hstop, month, date]
    simp [hsame ▸ hmatch.month] at hmonth
  · have hsame : date r' = date r := by
      have hday' : day r' = day r := by
        simp only [boundary, day, msPerDay] at h' ⊢
        omega
      rw [date, hday', date]
    have hdays : cron.matchesDay r' = cron.matchesDay r := by
      rw [Cron.matchesDay, Cron.matchesDay, weekDay, weekDay, hsame]
    simp [hdays ▸ hmatch.day] at hday
  · have hsame : hour r' = hour r := by
      simp only [boundary, hour, msPerHour] at h' ⊢
      omega
    simp [hsame ▸ hmatch.hour] at hhour
  · have hsame : minute r' = minute r := by
      simp only [boundary, minute, msPerMinute] at h' ⊢
      omega
    simp [hsame ▸ hmatch.minute] at hminute

theorem Zone.le_localTime_utc (z : Zone) (r : ℤ) : r ≤ z.localTime (z.utc r) :=
  WallClock.le_reading_resolve z.small z.once

theorem set_eq_some {f : ℤ → ℤ} {d : Option ℤ} (h : z.set f d = some t') :
    ∃ t, d = some t ∧ t' = z.utc (f (z.localTime t)) := by
  obtain ⟨t, rfl, ht⟩ := Option.bind_eq_some_iff.1 h
  exact ⟨t, rfl, timeClip_eq_some ht⟩

theorem startOfDay_set {f : ℤ → ℤ} {d : Option ℤ} {b : ℤ} (hb : b % msPerDay = 0)
    (hf : ∀ t, d = some t → b ≤ f (z.localTime t)) (h : startOfDay z (z.set f d) = some t') :
    ∃ x, b ≤ x ∧ x % msPerMinute = 0 ∧ t' = z.utc x := by
  obtain ⟨u, hu, rfl⟩ := set_eq_some h
  obtain ⟨t, ht, rfl⟩ := set_eq_some hu
  have hle := (hf t ht).trans (Zone.le_localTime_utc z (f (z.localTime t)))
  refine ⟨_, ?_, ?_, rfl⟩
  · rw [makeDate_day]
    unfold msPerDay at *
    omega
  · rw [makeDate_day]
    unfold msPerDay msPerMinute at *
    omega

/-- A jump lands at the time of a reading from its boundary on. -/
theorem applyJump_eq_some (h : applyJump z j (some t) = some t') :
    ∃ x, boundary (z.localTime t) j ≤ x ∧ x % msPerMinute = 0 ∧ t' = z.utc x := by
  have hemod := boundary_emod (r := z.localTime t) (j := j)
  unfold applyJump at h
  cases j with
  | month =>
    refine startOfDay_set (Int.mul_emod_left _ _) ?_ h
    rintro _ ⟨⟩
    have htime := Int.emod_nonneg (z.localTime t) (show msPerDay ≠ 0 by decide)
    rw [boundary, nextMonth, makeDate, month, Int.sub_add_cancel, timeWithinDay, date]
    omega
  | day =>
    refine startOfDay_set (by simp only [boundary, msPerDay]; omega) ?_ h
    rintro _ ⟨⟩
    rw [makeDate_next_day, boundary]
    simp only [msPerDay]
    omega
  | hour =>
    obtain ⟨_, ⟨⟩, rfl⟩ := set_eq_some h
    rw [makeDate_next_hour]
    exact ⟨_, le_rfl, hemod, rfl⟩
  | minute =>
    obtain ⟨_, ⟨⟩, rfl⟩ := set_eq_some h
    rw [makeDate_next_minute]
    exact ⟨_, le_rfl, hemod, rfl⟩

theorem lt_applyJump (h : applyJump z j (some t) = some t') : z.localTime t < z.localTime t' := by
  obtain ⟨x, hx, -, rfl⟩ := applyJump_eq_some h
  exact (lt_boundary.trans_le hx).trans_le (Zone.le_localTime_utc z x)

/-- What the search returns. -/
inductive Search (z : Zone) (cron : Cron) (limit : ℤ) : Option ℤ → Option ℤ → Prop
  | invalid : Search z cron limit none none
  | late {t : ℤ} (h : limit < t) : Search z cron limit (some t) none
  | found {t : ℤ} (h : t ≤ limit) (hmatch : cron.jump (z.localTime t) = none) :
      Search z cron limit (some t) (some t)
  | next {t : ℤ} {j : Jump} {result : Option ℤ} (h : t ≤ limit)
      (hjump : cron.jump (z.localTime t) = some j)
      (hrest : Search z cron limit (applyJump z j (some t)) result) :
      Search z cron limit (some t) result

variable {d : Option ℤ} {result : Option ℤ}

theorem Search.eq_search (h : Search z cron limit d result) :
    ∃ n, ∀ fuel, n ≤ fuel → search z cron limit fuel d = some result := by
  induction h with
  | invalid =>
    refine ⟨1, fun fuel hfuel => ?_⟩
    obtain ⟨fuel, rfl⟩ := Nat.exists_eq_add_of_le' hfuel
    rfl
  | late h =>
    refine ⟨1, fun fuel hfuel => ?_⟩
    obtain ⟨fuel, rfl⟩ := Nat.exists_eq_add_of_le' hfuel
    exact if_neg (not_le.2 h)
  | found h hmatch =>
    refine ⟨1, fun fuel hfuel => ?_⟩
    obtain ⟨fuel, rfl⟩ := Nat.exists_eq_add_of_le' hfuel
    rw [search, if_pos h, hmatch]
  | next h hjump _ ih =>
    obtain ⟨n, hn⟩ := ih
    refine ⟨n + 1, fun fuel hfuel => ?_⟩
    obtain ⟨fuel, rfl⟩ := Nat.exists_eq_add_of_le' (Nat.le_of_add_left_le hfuel)
    rw [search, if_pos h, hjump]
    exact hn _ (by omega)

theorem search_total (z : Zone) (cron : Cron) (limit : ℤ) (d : Option ℤ) :
    ∃ result, Search z cron limit d result := by
  cases d with
  | none => exact ⟨none, .invalid⟩
  | some t =>
    -- the induction is on how much local time is left to the limit
    induction hleft : (limit + msPerDay - z.localTime t).toNat using Nat.strong_induction_on
      generalizing t with
    | _ left ih =>
      by_cases hlimit : t ≤ limit
      · cases hjump : cron.jump (z.localTime t) with
        | none => exact ⟨some t, .found hlimit hjump⟩
        | some j =>
          cases hland : applyJump z j (some t) with
          | none => exact ⟨none, .next hlimit hjump (by rw [hland]; exact .invalid)⟩
          | some t' =>
            have hlt := lt_applyJump hland
            have hnear := WallClock.reading_near z.small t
            obtain ⟨result, hresult⟩ := ih _ (by
              rw [← hleft]
              unfold Zone.localTime at *
              omega) t' rfl
            exact ⟨result, .next hlimit hjump (by rw [hland]; exact hresult)⟩
      · exact ⟨none, .late (not_le.1 hlimit)⟩

theorem nextCronTime_returns {expression : String} (hcron : parseCron expression = .ok cron)
    (z : Zone) (from_ : ℤ) : ∃ result, Search z cron (cronLimit from_) (start z from_) result ∧
      ∃ n, ∀ fuel, n ≤ fuel → nextCronTime z expression from_ fuel = .ok (some result) := by
  obtain ⟨result, h⟩ := search_total z cron (cronLimit from_) (start z from_)
  obtain ⟨n, hn⟩ := h.eq_search
  refine ⟨result, h, n, fun fuel hfuel => ?_⟩
  rw [nextCronTime, hcron, Except.map, hn fuel hfuel]

end U2os.Server.Packages
