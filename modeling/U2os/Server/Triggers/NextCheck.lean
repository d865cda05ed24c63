import U2os.Lib.IsoText
import U2os.Server.Triggers.TriggerEngine

/-!
# When a trigger is checked next

The times of a trigger, as its configuration gives them and as the table keeps them
(`triggers/trigger-engine.js`, `api/routes/triggers.js`).  The table keeps texts, which the engine
compares as texts: those that it makes itself are in order, but `fireAt` is kept as it was given.

How the database keeps a value that is no text, what a value denotes as a date, which number it is,
and what it is to add minutes to a time, are parameters.

## Main results

* `everDue_toISOString` : the text of a time is due from some time on.
-/

namespace U2os.Server.Triggers.Timing

open JsDate WallClock

/-- A number of the language. -/
inductive Num where
  | nan
  | infinite
  | finite (value : ℚ)

/-- The whole part of a finite number. -/
def Num.whole? : Num → Option ℤ
  | finite q => some (q.num.tdiv q.den)
  | _ => none

/-- `n || 0`. -/
def Num.orZero : Num → Num
  | nan => finite 0
  | n => n

/-- What is outside. -/
structure Host where
  zone : Zone
  /-- `Number(value)`. -/
  toNumber : Json → Num
  /-- `new Date(time + minutes * 60000)`, where it is valid. -/
  addMinutes : ℤ → ℚ → Option ℤ
  /-- No rounding makes a minute less. -/
  addMinutes_le : ∀ t m t', 1 ≤ m → addMinutes t m = some t' → t + 60000 ≤ t'
  /-- The text that a column keeps of a value that is no text; none where it is refused. -/
  bindText : Json → Option String
  /-- The instant of `new Date(value)`, where it is valid. -/
  instant : Json → Option ℤ
  /-- `assertSafeRegexPattern` does not throw. -/
  isSafePattern : String → Bool

variable (host : Host)

/-- The value is truthy. -/
def truthy : Json → Bool
  | .null => false
  | .bool b => b
  | .num literal =>
    match host.toNumber (.num literal) with
    | .nan => false
    | .infinite => true
    | .finite q => q ≠ 0
  | .str s => s ≠ ""
  | .arr _ | .obj _ => true

/-- `config?.key`, where it is truthy. -/
def setting (config : Json) (key : String) : Option Json := (config.get? key).filter (truthy host)

/-- The hours and minutes of `dailyAt`, as `setHours` takes them. -/
def hoursMinutes (text : String) : Option (ℤ × ℤ) :=
  let parts := (text.toList.splitOn ':').map fun part => host.toNumber (.str (String.ofList part))
  (parts.getD 0 .nan).whole?.bind fun h =>
    ((parts.getD 1 .nan).orZero.whole?).map fun m => (h, m)

/-- The next time of day after a time. -/
def nextDaily (text : String) (from_ : ℤ) : Option ℤ :=
  (hoursMinutes host text).bind fun hm =>
    (host.zone.set (fun r => makeDate (day r) (makeTime hm.1 hm.2 0)) (some from_)).bind fun next =>
      if next ≤ from_ then
        host.zone.set (fun r => makeDate (makeDay (date r).year (month r) ((date r).day + 1))
          (timeWithinDay r)) (some next)
      else some next

def computeNextForSchedule (config : Json) (from_ : ℤ) : Option ℤ :=
  match setting host config "everyMinutes", setting host config "dailyAt" with
  | some minutes, _ =>
    match host.toNumber minutes with
    | .finite q => host.addMinutes from_ q
    | _ => none
  | none, some (.str text) => nextDaily host text from_
  | none, some _ => none
  | none, none => timeClip (from_ + 60 * 60000)

/-- What a column keeps of a value. -/
def columnText : Json → Option String
  | .str s => some s
  | value => host.bindText value

/-- `computeInitialNextCheckAt`, as the table keeps it. -/
def computeInitialNextCheckAt (kind : Kind) (config : Json) (now : ℤ) : Option (Option String) :=
  match kind with
  | .timer =>
    match setting host config "fireAt" with
    | some fireAt => (columnText host fireAt).map some
    | none => some (some (toISOString now))
  | .schedule => (computeNextForSchedule host config now).map fun next => some (toISOString next)
  | .eventRule | .conditionWatch => some none

/-- `validateIncomingConfig` does not throw. -/
def validateIncomingConfig (kind : Kind) (config : Json) : Bool :=
  (match kind, (config.get? "when").bind fun w => w.get? "matches" with
    | .eventRule, some (.str pattern) => host.isSafePattern pattern
    | _, _ => true) &&
  match kind, config.get? "everyMinutes" with
  | .schedule, some minutes =>
    match host.toNumber minutes with
    | .finite q => 1 ≤ q
    | _ => false
  | _, _ => true

/-- The text is not due before the instant. -/
def NeverEarly (text : String) (i : ℤ) : Prop :=
  ∀ now, InYears now → text ≤ toISOString now → i ≤ now

/-- From some time on, the text is due. -/
def EverDue (text : String) : Prop :=
  ∃ n, InYears n ∧ ∀ now, InYears now → n ≤ now → text ≤ toISOString now

/-- The instant of `config.fireAt`. -/
def fireInstant (config : Json) : Option ℤ := (setting host config "fireAt").bind host.instant

/-- What the table keeps as the next check of a timer fits the instant of a configuration: a text
is not due before it, and is due some time after if it is to come; without one it is past. -/
def Fits (clock : ℤ) (nextCheckAt : Option String) (config : Json) : Prop :=
  ∀ i, fireInstant host config = some i →
    match nextCheckAt with
    | some text => NeverEarly text i ∧ (i ≤ clock ∨ EverDue text)
    | none => i ≤ clock

theorem everDue_toISOString (t : ℤ) : EverDue (toISOString t) := by
  by_cases ht : InYears t
  · exact ⟨t, ht, fun now hnow hle => (toISOString_le_iff ht hnow).2 hle⟩
  · exact ⟨0, by decide, fun now hnow _ => (toISOString_lt_of_not_inYears ht hnow).le⟩

variable {host}

theorem Fits.mono {clock clock' : ℤ} {next : Option String} {config : Json}
    (h : Fits host clock next config) (hle : clock ≤ clock') : Fits host clock' next config := by
  intro i hi
  have hfits := h i hi
  cases next with
  | none => exact le_trans hfits hle
  | some text => exact ⟨hfits.1, hfits.2.imp_left fun h => h.trans hle⟩

variable (host)

/-- The configuration of a schedule gives a later time: minutes or a time of day that are numbers
and stay before the year 10000.  The time of day is not negative, and the clock was in no later day
before. -/
def Recurs (config : Json) (from_ : ℤ) : Prop :=
  match setting host config "everyMinutes", setting host config "dailyAt" with
  | some minutes, _ =>
    ∃ q t, host.toNumber minutes = .finite q ∧ host.addMinutes from_ q = some t ∧ InYears t
  | none, some (.str text) =>
    ∃ h m, hoursMinutes host text = some (h, m) ∧ 0 ≤ 60 * h + m ∧
      InYears (from_ + (60 * h + m) * msPerMinute + 5 * msPerDay) ∧
      ∀ s < from_, day (host.zone.localTime s) ≤ day (host.zone.localTime from_)
  | none, some _ => False
  | none, none => InYears (from_ + 60 * 60000)

variable {host}

theorem Zone.utc_near (z : Zone) (r : ℤ) : r - msPerDay < z.utc r ∧ z.utc r < r + msPerDay := by
  have hlow := z.small (r - msPerDay)
  have hhigh := z.small (r + msPerDay)
  unfold Zone.utc resolve
  dsimp only
  split_ifs <;> omega

/-- The next time of day lies ahead, if the configuration recurs. -/
theorem nextDaily_of_recurs {text : String} {from_ h m : ℤ} (hfrom : InYears from_)
    (htext : hoursMinutes host text = some (h, m)) (hday : 0 ≤ 60 * h + m)
    (hend : InYears (from_ + (60 * h + m) * msPerMinute + 5 * msPerDay))
    (hforth : ∀ s < from_, day (host.zone.localTime s) ≤ day (host.zone.localTime from_)) :
    ∃ t, nextDaily host text from_ = some t ∧ from_ < t ∧ InYears t := by
  have hnear := reading_near host.zone.small from_
  have hutc := Zone.utc_near host.zone
  have hlate := fun r => le_reading_resolve (r := r) host.zone.small host.zone.once
  have hread := fun t => reading_near (t := t) host.zone.small
  unfold InYears at *
  -- the time of day on the day of the time
  generalize ha : makeDate (day (host.zone.localTime from_)) (makeTime h m 0) = a
  have hastart : day (host.zone.localTime from_) * msPerDay ≤ a := by
    rw [← ha, makeDate, makeTime]
    unfold msPerHour msPerMinute
    omega
  have haend : a ≤ host.zone.localTime from_ + (60 * h + m) * msPerMinute := by
    rw [← ha, makeDate, makeTime]
    unfold day msPerHour msPerMinute msPerDay
    omega
  have hfirst : host.zone.set (fun r => makeDate (day r) (makeTime h m 0)) (some from_) =
      some (host.zone.utc a) := by
    rw [Zone.set, Option.bind_some, ha]
    refine if_pos ?_
    have := hutc a
    unfold Zone.localTime day maxTime msPerMinute msPerDay at *
    omega
  rw [nextDaily, htext, Option.bind_some, hfirst, Option.bind_some]
  by_cases hle : host.zone.utc a ≤ from_
  · rw [if_pos hle]
    -- the same time on the day after
    generalize hb : host.zone.localTime (host.zone.utc a) + msPerDay = b
    have hsecond : host.zone.set (fun r => makeDate (makeDay (date r).year (month r)
        ((date r).day + 1)) (timeWithinDay r)) (some (host.zone.utc a)) =
        some (host.zone.utc b) := by
      rw [Zone.set, Option.bind_some, makeDate_next_day, hb]
      refine if_pos ?_
      have h1 := hutc a
      have h2 := hutc b
      have h3 := hread (host.zone.utc a)
      have h4 := hlate a
      unfold Zone.localTime Zone.utc day maxTime msPerMinute msPerDay at *
      omega
    have hnext : day (host.zone.localTime from_) < day (host.zone.localTime (host.zone.utc b)) := by
      have h1 := hlate a
      have h2 := hlate b
      unfold Zone.localTime Zone.utc day msPerDay at *
      omega
    have hafter : from_ < host.zone.utc b := by
      by_contra hge
      rcases eq_or_lt_of_le (not_lt.1 hge) with heq | hlt
      · rw [heq] at hnext
        exact lt_irrefl _ hnext
      · exact absurd (hforth _ hlt) (not_le.2 hnext)
    refine ⟨_, hsecond, hafter, ?_⟩
    have h1 := hutc a
    have h2 := hutc b
    have h3 := hread (host.zone.utc a)
    unfold Zone.localTime Zone.utc day msPerMinute msPerDay at *
    omega
  · rw [if_neg hle]
    refine ⟨_, rfl, not_le.1 hle, ?_⟩
    have h1 := hutc a
    unfold Zone.localTime day msPerMinute msPerDay at *
    omega

theorem computeNextForSchedule_of_recurs {config : Json} {from_ : ℤ} (hfrom : InYears from_)
    (hvalid : validateIncomingConfig host .schedule config = true)
    (hrecurs : Recurs host config from_) :
    ∃ t, computeNextForSchedule host config from_ = some t ∧ from_ < t ∧ InYears t := by
  unfold Recurs at hrecurs
  unfold computeNextForSchedule
  cases hminutes : setting host config "everyMinutes" with
  | some minutes =>
    simp only [hminutes] at hrecurs ⊢
    obtain ⟨q, t, hq, ht, hyears⟩ := hrecurs
    -- both routes check that it is a minute at least
    have hpos : 1 ≤ q := by
      have hget : config.get? "everyMinutes" = some minutes :=
        (Option.filter_eq_some_iff.1 hminutes).1
      simp only [validateIncomingConfig, hget, hq] at hvalid
      simpa using hvalid
    have hle := host.addMinutes_le from_ q t hpos ht
    exact ⟨t, by simp only [hq, ht], by omega, hyears⟩
  | none =>
    simp only [hminutes] at hrecurs ⊢
    cases hdaily : setting host config "dailyAt" with
    | none =>
      simp only [hdaily] at hrecurs ⊢
      refine ⟨from_ + 60 * 60000, if_pos ?_, by omega, hrecurs⟩
      unfold InYears maxTime at *
      omega
    | some value =>
      cases value with
      | str text =>
        simp only [hdaily] at hrecurs ⊢
        obtain ⟨h, m, htext, hday, hend, hforth⟩ := hrecurs
        exact nextDaily_of_recurs hfrom htext hday hend hforth
      | null | bool | num | arr | obj =>
        simp only [hdaily] at hrecurs

end U2os.Server.Triggers.Timing
