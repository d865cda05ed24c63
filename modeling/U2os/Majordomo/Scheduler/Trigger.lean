import U2os.Lib.Fallible
import U2os.Lib.JsNumber
import U2os.Majordomo.Scheduler.Checked
import U2os.Majordomo.Vault.Markdown

/-!
# Triggers and their slots

The definition of a trigger, as it is parsed from the `when` of a routine, and the slot that is due
at an instant (`scheduler/trigger.rs`).  A daily trigger is due from its time of day on, for the
minutes of grace, on the local date of the instant; one that runs every so many minutes is due in
each window of that length.

What Rust writes for a float and its lower case are parameters of a parser.
-/

namespace U2os.Majordomo.Scheduler

open Calendar WallClock

/-- A number of `serde_json`. -/
inductive Number where
  | posInt (n : ℕ) (h : n < 2 ^ 64)
  | negInt (n : ℤ) (h : i64Min ≤ n ∧ n < 0)
  | float (f : F64)

namespace Number

def asI64 : Number → Option ℤ
  | posInt n _ => if (n : ℤ) ≤ i64Max then some n else none
  | negInt n _ => some n
  | float _ => none

/-- `as_f64`: an integer is rounded. -/
def asF64 : Number → ℚ
  | posInt n _ => ((JsNumber.ofNat n).untopD 0 : ℕ)
  | negInt n _ => -((JsNumber.ofNat n.natAbs).untopD 0 : ℕ)
  | float f => f.value

/-- The number as an `i64`; a float without a fraction is saturated. -/
def toI64 (n : Number) : Option ℤ :=
  n.asI64 <|> if n.asF64.den = 1 then some (saturate n.asF64.num) else none

end Number

/-- A JSON value. -/
inductive Value where
  | null
  | bool (b : Bool)
  | number (n : Number)
  | string (s : String)
  | array (items : List Value)
  | object (fields : List (String × Value))

/-- `get` of a key: what is no object has none. -/
def Value.get? (key : String) : Value → Option Value
  | .object fields => fields.lookup key
  | _ => none

/-- What the standard library of Rust writes. -/
structure RustText where
  /-- The text of a float. -/
  showFloat : F64 → String
  /-- `str::to_lowercase`. -/
  toLowercase : String → String

namespace RustText

variable (text : RustText)

/-- `Number::to_string`. -/
def ofNumber : Number → String
  | .posInt n _ => toString n
  | .negInt n _ => toString n
  | .float f => text.showFloat f

def jsString : Value → String
  | .string s => s
  | .null => "null"
  | .array _ | .object _ => "[object]"
  | .bool b => toString b
  | .number n => text.ofNumber n

def dayName (day : String) : String := text.toLowercase (String.ofList (day.toList.take 3))

end RustText

def minEveryMinutes : ℤ := 15

def dayNames : List String := ["sun", "mon", "tue", "wed", "thu", "fri", "sat"]

def forbiddenEventPrefixes : List String := ["routine.", "vault.", "agent.", "action.", "run."]

/-- The condition of an event trigger. -/
inductive Condition where
  | equals (path value : String)
  | contains (path value : String)
  deriving DecidableEq

inductive Trigger where
  /-- At a time of day, on the days given or on all. -/
  | daily (hour minute : ℤ) (days : Option (List String))
  | every (minutes : ℤ)
  | event (eventType : String) (condition : Option Condition)
  deriving DecidableEq

namespace Trigger

/-- `Trigger::daily`. -/
def mkDaily (text : RustText) (hour minute : ℤ) (days : Option (List String)) :
    Except String Trigger :=
  if ¬(0 ≤ hour ∧ hour < 24) ∨ ¬(0 ≤ minute ∧ minute < 60) then
    .error "daily must be a time like \"07:30\""
  else
    match days with
    | none => .ok (.daily hour minute none)
    | some [] => .error "days must be a list such as [mon, wed, fri]"
    | some list =>
      let days := list.map text.dayName
      if (days.any fun d => !dayNames.contains d) = true then
        .error "days must use mon, tue, wed, thu, fri, sat or sun"
      else .ok (.daily hour minute (some days))

/-- `Trigger::every`. -/
def mkEvery (minutes : ℤ) : Except String Trigger :=
  if minutes < minEveryMinutes then
    .error "every_minutes must be a whole number of at least 15"
  else .ok (.every minutes)

/-- `(?i)[a-z0-9_]`: two letters outside ASCII have the lower case of ASCII letters. -/
def isEventChar (c : Char) : Bool :=
  c.isAlphanum || c == '_' || c.toNat == 0x17F || c.toNat == 0x212A

/-- `(?i)^[a-z0-9_]+(\.[a-z0-9_]+)+$`. -/
def isEventType (s : String) : Bool :=
  let parts := s.toList.splitOn '.'
  2 ≤ parts.length && parts.all fun p => p ≠ [] && p.all isEventChar

/-- `Trigger::event`. -/
def mkEvent (eventType : String) (condition : Option Condition) : Except String Trigger :=
  let eventType := Vault.trim eventType
  if isEventType eventType = false then
    .error "event must be an event type such as email.received"
  else if (forbiddenEventPrefixes.any fun p => p.toList.isPrefixOf eventType.toList) = true then
    .error "routines cannot react to that event domain"
  else .ok (.event eventType condition)

def parseCondition (text : RustText) (cond : Value) : Except String Condition :=
  let path := match cond.get? "path" with
    | some (.string s) => s
    | _ => ""
  if path = "" ∨ (path.toList.all fun c => c.isAlphanum || c == '_' || c == '.') = false then
    .error "if.path must be a dotted field path such as data.after.from"
  else
    match cond.get? "equals", cond.get? "contains" with
    | some e, none => .ok (.equals path (text.jsString e))
    | none, some c => .ok (.contains path (text.toLowercase (text.jsString c)))
    | _, _ => .error "if must contain exactly one of equals or contains"

/-- The value of a digit. -/
def digit (c : Char) : ℤ := (c.toNat : ℤ) - ('0'.toNat : ℤ)

/-- `^([01]?[0-9]|2[0-3]):([0-5][0-9])$`, with both numbers. -/
def timeOfDay? : List Char → Option (ℤ × ℤ)
  | [h, ':', m, n] =>
    if h.isDigit ∧ ('0' ≤ m ∧ m ≤ '5') ∧ n.isDigit then some (digit h, 10 * digit m + digit n)
    else none
  | [g, h, ':', m, n] =>
    if ((g = '0' ∨ g = '1') ∧ h.isDigit ∨ g = '2' ∧ '0' ≤ h ∧ h ≤ '3') ∧
        ('0' ≤ m ∧ m ≤ '5') ∧ n.isDigit then
      some (10 * digit g + digit h, 10 * digit m + digit n)
    else none
  | _ => none

/-- The `daily` of `from_when`. -/
def parseDaily (text : RustText) (time : Value) (days : Option Value) : Except String Trigger :=
  match timeOfDay? (text.jsString time).toList, days with
  | none, _ => .error "daily must be a time like \"07:30\""
  | some (hour, minute), none => mkDaily text hour minute none
  | some (hour, minute), some (.array (d :: ds)) =>
    mkDaily text hour minute (some ((d :: ds).map text.jsString))
  | some _, some _ => .error "days must be a list such as [mon, wed, fri]"

/-- The `every_minutes` of `from_when`. -/
def parseEvery : Value → Except String Trigger
  | .number n =>
    match n.toI64 with
    | some m => mkEvery m
    | none => .error "every_minutes must be a whole number of at least 15"
  | _ => .error "every_minutes must be a whole number of at least 15"

/-- The `event` of `from_when`. -/
def parseEvent (text : RustText) (name : Value) (cond : Option Value) : Except String Trigger := do
  let condition ← cond.mapM (parseCondition text)
  mkEvent (text.jsString name) condition

def fromWhen (text : RustText) : Value → Except String Trigger
  | .object map =>
    match map.lookup "daily", map.lookup "every_minutes", map.lookup "event" with
    | some time, none, none => parseDaily text time (map.lookup "days")
    | none, some minutes, none => parseEvery minutes
    | none, none, some name => parseEvent text name (map.lookup "if")
    | _, _, _ => .error "when: must contain exactly one of daily, every_minutes or event"
  | _ => .error "when: must be a mapping with daily, every_minutes or event"

end Trigger

/-- A number with zeros before it, as wide as given with its sign. -/
def padZero (width : ℕ) (n : ℤ) : String :=
  let zeros := fun width (digits : String) =>
    String.ofList (List.replicate (width - digits.length) '0') ++ digits
  if n < 0 then "-" ++ zeros (width - 1) (toString n.natAbs) else zeros width (toString n.natAbs)

def dateText (year month day : ℤ) : String :=
  padZero 4 year ++ "-" ++ padZero 2 month ++ "-" ++ padZero 2 day

def Local.dateString (l : Local) : String := dateText l.year l.month l.day

/-- The day is one of those of a trigger. -/
def onDay (days : Option (List String)) (weekday : ℤ) : Bool :=
  match days with
  | none => true
  | some days => days.any fun d => dayNames[weekday.toNat]? = some d

/-- The slot of a window. -/
def everySlot (minutes window : ℤ) : String := "every:" ++ toString minutes ++ ":" ++ toString window

def dueSlot (trigger : Trigger) (nowMs : ℤ) (zone : Zone) (graceMinutes : ℤ) : Option String :=
  match trigger with
  | .every minutes => some (everySlot minutes (nowMs / (minutes * 60000)))
  | .daily hour minute days =>
    let now := zone.localAt nowMs
    if onDay days now.weekday = false then none
    else
      let scheduled := zone.wallToUtc now.year now.month now.day hour minute
      let late := nowMs - scheduled
      if late < 0 then none
      else if graceMinutes * 60000 < late then none
      else some ("daily:" ++ (zone.localAt scheduled).dateString)
  | .event _ _ => none

/-- `due_slot` in 64 bits. -/
def dueSlot? (trigger : Trigger) (nowMs : ℤ) (zone : Zone) (graceMinutes : ℤ) :
    Option (Option String) :=
  match trigger with
  | .every minutes => do
    let window ← mul? minutes 60000
    if window = 0 then none else pure (some (everySlot minutes (nowMs / window)))
  | .daily hour minute days => do
    let now ← zone.localAt? nowMs
    if onDay days now.weekday = false then pure none
    else do
      let scheduled ← zone.wallToUtc? now.year now.month now.day hour minute
      let late ← sub? nowMs scheduled
      -- the grace is multiplied only where the time has come
      if late < 0 then pure none
      else do
        let grace ← mul? graceMinutes 60000
        if grace < late then pure none
        else do
          let l ← zone.localAt? scheduled
          pure (some ("daily:" ++ l.dateString))
  | .event _ _ => pure none

/-- The trigger is accepted: it comes from `from_when`, `Trigger::every` or `Trigger::daily`. -/
def Accepted (text : RustText) (t : Trigger) : Prop :=
  (∃ when_, Trigger.fromWhen text when_ = .ok t) ∨
    (∃ minutes, I64 minutes ∧ Trigger.mkEvery minutes = .ok t) ∨
    ∃ hour minute days, Trigger.mkDaily text hour minute days = .ok t

/-- What is checked of a trigger. -/
def WellFormed : Trigger → Prop
  | .daily hour minute _ => (0 ≤ hour ∧ hour < 24) ∧ 0 ≤ minute ∧ minute < 60
  | .every minutes => minEveryMinutes ≤ minutes ∧ minutes ≤ i64Max
  | .event _ _ => True

variable {text : RustText} {t : Trigger}

theorem wellFormed_mkDaily {hour minute : ℤ} {days : Option (List String)}
    (h : Trigger.mkDaily text hour minute days = .ok t) : WellFormed t := by
  unfold Trigger.mkDaily at h
  split_ifs at h with htime
  obtain ⟨hh, hm⟩ := not_or.1 htime
  split at h
  · cases h
    exact ⟨not_not.1 hh, not_not.1 hm⟩
  · cases h
  · dsimp only at h
    split_ifs at h
    cases h
    exact ⟨not_not.1 hh, not_not.1 hm⟩

theorem wellFormed_mkEvery {minutes : ℤ} (hmax : minutes ≤ i64Max)
    (h : Trigger.mkEvery minutes = .ok t) : WellFormed t := by
  unfold Trigger.mkEvery at h
  split_ifs at h with hmin
  cases h
  exact ⟨not_lt.1 hmin, hmax⟩

theorem Number.toI64_le {n : Number} {m : ℤ} (h : n.toI64 = some m) : m ≤ i64Max := by
  have hsaturate : ∀ k, saturate k ≤ i64Max := fun k =>
    max_le (by decide) (min_le_left _ _)
  unfold toI64 at h
  cases hi : n.asI64 with
  | none =>
    rw [hi] at h
    change (if n.asF64.den = 1 then some (saturate n.asF64.num) else none) = some m at h
    split_ifs at h
    rw [← Option.some_inj.1 h]
    exact hsaturate _
  | some k =>
    rw [hi] at h
    obtain rfl : k = m := Option.some_inj.1 h
    cases n with
    | posInt n hn =>
      change (if (n : ℤ) ≤ i64Max then some (n : ℤ) else none) = some k at hi
      split_ifs at hi with hle
      rw [← Option.some_inj.1 hi]
      exact hle
    | negInt n hn =>
      obtain rfl : n = k := Option.some_inj.1 hi
      exact hn.2.le.trans (by decide)
    | float f => cases hi

/-- What is read from `when` is a trigger that makes sense. -/
theorem wellFormed_fromWhen {when_ : Value} (h : Trigger.fromWhen text when_ = .ok t) :
    WellFormed t := by
  unfold Trigger.fromWhen at h
  split at h
  · split at h
    · unfold Trigger.parseDaily at h
      split at h
      · cases h
      · exact wellFormed_mkDaily h
      · exact wellFormed_mkDaily h
      · cases h
    · unfold Trigger.parseEvery at h
      split at h
      · split at h
        · rename_i hn
          exact wellFormed_mkEvery (Number.toI64_le hn) h
        · cases h
      · cases h
    · unfold Trigger.parseEvent at h
      obtain ⟨condition, -, h⟩ := Fallible.bind_eq_ok.1 h
      unfold Trigger.mkEvent at h
      dsimp only at h
      split_ifs at h
      cases h
      trivial
    · cases h
  · cases h

/-- **An accepted trigger has a time of day, or at least the least number of minutes.** -/
theorem Accepted.wellFormed (h : Accepted text t) : WellFormed t := by
  obtain ⟨when_, h⟩ | ⟨minutes, hm, h⟩ | ⟨hour, minute, days, h⟩ := h
  · exact wellFormed_fromWhen h
  · exact wellFormed_mkEvery hm.2 h
  · exact wellFormed_mkDaily h

end U2os.Majordomo.Scheduler
