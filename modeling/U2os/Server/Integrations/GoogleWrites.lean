import U2os.Lib.IsoText
import U2os.Lib.Timestamp
import U2os.Server.Agent.ResultReferences
import U2os.Server.Integrations.AcknowledgedWrite
import U2os.Server.Integrations.Mime

/-!
# Messages sent and events changed

`sendEmail` of `integrations/gmail-provider.js`, and `createEvent` and `rescheduleEvent` of
`integrations/google-calendar-provider.js`: what they check before, what they hand to `fetch`, and
which acknowledgements they accept.

`Date.parse` is a parameter.  Where it reads a timestamp with an offset, it gives its milliseconds
(`Dates.Exact`); which other texts it reads is left open.  Reading a row of the database does not
fail.  The columns that only the database sets are left out, and so is the instant a message is said
to be received at.

## Main results

* `Establishes.of_accept` : an event is accepted only at exactly the instants asked for.
-/

namespace U2os.Server.Integrations

open Agent Agent.ResultReferences Option Bool

/-- `Date.parse`; `none` for `NaN`. -/
structure Dates where
  parse : String → Option ℤ

/-- A timestamp with an offset that is read, is read to the millisecond. -/
def Dates.Exact (D : Dates) : Prop :=
  ∀ text s t, Stamp.read? text.toList = some s → D.parse text = some t → t = s.millis

/-- `usableTimestamp`: the day of the text is the one of its midnight, so it exists.  Where midnight
is not read at all the source throws; the check fails here. -/
def usableTimestamp (D : Dates) (value : String) : Bool :=
  JsText.trim value ≠ "" && (D.parse value).isSome &&
    match fits dayShape value.toList with
    | some rest =>
      let day := value.toList.take 10
      (rest = [] || rest.head? = some 't' || rest.head? = some 'T') &&
        (D.parse (String.ofList day ++ "T00:00:00Z")).any fun t =>
          day.isPrefixOf (JsDate.toISOString t).toList
    | none => false

/-- `(?:[zZ]|[+-]\d{2}:?\d{2})$`. -/
def hasZone (value : String) : Bool :=
  [1, 5, 6].any fun n => (readZone (value.toList.drop (value.toList.length - n))).isSome

/-- `^\d{4}-\d{2}-\d{2}$`, or with an offset. -/
def isUnambiguous (value : String) : Bool :=
  fits dayShape value.toList = some [] || hasZone value

/-- `matches`. -/
def isSameInstant (D : Dates) (actual intended : String) : Bool :=
  usableTimestamp D intended &&
    ((fractionDigits actual.toList).drop 3).all (fun c => !isNonzero c) &&
    hasZone actual && hasZone intended && D.parse actual = D.parse intended

/-- `[01]\d|2[0-3]`. -/
def isHour (a b : Char) : Bool :=
  (a = '0' || a = '1') && b.isDigit || a = '2' && '0' ≤ b && b ≤ '3'

/-- `[0-5]\d`. -/
def isSixtieth (a b : Char) : Bool := '0' ≤ a && a ≤ '5' && b.isDigit

/-- `(?:Z|[+-](?:[01]\d|2[0-3]):[0-5]\d)$`, in either case. -/
def isOffset : List Char → Bool
  | [z] => z = 'Z' || z = 'z'
  | [sign, h₁, h₂, colon, m₁, m₂] =>
    (sign = '+' || sign = '-') && isHour h₁ h₂ && colon = ':' && isSixtieth m₁ m₂
  | _ => false

/-- What comes after the day of a timestamp in a request. -/
def isTimeOfDay : List Char → Bool
  | t :: h₁ :: h₂ :: c₁ :: m₁ :: m₂ :: c₂ :: s₁ :: s₂ :: rest =>
    (t = 'T' || t = 't') && isHour h₁ h₂ && c₁ = ':' && isSixtieth m₁ m₂ && c₂ = ':' &&
      isSixtieth s₁ s₂ &&
      match readFraction rest with
      | some (fraction, zone) => fraction.length ≤ 3 && isOffset zone
      | none => false
  | _ => false

/-- `timed`. -/
def isTimed (D : Dates) : ParsedJson → Bool
  | .str s => ((fits dayShape s.toList).any isTimeOfDay) && usableTimestamp D s
  | _ => false

/-- `[^\s@<>;,\u0000-\u001f\u007f]`. -/
def isAddressChar (c : Char) : Bool :=
  !(JsText.isSpace c || ['@', '<', '>', ';', ','].contains c || c.toNat < 32 || c.toNat = 127)

def address? : ParsedJson → Option String
  | .str s =>
    match s.toList.span isAddressChar with
    | (_ :: _, '@' :: c :: cs) => if (c :: cs).all isAddressChar then some s else none
    | _ => none
  | _ => none

/-- The text that a value is. -/
def textOf : ParsedJson → String
  | .str s => s
  | _ => ""

/-- What `validateTimedWrite` checks where an event is created. -/
structure Details where
  title : ParsedJson
  attendees : ParsedJson
  location : Option ParsedJson

/-- The value is missing or `null`. -/
def isNullish : Option ParsedJson → Bool
  | none | some .null => true
  | _ => false

/-- The value is a text, `null`, or missing. -/
def isOptionalText : Option ParsedJson → Bool
  | some (.str _) => true
  | v => isNullish v

/-- The part of the check for an event that is created. -/
def Details.isValid (d : Details) : Bool :=
  JsText.trim (textOf d.title) ≠ "" && isOptionalText d.location &&
    match d.attendees with
    | .arr items => items.all fun v => (address? v).isSome
    | _ => false

/-- `validateWriteDeadline`; `none` is no finite number. -/
def validDeadline (timeoutMs : Option ℚ) : Bool := timeoutMs.any fun t => 0 < t && t ≤ 30000

/-- The error of `validateTimedWrite`. -/
def invalidRequest : Thrown where
  message := "google-calendar: invalid timed event request; provide a nonempty title, " ++
    "explicit-offset start/end with end after start and resolved guest email addresses; " ++
    "no calendar change was attempted"
  code := some "GOOGLE_CALENDAR_INVALID_REQUEST"
  actionErrorClass := some .nonRetryable
  safeToRetry := some false

def validateTimedWrite (D : Dates) (startAt endAt : ParsedJson) (creating : Option Details) :
    Except Thrown Unit :=
  let ordered :=
    match D.parse (textOf startAt), D.parse (textOf endAt) with
    | some s, some e => decide (s < e)
    | _, _ => true
  if isTimed D startAt && isTimed D endAt && ordered && creating.all Details.isValid then .ok ()
  else .error invalidRequest

/-- A connection instance: its id, and whether `isGrandfatheredInstance` says so. -/
structure Instance where
  id : String
  grandfathered : Bool

def scopedLocalId (lead : String) (inst : Instance) (upstreamId : String) : Option String :=
  if inst.id = "" then none
  else
    some (if inst.grandfathered then lead ++ upstreamId else lead ++ inst.id ++ "_" ++ upstreamId)

def unscopedUpstreamId (lead : String) (inst : Instance) (localId : String) : String :=
  let scope := (if inst.grandfathered then lead else lead ++ inst.id ++ "_").toList
  if scope.isPrefixOf localId.toList then String.ofList (localId.toList.drop scope.length)
  else localId

def encodeURIComponent (s : String) : String :=
  String.ofList (s.toList.flatMap fun c =>
    if c.isAlphanum || ['-', '_', '.', '!', '~', '*', '\'', '(', ')'].contains c then [c]
    else (String.utf8EncodeChar c).flatMap fun b =>
      ['%', (Mime.hexDigit (b.toNat / 16)).toUpper, (Mime.hexDigit (b.toNat % 16)).toUpper])

/-! ### Events -/

/-- A row of `calendar_events`. -/
structure CalendarRow where
  id : String
  title : String
  startAt : String
  endAt : String
  location : Option String
  attendees : List String
  category : String
  status : String
  source : String
  deriving DecidableEq

/-- The value, if it is a text that is not empty. -/
def someText (v : Option ParsedJson) : Option String :=
  match v with
  | some (.str s) => if s ≠ "" then some s else none
  | _ => none

/-- `side?.dateTime || side?.date`, if it is a text. -/
def sideText (side : Option ParsedJson) : Option String :=
  let dateTime := side.bind fun v => v.get? "dateTime"
  match if isTruthy dateTime then dateTime else side.bind fun v => v.get? "date" with
  | some (.str s) => some s
  | _ => none

/-- The names of the attendees, if they are well formed. -/
def attendeeNames? : Option ParsedJson → Option (List String)
  | none | some .null => some []
  | some (.arr items) =>
    if items.all fun a => a.isObject && isOptionalText (a.get? "displayName") &&
        isOptionalText (a.get? "email") then
      some (items.filterMap fun a => someText (a.get? "displayName") <|> someText (a.get? "email"))
    else none
  | _ => none

/-- The times of an event, if they are usable and in order. -/
def eventTimes (D : Dates) (event : ParsedJson) : Option (String × String) :=
  match sideText (event.get? "start"), sideText (event.get? "end") with
  | some s, some e =>
    if usableTimestamp D s && usableTimestamp D e &&
        !(isUnambiguous s && isUnambiguous e &&
          (D.parse e).any fun te => (D.parse s).any fun ts => te < ts) then some (s, e)
    else none
  | _, _ => none

/-- The id of an event, if it is the one expected. -/
def eventId (expectedId : Option String) (event : ParsedJson) : Option String :=
  match event.get? "id" with
  | some (.str id) =>
    if JsText.trim id ≠ "" && expectedId.all (· == id) then some id else none
  | _ => none

def mapValidatedEvent (D : Dates) (inst : Instance) (expectedId : Option String)
    (event : ParsedJson) : Option CalendarRow :=
  if isOptionalText (event.get? "summary") && isOptionalText (event.get? "location") &&
      (isNullish (event.get? "status") || ["confirmed", "tentative", "cancelled"].any fun s =>
        (event.get? "status").any fun v => textOf v == s) then do
    let id ← eventId expectedId event
    let attendees ← attendeeNames? (event.get? "attendees")
    let localId ← scopedLocalId "gcal_" inst id
    let times ← eventTimes D event
    return {
      id := localId
      title := (someText (event.get? "summary")).getD "(untitled)"
      startAt := times.1
      endAt := times.2
      location := someText (event.get? "location")
      attendees
      category := "personal"
      status := if (event.get? "status").any fun v => textOf v == "cancelled" then "cancelled"
        else "confirmed"
      source := "google-calendar" }
  else none

/-- The acknowledgements that `acknowledgedWrite` accepts. -/
def acceptEvent (D : Dates) (inst : Instance) (expectedId : Option String) (startAt endAt : String)
    (event : ParsedJson) : Option CalendarRow :=
  (mapValidatedEvent D inst expectedId event).filter fun row =>
    !((event.get? "status").any fun v => ["cancelled", "tentative"].contains (textOf v)) &&
      isSameInstant D row.startAt startAt && isSameInstant D row.endAt endAt

/-- The text of an uncertain outcome, between what the provider says. -/
def uncertainText (lead tail : String) (timedOut : Bool) (status : Option ℤ) : String :=
  lead ++ " outcome uncertain" ++ (if timedOut then " (acknowledgement timed out)" else "") ++
    (match status with
    | some n => " (status " ++ toString n ++ ")"
    | none => "") ++ tail

/-- The error of an uncertain outcome. -/
def uncertainError (code lead tail : String) (timedOut : Bool) (status : Option ℤ) : Thrown where
  message := uncertainText lead tail timedOut status
  code := some code
  status := status
  actionErrorClass := some .outcomeUncertain
  ownerAttentionRequired := true
  safeToRetry := some false

/-- The error of `acknowledgedWrite`. -/
def calendarUncertain : Bool → Option ℤ → Thrown :=
  uncertainError "GOOGLE_CALENDAR_WRITE_OUTCOME_UNCERTAIN" "google-calendar: write"
    ("; check the originally bound calendar account/event before any new proposal; " ++
      "no automatic retry")

/-- `API_BASE` of the calendar. -/
def eventsUrl : String := "https://www.googleapis.com/calendar/v3/calendars/primary/events"

def invalidDeadline (text : String) : Thrown := { message := text }

/-- The times of a request. -/
def timesBody (startAt endAt : String) : List (String × Json) :=
  [("start", .obj [("dateTime", .str startAt)]), ("end", .obj [("dateTime", .str endAt)])]

/-- The arguments of `createEvent`. -/
structure CreateArguments where
  title : ParsedJson
  startAt : ParsedJson
  endAt : ParsedJson
  attendees : ParsedJson := .arr []
  location : Option ParsedJson := none

/-- The guests of a request; they are addresses. -/
def guests : ParsedJson → List Json
  | .arr items => items.map fun v => .obj [("email", .str (textOf v))]
  | _ => []

def createEvent (D : Dates) (inst : Instance) (timeoutMs : Option ℚ) (a : CreateArguments) :
    Write CalendarRow where
  preflight :=
    if validDeadline timeoutMs then
      (validateTimedWrite D a.startAt a.endAt (some ⟨a.title, a.attendees, a.location⟩)).map some
    else .error (invalidDeadline
      "google-calendar: invalid write deadline; no calendar change was attempted")
  prepare := .ok {
    method := "POST"
    url := eventsUrl
    body := .obj ([("summary", .str (textOf a.title))] ++
      timesBody (textOf a.startAt) (textOf a.endAt) ++
      ((someText a.location).toList.map fun text => ("location", .str text)) ++
      [("attendees", .arr (guests a.attendees))]) }
  accept := acceptEvent D inst none (textOf a.startAt) (textOf a.endAt)
  uncertain := calendarUncertain

/-- The arguments of `rescheduleEvent`, and the row of the event. -/
structure RescheduleArguments where
  localId : String
  newStartAt : ParsedJson
  newEndAt : ParsedJson
  before : Option CalendarRow

/-- `rescheduleEvent`; it answers the row before and the row after. -/
def rescheduleEvent (D : Dates) (inst : Instance) (timeoutMs : Option ℚ)
    (a : RescheduleArguments) : Write (Option CalendarRow × CalendarRow) where
  preflight :=
    if validDeadline timeoutMs then
      if a.before.isSome then (validateTimedWrite D a.newStartAt a.newEndAt none).map some
      else .ok none
    else .error (invalidDeadline
      "google-calendar: invalid write deadline; no calendar change was attempted")
  prepare := .ok {
    method := "PATCH"
    url := eventsUrl ++ "/" ++ encodeURIComponent (unscopedUpstreamId "gcal_" inst a.localId)
    body := .obj (timesBody (textOf a.newStartAt) (textOf a.newEndAt)) }
  accept event :=
    (acceptEvent D inst (some (unscopedUpstreamId "gcal_" inst a.localId)) (textOf a.newStartAt)
      (textOf a.newEndAt) event).map fun after => (a.before, after)
  uncertain := calendarUncertain

/-- A row of `emails`. -/
structure SentRow where
  id : String
  threadId : Option String
  «from» : String
  «to» : List ParsedJson
  subject : String
  body : String
  folder : String
  isRead : Bool

/-- The value is a text that is not blank. -/
def isFilled : Option ParsedJson → Bool
  | some (.str s) => JsText.trim s ≠ ""
  | _ => false

/-- The acknowledgements that `sendEmail` accepts. -/
def acceptSent (inst : Instance) (mail : Mime.MailArguments) (sent : ParsedJson) : Option SentRow :=
  if sent.isObject && isFilled (sent.get? "id") &&
      ((sent.get? "threadId").isNone || isFilled (sent.get? "threadId")) then
    (scopedLocalId "gmail_" inst (((sent.get? "id").map textOf).getD "")).map fun id =>
      { id
        threadId := (sent.get? "threadId").map textOf
        «from» := "me"
        «to» := match mail.«to» with
          | .arr items => items
          | v => [v]
        subject := textOf mail.subject
        body := textOf mail.body
        folder := "sent"
        isRead := true }
  else none

/-- `sendEmail`; a message with attachments has a random boundary. -/
def sendEmail (random : List UInt8) (inst : Instance) (timeoutMs : Option ℚ)
    (mail : Mime.MailArguments) : Write SentRow where
  preflight :=
    match Mime.buildRawMessage random mail with
    | .error message => .error { message }
    | .ok _ =>
      if validDeadline timeoutMs then .ok (some ())
      else .error (invalidDeadline "gmail: invalid send deadline; no message was attempted")
  prepare :=
    match Mime.buildRawMessage random mail with
    | .error message => .error { message }
    | .ok raw => .ok {
        method := "POST"
        url := "https://gmail.googleapis.com/gmail/v1/users/me/messages/send"
        body := .obj [("raw", .str raw)] }
  accept := acceptSent inst mail
  uncertain := uncertainError "GMAIL_SEND_OUTCOME_UNCERTAIN" "gmail: send"
    "; check the selected account's Sent mail before any new send; no automatic retry"

/-! ### What is accepted -/

theorem fits_append (ps qs : List (Char → Bool)) (cs : List Char) :
    fits (ps ++ qs) cs = (fits ps cs).bind (fits qs) := by
  induction ps generalizing cs with
  | nil => rfl
  | cons p ps ih =>
    cases cs with
    | nil => rfl
    | cons c cs =>
      simp only [List.cons_append, fits]
      split_ifs
      · exact ih cs
      · rfl

theorem isDigit_of_isHour {a b : Char} (h : isHour a b = true) :
    a.isDigit = true ∧ b.isDigit = true := by
  simp only [isHour, or_eq_true, and_eq_true, decide_eq_true_eq] at h
  rcases h with ⟨rfl | rfl, hb⟩ | ⟨⟨rfl, hlow⟩, hhigh⟩
  · exact ⟨rfl, hb⟩
  · exact ⟨rfl, hb⟩
  · refine ⟨rfl, Char.isDigit_iff_toNat.2 ⟨hlow, hhigh.trans (by decide)⟩⟩

theorem isDigit_of_isSixtieth {a b : Char} (h : isSixtieth a b = true) :
    a.isDigit = true ∧ b.isDigit = true := by
  simp only [isSixtieth, and_eq_true, decide_eq_true_eq] at h
  exact ⟨Char.isDigit_iff_toNat.2 ⟨h.1.1, h.1.2.trans (by decide)⟩, h.2⟩

theorem readZone_of_isOffset {zone : List Char} (h : isOffset zone = true) :
    ∃ offset, readZone zone = some offset := by
  unfold isOffset at h
  split at h
  · next z =>
    simp only [or_eq_true, decide_eq_true_eq] at h
    exact ⟨0, if_pos h⟩
  · next sign h₁ h₂ colon m₁ m₂ =>
    simp only [and_eq_true, or_eq_true, decide_eq_true_eq] at h
    obtain ⟨⟨⟨hsign, hhour⟩, rfl⟩, hminute⟩ := h
    obtain ⟨hd₁, hd₂⟩ := isDigit_of_isHour hhour
    obtain ⟨hd₃, hd₄⟩ := isDigit_of_isSixtieth hminute
    have hdigits : [h₁, h₂, m₁, m₂].all Char.isDigit = true := by simp [hd₁, hd₂, hd₃, hd₄]
    unfold readZone readOffset
    dsimp only
    rw [if_pos rfl, if_pos ⟨hsign, hdigits⟩]
    exact ⟨_, rfl⟩
  · cases h

/-- A time that counts as one is read, with milliseconds at most. -/
theorem read?_of_isTimed {D : Dates} {v : ParsedJson} (h : isTimed D v = true) :
    ∃ s, Stamp.read? (textOf v).toList = some s ∧ s.fraction.length ≤ 3 := by
  unfold isTimed at h
  split at h
  · next text =>
    rw [and_eq_true, any_eq_true] at h
    obtain ⟨⟨rest, hrest, htime⟩, -⟩ := h
    unfold isTimeOfDay at htime
    split at htime
    · next t h₁ h₂ c₁ m₁ m₂ c₂ s₁ s₂ tail =>
      simp only [and_eq_true, or_eq_true, decide_eq_true_eq] at htime
      obtain ⟨⟨⟨⟨⟨⟨ht, hhour⟩, rfl⟩, hminute⟩, rfl⟩, hsecond⟩, htail⟩ := htime
      obtain ⟨hd₁, hd₂⟩ := isDigit_of_isHour hhour
      obtain ⟨hd₃, hd₄⟩ := isDigit_of_isSixtieth hminute
      obtain ⟨hd₅, hd₆⟩ := isDigit_of_isSixtieth hsecond
      split at htail
      · next fraction zone hfraction =>
        rw [and_eq_true, decide_eq_true_eq] at htail
        obtain ⟨offset, hoffset⟩ := readZone_of_isOffset htail.2
        have hminutes : fits minuteShape text.toList = some (':' :: s₁ :: s₂ :: tail) := by
          rw [minuteShape, fits_append, hrest]
          simp [fits, one, ht, hd₁, hd₂, hd₃, hd₄]
        have hseconds : readSeconds (':' :: s₁ :: s₂ :: tail) =
            some (numberAt (':' :: s₁ :: s₂ :: tail) 1 2, fraction, zone) := by
          simp [readSeconds, fits, one, hd₅, hd₆, hfraction]
        simp only [Stamp.read?, textOf, hminutes, hseconds, bind_some, hoffset,
          map_some]
        exact ⟨_, rfl, htail.1⟩
      · cases htail
    · cases htime
  · cases h

/-- The first text says exactly the instant of the second. -/
def SameInstant (D : Dates) (actual : Option String) (intended : String) : Prop :=
  ∃ text s, actual = some text ∧ Stamp.read? intended.toList = some s ∧
    D.parse text = some s.millis ∧ s.instant = s.millis ∧
      ∀ r, Stamp.read? text.toList = some r → r.instant = s.instant

theorem SameInstant.of_isSame {D : Dates} (hD : D.Exact) {actual : String} {v : ParsedJson}
    (hv : isTimed D v = true) (h : isSameInstant D actual (textOf v) = true) :
    SameInstant D (some actual) (textOf v) := by
  obtain ⟨s, hs, hlength⟩ := read?_of_isTimed hv
  have hwhole : s.instant = s.millis :=
    Stamp.instant_eq (by rw [List.drop_eq_nil_of_le hlength]; exact fun c hc => nomatch hc)
  simp only [isSameInstant, usableTimestamp, and_eq_true, decide_eq_true_eq] at h
  obtain ⟨⟨⟨⟨⟨⟨-, hsome⟩, -⟩, hdigits⟩, -⟩, -⟩, hparse⟩ := h
  obtain ⟨t, ht⟩ := isSome_iff_exists.1 hsome
  obtain rfl := hD _ _ _ hs ht
  refine ⟨actual, s, rfl, hs, hparse.trans ht, hwhole, fun r hr => ?_⟩
  rw [hwhole, Stamp.instant_eq, ← hD _ _ _ hr (hparse.trans ht)]
  rw [← Stamp.fractionDigits_eq hr]
  simpa using hdigits

/-- An acknowledgement establishes an event: it is the one expected, not cancelled or tentative, and
at the instants asked for. -/
structure Establishes (D : Dates) (expectedId : Option String) (startAt endAt : String)
    (event : ParsedJson) : Prop where
  id : ∃ id, event.get? "id" = some (.str id) ∧ ∀ x ∈ expectedId, id = x
  status : event.get? "status" ≠ some (.str "cancelled") ∧
    event.get? "status" ≠ some (.str "tentative")
  start : SameInstant D (sideText (event.get? "start")) startAt
  «end» : SameInstant D (sideText (event.get? "end")) endAt

/-- The id of an event is the expected one, where one is expected. -/
theorem eventId_spec {expectedId : Option String} {event : ParsedJson} {id : String}
    (h : eventId expectedId event = some id) :
    event.get? "id" = some (.str id) ∧ ∀ x ∈ expectedId, id = x := by
  unfold eventId at h
  split at h
  · next text htext =>
    rw [ite_none_right_eq_some, and_eq_true] at h
    obtain ⟨⟨-, hall⟩, heq⟩ := h
    cases heq
    refine ⟨htext, fun x hx => ?_⟩
    rw [mem_def.1 hx] at hall
    exact (beq_iff_eq.1 hall).symm
  · cases h

theorem eventTimes_spec {D : Dates} {event : ParsedJson} {times : String × String}
    (h : eventTimes D event = some times) : sideText (event.get? "start") = some times.1 ∧
      sideText (event.get? "end") = some times.2 := by
  unfold eventTimes at h
  split at h
  · next s e hs he =>
    rw [ite_none_right_eq_some] at h
    cases h.2
    exact ⟨hs, he⟩
  · cases h

/-- An accepted event establishes what was asked for. -/
theorem Establishes.of_accept {D : Dates} (hD : D.Exact) {inst : Instance}
    {expectedId : Option String} {startAt endAt event : ParsedJson} {row : CalendarRow}
    (hstart : isTimed D startAt = true) (hend : isTimed D endAt = true)
    (h : acceptEvent D inst expectedId (textOf startAt) (textOf endAt) event = some row) :
    Establishes D expectedId (textOf startAt) (textOf endAt) event := by
  obtain ⟨hrow, hcheck⟩ := filter_eq_some_iff.1 h
  simp only [and_eq_true, not_eq_true'] at hcheck
  obtain ⟨⟨hstatus, hs⟩, he⟩ := hcheck
  unfold mapValidatedEvent at hrow
  rw [ite_none_right_eq_some] at hrow
  obtain ⟨id, hid, hrow⟩ := bind_eq_some_iff.1 hrow.2
  obtain ⟨names, -, hrow⟩ := bind_eq_some_iff.1 hrow
  obtain ⟨localId, -, hrow⟩ := bind_eq_some_iff.1 hrow
  obtain ⟨times, htimes, hrow⟩ := bind_eq_some_iff.1 hrow
  cases hrow
  obtain ⟨hfirst, hsecond⟩ := eventTimes_spec htimes
  refine ⟨⟨id, eventId_spec hid⟩, ⟨fun heq => ?_, fun heq => ?_⟩, ?_, ?_⟩
  · simp [heq, textOf] at hstatus
  · simp [heq, textOf] at hstatus
  · rw [hfirst]
    exact .of_isSame hD hstart hs
  · rw [hsecond]
    exact .of_isSame hD hend he

variable {endAt startAt : ParsedJson} {creating : Option Details}

theorem validateTimedWrite_ok {D : Dates}
    (h : validateTimedWrite D startAt endAt creating = .ok ()) :
    isTimed D startAt = true ∧ isTimed D endAt = true := by
  unfold validateTimedWrite at h
  dsimp only at h
  split_ifs at h with hvalid
  simp only [and_eq_true] at hvalid
  exact hvalid.1.1

/-! ### The three writes -/

theorem classify_uncertainError (code lead tail : String) (timedOut : Bool) (status : Option ℤ) :
    classifyActionError (uncertainError code lead tail timedOut status) = .outcomeUncertain ∧
      (uncertainError code lead tail timedOut status).safeToRetry = some false := ⟨rfl, rfl⟩

theorem validateTimedWrite_error {D : Dates} {e : Thrown}
    (h : validateTimedWrite D startAt endAt creating = .error e) : e = invalidRequest := by
  unfold validateTimedWrite at h
  dsimp only at h
  split_ifs at h
  exact (Except.error.inj h).symm

theorem classify_invalidDeadline (text : String) :
    classifyActionError (invalidDeadline text) ≠ .outcomeUncertain :=
  classify_ne_uncertain (by simp [invalidDeadline])

theorem classify_invalidRequest : classifyActionError invalidRequest ≠ .outcomeUncertain :=
  classify_ne_uncertain (by decide)

section Writes

variable {D : Dates} {inst : Instance} {timeoutMs : Option ℚ}

theorem honest_createEvent (a : CreateArguments) : (createEvent D inst timeoutMs a).Honest where
  preflight e he := by
    simp only [createEvent] at he
    split_ifs at he
    · rw [validateTimedWrite_error (Fallible.map_eq_error.1 he)]
      exact classify_invalidRequest
    · cases he
      exact classify_invalidDeadline _
  prepare := nofun
  uncertain := classify_uncertainError _ _ _

theorem honest_rescheduleEvent (a : RescheduleArguments) :
    (rescheduleEvent D inst timeoutMs a).Honest where
  preflight e he := by
    simp only [rescheduleEvent] at he
    split_ifs at he
    · rw [validateTimedWrite_error (Fallible.map_eq_error.1 he)]
      exact classify_invalidRequest
    · cases he
      exact classify_invalidDeadline _
  prepare := nofun
  uncertain := classify_uncertainError _ _ _

theorem honest_sendEmail (random : List UInt8) (mail : Mime.MailArguments) :
    (sendEmail random inst timeoutMs mail).Honest where
  preflight e he := by
    simp only [sendEmail] at he
    split at he
    · cases he
      exact classify_ne_uncertain (by simp)
    · split_ifs at he
      cases he
      exact classify_invalidDeadline _
  prepare e he := by
    simp only [sendEmail] at he
    split at he
    · cases he
      exact classify_ne_uncertain (by simp)
    · cases he
  uncertain := classify_uncertainError _ _ _

theorem isTimed_of_preflight {text : String} (h : (if validDeadline timeoutMs then
        (validateTimedWrite D startAt endAt creating).map some
      else .error (invalidDeadline text)) = .ok (some ())) :
    isTimed D startAt = true ∧ isTimed D endAt = true := by
  split_ifs at h
  obtain ⟨_, hok, -⟩ := Fallible.map_eq_ok.1 h
  exact validateTimedWrite_ok hok

/-- In every run, each of the three writes is settled at most once; it answers a row only for an
acknowledgement that it accepts and that came before the timer fired, which for the calendar is one
of the same event, not cancelled or tentative, at exactly the instants asked for; once the request
was handed to `fetch`, anything else is an error whose outcome is uncertain and which is not safe to
retry; and an error without a hand-off is uncertain only if the timer fired before it. -/
theorem writes_classified (hD : D.Exact) :
    (∀ random mail h s, (sendEmail random inst timeoutMs mail).machine.Run h s →
      Classified (sendEmail random inst timeoutMs mail) h s) ∧
    (∀ a h s, (createEvent D inst timeoutMs a).machine.Run h s →
      Classified (createEvent D inst timeoutMs a) h s ∧
        ∀ row, .ok (some row) ∈ s.outcomes → ∃ json, Arrived json h ∧
          Establishes D none (textOf a.startAt) (textOf a.endAt) json) ∧
    ∀ a h s, (rescheduleEvent D inst timeoutMs a).machine.Run h s →
      Classified (rescheduleEvent D inst timeoutMs a) h s ∧
        ∀ row, .ok (some row) ∈ s.outcomes → ∃ json, Arrived json h ∧
          Establishes D (some (unscopedUpstreamId "gcal_" inst a.localId)) (textOf a.newStartAt)
            (textOf a.newEndAt) json := by
  refine ⟨fun random mail h s hrun => classified (honest_sendEmail random mail) hrun,
    fun a h s hrun => ?_, fun a h s hrun => ?_⟩
  · have hc := classified (honest_createEvent a) hrun
    refine ⟨hc, fun row hrow => ?_⟩
    obtain ⟨hopen, json, haccept, harrived⟩ := hc.row row hrow
    obtain ⟨hs, he⟩ := isTimed_of_preflight hopen
    exact ⟨json, harrived, .of_accept hD hs he haccept⟩
  · have hc := classified (honest_rescheduleEvent a) hrun
    refine ⟨hc, fun row hrow => ?_⟩
    obtain ⟨hopen, json, haccept, harrived⟩ := hc.row row hrow
    simp only [rescheduleEvent] at hopen
    cases hbefore : a.before.isSome with
    | false =>
      simp only [hbefore, false_eq_true, if_false] at hopen
      split_ifs at hopen
      cases hopen
    | true =>
      rw [hbefore, if_pos rfl] at hopen
      obtain ⟨hs, he⟩ := isTimed_of_preflight hopen
      obtain ⟨after, hafter, -⟩ := map_eq_some_iff.1 haccept
      exact ⟨json, harrived, .of_accept hD hs he hafter⟩

end Writes

/-- A reader of timestamps with an offset. -/
def sampleDates : Dates := ⟨fun text => (Stamp.read? text.toList).map Stamp.millis⟩

theorem sampleDates_exact : sampleDates.Exact := fun text s t hs ht => by
  simp only [sampleDates, hs, map_some, some_inj] at ht
  exact ht.symm

def sampleInstance : Instance := ⟨"work", false⟩

def sampleCreate : CreateArguments where
  title := .str "Review"
  startAt := .str "2026-03-02T10:00:00Z"
  endAt := .str "2026-03-02T11:00:00+00:00"

/-- An acknowledgement in another offset. -/
def sampleEvent : ParsedJson := .obj [("id", .str "e1"), ("status", .str "confirmed"),
  ("start", .obj [("dateTime", .str "2026-03-02T05:00:00.0000-05:00")]),
  ("end", .obj [("dateTime", .str "2026-03-02T06:00:00-05:00")])]

def sampleRun : List Event := [.tokenComes true, .handOff false, .answers (some ⟨true, some 200⟩),
  .passes, .resumes, .reads false, .bodyComes (some sampleEvent), .ends true, .fires]

/-- An event is created, and its row says so. -/
theorem sample_created : ∃ json, Arrived json sampleRun ∧
    Establishes sampleDates none "2026-03-02T10:00:00Z" "2026-03-02T11:00:00+00:00" json := by
  let W := createEvent sampleDates sampleInstance (some 30000) sampleCreate
  have hrun : (Machine.drive W.perform (fun _ _ => true) W.begin sampleRun).any
      (fun s => s.outcomes.any fun o => o.toOption.join.isSome) = true := by decide +kernel
  obtain ⟨s, hs, hrow⟩ := (any_eq_true _ _).1 hrun
  obtain ⟨o, ho, hsome⟩ := List.any_eq_true.1 hrow
  obtain ⟨row, hrow⟩ := isSome_iff_exists.1 hsome
  obtain rfl : o = .ok (some row) := by
    cases o with
    | error e => cases hrow
    | ok r => exact congrArg Except.ok hrow
  exact ((writes_classified sampleDates_exact).2.1 _ _ _ (Machine.run_drive hs)).2 row ho

def sampleMail : Mime.MailArguments where
  «to» := .str "a@b"
  bcc := none
  subject := .str ""
  body := .str ""
  attachments := none

/-- If the timer fires before the request is handed to `fetch`, nothing was handed over and the
outcome is called uncertain. -/
theorem sample_never_handed : ¬∀ h s,
    (sendEmail [] sampleInstance (some 30000) sampleMail).machine.Run h s → s.handed = [] →
      ∀ e, .error e ∈ s.outcomes → classifyActionError e ≠ .outcomeUncertain := by
  intro hall
  let W := sendEmail [] sampleInstance (some 30000) sampleMail
  have hrun : (Machine.drive W.perform (fun _ _ => true) W.begin
      [.tokenComes true, .fires, .handOff false, .resumes]).any (fun s => s.handed.isEmpty &&
        s.outcomes.any fun o => match o with
        | .error e => classifyActionError e = .outcomeUncertain
        | _ => false) = true := by decide +kernel
  obtain ⟨s, hs, hlast⟩ := (any_eq_true _ _).1 hrun
  rw [and_eq_true, List.isEmpty_iff] at hlast
  obtain ⟨o, ho, hmatch⟩ := List.any_eq_true.1 hlast.2
  split at hmatch
  · next e => exact hall _ s (Machine.run_drive hs) hlast.1 e ho (of_decide_eq_true hmatch)
  · cases hmatch

end U2os.Server.Integrations
