import U2os.Lib.ParsedJson
import U2os.Lib.Run
import U2os.Server.Agent.ActionQueue

/-!
# Writes that are acknowledged before a deadline

The body that `sendEmail` of `integrations/gmail-provider.js` and `acknowledgedWrite` of
`integrations/google-calendar-provider.js` share, from the refresh of the token to the row, and
`agent/action-error-classifier.js`.  The request is handed to `fetch` in a callback of its own; the
call waits first for the answer and then for its body, each in a race with the timer.  Whatever
fails in between is reported by one `catch`.

The callbacks, what `fetch`, the body and the timer do, and the resumptions of the call are the
events; they come in any order, and late ones come as well.  Where both sides of a race are there
either may win.  Reading a property of an answer has no effect and does not throw, and clearing the
timer does not throw.

## Main results

* `Invariant.perform`, `invariant_run` : what is so in every state of a run.
* `Call.classified` : how the outcome of a run is classified.
-/

namespace U2os.Server.Integrations

open Agent List Option

/-- A thrown error, as far as it is classified. -/
structure Thrown where
  message : String
  code : Option String := none
  status : Option ℤ := none
  actionErrorClass : Option ErrorClass := none
  ownerAttentionRequired : Bool := false
  safeToRetry : Option Bool := none
  deriving DecidableEq

def classifyActionError (error : Thrown) : ErrorClass :=
  let code := (error.code.getD "").toUpper
  let status := error.status.getD 0
  match error.actionErrorClass with
  | some c => c
  | none =>
    if error.ownerAttentionRequired then .ownerAttentionRequired
    else if ["EAUTH", "UNAUTHENTICATED", "INVALID_CREDENTIALS"].contains code ∨ status = 401 ∨
        status = 403 then .authenticationRequired
    else if ["ETIMEDOUT", "ECONNRESET", "ECONNREFUSED", "ENETUNREACH", "EAI_AGAIN"].contains code ∨
        status = 408 ∨ status = 429 ∨ 500 ≤ status then .retryable
    else .nonRetryable

theorem classify_ne_uncertain {error : Thrown}
    (h : error.actionErrorClass ≠ some .outcomeUncertain) :
    classifyActionError error ≠ .outcomeUncertain := by
  unfold classifyActionError
  dsimp only
  split
  · next c hc =>
    rintro rfl
    exact h hc
  · split_ifs <;> nofun

/-- A failure of `getValidAccessToken`: `tokenFailure` and its like set no class. -/
structure TokenFailure where
  message : String
  code : Option String := none
  status : Option ℤ := none
  deriving DecidableEq

def TokenFailure.thrown (e : TokenFailure) : Thrown :=
  { message := e.message, code := e.code, status := e.status }

/-! ### The call -/

/-- What is handed to `fetch`. -/
structure WriteRequest where
  method : String
  url : String
  body : Json
  deriving DecidableEq

/-- What `fetch` answers; `null` and the like are not `ok`. -/
structure Response where
  ok : Bool
  /-- `status`, where it is an integer from 100 to 599. -/
  status : Option ℤ
  deriving DecidableEq

/-- What the calls differ in. -/
structure Write (Row : Type) where
  /-- What comes before the refresh of the token: an error, the answer `null`, or nothing. -/
  preflight : Except Thrown (Option Unit)
  /-- The request, with the token there. -/
  prepare : Except Thrown WriteRequest
  /-- The row of an acknowledgement that passes the checks. -/
  accept : ParsedJson → Option Row
  /-- The error of the `catch`. -/
  uncertain : Bool → Option ℤ → Thrown

/-- How far a promise is. -/
inductive Part (α : Type) where
  | idle
  /-- The callback waits for its turn. -/
  | queued
  | pending
  /-- It was answered, and what follows waits for its turn. -/
  | returned (x : α)
  /-- `none` if it was rejected. -/
  | settled (x : Option α)

/-- The callback has not had its turn. -/
def Part.isQueued {α : Type} : Part α → Bool
  | .queued => true
  | _ => false

/-- Where the call waits. -/
inductive Place where
  | token
  | transport
  | body
  | finished
  deriving DecidableEq

structure Call (Row : Type) where
  place : Place
  transport : Part Response := .idle
  body : Part ParsedJson := .idle
  response : Option Response := none
  armed : Bool := false
  timedOut : Bool := false
  /-- The promise of the deadline is rejected. -/
  expired : Bool := false
  /-- The requests that were handed to `fetch`. -/
  handed : List WriteRequest := []
  /-- How the call was settled; `none` for `null`. -/
  outcomes : List (Except Thrown (Option Row)) := []

/-- What happens. -/
inductive Event where
  /-- The token could not be had. -/
  | tokenFails (e : TokenFailure)
  /-- It is there, and the timer is set, unless setting it throws. -/
  | tokenComes (armed : Bool)
  | fires
  /-- The callback that hands the request to `fetch`; `fetch` may throw at once. -/
  | handOff (threw : Bool)
  | answers (r : Option Response)
  /-- The callback that looks at an answer. -/
  | passes
  /-- The call goes on with the answer. -/
  | resumes
  /-- The call goes on with the rejection of the deadline. -/
  | gives
  /-- The callback that reads the body; `json` may throw at once. -/
  | reads (threw : Bool)
  | bodyComes (json : Option ParsedJson)
  /-- The call goes on with the body; storing the row may fail. -/
  | ends (stored : Bool)

variable {Row : Type}

namespace Call

/-- `timedOut || finished`. -/
def isOver (s : Call Row) : Bool := s.timedOut || s.place = .finished

/-- The call is settled. -/
def finish (s : Call Row) (o : Except Thrown (Option Row)) : Call Row :=
  { s with place := .finished, outcomes := s.outcomes ++ [o] }

/-- The `catch`. -/
def fail (W : Write Row) (s : Call Row) : Call Row :=
  s.finish (.error (W.uncertain s.timedOut (s.response.bind Response.status)))

end Call

namespace Write

/-- A call begins. -/
def begin (W : Write Row) : Call Row :=
  match W.preflight with
  | .error e => Call.finish { place := .token } (.error e)
  | .ok none => Call.finish { place := .token } (.ok none)
  | .ok (some ()) => { place := .token }

/-- The token is there: the request is prepared, and the call waits for the answer. -/
def launch (W : Write Row) (s : Call Row) (armed : Bool) : Call Row :=
  match W.prepare with
  | .error e => s.finish (.error e)
  | .ok _ => { s with place := .transport, transport := .queued, armed, expired := !armed }

/-- The callback of the transport. -/
def handOff (W : Write Row) (s : Call Row) (threw : Bool) : Call Row :=
  match s.isOver, W.prepare with
  | false, .ok request =>
    { s with
      handed := s.handed ++ [request]
      transport := if threw then .settled none else .pending }
  | _, _ => { s with transport := .settled none }

/-- The call goes on with the answer. -/
def resume (W : Write Row) (s : Call Row) : Option Response → Call Row
  | none => s.fail W
  | some r =>
    if r.ok then { s with response := some r, place := .body, body := .queued }
    else Call.fail W { s with response := some r }

/-- The call goes on with the body. -/
def conclude (W : Write Row) (s : Call Row) (json : Option ParsedJson) (stored : Bool) : Call Row :=
  match if s.isOver then none else json.bind W.accept with
  | some row => if stored then s.finish (.ok (some row)) else s.fail W
  | none => s.fail W

/-- A step of a call. -/
def perform (W : Write Row) (s : Call Row) : Event → Option (Call Row)
  | .tokenFails e => if s.place = .token then some (s.finish (.error e.thrown)) else none
  | .tokenComes armed => if s.place = .token then some (W.launch s armed) else none
  | .fires => if s.armed then some { s with timedOut := true, expired := true } else none
  | .handOff threw => if s.transport.isQueued then some (W.handOff s threw) else none
  | .answers r =>
    match s.transport with
    | .pending => some { s with transport := (r.map .returned).getD (.settled none) }
    | _ => none
  | .passes =>
    match s.transport with
    | .returned r => some { s with transport := .settled (if s.isOver then none else some r) }
    | _ => none
  | .resumes =>
    match s.place, s.transport with
    | .transport, .settled r => some (W.resume s r)
    | _, _ => none
  -- the callbacks were queued before the race, and come before its rejection
  | .gives =>
    if s.expired ∧ (s.place = .transport ∧ s.transport.isQueued = false ∨
        s.place = .body ∧ s.body.isQueued = false) then some (s.fail W)
    else none
  | .reads threw =>
    if s.body.isQueued then
      some { s with body := if s.isOver || threw then .settled none else .pending }
    else none
  | .bodyComes json =>
    match s.body with
    | .pending => some { s with body := .settled json }
    | _ => none
  | .ends stored =>
    match s.place, s.body with
    | .body, .settled json => some (W.conclude s json stored)
    | _, _ => none

/-- The machine of a call. -/
def machine (W : Write Row) : Machine (Call Row) Event := .ofPerform W.begin W.perform

/-- What the theorems rely on: only the `catch` says that the outcome is uncertain, and it says that
and no retry. -/
structure Honest (W : Write Row) : Prop where
  preflight : ∀ e, W.preflight = .error e → classifyActionError e ≠ .outcomeUncertain
  prepare : ∀ e, W.prepare = .error e → classifyActionError e ≠ .outcomeUncertain
  uncertain : ∀ timedOut status,
    classifyActionError (W.uncertain timedOut status) = .outcomeUncertain ∧
      (W.uncertain timedOut status).safeToRetry = some false

end Write

/-! ### Runs -/

/-- The timer fired before any hand-off. -/
def FiredFirst (h : List Event) : Prop :=
  ∃ h₁ h₂, h = h₁ ++ .fires :: h₂ ∧ ∀ threw, .handOff threw ∉ h₁

/-- The body came, before the timer fired. -/
def Arrived (json : ParsedJson) (h : List Event) : Prop :=
  ∃ h₁ h₂, h = h₁ ++ .bodyComes (some json) :: h₂ ∧ .fires ∉ h₁

theorem FiredFirst.append {h : List Event} (hf : FiredFirst h) (l : List Event) :
    FiredFirst (h ++ l) := by
  obtain ⟨h₁, h₂, rfl, hno⟩ := hf
  exact ⟨h₁, h₂ ++ l, by simp, hno⟩

theorem Arrived.append {h : List Event} {json : ParsedJson} (ha : Arrived json h)
    (l : List Event) : Arrived json (h ++ l) := by
  obtain ⟨h₁, h₂, rfl, hno⟩ := ha
  exact ⟨h₁, h₂ ++ l, by simp, hno⟩

/-- Neither the timer nor the hand-off. -/
def Event.isQuiet : Event → Bool
  | .fires | .handOff _ => false
  | _ => true

theorem Event.mem_append {h : List Event} {e : Event} (hq : e.isQuiet = true) :
    (.fires ∈ h ++ [e] ↔ .fires ∈ h) ∧
      ∀ threw, .handOff threw ∈ h ++ [e] ↔ .handOff threw ∈ h := by
  cases e <;> simp [Event.isQuiet] at hq ⊢

/-- A promise whose callback had its turn. -/
def Part.Begun {α : Type} (p : Part α) : Prop := p ≠ .idle ∧ p.isQueued = false

section Runs

variable {W : Write Row} {h : List Event} {s t : Call Row} {e : Event}

/-- Why a call has an outcome. -/
def Explained (W : Write Row) (h : List Event) (s : Call Row) : Except Thrown (Option Row) → Prop
  | .ok (some row) =>
    W.preflight = .ok (some ()) ∧ ∃ json, W.accept json = some row ∧ Arrived json h
  | .ok none => s.transport = .idle
  | .error e => s.transport = .idle ∧ classifyActionError e ≠ .outcomeUncertain ∨
      s.transport.Begun ∧ ∃ timedOut status, e = W.uncertain timedOut status

theorem Explained.row {json : ParsedJson} {row : Row} (hopen : W.preflight = .ok (some ()))
    (haccept : W.accept json = some row) (ha : Arrived json h) :
    Explained W h s (.ok (some row)) := ⟨hopen, json, haccept, ha⟩

theorem Explained.certain {x : Thrown} (hidle : s.transport = .idle)
    (hx : classifyActionError x ≠ .outcomeUncertain) : Explained W h s (.error x) :=
  .inl ⟨hidle, hx⟩

theorem Explained.uncertain (hb : s.transport.Begun) (timedOut : Bool) (status : Option ℤ) :
    Explained W h s (.error (W.uncertain timedOut status)) := .inr ⟨hb, _, _, rfl⟩

/-- What is so in every state of a run. -/
structure Invariant (W : Write Row) (h : List Event) (s : Call Row) : Prop where
  settled : s.place = .finished ∧ s.outcomes.length = 1 ∨ s.place ≠ .finished ∧ s.outcomes = []
  opened : s.place ≠ .finished → W.preflight = .ok (some ())
  fired : s.timedOut = true ↔ .fires ∈ h
  waiting : s.place = .token → s.transport = .idle
  racing : s.place = .transport ∨ s.place = .body → s.transport ≠ .idle
  answered : s.place = .body → s.transport.isQueued = false
  queued : s.transport.isQueued = true → s.place = .transport
  early : s.transport.Begun ∨ s.handed = [] ∧ ∀ threw, .handOff threw ∉ h
  prepared : s.transport = .idle ∨ ∃ request, W.prepare = .ok request
  begun : s.transport.Begun → s.handed ≠ [] ∨ FiredFirst h
  came : ∀ json, s.body = .settled (some json) → .bodyComes (some json) ∈ h
  explained : ∀ o ∈ s.outcomes, Explained W h s o

/-- An event that only moves the parts on keeps what is known of the write. -/
theorem Invariant.move (hi : Invariant W h s) {transport : Part Response} {body : Part ParsedJson}
    {handed : List WriteRequest} (e : Event) (hfires : e ≠ .fires)
    (hstart : s.transport ≠ .idle ∨ transport = .idle)
    (hkeep : transport = s.transport ∧ handed = s.handed ∧ (∀ threw, e ≠ .handOff threw) ∨
      transport.Begun ∧ s.transport ≠ .idle)
    (hbegun : transport.Begun → handed ≠ [] ∨ FiredFirst h)
    (hcame : ∀ json, body = .settled (some json) → s.body = body ∨ e = .bodyComes (some json)) :
    Invariant W (h ++ [e]) { s with transport, body, handed } where
  settled := hi.settled
  opened := hi.opened
  fired := by simpa [Ne.symm hfires] using hi.fired
  waiting hplace := by
    have := hi.waiting hplace
    rcases hkeep with ⟨rfl, -⟩ | ⟨-, hne⟩
    · exact this
    · exact absurd this hne
  racing hplace := by
    rcases hkeep with ⟨rfl, -⟩ | ⟨hb, -⟩
    · exact hi.racing hplace
    · exact hb.1
  answered hplace := by
    rcases hkeep with ⟨rfl, -⟩ | ⟨hb, -⟩
    · exact hi.answered hplace
    · exact hb.2
  queued hq := by
    rcases hkeep with ⟨rfl, -⟩ | ⟨hb, -⟩
    · exact hi.queued hq
    · rw [hb.2] at hq
      cases hq
  early := by
    rcases hkeep with ⟨rfl, rfl, hno⟩ | ⟨hb, -⟩
    · refine hi.early.imp id fun hearly => ⟨hearly.1, fun threw hmem => ?_⟩
      rcases List.mem_append.1 hmem with hmem | hmem
      · exact hearly.2 threw hmem
      · exact hno threw (mem_singleton.1 hmem).symm
    · exact .inl hb
  prepared := by
    rcases hi.prepared with hidle | hp
    · exact .inl (hstart.resolve_left fun hne => hne hidle)
    · exact .inr hp
  begun hb := (hbegun hb).imp id fun hf => hf.append _
  came json hbody := by
    rcases hcame json hbody with heq | rfl
    · exact mem_append_left _ (hi.came json (heq.trans hbody))
    · simp
  explained o ho := by
    have := hi.explained o ho
    match o with
    | .ok (some row) =>
      obtain ⟨hopen, json, haccept, harrived⟩ := this
      exact ⟨hopen, json, haccept, harrived.append _⟩
    | .ok none =>
      exact hstart.resolve_left fun hne => hne this
    | .error x =>
      rcases this with ⟨hidle, hx⟩ | ⟨hb, hx⟩
      · exact .inl ⟨hstart.resolve_left fun hne => hne hidle, hx⟩
      · refine .inr ⟨?_, hx⟩
        rcases hkeep with ⟨rfl, -⟩ | ⟨hb', -⟩
        · exact hb
        · exact hb'

theorem Explained.append {o : Except Thrown (Option Row)} (hx : Explained W h s o)
    (l : List Event) (ht : t.transport = s.transport) : Explained W (h ++ l) t o := by
  match o with
  | .ok (some row) =>
    obtain ⟨hopen, json, haccept, harrived⟩ := hx
    exact ⟨hopen, json, haccept, harrived.append l⟩
  | .ok none => exact ht.trans hx
  | .error x =>
    unfold Explained
    rw [ht]
    exact hx

/-- An outcome that the events explain may end the call. -/
theorem Invariant.finish (hi : Invariant W h s) (e : Event) (hquiet : e.isQuiet = true)
    (hopen : s.place ≠ .finished) (hq : s.transport.isQueued = false)
    {o : Except Thrown (Option Row)}
    (ho : Explained W (h ++ [e]) s o) (response : Option Response) :
    Invariant W (h ++ [e]) (Call.finish { s with response } o) where
  settled := by
    refine .inl ⟨rfl, ?_⟩
    simp [Call.finish, (hi.settled.resolve_left fun hs => hopen hs.1).2]
  opened := fun hne => absurd rfl hne
  fired := hi.fired.trans (Event.mem_append hquiet).1.symm
  waiting := nofun
  racing := nofun
  answered := nofun
  queued hs := by
    rw [show s.transport.isQueued = true from hs] at hq
    cases hq
  early := by
    refine hi.early.imp id fun hearly => ⟨hearly.1, fun threw hmem => ?_⟩
    exact hearly.2 threw (((Event.mem_append hquiet).2 threw).1 hmem)
  prepared := hi.prepared
  begun hb := (hi.begun hb).imp id fun hf => hf.append _
  came json hbody := mem_append_left _ (hi.came json hbody)
  explained x hx := by
    rcases List.mem_append.1 hx with hx | hx
    · exact (hi.explained x hx).append _ rfl
    · rw [mem_singleton.1 hx]
      exact ho

theorem Invariant.fail (hi : Invariant W h s) (e : Event) (hquiet : e.isQuiet = true)
    (hplace : s.place = .transport ∨ s.place = .body) (hq : s.transport.isQueued = false)
    (response : Option Response) :
    Invariant W (h ++ [e]) (Call.fail W { s with response }) := by
  refine hi.finish e hquiet ?_ hq (.uncertain ⟨hi.racing hplace, hq⟩ _ _) response
  rcases hplace with hp | hp <;> rw [hp] <;> nofun

theorem Invariant.fires (hi : Invariant W h s) :
    Invariant W (h ++ [.fires]) { s with timedOut := true, expired := true } where
  settled := hi.settled
  opened := hi.opened
  fired := by simp
  waiting := hi.waiting
  racing := hi.racing
  answered := hi.answered
  queued := hi.queued
  early := by simpa using hi.early
  prepared := hi.prepared
  begun hb := (hi.begun hb).imp id fun hf => hf.append _
  came json hbody := mem_append_left _ (hi.came json hbody)
  explained o ho := (hi.explained o ho).append _ rfl

theorem Invariant.launch (hi : Invariant W h s) (hW : W.Honest) (hplace : s.place = .token)
    (armed : Bool) : Invariant W (h ++ [.tokenComes armed]) (W.launch s armed) := by
  have hidle := hi.waiting hplace
  have hopen : s.place ≠ .finished := by rw [hplace]; nofun
  have hearly := hi.early.resolve_left fun hb => hb.1 hidle
  unfold Write.launch
  cases hprepare : W.prepare with
  | error e =>
    exact hi.finish (.tokenComes armed) rfl hopen (by rw [hidle]; rfl)
      (.certain hidle (hW.prepare e hprepare)) s.response
  | ok request =>
    exact {
      settled := .inr ⟨nofun, (hi.settled.resolve_left fun hs => hopen hs.1).2⟩
      opened := fun _ => hi.opened hopen
      fired := by simpa using hi.fired
      waiting := nofun
      racing := fun _ => nofun
      answered := nofun
      queued := fun _ => rfl
      early := .inr ⟨hearly.1, by simpa using hearly.2⟩
      prepared := .inr ⟨request, hprepare⟩
      begun := fun hb => absurd hb.2 nofun
      came := fun json hbody => mem_append_left _ (hi.came json hbody)
      explained := fun o ho => by
        rw [(hi.settled.resolve_left fun hs => hopen hs.1).2] at ho
        cases ho }

theorem Invariant.handOff (hi : Invariant W h s) (hq : s.transport.isQueued = true) (threw : Bool) :
    Invariant W (h ++ [.handOff threw]) (W.handOff s threw) := by
  have hplace := hi.queued hq
  have hne := hi.racing (.inl hplace)
  have hnb : ¬s.transport.Begun := fun hb => by
    rw [hb.2] at hq
    cases hq
  have hearly := hi.early.resolve_left hnb
  have hsettled : (Part.settled none : Part Response).Begun := ⟨nofun, rfl⟩
  obtain ⟨request, hprepare⟩ := hi.prepared.resolve_left hne
  unfold Write.handOff
  rw [hprepare]
  cases hover : s.isOver with
  | true =>
    -- a call that waits is over only because the timer fired
    have htimed : s.timedOut = true := by simpa [Call.isOver, hplace] using hover
    obtain ⟨h₁, h₂, heq⟩ := append_of_mem (hi.fired.1 htimed)
    refine hi.move _ nofun (.inl hne) (.inr ⟨hsettled, hne⟩) (fun _ => .inr ?_)
      fun _ _ => .inl rfl
    exact ⟨h₁, h₂, heq, fun x hmem => hearly.2 x (heq ▸ mem_append_left _ hmem)⟩
  | false =>
    refine hi.move _ nofun (.inl hne) (.inr ⟨?_, hne⟩) (fun _ => .inl (by simp))
      fun _ _ => .inl rfl
    cases threw
    · exact ⟨nofun, rfl⟩
    · exact hsettled

theorem Invariant.resume (hi : Invariant W h s) (hplace : s.place = .transport)
    {r : Option Response} (hr : s.transport = .settled r) :
    Invariant W (h ++ [.resumes]) (W.resume s r) := by
  have hq : s.transport.isQueued = false := by rw [hr]; rfl
  have hfail := fun response => hi.fail .resumes rfl (.inl hplace) hq response
  cases r with
  | none => exact hfail s.response
  | some r =>
    unfold Write.resume
    dsimp only
    split_ifs
    · exact {
        settled := .inr ⟨nofun, (hi.settled.resolve_left fun hs => by simp [hplace] at hs).2⟩
        opened := fun _ => hi.opened (by rw [hplace]; nofun)
        fired := by simpa using hi.fired
        waiting := nofun
        racing := fun _ => hi.racing (.inl hplace)
        answered := fun _ => hq
        queued := fun hs => by
          rw [show s.transport.isQueued = true from hs] at hq
          cases hq
        early := .inl ⟨hi.racing (.inl hplace), hq⟩
        prepared := hi.prepared
        begun := fun hb => (hi.begun hb).imp id fun hf => hf.append _
        came := nofun
        explained := fun o ho => (hi.explained o ho).append _ rfl }
    · exact hfail (some r)

theorem Invariant.conclude (hi : Invariant W h s) (hplace : s.place = .body)
    {json : Option ParsedJson} (hbody : s.body = .settled json) (stored : Bool) :
    Invariant W (h ++ [.ends stored]) (W.conclude s json stored) := by
  have hq := hi.answered hplace
  have hfail : Invariant W (h ++ [.ends stored]) (s.fail W) :=
    hi.fail (.ends stored) rfl (.inr hplace) hq s.response
  unfold Write.conclude
  split
  · next row hrow =>
    cases stored with
    | false => exact hfail
    | true =>
      cases hover : s.isOver with
      | true => simp [hover] at hrow
      | false =>
        rw [hover, if_neg Bool.false_ne_true] at hrow
        obtain ⟨body, rfl, haccept⟩ := bind_eq_some_iff.1 hrow
        have hopen := hi.opened (by rw [hplace]; nofun)
        have hfires : .fires ∉ h := fun hmem => by simp [Call.isOver, hi.fired.2 hmem] at hover
        obtain ⟨h₁, h₂, rfl⟩ := append_of_mem (hi.came body hbody)
        refine hi.finish (.ends true) rfl (by rw [hplace]; nofun) hq (.row hopen haccept ?_)
          s.response
        exact ⟨h₁, h₂ ++ [.ends true], by simp, fun hmem => hfires (mem_append_left _ hmem)⟩
  · exact hfail

/-- Every event keeps what is known of the write. -/
theorem Invariant.perform (hW : W.Honest) (hi : Invariant W h s) (hstep : W.perform s e = some t) :
    Invariant W (h ++ [e]) t := by
  cases e with
  | tokenFails x =>
    simp only [Write.perform, ite_none_right_eq_some, some_inj] at hstep
    obtain ⟨hplace, rfl⟩ := hstep
    have hidle := hi.waiting hplace
    exact hi.finish (.tokenFails x) rfl (by rw [hplace]; nofun) (by rw [hidle]; rfl)
      (.certain hidle (classify_ne_uncertain (by simp [TokenFailure.thrown]))) s.response
  | tokenComes armed =>
    simp only [Write.perform, ite_none_right_eq_some, some_inj] at hstep
    obtain ⟨hplace, rfl⟩ := hstep
    exact hi.launch hW hplace armed
  | fires =>
    simp only [Write.perform, ite_none_right_eq_some, some_inj] at hstep
    obtain ⟨-, rfl⟩ := hstep
    exact hi.fires
  | handOff threw =>
    simp only [Write.perform, ite_none_right_eq_some, some_inj] at hstep
    obtain ⟨hq, rfl⟩ := hstep
    exact hi.handOff hq threw
  | answers r =>
    simp only [Write.perform] at hstep
    split at hstep
    · next hpending =>
      cases hstep
      have hb : s.transport.Begun := by rw [hpending]; exact ⟨nofun, rfl⟩
      refine hi.move _ nofun (.inl hb.1) (.inr ⟨?_, hb.1⟩) (fun _ => hi.begun hb)
        fun _ _ => .inl rfl
      cases r <;> exact ⟨nofun, rfl⟩
    · cases hstep
  | passes =>
    simp only [Write.perform] at hstep
    split at hstep
    · next r hreturned =>
      cases hstep
      have hb : s.transport.Begun := by rw [hreturned]; exact ⟨nofun, rfl⟩
      exact hi.move _ nofun (.inl hb.1) (.inr ⟨⟨nofun, rfl⟩, hb.1⟩) (fun _ => hi.begun hb)
        fun _ _ => .inl rfl
    · cases hstep
  | resumes =>
    simp only [Write.perform] at hstep
    split at hstep
    · next r hplace hr =>
      cases hstep
      exact hi.resume hplace hr
    · cases hstep
  | gives =>
    simp only [Write.perform, ite_none_right_eq_some, some_inj] at hstep
    obtain ⟨⟨-, hplace⟩, rfl⟩ := hstep
    rcases hplace with ⟨hplace, hq⟩ | ⟨hplace, -⟩
    · exact hi.fail .gives rfl (.inl hplace) hq s.response
    · exact hi.fail .gives rfl (.inr hplace) (hi.answered hplace) s.response
  | reads threw =>
    simp only [Write.perform, ite_none_right_eq_some, some_inj] at hstep
    obtain ⟨-, rfl⟩ := hstep
    refine hi.move _ nofun ?_ (.inl ⟨rfl, rfl, nofun⟩) hi.begun fun json hbody => ?_
    · exact (em (s.transport = .idle)).symm
    · split_ifs at hbody
      cases hbody
  | bodyComes json =>
    simp only [Write.perform] at hstep
    split at hstep
    · cases hstep
      refine hi.move _ nofun ?_ (.inl ⟨rfl, rfl, nofun⟩) hi.begun fun json' hbody => ?_
      · exact (em (s.transport = .idle)).symm
      · cases hbody
        exact .inr rfl
    · cases hstep
  | ends stored =>
    simp only [Write.perform] at hstep
    split at hstep
    · next json hplace hbody =>
      cases hstep
      exact hi.conclude hplace hbody stored
    · cases hstep

theorem invariant_begin (hW : W.Honest) : Invariant W [] W.begin := by
  have hstart : W.preflight = .ok (some ()) → Invariant W [] { place := .token } := fun hopen =>
    { settled := .inr ⟨nofun, rfl⟩
      opened := fun _ => hopen
      fired := by simp
      waiting := fun _ => rfl
      racing := fun hp => hp.elim nofun nofun
      answered := nofun
      queued := nofun
      early := .inr ⟨rfl, nofun⟩
      prepared := .inl rfl
      begun := fun hb => absurd rfl hb.1
      came := nofun
      explained := nofun }
  have hfinish : ∀ o, Explained W [] ({ place := .token } : Call Row) o →
      Invariant W [] (Call.finish { place := .token } o) := fun o ho =>
    { settled := .inl ⟨rfl, rfl⟩
      opened := fun hne => absurd rfl hne
      fired := by simp [Call.finish]
      waiting := nofun
      racing := fun hp => hp.elim nofun nofun
      answered := nofun
      queued := nofun
      early := .inr ⟨rfl, nofun⟩
      prepared := .inl rfl
      begun := fun hb => absurd rfl hb.1
      came := nofun
      explained := fun x hx => by rwa [mem_singleton.1 hx] }
  unfold Write.begin
  split
  · next e he => exact hfinish _ (.certain rfl (hW.preflight e he))
  · exact hfinish _ rfl
  · next hopen => exact hstart hopen

theorem invariant_run (hW : W.Honest) (hrun : W.machine.Run h s) : Invariant W h s :=
  hrun.history (invariant_begin hW) fun _ _ _ _ _ hi hstep => hi.perform hW hstep

/-- How the outcome of a call is classified. -/
structure Classified (W : Write Row) (h : List Event) (s : Call Row) : Prop where
  once : s.outcomes.length ≤ 1
  row : ∀ row, .ok (some row) ∈ s.outcomes →
    W.preflight = .ok (some ()) ∧ ∃ json, W.accept json = some row ∧ Arrived json h
  handed : s.handed ≠ [] → ∀ o ∈ s.outcomes, (∃ row, o = .ok (some row)) ∨
    ∃ e, o = .error e ∧ classifyActionError e = .outcomeUncertain ∧ e.safeToRetry = some false
  kept : s.handed = [] → ∀ e, .error e ∈ s.outcomes →
    classifyActionError e = .outcomeUncertain → FiredFirst h

theorem classified (hW : W.Honest) (hrun : W.machine.Run h s) : Classified W h s := by
  have hi := invariant_run hW hrun
  have hidle : s.handed ≠ [] → s.transport ≠ .idle := fun hne heq =>
    hi.early.elim (fun hb => hb.1 heq) fun hearly => hne hearly.1
  refine ⟨?_, fun row ho => hi.explained _ ho, fun hne o ho => ?_, fun hnone e ho huncertain => ?_⟩
  · rcases hi.settled with ⟨-, hlength⟩ | ⟨-, hnone⟩
    · exact hlength.le
    · rw [hnone]
      exact Nat.zero_le 1
  · have hx := hi.explained o ho
    match o with
    | .ok (some row) => exact .inl ⟨row, rfl⟩
    | .ok none => exact absurd hx (hidle hne)
    | .error e =>
      rcases hx with ⟨heq, -⟩ | ⟨-, timedOut, status, rfl⟩
      · exact absurd heq (hidle hne)
      · exact .inr ⟨_, rfl, hW.uncertain timedOut status⟩
  · rcases hi.explained _ ho with ⟨-, hcertain⟩ | ⟨hb, -⟩
    · exact absurd huncertain hcertain
    · exact (hi.begun hb).resolve_left fun hne => hne hnone

end Runs

end U2os.Server.Integrations
