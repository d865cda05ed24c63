import Mathlib.Data.Rat.Defs
import U2os.Lib.JsText
import U2os.Lib.Run

/-!
# Refreshing tokens

The tokens of the accounts (`integrations/oauth/google-oauth.js`).  Each account has a file of the
vault with the tokens of its services; the file `google` has the client that all accounts share.  A
call that finds an expired token asks for a new one, and what is answered is stored only if the
token and the client are still those of the request.

Reading and writing a file is one step; between the request and the answer anything may happen.
Numbers are rational.
-/

namespace U2os.Server.Integrations.GoogleOauth

open Option Assoc

/-- The tokens of a service. -/
structure Token where
  accessToken : Option String
  refreshToken : Option String
  expiry : Option ℚ
  deriving DecidableEq

/-- The file of an account: its client, and the tokens of its services. -/
structure File where
  clientId : Option String
  clientSecret : Option String
  tokens : List (String × Token)
  deriving DecidableEq

/-- The files, by their keys. -/
abbrev Files := List (String × File)

/-- `readEncryptedFile(vaultKey)?.tokens?.[service]`. -/
def tokenOf (files : Files) (vaultKey service : String) : Option Token :=
  (get? files vaultKey).bind fun file => get? file.tokens service

/-- The text is there and not empty. -/
def truthy (a : Option String) : Option String := a.filter fun text => text ≠ ""

/-- `a || b`. -/
def orElse (a b : Option String) : Option String := if (truthy a).isSome then a else b

/-- The client of an account: the shared one, or its own. -/
def clientOf (files : Files) (vaultKey : String) : Option String × Option String :=
  let shared := get? files "google"
  let stored := get? files vaultKey
  (orElse (shared.bind File.clientId) (stored.bind File.clientId),
    orElse (shared.bind File.clientSecret) (stored.bind File.clientSecret))

/-- `readEncryptedFile(vaultKey) || {}`. -/
def fileOf (files : Files) (vaultKey : String) : File :=
  (get? files vaultKey).getD ⟨none, none, []⟩

/-- `Date.now() + (expires_in ?? 0) * 1000`. -/
def expiryAt (now : ℚ) (expiresIn : Option ℚ) : ℚ := now + expiresIn.getD 0 * 1000

/-- The tokens are written in the file of an account. -/
def putToken (files : Files) (vaultKey service : String) (token : Token) : Files :=
  let existing := fileOf files vaultKey
  assign vaultKey { existing with tokens := assign service token existing.tokens } files

/-- `storeTokens`: a refresh token that is not given is kept. -/
def storeTokens (files : Files) (vaultKey service : String)
    (accessToken refreshToken : Option String) (expiresIn : Option ℚ) (now : ℚ) : Files × Token :=
  let previous := (get? (fileOf files vaultKey).tokens service).bind Token.refreshToken
  let token : Token := ⟨accessToken, if refreshToken.isSome then refreshToken else previous,
    some (expiryAt now expiresIn)⟩
  (putToken files vaultKey service token, token)

def clearTokens (files : Files) (vaultKey service : String) : Files :=
  match get? files vaultKey with
  | some existing =>
    if (get? existing.tokens service).isSome then
      assign vaultKey { existing with tokens := erase service existing.tokens } files
    else files
  | none => files

/-- What a call remembers while its request is in flight. -/
structure Refresh where
  vaultKey : String
  service : String
  token : Token
  refreshToken : String
  clientId : String
  clientSecret : String
  deriving DecidableEq

/-- How the first part of a call ends. -/
inductive Access where
  | failed (message : String)
  | returned (accessToken : String)
  | requested (refresh : Refresh)
  deriving DecidableEq

def refreshSkewMs : ℚ := 60 * 1000

/-- The access token, if it is good for a while. -/
def freshToken (token : Token) (now : ℚ) : Option String :=
  (truthy token.accessToken).filter fun _ =>
    token.expiry.any fun expiry => expiry ≠ 0 ∧ now < expiry - refreshSkewMs

/-- `getValidAccessToken`, up to the request. -/
def beginAccess (files : Files) (vaultKey service : String) (now : ℚ) : Access :=
  match tokenOf files vaultKey service with
  | none => .failed ("google-oauth: " ++ service ++ " is not connected")
  | some token =>
    match truthy token.refreshToken with
    | none => .failed ("google-oauth: " ++ service ++ " is not connected")
    | some refreshToken =>
      match freshToken token now with
      | some accessToken => .returned accessToken
      | none =>
        match truthy (clientOf files vaultKey).1, truthy (clientOf files vaultKey).2 with
        | some clientId, some clientSecret =>
          .requested ⟨vaultKey, service, token, refreshToken, clientId, clientSecret⟩
        | _, _ => .failed "google-oauth: missing stored Google OAuth client credentials"

/-- `getValidAccessToken`, from the answer on: nothing is written if the token or the client is
another one than at the start. -/
def finishRefresh (files : Files) (r : Refresh) (accessToken : String) (expiresIn : Option ℚ)
    (now : ℚ) : Files × Except String String :=
  if tokenOf files r.vaultKey r.service ≠ some r.token ∨
      clientOf files r.vaultKey ≠ (some r.clientId, some r.clientSecret) then
    (files, .error ("google-oauth: credentials changed during refresh; " ++
      "retry with the selected connected account"))
  else
    ((storeTokens files r.vaultKey r.service (some accessToken) r.token.refreshToken expiresIn
      now).1, .ok accessToken)

/-- The files, the refreshes that were started (none once they are over), and what was returned: the
account, the service and the access token. -/
structure State where
  files : Files
  refreshes : List (Option Refresh)
  returned : List (String × String × String)
  deriving DecidableEq

/-- What may happen. -/
inductive Action where
  /-- An access token is asked for. -/
  | access (vaultKey service : String) (now : ℚ)
  /-- The request of a refresh is answered. -/
  | answer (i : ℕ) (accessToken : String) (expiresIn : Option ℚ) (now : ℚ)
  /-- The request of a refresh fails. -/
  | fail (i : ℕ)
  /-- The tokens of a consent are stored. -/
  | store (vaultKey service accessToken : String) (refreshToken : Option String)
      (expiresIn : Option ℚ) (now : ℚ)
  /-- A service is disconnected. -/
  | clear (vaultKey service : String)
  /-- The file of an account is deleted. -/
  | delete (vaultKey : String)
  /-- The client in a file is changed. -/
  | setClient (vaultKey : String) (clientId clientSecret : Option String)
  deriving DecidableEq

/-- One thing happens. -/
def perform (s : State) : Action → Option State
  | .access vaultKey service now =>
    match beginAccess s.files vaultKey service now with
    | .failed _ => some s
    | .returned token => some { s with returned := s.returned ++ [(vaultKey, service, token)] }
    | .requested r => some { s with refreshes := s.refreshes ++ [some r] }
  | .answer i accessToken expiresIn now =>
    match s.refreshes[i]? with
    | some (some r) =>
      let (files, result) := finishRefresh s.files r accessToken expiresIn now
      some ⟨files, s.refreshes.set i none, s.returned ++
        match result with
        | .ok token => [(r.vaultKey, r.service, token)]
        | .error _ => []⟩
    | _ => none
  | .fail i =>
    match s.refreshes[i]? with
    | some (some _) => some { s with refreshes := s.refreshes.set i none }
    | _ => none
  | .store vaultKey service accessToken refreshToken expiresIn now =>
    some { s with
      files := (storeTokens s.files vaultKey service (some accessToken) refreshToken expiresIn
        now).1 }
  | .clear vaultKey service => some { s with files := clearTokens s.files vaultKey service }
  | .delete vaultKey => some { s with files := erase vaultKey s.files }
  | .setClient vaultKey clientId clientSecret =>
    let file := { fileOf s.files vaultKey with clientId := clientId, clientSecret := clientSecret }
    some { s with files := assign vaultKey file s.files }

/-- The vault with some files, and the calls on it. -/
def oauth (files : Files) : Machine State Action := .ofPerform ⟨files, [], []⟩ perform

theorem get?_fileOf (files : Files) (vaultKey service : String) :
    get? (fileOf files vaultKey).tokens service = tokenOf files vaultKey service := by
  rw [fileOf, tokenOf]
  cases get? files vaultKey <;> rfl

theorem tokenOf_putToken (files : Files) (vaultKey service key name : String) (token : Token) :
    tokenOf (putToken files vaultKey service token) key name =
      if vaultKey = key ∧ service = name then some token else tokenOf files key name := by
  rw [tokenOf, putToken, get?_assign]
  by_cases hkey : vaultKey = key
  · subst hkey
    rw [if_pos rfl, bind_some, get?_assign, get?_fileOf]
    simp
  · rw [if_neg hkey, if_neg fun h => hkey h.1]
    rfl

variable {files : Files} {service vaultKey : String}

theorem clientOf_putToken (token : Token)
    (h : (tokenOf files vaultKey service).isSome = true) (key : String) :
    clientOf (putToken files vaultKey service token) key = clientOf files key := by
  have hfile : ∃ file, get? files vaultKey = some file := by
    cases hget : get? files vaultKey with
    | none => simp [tokenOf, hget] at h
    | some file => exact ⟨file, rfl⟩
  obtain ⟨file, hfile⟩ := hfile
  have hclient : ∀ k, (get? (putToken files vaultKey service token) k).bind File.clientId =
      (get? files k).bind File.clientId ∧
      (get? (putToken files vaultKey service token) k).bind File.clientSecret =
      (get? files k).bind File.clientSecret := by
    intro k
    rw [putToken, get?_assign]
    split_ifs with hk
    · subst hk
      simp [fileOf, hfile]
    · exact ⟨rfl, rfl⟩
  simp only [clientOf, (hclient _).1, (hclient _).2]

theorem tokenOf_clearTokens (files : Files) (vaultKey service key name : String) :
    tokenOf (clearTokens files vaultKey service) key name =
      if vaultKey = key ∧ service = name then none else tokenOf files key name := by
  unfold clearTokens
  cases hfile : get? files vaultKey with
  | none =>
    dsimp only
    split_ifs with h
    · rw [tokenOf, ← h.1, hfile]
      rfl
    · rfl
  | some existing =>
    dsimp only
    split_ifs with hsome h h
    · rw [tokenOf, get?_assign, if_pos h.1, bind_some, get?_erase, if_pos h.2]
    · rw [tokenOf, get?_assign]
      by_cases hkey : vaultKey = key
      · subst hkey
        rw [if_pos rfl, bind_some, get?_erase, if_neg fun hname => h ⟨rfl, hname⟩,
          tokenOf, hfile, bind_some]
      · rw [if_neg hkey, tokenOf]
    · rw [tokenOf, ← h.1, hfile, bind_some, ← h.2]
      simpa using hsome
    · rfl

theorem tokenOf_erase (files : Files) (vaultKey key name : String) :
    tokenOf (erase vaultKey files) key name =
      if vaultKey = key then none else tokenOf files key name := by
  rw [tokenOf, get?_erase]
  split_ifs <;> rfl

theorem beginAccess_requested {now : ℚ} {r : Refresh}
    (h : beginAccess files vaultKey service now = .requested r) :
    r.vaultKey = vaultKey ∧ r.service = service ∧ tokenOf files vaultKey service = some r.token ∧
      clientOf files vaultKey = (some r.clientId, some r.clientSecret) ∧
      r.token.refreshToken = some r.refreshToken := by
  unfold beginAccess at h
  split at h
  next => exact absurd h nofun
  next token htoken =>
    split at h
    next => exact absurd h nofun
    next refreshToken hrefresh =>
      split at h
      next => exact absurd h nofun
      next =>
        split at h
        next clientId clientSecret hid hsecret =>
          obtain rfl := Access.requested.inj h
          refine ⟨rfl, rfl, htoken, ?_, (filter_eq_some_iff.1 hrefresh).1⟩
          exact Prod.ext (filter_eq_some_iff.1 hid).1 (filter_eq_some_iff.1 hsecret).1
        next => exact absurd h nofun

theorem beginAccess_returned {accessToken : String} {now : ℚ}
    (h : beginAccess files vaultKey service now = .returned accessToken) :
    ∃ token, tokenOf files vaultKey service = some token ∧
      token.accessToken = some accessToken := by
  unfold beginAccess at h
  split at h
  next => exact absurd h nofun
  next token htoken =>
    split at h
    next => exact absurd h nofun
    next =>
      split at h
      next stored hfresh =>
        obtain rfl := Access.returned.inj h
        have htruthy := (filter_eq_some_iff.1 hfresh).1
        exact ⟨token, htoken, (filter_eq_some_iff.1 htruthy).1⟩
      next => split at h <;> exact absurd h nofun

/-- The token and the client of a refresh are still there. -/
def Refresh.Current (r : Refresh) (files : Files) : Prop :=
  tokenOf files r.vaultKey r.service = some r.token ∧
    clientOf files r.vaultKey = (some r.clientId, some r.clientSecret)

/-- What a refresh that is answered writes: nothing, or its new access token in place of the one it
started from. -/
theorem finishRefresh_spec (files : Files) (r : Refresh) (accessToken : String)
    (expiresIn : Option ℚ) (now : ℚ) :
    (∃ message, finishRefresh files r accessToken expiresIn now = (files, .error message)) ∨
    r.Current files ∧ finishRefresh files r accessToken expiresIn now =
      (putToken files r.vaultKey r.service
        ⟨some accessToken, r.token.refreshToken, some (expiryAt now expiresIn)⟩,
        .ok accessToken) := by
  unfold finishRefresh
  split_ifs with hguard
  · exact .inl ⟨_, rfl⟩
  · rw [not_or, not_not, not_not] at hguard
    refine .inr ⟨hguard, ?_⟩
    have hkept : (if r.token.refreshToken.isSome then r.token.refreshToken else
        (get? (fileOf files r.vaultKey).tokens r.service).bind Token.refreshToken) =
        r.token.refreshToken := by
      rw [get?_fileOf, hguard.1, bind_some, ite_self]
    simp only [storeTokens, hkept]

/-! ### Runs -/

/-- The action stores a consent for a service. -/
def Action.Stores (vaultKey service : String) : Action → Prop
  | .store key name _ _ _ _ => key = vaultKey ∧ name = service
  | _ => False

variable {s t : State}

theorem perform_answer {i : ℕ} {accessToken : String} {expiresIn : Option ℚ} {now : ℚ}
    (h : perform s (.answer i accessToken expiresIn now) = some t) :
    t.files = s.files ∧ t.returned = s.returned ∨
    ∃ r, s.refreshes[i]? = some (some r) ∧ r.Current s.files ∧
      t.files = putToken s.files r.vaultKey r.service
        ⟨some accessToken, r.token.refreshToken, some (expiryAt now expiresIn)⟩ ∧
      t.returned = s.returned ++ [(r.vaultKey, r.service, accessToken)] := by
  simp only [perform] at h
  split at h
  next r hr =>
    obtain ⟨message, hfinish⟩ | ⟨hcurrent, hfinish⟩ :=
      finishRefresh_spec s.files r accessToken expiresIn now
    · rw [hfinish] at h
      obtain rfl := some.inj h
      exact .inl ⟨rfl, List.append_nil _⟩
    · rw [hfinish] at h
      obtain rfl := some.inj h
      exact .inr ⟨r, hr, hcurrent, rfl, rfl⟩
  next => exact absurd h nofun

/-- Only a step that stores a token makes one where there was none. -/
theorem tokenOf_perform {a : Action} (hstep : perform s a = some t)
    {key name : String} (ha : ¬a.Stores key name) (hnone : tokenOf s.files key name = none) :
    tokenOf t.files key name = none := by
  cases a with
  | access vaultKey service now =>
    simp only [perform] at hstep
    split at hstep
    all_goals
      obtain rfl := some.inj hstep
      exact hnone
  | answer i accessToken expiresIn now =>
    obtain ⟨hfiles, -⟩ | ⟨r, -, hcurrent, hfiles, -⟩ := perform_answer hstep
    · rw [hfiles, hnone]
    · rw [hfiles, tokenOf_putToken]
      split_ifs with h
      · rw [← h.1, ← h.2, hcurrent.1] at hnone
        exact absurd hnone nofun
      · exact hnone
  | fail i =>
    simp only [perform] at hstep
    split at hstep
    · obtain rfl := some.inj hstep
      exact hnone
    · exact absurd hstep nofun
  | store vaultKey service accessToken refreshToken expiresIn now =>
    obtain rfl := some.inj hstep
    exact (tokenOf_putToken _ _ _ _ _ _).trans ((if_neg ha).trans hnone)
  | clear vaultKey service =>
    obtain rfl := some.inj hstep
    rw [tokenOf_clearTokens, hnone, ite_self]
  | delete vaultKey =>
    obtain rfl := some.inj hstep
    rw [tokenOf_erase, hnone, ite_self]
  | setClient vaultKey clientId clientSecret =>
    obtain rfl := some.inj hstep
    simp only [tokenOf, get?_assign]
    split_ifs with h
    · exact h ▸ (get?_fileOf s.files vaultKey name).trans (h ▸ hnone)
    · exact hnone

theorem no_token_reappears {h : List Action}
    (hsteps : (oauth files).Steps s h t) {key name : String} (hno : ∀ a ∈ h, ¬a.Stores key name)
    (hnone : tokenOf s.files key name = none) : tokenOf t.files key name = none :=
  hsteps.invariantOn (I := fun s => tokenOf s.files key name = none) hno hnone
    fun _ _ _ ha hs hstep => tokenOf_perform hstep ha hs

/-- The refreshes of a state after a step: they are those before, some of them over, and there may be
one more. -/
theorem refreshes_perform {a : Action} (hstep : perform s a = some t) {i : ℕ}
    {r : Refresh} (hr : t.refreshes[i]? = some (some r)) :
    s.refreshes[i]? = some (some r) ∨
    i = s.refreshes.length ∧ ∃ now, a = .access r.vaultKey r.service now ∧
      beginAccess s.files r.vaultKey r.service now = .requested r := by
  have hset : ∀ j, (s.refreshes.set j none)[i]? = some (some r) →
      s.refreshes[i]? = some (some r) := by
    intro j hj
    obtain ⟨-, he⟩ | ⟨-, he⟩ := of_set_some hj
    · exact absurd he nofun
    · exact he
  cases a with
  | access vaultKey service now =>
    simp only [perform] at hstep
    split at hstep
    next => exact .inl (some.inj hstep ▸ hr)
    next =>
      obtain rfl := some.inj hstep
      exact .inl hr
    next r' hbegin =>
      obtain rfl := some.inj hstep
      obtain ⟨hi, he⟩ | ⟨-, he⟩ := of_push_some hr
      · obtain rfl := some.inj he
        obtain ⟨rfl, rfl, -⟩ := beginAccess_requested hbegin
        exact .inr ⟨hi, now, rfl, hbegin⟩
      · exact .inl he
  | answer j accessToken expiresIn now =>
    simp only [perform] at hstep
    split at hstep
    next =>
      obtain rfl := some.inj hstep
      exact .inl (hset j hr)
    next => exact absurd hstep nofun
  | fail j =>
    simp only [perform] at hstep
    split at hstep
    · obtain rfl := some.inj hstep
      exact .inl (hset j hr)
    · exact absurd hstep nofun
  | store =>
    obtain rfl := some.inj hstep
    exact .inl hr
  | clear =>
    obtain rfl := some.inj hstep
    exact .inl hr
  | delete =>
    obtain rfl := some.inj hstep
    exact .inl hr
  | setClient =>
    obtain rfl := some.inj hstep
    exact .inl hr

theorem refresh_run {h : List Action} (hrun : (oauth files).Run h s)
    {i : ℕ} {r : Refresh} (hr : s.refreshes[i]? = some (some r)) :
    ∃ h₁ h₂ now u, h = h₁ ++ .access r.vaultKey r.service now :: h₂ ∧ (oauth files).Run h₁ u ∧
      u.refreshes.length = i ∧ beginAccess u.files r.vaultKey r.service now = .requested r := by
  refine hrun.history (I := fun h s => s.refreshes[i]? = some (some r) →
    ∃ h₁ h₂ now u, h = h₁ ++ .access r.vaultKey r.service now :: h₂ ∧ (oauth files).Run h₁ u ∧
      u.refreshes.length = i ∧ beginAccess u.files r.vaultKey r.service now = .requested r)
    ?_ ?_ hr
  · exact fun h => absurd h nofun
  · intro h s a t hs ih hstep ht
    obtain hold | ⟨hi, now, rfl, hbegin⟩ := refreshes_perform hstep ht
    · obtain ⟨h₁, h₂, now, u, rfl, hu, hlen, hbegin⟩ := ih hold
      exact ⟨h₁, h₂ ++ [a], now, u, by simp, hu, hlen, hbegin⟩
    · exact ⟨h, [], now, s, rfl, hs, hi.symm, hbegin⟩

/-- A returned token is the stored one, or the one that a current refresh was answered with. -/
theorem perform_returned {a : Action} (hstep : perform s a = some t)
    {key name accessToken : String}
    (hreturned : t.returned = s.returned ++ [(key, name, accessToken)]) :
    ∃ token, tokenOf t.files key name = some token ∧ token.accessToken = some accessToken ∧
      ((∃ now, a = .access key name now) ∧ t.files = s.files ∨
        ∃ i r, s.refreshes[i]? = some (some r) ∧ r.vaultKey = key ∧ r.service = name ∧
          (∃ expiresIn now, a = .answer i accessToken expiresIn now) ∧ r.Current s.files ∧
          token.refreshToken = r.token.refreshToken) := by
  have hother : t.returned ≠ s.returned := by simp [hreturned]
  cases a with
  | access vaultKey service now =>
    simp only [perform] at hstep
    split at hstep
    next => exact absurd (congrArg State.returned (some.inj hstep)).symm hother
    next token hbegin =>
      obtain rfl := some.inj hstep
      obtain ⟨rfl, rfl, rfl⟩ : vaultKey = key ∧ service = name ∧ token = accessToken := by
        simpa using hreturned
      obtain ⟨stored, hstored, haccess⟩ := beginAccess_returned hbegin
      exact ⟨stored, hstored, haccess, .inl ⟨⟨now, rfl⟩, rfl⟩⟩
    next =>
      obtain rfl := some.inj hstep
      exact absurd rfl hother
  | answer i token expiresIn now =>
    obtain ⟨-, hsame⟩ | ⟨r, hr, hcurrent, hfiles, happend⟩ := perform_answer hstep
    · exact absurd hsame hother
    · obtain ⟨rfl, rfl, rfl⟩ : r.vaultKey = key ∧ r.service = name ∧ token = accessToken := by
        simpa using happend.symm.trans hreturned
      refine ⟨⟨some token, r.token.refreshToken, some (expiryAt now expiresIn)⟩, ?_, rfl,
        .inr ⟨i, r, hr, rfl, rfl, ⟨expiresIn, now, rfl⟩, hcurrent, rfl⟩⟩
      rw [hfiles, tokenOf_putToken, if_pos ⟨rfl, rfl⟩]
  | fail i =>
    simp only [perform] at hstep
    split at hstep
    · obtain rfl := some.inj hstep
      exact absurd rfl hother
    · exact absurd hstep nofun
  | store =>
    obtain rfl := some.inj hstep
    exact absurd rfl hother
  | clear =>
    obtain rfl := some.inj hstep
    exact absurd rfl hother
  | delete =>
    obtain rfl := some.inj hstep
    exact absurd rfl hother
  | setClient =>
    obtain rfl := some.inj hstep
    exact absurd rfl hother

/-- In every run: an answer writes only if the token and the client are those that the refresh
started from, and it writes nothing but the tokens of its service; tokens that are cleared or deleted
do not reappear before a consent is stored; and what is returned is the access token stored for the
service, which a refresh has got for the refresh token that is stored. -/
theorem refresh_sound {files : Files} {h : List Action} {s : State}
    (hrun : (oauth files).Run h s) :
    (∀ i accessToken expiresIn now t, perform s (.answer i accessToken expiresIn now) = some t →
      t.files ≠ s.files →
      ∃ (r : Refresh) (h₁ h₂ : List Action) (begun : ℚ) (u : State),
        h = h₁ ++ .access r.vaultKey r.service begun :: h₂ ∧
        (oauth files).Run h₁ u ∧ u.refreshes.length = i ∧ r.Current u.files ∧ r.Current s.files ∧
        (∀ key name, ¬(r.vaultKey = key ∧ r.service = name) →
          tokenOf t.files key name = tokenOf s.files key name) ∧
        ∀ key, clientOf t.files key = clientOf s.files key) ∧
    (∀ key name t, perform s (.clear key name) = some t ∨ perform s (.delete key) = some t →
      ∀ h' u, (oauth files).Steps t h' u → (∀ a ∈ h', ¬a.Stores key name) →
        tokenOf u.files key name = none) ∧
    ∀ a t key name accessToken, perform s a = some t →
      t.returned = s.returned ++ [(key, name, accessToken)] →
      ∃ token, tokenOf t.files key name = some token ∧ token.accessToken = some accessToken ∧
        ((∃ now, a = .access key name now) ∧ t.files = s.files ∨
          ∃ i r, s.refreshes[i]? = some (some r) ∧ r.vaultKey = key ∧ r.service = name ∧
            (∃ expiresIn now, a = .answer i accessToken expiresIn now) ∧ r.Current s.files ∧
            token.refreshToken = r.token.refreshToken) := by
  refine ⟨fun i accessToken expiresIn now t hstep hwrites => ?_, ?_,
    fun a t key name accessToken hstep => perform_returned hstep⟩
  · obtain ⟨hsame, -⟩ | ⟨r, hr, hcurrent, hfiles, -⟩ := perform_answer hstep
    · exact absurd hsame hwrites
    obtain ⟨h₁, h₂, begun, u, rfl, hu, hlen, hbegin⟩ := refresh_run hrun hr
    obtain ⟨-, -, htoken, hclient, -⟩ := beginAccess_requested hbegin
    refine ⟨r, h₁, h₂, begun, u, rfl, hu, hlen, ⟨htoken, hclient⟩, hcurrent, ?_, ?_⟩
    · intro key name hother
      rw [hfiles, tokenOf_putToken, if_neg hother]
    · intro key
      rw [hfiles]
      exact clientOf_putToken _ (by rw [hcurrent.1]; rfl) key
  · intro key name t hstep h' u hsteps hno
    refine no_token_reappears hsteps hno ?_
    obtain hstep | hstep := hstep
    all_goals obtain rfl := some.inj hstep
    · exact (tokenOf_clearTokens s.files key name key name).trans (if_pos ⟨rfl, rfl⟩)
    · exact (tokenOf_erase s.files key key name).trans (if_pos rfl)

/-- An account with a refresh token. -/
def sampleFiles : Files :=
  [("google", ⟨some "id", some "secret", []⟩),
    ("google__a", ⟨none, none, [("gmail", ⟨none, some "refresh", none⟩)]⟩)]

/-- A token is asked for, and another service is connected. -/
def sampleActions : List Action :=
  [.access "google__a" "gmail" 5, .store "google__a" "calendar" "c" (some "d") none 6]

/-- A refresh is in flight while another service was connected. -/
def sampleState : State :=
  (Machine.drive perform (fun _ _ => true) ⟨sampleFiles, [], []⟩ sampleActions).get (by decide)

/-- The refresh is answered. -/
def sampleAnswered : State := (perform sampleState (.answer 0 "new" none 7)).get (by decide)

/-- The service is disconnected instead. -/
def sampleCleared : State := (perform sampleState (.clear "google__a" "gmail")).get (by decide)

/-- The refresh is answered after the service was disconnected. -/
def sampleLate : State := (perform sampleCleared (.answer 0 "new" none 7)).get (by decide)

/-- The answer writes the token of its service alone and returns it, and after the service was
disconnected it writes none. -/
theorem sample_refresh_sound :
    tokenOf sampleAnswered.files "google__a" "calendar" =
        tokenOf sampleState.files "google__a" "calendar" ∧
      tokenOf sampleLate.files "google__a" "gmail" = none ∧
      ∃ token, tokenOf sampleAnswered.files "google__a" "gmail" = some token ∧
        token.accessToken = some "new" := by
  have hrun : (oauth sampleFiles).Run sampleActions sampleState :=
    Machine.run_drive (some_get _).symm
  have hanswer : perform sampleState (.answer 0 "new" none 7) = some sampleAnswered :=
    (some_get _).symm
  have hclear : perform sampleState (.clear "google__a" "gmail") = some sampleCleared :=
    (some_get _).symm
  have hlate : (oauth sampleFiles).Steps sampleCleared [.answer 0 "new" none 7] sampleLate :=
    .single (some_get _).symm
  obtain ⟨hwrites, hgone, hreturned⟩ := refresh_sound hrun
  refine ⟨?_, hgone _ _ _ (.inl hclear) _ _ hlate (by simp [Action.Stores]), ?_⟩
  · obtain ⟨r, h₁, h₂, begun, u, hsplit, -, -, -, -, hother, -⟩ :=
      hwrites 0 "new" none 7 _ hanswer (by decide)
    have hbegun : .access r.vaultKey r.service begun ∈ sampleActions := by simp [hsplit]
    simp only [sampleActions, List.mem_cons, Action.access.injEq, reduceCtorEq, or_false,
      List.not_mem_nil] at hbegun
    exact hother _ _ (by simp [hbegun.2.1])
  · obtain ⟨token, htoken, haccess, -⟩ := hreturned _ _ "google__a" "gmail" "new" hanswer (by decide)
    exact ⟨token, htoken, haccess⟩

end U2os.Server.Integrations.GoogleOauth
