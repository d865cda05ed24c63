import U2os.Lib.Run
import U2os.Mcp.Jobs.Send

/-!
# One email for one job

The ledger, the calls that send and what has become of each attempt outside.  A call stops at its
wait, and may end there with its process; the attempt it made goes on without it, until it is
delivered or is over.

The ledger keeps a second attempt away as long as it is told the truth: a row is freed only for an
attempt that is over, and a row that is still `proposing` is not forced.
-/

namespace U2os.Mcp.Jobs

open List Option

/-- An email handed to `propose` or to the mailer. -/
structure Attempt where
  jobId : String
  kind : EmailKind
  emailId : ℕ
  message : Message
  /-- It may still be delivered. -/
  live : Bool
  delivered : Bool
  /-- The ledger was told that nothing was or will be sent, or the owner forced past it. -/
  released : Bool
deriving DecidableEq

/-- Nothing was or will be sent, and the ledger or the owner knows. -/
def Attempt.Over (a : Attempt) : Prop := a.live = false ∧ a.delivered = false ∧ a.released = true

instance (a : Attempt) : Decidable a.Over := by unfold Attempt.Over; infer_instance

/-- A call of `proposeApplicationEmail` or `sendApplication`, with the attempt it waits for. -/
inductive SendCall where
  | idle
  | proposal (p : Proposal) (attempt : Option ℕ)
  | sending (p : Sending) (attempt : Option ℕ)

/-- The ledger, the calls and the attempts. -/
structure SendState where
  store : HuntStore
  calls : ℕ → SendCall
  attempts : List Attempt

/-- What can happen. -/
inductive SendLabel where
  /-- `proposeApplicationEmail`, up to the call of `propose`. -/
  | propose (c : ℕ) (job : Job) (candidateEmail : String) (minimumScore : ℕ) (tool : SendTool)
      (force : Bool) (score : Option Score) (draft : Option Draft) (now : ℕ)
  /-- `sendApplication`, up to the call of `mailer.send`. -/
  | send (c : ℕ) (jobId candidateEmail : String) (draft : Option Draft) (approved : Bool)
      (score : Option Score) (minimum : ℕ) (config : AutopilotConfig) (texts : List Check)
      (hasMailer : Bool) (now : ℕ)
  /-- `propose` or `mailer.send` is called. -/
  | invoke (c : ℕ)
  | proposed (c : ℕ) (outcome : Except String Outcome) (now : ℕ)
  | sent (c : ℕ) (thrown : Option String) (now : ℕ)
  /-- The process of a call dies. -/
  | crash (c : ℕ)
  /-- An attempt is delivered: by the mailer, or by the queue after an approval or a retry. -/
  | deliver (i : ℕ)
  /-- An attempt will not be delivered any more. -/
  | expire (i : ℕ)
  /-- A turn of `reconcileEmails`. -/
  | reconcile (email : EmailRow) (action : ActionView) (now : ℕ)
  | recordManualSend (job : Job) (candidateEmail : String) (toAddr : Option String)
      (draft : Option Draft) (now : ℕ)
  /-- Everything else that writes the jobs and the form applications. -/
  | others (jobs : Table Job Job.id) (applications : Numbered ApplicationRow ApplicationRow.id)

/-- A status that frees the row. -/
def EmailStatus.frees (st : EmailStatus) : Bool := st ∉ blockingEmails

/-- The status an answer of `propose` leaves. -/
def answerStatus (kind : EmailKind) : Except String Outcome → EmailStatus
  | .error _ => .failed
  | .ok o => proposedStatus kind o.status

/-- The status an end of `mailer.send` leaves. -/
def sentStatus : Option String → EmailStatus
  | none => .sent
  | some message => if saysUncertain message then .uncertain else .failed

/-- The status `reconcileEmails` leaves; none when it leaves the row alone. -/
def reconciledStatus (kind : EmailKind) (action : ActionView) : Option EmailStatus :=
  if action.status = "executed" then
    match kind with
    | .draft => some .drafted
    | .application => some .sent
  else if action.status = "rejected" ∨ action.status = "cancelled" ∨ action.status = "blocked" then
    some .rejected
  else if action.status = "failed" then
    some (if saysUncertain ((action.result.getD (.str "")).render) then .uncertain else .failed)
  else none

/-- The ledger was told that an attempt is over. -/
def Attempt.release (a : Attempt) : Attempt := { a with released := true }

/-- The attempts, when the ledger frees one. -/
def releaseAt (attempts : List Attempt) (i : ℕ) (st : EmailStatus) : List Attempt :=
  if st.frees then attempts.modify i Attempt.release else attempts

/-- The attempts, when the ledger frees a row. -/
def releaseRow (attempts : List Attempt) (emailId : ℕ) (st : EmailStatus) : List Attempt :=
  if st.frees then attempts.map fun a => if a.emailId = emailId then a.release else a
  else attempts

/-- The attempts, when a proposal is forced: who forces one has looked after those that did not
finish. -/
def releaseForced (attempts : List Attempt) (jobId : String) (kind : EmailKind) (force : Bool) :
    List Attempt :=
  if force = true ∧ kind = .application then
    attempts.map fun a => if a.jobId = jobId then a.release else a
  else attempts

def Attempt.new (jobId : String) (kind : EmailKind) (emailId : ℕ) (message : Message) : Attempt where
  jobId := jobId
  kind := kind
  emailId := emailId
  message := message
  live := true
  delivered := false
  released := false

/-- A call moves on. -/
def SendState.setCall (s : SendState) (c : ℕ) (call : SendCall) : SendState :=
  { s with calls := Function.update s.calls c call }

/-- A step of the machine. -/
def performSend (N : Normalizer) (s : SendState) : SendLabel → Option SendState
  | .propose c job candidateEmail minimumScore tool force score draft now =>
    match s.calls c,
        beginProposal N s.store job candidateEmail minimumScore tool force score draft now with
    | .idle, .proposing p store =>
      some ({ s with
        store := store
        attempts := releaseForced s.attempts job.id tool.kind force }.setCall c (.proposal p none))
    | .idle, .failed store =>
      some { s with
        store := store
        attempts := releaseForced s.attempts job.id tool.kind force }
    | _, _ => none
  | .send c jobId candidateEmail draft approved score minimum config texts hasMailer now =>
    match s.calls c, beginSend N s.store jobId candidateEmail draft approved score minimum config
        texts hasMailer now with
    | .idle, .sending p store => some ({ s with store := store }.setCall c (.sending p none))
    | _, _ => none
  | .invoke c =>
    match s.calls c with
    | .proposal p none =>
      some (({ s with attempts := s.attempts ++
          [Attempt.new p.jobId p.kind p.emailId p.message] } : SendState).setCall c
        (.proposal p (some s.attempts.length)))
    | .sending p none =>
      some (({ s with attempts := s.attempts ++
          [Attempt.new p.jobId .application p.emailId p.message] } : SendState).setCall c
        (.sending p (some s.attempts.length)))
    | _ => none
  | .proposed c outcome now =>
    match s.calls c with
    | .proposal p (some i) =>
      some ({ s with
        store := settleProposal s.store p outcome now
        attempts := releaseAt s.attempts i (answerStatus p.kind outcome) }.setCall c .idle)
    | _ => none
  | .sent c thrown now =>
    match s.calls c with
    | .sending p (some i) =>
      some ({ s with
        store := settleSend s.store p thrown now
        attempts := releaseAt s.attempts i (sentStatus thrown) }.setCall c .idle)
    | _ => none
  | .crash c => some (s.setCall c .idle)
  | .deliver i =>
    if (s.attempts[i]?).any Attempt.live then
      some { s with
        attempts := s.attempts.modify i fun a => { a with live := false, delivered := true } }
    else none
  | .expire i => some { s with attempts := s.attempts.modify i fun a => { a with live := false } }
  | .reconcile email action now =>
    if email ∈ s.store.emails.rows ∧ email.status = .proposed ∧ email.actionId.isSome then
      some { s with
        store := reconcileEmail s.store email action now
        attempts := (reconciledStatus email.kind action).elim s.attempts
          (releaseRow s.attempts email.id) }
    else none
  | .recordManualSend job candidateEmail toAddr draft now =>
    match Jobs.recordManualSend N s.store job candidateEmail toAddr draft now with
    | .ok store => some { s with store := store }
    | .error _ => none
  | .others jobs applications =>
    some { s with store := { s.store with jobs := jobs, applications := applications } }

/-- The ledger of one vault. -/
def sendMachine (N : Normalizer) : Machine SendState SendLabel :=
  .ofPerform { store := .empty, calls := fun _ => .idle, attempts := [] } (performSend N)

/-- Every job is emailed at most once, and of two attempts for one job, one is over. -/
structure SendState.AtMostOnce (s : SendState) : Prop where
  delivered : ∀ (i j : ℕ) (a b : Attempt), s.attempts[i]? = some a → s.attempts[j]? = some b →
    a.kind = .application → b.kind = .application → a.jobId = b.jobId → a.delivered = true →
      b.delivered = true → i = j
  exclusive : ∀ (i j : ℕ) (a b : Attempt), s.attempts[i]? = some a → s.attempts[j]? = some b →
    a.kind = .application → b.kind = .application → a.jobId = b.jobId → i ≠ j → a.Over ∨ b.Over

/-- What a call has claimed, and the attempt it waits for. -/
structure Claim where
  jobId : String
  kind : EmailKind
  emailId : ℕ
  attempt : Option ℕ

def SendCall.claim? : SendCall → Option Claim
  | .idle => none
  | .proposal p i => some ⟨p.jobId, p.kind, p.emailId, i⟩
  | .sending p i => some ⟨p.jobId, .application, p.emailId, i⟩

/-- An attempt that nothing came or will come of. -/
def Attempt.Dead (a : Attempt) : Prop := a.live = false ∧ a.delivered = false

/-- The answer of `propose` says that nothing went out or waits to. -/
def answerSaysOver : Except String Outcome → Prop
  | .error _ => True
  | .ok o => o.status ≠ "executed" ∧ o.status ≠ "pending"

/-- The end of `mailer.send` says that nothing went out. -/
def sentSaysOver : Option String → Prop
  | none => False
  | some message => saysUncertain message = false

/-- The action queue says that nothing went out or will. -/
def ActionView.SaysOver (action : ActionView) : Prop :=
  action.status = "rejected" ∨ action.status = "cancelled" ∨ action.status = "blocked" ∨
    action.status = "failed" ∧ saysUncertain ((action.result.getD (.str "")).render) = false

/-- The condition on a step: an attempt is only said to be over when nothing came or will come of
it, and a proposal is only forced beside rows that are still `proposing` when their calls are gone
and nothing came or will come of their attempts. -/
def Truthful (s : SendState) : SendLabel → Prop
  | .propose _ job _ _ tool force _ _ _ => tool.kind = .application → force = true →
      ∀ r ∈ s.store.listEmails job.id, r.kind = .application → r.status = .proposing →
        (∀ c k, (s.calls c).claim? = some k → k.emailId ≠ r.id) ∧
          ∀ a ∈ s.attempts, a.emailId = r.id → a.Dead
  | .proposed c outcome _ => ∀ p i, s.calls c = .proposal p (some i) → p.kind = .application →
      answerSaysOver outcome → ∀ a, s.attempts[i]? = some a → a.Dead
  | .sent c thrown _ => ∀ p i, s.calls c = .sending p (some i) → sentSaysOver thrown →
      ∀ a, s.attempts[i]? = some a → a.Dead
  | .reconcile email action _ => email.kind = .application → action.SaysOver →
      ∀ a ∈ s.attempts, a.emailId = email.id → a.Dead
  | _ => True

theorem saysOver_of_answerStatus {kind : EmailKind} {outcome : Except String Outcome}
    (hk : kind = .application) (h : (answerStatus kind outcome).frees = true) :
    answerSaysOver outcome := by
  subst hk
  cases outcome with
  | error e => trivial
  | ok o =>
    constructor
    · intro he
      simp [answerStatus, proposedStatus, he, EmailStatus.frees, blockingEmails] at h
    · intro hp
      simp [answerStatus, proposedStatus, hp, EmailStatus.frees, blockingEmails] at h

theorem saysOver_of_sentStatus {thrown : Option String} (h : (sentStatus thrown).frees = true) :
    sentSaysOver thrown := by
  cases thrown with
  | none => simp [sentStatus, EmailStatus.frees, blockingEmails] at h
  | some message =>
    by_contra hu
    simp only [sentSaysOver, Bool.not_eq_false] at hu
    simp [sentStatus, hu, EmailStatus.frees, blockingEmails] at h

theorem saysOver_of_reconciledStatus {kind : EmailKind} {action : ActionView} {st : EmailStatus}
    (hk : kind = .application) (hr : reconciledStatus kind action = some st)
    (h : st.frees = true) : action.SaysOver := by
  subst hk
  unfold reconciledStatus at hr
  split_ifs at hr with h1 h2 h3 h4
  · cases hr
    simp [EmailStatus.frees, blockingEmails] at h
  · exact h2.imp_right (Or.imp_right .inl)
  · cases hr
    simp [EmailStatus.frees, blockingEmails] at h
  · exact .inr (.inr (.inr ⟨h3, by simpa using h4⟩))

/-! ### What a write does to the ledger -/

/-- Rows keep what they are; their statuses are rewritten. -/
structure Restated (t t' : Numbered EmailRow EmailRow.id) (g : EmailRow → EmailStatus) : Prop where
  forth : ∀ r ∈ t, ∃ r' ∈ t', r'.id = r.id ∧ r'.jobId = r.jobId ∧ r'.kind = r.kind ∧
    r'.idempotencyKey = r.idempotencyKey ∧ r'.status = g r
  back : ∀ r' ∈ t', ∃ r ∈ t, r'.id = r.id ∧ r'.jobId = r.jobId ∧ r'.kind = r.kind ∧
    r'.idempotencyKey = r.idempotencyKey ∧ r'.status = g r

/-- One row gets a status. -/
def statusAt (id : ℕ) (st : EmailStatus) (r : EmailRow) : EmailStatus :=
  if r.id = id then st else r.status

namespace Restated

variable {t t' t'' : Numbered EmailRow EmailRow.id} {id : ℕ} {st st' : EmailStatus}

theorem refl (t : Numbered EmailRow EmailRow.id) : Restated t t EmailRow.status :=
  ⟨fun r hr => ⟨r, hr, rfl, rfl, rfl, rfl, rfl⟩, fun r hr => ⟨r, hr, rfl, rfl, rfl, rfl, rfl⟩⟩

theorem updateEmail (s : HuntStore) (id : ℕ) (st : EmailStatus) (actionId : Option String)
    (now : ℕ) : Restated s.emails (s.updateEmail id st actionId now).emails (statusAt id st) := by
  have hrow : ∀ r : EmailRow, let r' := if r.id = id then r.patched st actionId now else r
      r'.id = r.id ∧ r'.jobId = r.jobId ∧ r'.kind = r.kind ∧
        r'.idempotencyKey = r.idempotencyKey ∧ r'.status = statusAt id st r := by
    intro r
    by_cases h : r.id = id <;> simp [h, statusAt, EmailRow.patched]
  constructor
  · intro r hr
    exact ⟨_, HuntStore.mem_updateEmail.2 ⟨r, hr, rfl⟩, hrow r⟩
  · intro r' hr'
    obtain ⟨r, hr, rfl⟩ := HuntStore.mem_updateEmail.1 hr'
    exact ⟨r, hr, hrow r⟩

theorem trans (h : Restated t t' (statusAt id st)) (h' : Restated t' t'' (statusAt id st')) :
    Restated t t'' (statusAt id st') := by
  have hst : ∀ r r' : EmailRow, r'.id = r.id → r'.status = statusAt id st r →
      statusAt id st' r' = statusAt id st' r := by
    intro r r' hid hs
    by_cases h : r.id = id <;> simp [statusAt, hid, h, hs]
  constructor
  · intro r hr
    obtain ⟨r', hr', h1, h2, h3, h4, h5⟩ := h.forth r hr
    obtain ⟨r'', hr'', k1, k2, k3, k4, k5⟩ := h'.forth r' hr'
    exact ⟨r'', hr'', k1.trans h1, k2.trans h2, k3.trans h3, k4.trans h4,
      k5.trans (hst r r' h1 h5)⟩
  · intro r'' hr''
    obtain ⟨r', hr', k1, k2, k3, k4, k5⟩ := h'.back r'' hr''
    obtain ⟨r, hr, h1, h2, h3, h4, h5⟩ := h.back r' hr'
    exact ⟨r, hr, k1.trans h1, k2.trans h2, k3.trans h3, k4.trans h4, k5.trans (hst r r' h1 h5)⟩

end Restated

variable {s s' : HuntStore} {now : ℕ}

theorem restated_markContacted (s : HuntStore) (jobId : String) (id now : ℕ) :
    Restated s.emails (markContacted s jobId id now).emails (statusAt id .sent) :=
  Restated.updateEmail s id .sent none now

theorem restated_settleProposal (s : HuntStore) (p : Proposal) (o : Except String Outcome)
    (now : ℕ) : Restated s.emails (settleProposal s p o now).emails
      (statusAt p.emailId (answerStatus p.kind o)) := by
  cases o with
  | error e => exact Restated.updateEmail ..
  | ok o =>
    simp only [settleProposal, answerStatus]
    have hfirst := Restated.updateEmail s p.emailId (proposedStatus p.kind o.status) o.id now
    by_cases hs : proposedStatus p.kind o.status = .sent
    · rw [if_pos hs]
      have := hfirst.trans (restated_markContacted _ p.jobId p.emailId now)
      rwa [hs] at this ⊢
    · rw [if_neg hs]
      exact hfirst

theorem restated_settleSend (s : HuntStore) (p : Sending) (thrown : Option String) (now : ℕ) :
    Restated s.emails (settleSend s p thrown now).emails (statusAt p.emailId (sentStatus thrown)) := by
  cases thrown with
  | none => exact restated_markContacted ..
  | some message =>
    simp only [settleSend, sentStatus]
    by_cases h : saysUncertain message = true
    · rw [if_pos h, if_pos h]
      exact Restated.updateEmail ..
    · rw [if_neg h, if_neg h]
      exact Restated.updateEmail ..

theorem restated_reconcileEmail (s : HuntStore) (email : EmailRow) (action : ActionView) (now : ℕ) :
    match reconciledStatus email.kind action with
    | some st => Restated s.emails (reconcileEmail s email action now).emails (statusAt email.id st)
    | none => (reconcileEmail s email action now).emails = s.emails := by
  unfold reconciledStatus reconcileEmail
  by_cases h1 : action.status = "executed"
  · cases hk : email.kind with
    | draft =>
      rw [if_pos h1, if_pos ⟨h1, rfl⟩]
      exact Restated.updateEmail ..
    | application =>
      rw [if_pos h1, if_neg (by simp), if_pos h1]
      exact restated_markContacted ..
  · have h1' : ¬ (action.status = "executed" ∧ email.kind = .draft) := fun h => h1 h.1
    rw [if_neg h1, if_neg h1', if_neg h1]
    by_cases h2 : action.status = "rejected" ∨ action.status = "cancelled" ∨
        action.status = "blocked"
    · rw [if_pos h2, if_pos h2]
      exact Restated.updateEmail ..
    · rw [if_neg h2, if_neg h2]
      by_cases h3 : action.status = "failed"
      · rw [if_pos h3, if_pos h3]
        by_cases h4 : saysUncertain ((action.result.getD (.str "")).render) = true
        · rw [if_pos h4, if_pos h4]
          exact Restated.updateEmail ..
        · rw [if_neg h4, if_neg h4]
          exact Restated.updateEmail ..
      · rw [if_neg h3, if_neg h3]

/-- Attempts keep what they are, and those that are over stay over. -/
structure Carries (l l' : List Attempt) : Prop where
  forth : ∀ (j : ℕ) (a : Attempt), l[j]? = some a → ∃ a', l'[j]? = some a' ∧ a'.jobId = a.jobId ∧
    a'.kind = a.kind ∧ a'.emailId = a.emailId ∧ (a.Over → a'.Over)
  back : ∀ (j : ℕ) (a' : Attempt), l'[j]? = some a' → ∃ a, l[j]? = some a ∧ a'.jobId = a.jobId ∧
    a'.kind = a.kind ∧ a'.emailId = a.emailId ∧ (a.Over → a'.Over)

namespace Carries

variable {l : List Attempt} {i : ℕ}

theorem refl (l : List Attempt) : Carries l l :=
  ⟨fun _ a h => ⟨a, h, rfl, rfl, rfl, id⟩, fun _ a h => ⟨a, h, rfl, rfl, rfl, id⟩⟩

theorem of_getElem? {l' : List Attempt} {f : ℕ → Attempt → Attempt}
    (h : ∀ j : ℕ, l'[j]? = (l[j]?).map (f j))
    (hf : ∀ (j : ℕ) (a : Attempt), l[j]? = some a → (f j a).jobId = a.jobId ∧
      (f j a).kind = a.kind ∧ (f j a).emailId = a.emailId ∧ (a.Over → (f j a).Over)) :
    Carries l l' := by
  constructor
  · intro j a hj
    exact ⟨f j a, by rw [h, hj]; rfl, hf j a hj⟩
  · intro j a' hj
    rw [h] at hj
    obtain ⟨a, ha, rfl⟩ := map_eq_some_iff.1 hj
    exact ⟨a, ha, hf j a ha⟩

theorem modify {f : Attempt → Attempt} (hf : ∀ a, l[i]? = some a → (f a).jobId = a.jobId ∧
    (f a).kind = a.kind ∧ (f a).emailId = a.emailId ∧ (a.Over → (f a).Over)) :
    Carries l (l.modify i f) := by
  refine of_getElem? (f := fun j a => if i = j then f a else a) (fun j => ?_) fun j a hj => ?_
  · rw [getElem?_modify]
    rfl
  · by_cases hij : i = j
    · subst hij
      simpa using hf a hj
    · simp [hij]

theorem release (a : Attempt) : a.release.jobId = a.jobId ∧ a.release.kind = a.kind ∧
    a.release.emailId = a.emailId ∧ (a.Over → a.release.Over) :=
  ⟨rfl, rfl, rfl, fun h => ⟨h.1, h.2.1, rfl⟩⟩

theorem releaseAt (l : List Attempt) (i : ℕ) (st : EmailStatus) : Carries l (releaseAt l i st) := by
  unfold Jobs.releaseAt
  by_cases h : st.frees = true
  · rw [if_pos h]
    exact modify fun a _ => release a
  · rw [if_neg h]
    exact refl l

theorem releaseRow (l : List Attempt) (id : ℕ) (st : EmailStatus) :
    Carries l (releaseRow l id st) := by
  unfold Jobs.releaseRow
  by_cases h : st.frees = true
  · rw [if_pos h]
    refine of_getElem? (f := fun _ a => if a.emailId = id then a.release else a)
      (fun j => by rw [getElem?_map]) fun j a _ => ?_
    by_cases ha : a.emailId = id
    · simpa [ha] using release a
    · simp [ha]
  · rw [if_neg h]
    exact refl l

theorem releaseForced (l : List Attempt) (jobId : String) (kind : EmailKind) (force : Bool) :
    Carries l (releaseForced l jobId kind force) := by
  unfold Jobs.releaseForced
  by_cases h : force = true ∧ kind = .application
  · rw [if_pos h]
    refine of_getElem? (f := fun _ a => if a.jobId = jobId then a.release else a)
      (fun j => by rw [getElem?_map]) fun j a _ => ?_
    by_cases ha : a.jobId = jobId
    · simpa [ha] using release a
    · simp [ha]
  · rw [if_neg h]
    exact refl l

end Carries

/-! ### The invariant -/

/-- The row is one that still keeps an application away. -/
structure EmailRow.Blocks (r : EmailRow) : Prop where
  kind : r.kind = .application
  status : r.status ∈ blockingEmails

/-- The rows, the attempts and the calls. -/
structure SendState.Sound (s : SendState) : Prop where
  keys : ∀ r ∈ s.store.emails, r.idempotencyKey.jobId = r.jobId ∧ r.idempotencyKey.kind = r.kind
  /-- An attempt that is not over has a row that blocks. -/
  cover : ∀ a ∈ s.attempts, a.kind = .application → ¬ a.Over →
    ∃ r ∈ s.store.emails, r.id = a.emailId ∧ r.jobId = a.jobId ∧ r.Blocks
  exclusive : ∀ (i j : ℕ) (a b : Attempt), s.attempts[i]? = some a → s.attempts[j]? = some b →
    a.kind = .application → b.kind = .application → a.jobId = b.jobId → i ≠ j → a.Over ∨ b.Over
  /-- A call has a row; only the owner's own record moves it on. -/
  row : ∀ c k, (s.calls c).claim? = some k → ∃ r ∈ s.store.emails, r.id = k.emailId ∧
    r.jobId = k.jobId ∧ r.kind = k.kind ∧
      (k.kind = .application → r.status = .proposing ∨ r.status = .sent)
  /-- Beside a call every other attempt for its job is over. -/
  others : ∀ c k, (s.calls c).claim? = some k → k.kind = .application → ∀ (i : ℕ) (a : Attempt),
    s.attempts[i]? = some a → a.kind = .application → a.jobId = k.jobId →
      a.Over ∨ k.attempt = some i
  own : ∀ c k i, (s.calls c).claim? = some k → k.attempt = some i → ∃ a, s.attempts[i]? = some a ∧
    a.jobId = k.jobId ∧ a.kind = k.kind ∧ a.emailId = k.emailId
  alone : ∀ c c' k k', (s.calls c).claim? = some k → (s.calls c').claim? = some k' →
    k.kind = .application → k'.kind = .application → k.jobId = k'.jobId → c = c'

namespace SendState.Sound

variable {N : Normalizer} {s : SendState}

theorem init : (sendMachine N).init.Sound where
  keys := by simp [sendMachine, Machine.ofPerform, HuntStore.empty]
  cover := by simp [sendMachine, Machine.ofPerform]
  exclusive := by simp [sendMachine, Machine.ofPerform]
  row := by simp [sendMachine, Machine.ofPerform, SendCall.claim?]
  others := by simp [sendMachine, Machine.ofPerform]
  own := by simp [sendMachine, Machine.ofPerform, SendCall.claim?]
  alone := by simp [sendMachine, Machine.ofPerform, SendCall.claim?]

theorem atMostOnce (h : s.Sound) : s.AtMostOnce where
  exclusive := h.exclusive
  delivered i j a b ha hb hka hkb hj hda hdb := by
    by_contra hne
    rcases h.exclusive i j a b ha hb hka hkb hj hne with ho | ho
    · rw [ho.2.1] at hda
      cases hda
    · rw [ho.2.1] at hdb
      cases hdb

/-- The rows of emails may be restated, as long as the calls keep their claims. -/
theorem restate (h : s.Sound) {store : HuntStore} {calls : ℕ → SendCall} {attempts : List Attempt}
    {g : EmailRow → EmailStatus} (hg : Restated s.store.emails store.emails g)
    (hcar : Carries s.attempts attempts)
    (hcalls : ∀ c k, (calls c).claim? = some k → (s.calls c).claim? = some k)
    (hfree : ∀ r ∈ s.store.emails, r.Blocks → g r ∉ blockingEmails → ∀ a ∈ attempts,
      a.kind = .application → a.jobId = r.jobId → a.emailId = r.id → a.Over)
    (hrow : ∀ c k, (calls c).claim? = some k → k.kind = .application → ∀ r ∈ s.store.emails,
      r.id = k.emailId → r.kind = .application → r.status = .proposing ∨ r.status = .sent →
        g r = .proposing ∨ g r = .sent) :
    Sound { store := store, calls := calls, attempts := attempts } := by
  refine ⟨?_, ?_, ?_, ?_, ?_, ?_, ?_⟩
  · intro r' hr'
    obtain ⟨r, hr, _, hjob, hkind, hkey, _⟩ := hg.back r' hr'
    rw [hkey, hjob, hkind]
    exact h.keys r hr
  · intro a' ha' hk' ho'
    obtain ⟨j, hj⟩ := mem_iff_getElem?.1 ha'
    obtain ⟨a, ha, hjob, hkind, hid, hover⟩ := hcar.back j a' hj
    obtain ⟨r, hr, hrid, hrjob, hb⟩ := h.cover a (mem_of_getElem? ha) (hkind ▸ hk')
      (mt hover ho')
    obtain ⟨r', hr', h1, h2, h3, _, h5⟩ := hg.forth r hr
    refine ⟨r', hr', by rw [h1, hrid, hid], by rw [h2, hrjob, hjob], h3.trans hb.kind, ?_⟩
    by_contra hst
    rw [h5] at hst
    exact ho' (hfree r hr hb hst a' ha' hk' (by rw [hjob, hrjob]) (by rw [hid, hrid]))
  · intro i j a' b' hi hj hka hkb hjob hne
    obtain ⟨a, ha, haj, hak, _, hao⟩ := hcar.back i a' hi
    obtain ⟨b, hb, hbj, hbk, _, hbo⟩ := hcar.back j b' hj
    exact (h.exclusive i j a b ha hb (hak ▸ hka) (hbk ▸ hkb) (by rw [← haj, ← hbj, hjob]) hne).imp
      hao hbo
  · intro c k hk
    obtain ⟨r, hr, hrid, hrjob, hrkind, hst⟩ := h.row c k (hcalls c k hk)
    obtain ⟨r', hr', h1, h2, h3, _, h5⟩ := hg.forth r hr
    refine ⟨r', hr', h1.trans hrid, h2.trans hrjob, h3.trans hrkind, fun happ => ?_⟩
    rw [h5]
    exact hrow c k hk happ r hr hrid (hrkind.trans happ) (hst happ)
  · intro c k hk happ i a' hi hka hjob
    obtain ⟨a, ha, haj, hak, _, hao⟩ := hcar.back i a' hi
    exact (h.others c k (hcalls c k hk) happ i a ha (hak ▸ hka) (by rw [← haj, hjob])).imp_left hao
  · intro c k i hk hi
    obtain ⟨a, ha, h1, h2, h3⟩ := h.own c k i (hcalls c k hk) hi
    obtain ⟨a', ha', k1, k2, k3, _⟩ := hcar.forth i a ha
    exact ⟨a', ha', k1.trans h1, k2.trans h2, k3.trans h3⟩
  · intro c c' k k' hk hk'
    exact h.alone c c' k k' (hcalls c k hk) (hcalls c' k' hk')

theorem push (h : s.Sound) {mk : ℕ → EmailRow} (hid : ∀ n, (mk n).id = n)
    (hkey : ∀ n, (mk n).idempotencyKey.jobId = (mk n).jobId ∧
      (mk n).idempotencyKey.kind = (mk n).kind) :
    Sound { s with store := { s.store with emails := s.store.emails.push mk hid } } := by
  have hold : ∀ r ∈ s.store.emails, r ∈ s.store.emails.push mk hid := fun r hr =>
    (Numbered.mem_push hid).2 (.inl hr)
  refine ⟨?_, ?_, h.exclusive, ?_, h.others, h.own, h.alone⟩
  · intro r hr
    rcases (Numbered.mem_push hid).1 hr with hr | rfl
    · exact h.keys r hr
    · exact hkey _
  · intro a ha hk ho
    obtain ⟨r, hr, hrest⟩ := h.cover a ha hk ho
    exact ⟨r, hold r hr, hrest⟩
  · intro c k hk
    obtain ⟨r, hr, hrest⟩ := h.row c k hk
    exact ⟨r, hold r hr, hrest⟩

theorem clear (h : s.Sound) {jobId : String}
    (hclear : ∀ r ∈ s.store.emails, r.jobId = jobId → ¬ r.Blocks) :
    (∀ a ∈ s.attempts, a.kind = .application → a.jobId = jobId → a.Over) ∧
    ∀ c k, (s.calls c).claim? = some k → k.kind = .application → k.jobId ≠ jobId := by
  constructor
  · intro a ha hk hj
    by_contra ho
    obtain ⟨r, hr, _, hrj, hb⟩ := h.cover a ha hk ho
    exact hclear r hr (hrj.trans hj) hb
  · intro c k hk happ hj
    obtain ⟨r, hr, _, hrj, hrk, hst⟩ := h.row c k hk
    refine hclear r hr (hrj.trans hj) ⟨hrk.trans happ, ?_⟩
    rcases hst happ with hs | hs <;> simp [hs, blockingEmails]

theorem row_eq (h : s.Sound) {c : ℕ} {k : Claim} (hk : (s.calls c).claim? = some k) {r : EmailRow}
    (hr : r ∈ s.store.emails) (hid : r.id = k.emailId) : r.jobId = k.jobId ∧ r.kind = k.kind := by
  obtain ⟨r', hr', hid', hj, hkind, _⟩ := h.row c k hk
  obtain rfl := Numbered.eq_of_key hr hr' (hid.trans hid'.symm)
  exact ⟨hj, hkind⟩

theorem claimRow (h : s.Sound) {jobId : String} {kind : EmailKind} {message : Message}
    {key : EmailKey} {emailId now : ℕ} {store : HuntStore}
    (hc : Jobs.claimRow s.store jobId kind message key now = some (emailId, store))
    (hkey : key.jobId = jobId ∧ key.kind = kind) :
    Sound { s with store := store } ∧ ∃ r ∈ store.emails, r.id = emailId ∧ r.jobId = jobId ∧
      r.kind = kind ∧ r.status = .proposing := by
  rcases claimRow_eq hc with ⟨r, hr, hrk, hid, rfl⟩ | ⟨rfl, rfl⟩
  · have hg := Restated.updateEmail s.store emailId .proposing none now
    refine ⟨h.restate hg (Carries.refl _) (fun _ _ => id) ?_ ?_, ?_⟩
    · intro r _ hb hst
      refine absurd ?_ hst
      unfold statusAt
      split_ifs
      · decide
      · exact hb.status
    · intro c k _ _ r _ _ _ hst
      unfold statusAt
      split_ifs
      · exact .inl rfl
      · exact hst
    · obtain ⟨r', hr', h1, h2, h3, _, h5⟩ := hg.forth r hr
      obtain ⟨hj, hkind⟩ := h.keys r hr
      rw [hrk] at hj hkind
      exact ⟨r', hr', h1.trans hid, h2.trans (hj.symm.trans hkey.1),
        h3.trans (hkind.symm.trans hkey.2), by rw [h5, statusAt, if_pos hid]⟩
  · have hid : ∀ n, (EmailRow.new jobId kind message .proposing key now n).id = n := fun _ => rfl
    exact ⟨h.push hid fun _ => hkey, EmailRow.new jobId kind message .proposing key now s.store.emails.next,
      Numbered.mem_push_self s.store.emails (EmailRow.new jobId kind message .proposing key now)
        fun _ => rfl, rfl, rfl, rfl, rfl⟩

/-- The claims of the calls where one call has another claim. -/
theorem claim?_update {calls : ℕ → SendCall} {c c' : ℕ} {call : SendCall} {k k' : Claim}
    (hk : call.claim? = some k) (h : (Function.update calls c call c').claim? = some k') :
    c' = c ∧ k' = k ∨ c' ≠ c ∧ (calls c').claim? = some k' := by
  by_cases hc : c' = c
  · subst hc
    rw [Function.update_self, hk, Option.some.injEq] at h
    exact .inl ⟨rfl, h.symm⟩
  · rw [Function.update_of_ne hc] at h
    exact .inr ⟨hc, h⟩

theorem claim (h : s.Sound) {c : ℕ} {call : SendCall} {k : Claim} (hk : call.claim? = some k)
    (hn : k.attempt = none)
    (hrow : ∃ r ∈ s.store.emails, r.id = k.emailId ∧ r.jobId = k.jobId ∧ r.kind = k.kind ∧
      r.status = .proposing)
    (hover : k.kind = .application → ∀ a ∈ s.attempts, a.kind = .application →
      a.jobId = k.jobId → a.Over)
    (halone : k.kind = .application → ∀ c' k', (s.calls c').claim? = some k' →
      k'.kind = .application → k'.jobId ≠ k.jobId) : (s.setCall c call).Sound := by
  refine ⟨h.keys, h.cover, h.exclusive, ?_, ?_, ?_, ?_⟩
  · intro c' k' hk'
    rcases claim?_update hk hk' with ⟨_, rfl⟩ | ⟨_, hk'⟩
    · obtain ⟨r, hr, h1, h2, h3, h4⟩ := hrow
      exact ⟨r, hr, h1, h2, h3, fun _ => .inl h4⟩
    · exact h.row c' k' hk'
  · intro c' k' hk' happ i a hi hka hj
    rcases claim?_update hk hk' with ⟨_, rfl⟩ | ⟨_, hk'⟩
    · exact .inl (hover happ a (mem_of_getElem? hi) hka hj)
    · exact h.others c' k' hk' happ i a hi hka hj
  · intro c' k' i hk' hi
    rcases claim?_update hk hk' with ⟨_, rfl⟩ | ⟨_, hk'⟩
    · rw [hn] at hi
      cases hi
    · exact h.own c' k' i hk' hi
  · intro c₁ c₂ k₁ k₂ hk₁ hk₂ happ₁ happ₂ hj
    rcases claim?_update hk hk₁ with ⟨rfl, rfl⟩ | ⟨_, hk₁'⟩
    · rcases claim?_update hk hk₂ with ⟨rfl, _⟩ | ⟨_, hk₂'⟩
      · rfl
      · exact absurd hj.symm (halone happ₁ c₂ k₂ hk₂' happ₂)
    · rcases claim?_update hk hk₂ with ⟨rfl, rfl⟩ | ⟨_, hk₂'⟩
      · exact absurd hj (halone happ₂ c₁ k₁ hk₁' happ₁)
      · exact h.alone c₁ c₂ k₁ k₂ hk₁' hk₂' happ₁ happ₂ hj

/-- A call hands its email to the queue once, under its claim. -/
theorem invoke (h : s.Sound) {c : ℕ} {call : SendCall} {k : Claim} {message : Message}
    (hk : (s.calls c).claim? = some k) (hn : k.attempt = none)
    (hcall : call.claim? = some { k with attempt := some s.attempts.length }) :
    (({ s with attempts := s.attempts ++
      [Attempt.new k.jobId k.kind k.emailId message] } : SendState).setCall c call).Sound := by
  set new := Attempt.new k.jobId k.kind k.emailId message with hnew
  have hget : ∀ (i : ℕ) (a : Attempt), (s.attempts ++ [new])[i]? = some a →
      s.attempts[i]? = some a ∨ i = s.attempts.length ∧ a = new := by
    intro i a hi
    rcases lt_or_ge i s.attempts.length with hlt | hge
    · rw [getElem?_append_left hlt] at hi
      exact .inl hi
    · rw [getElem?_append_right hge, getElem?_singleton] at hi
      simp only [ite_none_right_eq_some, Option.some.injEq] at hi
      exact .inr ⟨by omega, hi.2.symm⟩
  have hover : k.kind = .application → ∀ (i : ℕ) (a : Attempt), s.attempts[i]? = some a →
      a.kind = .application → a.jobId = k.jobId → a.Over := by
    intro happ i a hi hka hj
    refine (h.others c k hk happ i a hi hka hj).resolve_right ?_
    rw [hn]
    exact nofun
  refine ⟨h.keys, ?_, ?_, ?_, ?_, ?_, ?_⟩
  · intro a ha hka ho
    rcases List.mem_append.1 ha with ha | ha
    · exact h.cover a ha hka ho
    · obtain rfl := mem_singleton.1 ha
      obtain ⟨r, hr, h1, h2, h3, h4⟩ := h.row c k hk
      refine ⟨r, hr, h1, h2, h3.trans hka, ?_⟩
      rcases h4 hka with hs | hs <;> simp [hs, blockingEmails]
  · intro i j a b hi hj hka hkb hjob hne
    rcases hget i a hi with hi' | ⟨hi', rfl⟩
    · rcases hget j b hj with hj' | ⟨_, rfl⟩
      · exact h.exclusive i j a b hi' hj' hka hkb hjob hne
      · exact .inl (hover hkb i a hi' hka hjob)
    · rcases hget j b hj with hj' | ⟨hj', _⟩
      · exact .inr (hover hka j b hj' hkb hjob.symm)
      · exact absurd (hi'.trans hj'.symm) hne
  · intro c' k' hk'
    rcases claim?_update hcall hk' with ⟨rfl, rfl⟩ | ⟨_, hk'⟩
    · exact h.row c' k hk
    · exact h.row c' k' hk'
  · intro c' k' hk' happ i a hi hka hj
    rcases claim?_update hcall hk' with ⟨rfl, rfl⟩ | ⟨hc, hk'⟩
    · rcases hget i a hi with hi | ⟨rfl, _⟩
      · exact .inl (hover happ i a hi hka hj)
      · exact .inr rfl
    · rcases hget i a hi with hi | ⟨_, rfl⟩
      · exact h.others c' k' hk' happ i a hi hka hj
      · exact absurd (h.alone c' c k' k hk' hk happ hka hj.symm) hc
  · intro c' k' i hk' hi
    rcases claim?_update hcall hk' with ⟨rfl, rfl⟩ | ⟨_, hk'⟩
    · obtain rfl : s.attempts.length = i := by simpa using hi
      exact ⟨new, getElem?_concat_length .., rfl, rfl, rfl⟩
    · obtain ⟨a, ha, hrest⟩ := h.own c' k' i hk' hi
      refine ⟨a, ?_, hrest⟩
      obtain ⟨hlt, _⟩ := List.getElem?_eq_some_iff.1 ha
      exact (getElem?_append_left hlt).trans ha
  · intro c₁ c₂ k₁ k₂ hk₁ hk₂ happ₁ happ₂ hj
    rcases claim?_update hcall hk₁ with ⟨rfl, rfl⟩ | ⟨_, hk₁'⟩
    · rcases claim?_update hcall hk₂ with ⟨rfl, _⟩ | ⟨_, hk₂'⟩
      · rfl
      · exact h.alone c₁ c₂ k k₂ hk hk₂' happ₁ happ₂ hj
    · rcases claim?_update hcall hk₂ with ⟨rfl, rfl⟩ | ⟨_, hk₂'⟩
      · exact h.alone c₁ c₂ k₁ k hk₁' hk happ₁ happ₂ hj
      · exact h.alone c₁ c₂ k₁ k₂ hk₁' hk₂' happ₁ happ₂ hj

theorem settle (h : s.Sound) {c i : ℕ} {k : Claim} {st : EmailStatus} {store : HuntStore}
    (hk : (s.calls c).claim? = some k) (hi : k.attempt = some i)
    (hg : Restated s.store.emails store.emails (statusAt k.emailId st))
    (hdead : k.kind = .application → st.frees = true → ∀ a, s.attempts[i]? = some a → a.Dead) :
    (({ s with store := store, attempts := releaseAt s.attempts i st } : SendState).setCall c
      .idle).Sound := by
  have hcalls : ∀ c' k', (Function.update s.calls c SendCall.idle c').claim? = some k' →
      c' ≠ c ∧ (s.calls c').claim? = some k' := by
    intro c' k' hk'
    by_cases hc : c' = c
    · subst hc
      rw [Function.update_self] at hk'
      cases hk'
    · rw [Function.update_of_ne hc] at hk'
      exact ⟨hc, hk'⟩
  refine h.restate hg (Carries.releaseAt ..) (fun c' k' hk' => (hcalls c' k' hk').2) ?_ ?_
  · intro r hr hb hst a' ha' hka' hj' _
    have hid : r.id = k.emailId := by
      by_contra hne
      rw [statusAt, if_neg hne] at hst
      exact hst hb.status
    rw [statusAt, if_pos hid] at hst
    have hfrees : st.frees = true := by simpa [EmailStatus.frees] using hst
    obtain ⟨hrj, hrk⟩ := h.row_eq hk hr hid
    have happ : k.kind = .application := hrk.symm.trans hb.kind
    obtain ⟨j, hj⟩ := mem_iff_getElem?.1 ha'
    obtain ⟨a, ha, haj, hak, _, hao⟩ := (Carries.releaseAt s.attempts i st).back j a' hj
    rcases h.others c k hk happ j a ha (hak ▸ hka') (by rw [← haj, hj', hrj]) with ho | ho
    · exact hao ho
    · -- Its own attempt is released, and nothing comes of it.
      obtain rfl : i = j := by simpa [hi] using ho
      rw [releaseAt, if_pos hfrees, getElem?_modify, ha] at hj
      obtain rfl : a.release = a' := by simpa using hj
      obtain ⟨hlive, hdel⟩ := hdead happ hfrees a ha
      exact ⟨hlive, hdel, rfl⟩
  · intro c' k' hk' happ' r hr hid hrk hst
    obtain ⟨hne, hk'⟩ := hcalls c' k' hk'
    by_cases hid' : r.id = k.emailId
    · obtain ⟨hrj, hrk'⟩ := h.row_eq hk hr hid'
      obtain ⟨hrj', _⟩ := h.row_eq hk' hr hid
      exact absurd (h.alone c' c k' k hk' hk happ' (hrk'.symm.trans hrk) (hrj'.symm.trans hrj)) hne
    · rwa [statusAt, if_neg hid']

theorem reconcile (h : s.Sound) {email : EmailRow} {st : EmailStatus} {store : HuntStore}
    (hr : email ∈ s.store.emails) (hs : email.status = .proposed)
    (hg : Restated s.store.emails store.emails (statusAt email.id st))
    (hdead : email.kind = .application → st.frees = true → ∀ a ∈ s.attempts,
      a.emailId = email.id → a.Dead) :
    Sound { s with store := store, attempts := releaseRow s.attempts email.id st } := by
  refine h.restate hg (Carries.releaseRow ..) (fun _ _ => id) ?_ ?_
  · intro r hr' hb hst a' ha' _ _ hid'
    have hid : r.id = email.id := by
      by_contra hne
      rw [statusAt, if_neg hne] at hst
      exact hst hb.status
    rw [statusAt, if_pos hid] at hst
    obtain rfl := Numbered.eq_of_key hr' hr hid
    have hfrees : st.frees = true := by simpa [EmailStatus.frees] using hst
    rw [releaseRow, if_pos hfrees] at ha'
    obtain ⟨a, ha, rfl⟩ := List.mem_map.1 ha'
    by_cases hae : a.emailId = r.id
    · obtain ⟨hlive, hdel⟩ := hdead hb.kind hfrees a ha hae
      rw [if_pos hae]
      exact ⟨hlive, hdel, rfl⟩
    · rw [if_neg hae] at hid'
      exact absurd hid' hae
  · intro c k _ _ r hr' _ _ hst
    have hne : r.id ≠ email.id := by
      intro hid
      obtain rfl := Numbered.eq_of_key hr' hr hid
      rw [hs] at hst
      rcases hst with hst | hst <;> cases hst
    rwa [statusAt, if_neg hne]

theorem attempts (h : s.Sound) {store : HuntStore} {calls : ℕ → SendCall} {attempts : List Attempt}
    (hstore : store.emails = s.store.emails) (hcar : Carries s.attempts attempts)
    (hcalls : ∀ c k, (calls c).claim? = some k → (s.calls c).claim? = some k) :
    Sound { store := store, calls := calls, attempts := attempts } := by
  have hg : Restated s.store.emails store.emails EmailRow.status := by
    rw [hstore]
    exact Restated.refl _
  exact h.restate hg hcar hcalls (fun r _ hb hst => absurd hb.status hst) fun _ _ _ _ _ _ _ _ => id

theorem write (h : s.Sound) {r : EmailRow} (hr : r ∈ s.store.emails) (st : EmailStatus) (now : ℕ)
    (hclear : r.kind = .application →
      (∀ a ∈ s.attempts, a.kind = .application → a.jobId = r.jobId → a.Over) ∧
      ∀ c k, (s.calls c).claim? = some k → k.kind = .application → k.jobId ≠ r.jobId) :
    Sound { s with store := s.store.updateEmail r.id st none now } := by
  refine h.restate (Restated.updateEmail ..) (Carries.refl _) (fun _ _ => id) ?_ ?_
  · intro q hq hb hst a ha hka hj _
    have hid : q.id = r.id := by
      by_contra hne
      rw [statusAt, if_neg hne] at hst
      exact hst hb.status
    obtain rfl := Numbered.eq_of_key hq hr hid
    exact (hclear hb.kind).1 a ha hka hj
  · intro c k hk happ q hq hid hqk hst
    by_cases hqr : q.id = r.id
    · obtain rfl := Numbered.eq_of_key hq hr hqr
      exact absurd (h.row_eq hk hq hid).1.symm ((hclear hqk).2 c k hk happ)
    · rwa [statusAt, if_neg hqr]

theorem markSent (h : s.Sound) {store : HuntStore} {emailId : ℕ}
    (hg : Restated s.store.emails store.emails (statusAt emailId .sent)) :
    Sound { s with store := store } := by
  refine h.restate hg (Carries.refl _) (fun _ _ => id) ?_ ?_
  · intro r _ hb hst
    refine absurd ?_ hst
    unfold statusAt
    split_ifs
    · decide
    · exact hb.status
  · intro c k _ _ r _ _ _ hst
    unfold statusAt
    split_ifs
    · exact .inr rfl
    · exact hst

/-- A proposal claims a row that no other call has, and is refused otherwise. -/
theorem propose (h : s.Sound) {c : ℕ} {job : Job} {candidateEmail : String} {minimumScore : ℕ}
    {tool : SendTool} {force : Bool} {score : Option Score} {draft : Option Draft} {now : ℕ}
    {t : SendState}
    (ht : Truthful s (.propose c job candidateEmail minimumScore tool force score draft now))
    (hst : performSend N s
      (.propose c job candidateEmail minimumScore tool force score draft now) = some t) :
    t.Sound := by
  set attempts := releaseForced s.attempts job.id tool.kind force with hattempts
  have h₀ : Sound { s with attempts := attempts } :=
    h.attempts rfl (Carries.releaseForced ..) fun _ _ => id
  -- What blocks is forced, and what is forced is over.
  have hbegin : (∀ error,
      beginProposal N s.store job candidateEmail minimumScore tool force score draft now ≠
        .refused error) → tool.kind = .application →
      (∀ a ∈ attempts, a.kind = .application → a.jobId = job.id → a.Over) ∧
        ∀ c k, (s.calls c).claim? = some k → k.kind = .application → k.jobId ≠ job.id := by
    intro hb happ
    obtain ⟨hblock, _⟩ := claimed_of_beginProposal hb
    have hgone : ∀ r ∈ s.store.emails, r.jobId = job.id → r.Blocks → force = true ∧
        (∀ c k, (s.calls c).claim? = some k → k.emailId ≠ r.id) ∧
          ∀ a ∈ s.attempts, a.emailId = r.id → a.Dead := by
      intro r hr hj hbl
      have hmem := HuntStore.mem_listEmails.2 ⟨hr, hj⟩
      obtain ⟨hforce, hp⟩ := hblock r
        (mem_filter.2 ⟨hmem, by simp [happ, hbl.kind, hbl.status]⟩)
      exact ⟨hforce, ht happ hforce r hmem hbl.kind hp⟩
    constructor
    · intro a ha hka hj
      by_contra ho
      obtain ⟨r, hr, hid, hrj, hbl⟩ := h₀.cover a ha hka ho
      obtain ⟨hforce, _, hdead⟩ := hgone r hr (hrj.trans hj) hbl
      rw [hattempts, releaseForced, if_pos ⟨hforce, happ⟩] at ha
      obtain ⟨a, ha', rfl⟩ := List.mem_map.1 ha
      by_cases hja : a.jobId = job.id
      · rw [if_pos hja] at ho hid
        obtain ⟨hlive, hdel⟩ := hdead a ha' hid.symm
        exact ho ⟨hlive, hdel, rfl⟩
      · rw [if_neg hja] at hj
        exact hja hj
    · intro c k hk hkapp hj
      obtain ⟨r, hr, hid, hrj, hrk, hs⟩ := h.row c k hk
      have hbl : r.Blocks := by
        refine ⟨hrk.trans hkapp, ?_⟩
        rcases hs hkapp with hs | hs <;> simp [hs, blockingEmails]
      exact (hgone r hr (hrj.trans hj) hbl).2.1 c k hk hid.symm
  simp only [performSend] at hst
  split at hst
  · rename_i p store hidle hb
    cases hst
    have hnr : ∀ error, beginProposal N s.store job candidateEmail minimumScore tool force score
        draft now ≠ .refused error := by simp [hb]
    obtain ⟨_, d, emailId, s₁, _, hc, hp, _⟩ := claimed_of_beginProposal hnr
    obtain ⟨rfl, hpj, hpe, hpk, _⟩ := hp _ _ hb
    obtain ⟨h₁, hrow⟩ := h₀.claimRow hc ⟨rfl, rfl⟩
    have hclear := fun happ : p.kind = .application => hbegin hnr (hpk.symm.trans happ)
    refine h₁.claim (k := ⟨p.jobId, p.kind, p.emailId, none⟩) rfl rfl ?_ ?_ ?_
    · simpa only [hpj, hpe, hpk] using hrow
    · exact fun happ => by simpa only [hpj] using (hclear happ).1
    · exact fun happ => by simpa only [hpj] using (hclear happ).2
  · -- Inside the `try` the row is claimed, and given back at once.
    rename_i store hidle hb
    cases hst
    have hnr : ∀ error, beginProposal N s.store job candidateEmail minimumScore tool force score
        draft now ≠ .refused error := by simp [hb]
    obtain ⟨_, d, emailId, s₁, _, hc, _, hf⟩ := claimed_of_beginProposal hnr
    obtain rfl := hf _ hb
    obtain ⟨h₁, r, hr, rfl, hrj, hrk, _⟩ := h₀.claimRow hc ⟨rfl, rfl⟩
    refine h₁.write hr .failed now fun happ => ?_
    simpa only [hrj] using hbegin hnr (hrk.symm.trans happ)
  · cases hst

theorem send (h : s.Sound) {c : ℕ} {jobId candidateEmail : String} {draft : Option Draft}
    {approved : Bool} {score : Option Score} {minimum : ℕ} {config : AutopilotConfig}
    {texts : List Check} {hasMailer : Bool} {now : ℕ} {t : SendState}
    (hst : performSend N s (.send c jobId candidateEmail draft approved score minimum config texts
      hasMailer now) = some t) : t.Sound := by
  simp only [performSend] at hst
  split at hst
  · rename_i p store hidle hb
    cases hst
    obtain ⟨job, d, _, _, hprep, hc, hpj, hpm⟩ := beginSend_eq hb
    obtain ⟨_, _, hf⟩ := prepare_eq_ok hprep
    have hnone := (not_already_contacted_of_passes hf).1
    have hclear := h.clear fun r hr (hj : r.jobId = job.id) hbl => by
      have : r ∈ sentEmails s.store job.id := mem_filter.2
        ⟨HuntStore.mem_listEmails.2 ⟨hr, hj⟩, by simp [hbl.kind, hbl.status]⟩
      rw [hnone] at this
      cases this
    obtain ⟨h₁, hrow⟩ := h.claimRow hc ⟨rfl, rfl⟩
    refine h₁.claim (k := ⟨p.jobId, .application, p.emailId, none⟩) rfl rfl ?_ ?_ ?_
    · simpa only [hpj] using hrow
    · exact fun _ => by simpa only [hpj] using hclear.1
    · exact fun _ => by simpa only [hpj] using hclear.2
  · cases hst

theorem recordManualSend (h : s.Sound) {job : Job} {candidateEmail : String}
    {toAddr : Option String} {draft : Option Draft} {now : ℕ} {store : HuntStore}
    (hr : Jobs.recordManualSend N s.store job candidateEmail toAddr draft now = .ok store) :
    Sound { s with store := store } := by
  unfold Jobs.recordManualSend at hr
  cases hto : (toAddr <|> job.contactEmails.head?) with
  | none => simp [hto] at hr
  | some recipient =>
    simp only [hto] at hr
    by_cases hsent : ((s.store.listEmails job.id).any fun r =>
        r.kind = .application && r.status = .sent) = true
    · rw [if_pos hsent] at hr
      cases hr
    rw [if_neg hsent] at hr
    cases hf : s.store.findEmailByKey (idempotencyKey N candidateEmail job recipient
        .application) with
    | some previous =>
      simp only [hf] at hr
      cases hr
      exact h.markSent ((Restated.updateEmail ..).trans (restated_markContacted ..))
    | none =>
      simp only [hf] at hr
      split at hr
      · rename_i id s₁ hadd
        cases hr
        obtain ⟨rfl, rfl⟩ := HuntStore.addEmail_eq hadd
        exact (h.push (fun _ => rfl) fun _ => ⟨rfl, rfl⟩).markSent (restated_markContacted ..)
      · cases hr

/-- Every truthful step keeps the rows, the claims and the attempts in line. -/
theorem step (h : s.Sound) {l : SendLabel} {t : SendState} (ht : Truthful s l)
    (hst : performSend N s l = some t) : t.Sound := by
  cases l with
  | propose => exact h.propose ht hst
  | send => exact h.send hst
  | invoke c =>
    simp only [performSend] at hst
    split at hst
    · rename_i p hc
      cases hst
      exact h.invoke (k := ⟨p.jobId, p.kind, p.emailId, none⟩) (by rw [hc]; rfl) rfl rfl
    · rename_i p hc
      cases hst
      exact h.invoke (k := ⟨p.jobId, .application, p.emailId, none⟩) (by rw [hc]; rfl) rfl rfl
    · cases hst
  | proposed c outcome now =>
    simp only [performSend] at hst
    split at hst
    · rename_i p i hc
      cases hst
      exact h.settle (k := ⟨p.jobId, p.kind, p.emailId, some i⟩) (by rw [hc]; rfl) rfl
        (restated_settleProposal ..) fun happ hfrees =>
          ht p i hc happ (saysOver_of_answerStatus happ hfrees)
    · cases hst
  | sent c thrown now =>
    simp only [performSend] at hst
    split at hst
    · rename_i p i hc
      cases hst
      exact h.settle (k := ⟨p.jobId, .application, p.emailId, some i⟩) (by rw [hc]; rfl) rfl
        (restated_settleSend ..) fun _ hfrees => ht p i hc (saysOver_of_sentStatus hfrees)
    · cases hst
  | crash c =>
    cases hst
    refine h.attempts rfl (Carries.refl _) fun c' k hk => ?_
    by_cases hc : c' = c
    · subst hc
      simp [SendCall.claim?] at hk
    · rwa [Function.update_of_ne hc] at hk
  | deliver i =>
    simp only [performSend, ite_none_right_eq_some, Option.some.injEq] at hst
    obtain ⟨hlive, rfl⟩ := hst
    refine h.attempts rfl (Carries.modify fun a ha => ⟨rfl, rfl, rfl, fun ho => ?_⟩) fun _ _ => id
    -- Nothing that is over is delivered.
    rw [ha, any_some, ho.1] at hlive
    cases hlive
  | expire i =>
    cases hst
    exact h.attempts rfl (Carries.modify fun a _ => ⟨rfl, rfl, rfl, fun ho => ⟨rfl, ho.2⟩⟩)
      fun _ _ => id
  | reconcile email action now =>
    simp only [performSend, ite_none_right_eq_some, Option.some.injEq] at hst
    obtain ⟨⟨hr, hs, _⟩, rfl⟩ := hst
    have hg := restated_reconcileEmail s.store email action now
    cases hrec : reconciledStatus email.kind action with
    | none =>
      rw [hrec] at hg
      exact h.attempts hg (Carries.refl _) fun _ _ => id
    | some st =>
      rw [hrec] at hg
      exact h.reconcile hr hs hg fun happ hfrees =>
        ht happ (saysOver_of_reconciledStatus happ hrec hfrees)
  | recordManualSend job candidateEmail toAddr draft now =>
    simp only [performSend] at hst
    split at hst
    · rename_i store hr
      cases hst
      exact h.recordManualSend hr
    · cases hst
  | others jobs applications =>
    cases hst
    exact h.attempts rfl (Carries.refl _) fun _ _ => id

end SendState.Sound

/-- A job that was qualified. -/
def sampleJob : Job where
  id := "job-1"
  company := "Acme"
  role := none
  contactEmails := ["jobs@acme.test"]
  applicationUrls := []
  status := .materialsGenerated
  firstSeenAt := 0
  updatedAt := 0

def sampleDraft : Draft where
  toAddr := "jobs@acme.test"
  subject := "Application"
  text := "Hello"
  attachments := ["resume.pdf"]
  needsInput := []

def proposeSample (c now : ℕ) : SendLabel :=
  .propose c sampleJob "me@home.test" 80 .gmail false (some ⟨90, false, [], []⟩) (some sampleDraft)
    now

/-- The queue will retry the action; the answer frees the row, and the application is proposed
again. -/
def retriedRun : List SendLabel :=
  [proposeSample 0 1, .invoke 0, .proposed 0 (.ok ⟨"retry_wait", some "a1"⟩) 2, proposeSample 0 3,
    .invoke 0, .proposed 0 (.ok ⟨"executed", some "a2"⟩) 4, .deliver 0, .deliver 1]

/-- An attempt of the run, after its delivery. -/
def deliveredOnce (released : Bool) : Attempt :=
  { Attempt.new "job-1" .application 1 sampleDraft.message with
    live := false, delivered := true, released := released }

/-- Both attempts are delivered. -/
theorem retried_action_emails_twice : ∃ s, (sendMachine asWritten).Run retriedRun s ∧
    ¬ s.AtMostOnce := by
  have hview : (Machine.drive (performSend asWritten) (fun _ _ => true) (sendMachine asWritten).init
      retriedRun).map SendState.attempts =
      some [deliveredOnce true, deliveredOnce false] := by decide +kernel
  obtain ⟨s, hs, hv⟩ := map_eq_some_iff.1 hview
  refine ⟨s, Machine.run_drive hs, fun honce => ?_⟩
  have := honce.delivered 0 1 (deliveredOnce true) (deliveredOnce false) (by rw [hv]; rfl)
    (by rw [hv]; rfl) rfl rfl rfl rfl rfl
  omega

/-- Along truthful runs every job is emailed at most once, and of two attempts for one job one is
over: nothing came or will come of it, and the ledger or the owner knows. -/
theorem emailed_at_most_once {N : Normalizer} {h : List SendLabel} {s : SendState}
    (hr : ((sendMachine N).restrict fun s l _ => Truthful s l).Run h s) : s.AtMostOnce := by
  have hs : s.Sound := hr.invariant (SendState.Sound.init (N := N)) fun _ _ _ hs hst =>
    hs.step hst.2 hst.1
  exact hs.atMostOnce

/-- A check for `Truthful`; it lets no proposal be forced. -/
def isTruthful (s : SendState) : SendLabel → Bool
  | .propose _ _ _ _ _ force _ _ _ => !force
  | .proposed c _ _ | .sent c _ _ =>
    match (s.calls c).claim? with
    | some ⟨_, _, _, some i⟩ => s.attempts[i]?.all fun a => !a.live && !a.delivered
    | _ => true
  | .reconcile email _ _ => s.attempts.all fun a => a.emailId ≠ email.id || !a.live && !a.delivered
  | _ => true

theorem truthful_of_isTruthful (s : SendState) (l : SendLabel) (h : isTruthful s l = true) :
    Truthful s l := by
  cases l with
  | propose _ _ _ _ _ force _ _ _ =>
    rintro _ rfl
    simp [isTruthful] at h
  | proposed c outcome now =>
    intro p i hc _ _ a ha
    simpa [isTruthful, hc, SendCall.claim?, ha, Attempt.Dead] using h
  | sent c thrown now =>
    intro p i hc _ a ha
    simpa [isTruthful, hc, SendCall.claim?, ha, Attempt.Dead] using h
  | reconcile email action now =>
    intro _ _ a ha hid
    have := List.all_eq_true.1 h a ha
    simpa [hid, Attempt.Dead] using this
  | _ => trivial

/-- An attempt fails, and the application is proposed again: the owner approves, and the email is
delivered. -/
def failedOnceRun : List SendLabel :=
  [proposeSample 0 1, .invoke 0, .expire 0, .proposed 0 (.error "no such tool") 2,
    proposeSample 1 3, .invoke 1, .crash 2, .expire 7, .deliver 1]

theorem emailed_at_most_once_failedOnceRun : ∃ s, (sendMachine asWritten).Run failedOnceRun s ∧
    s.AtMostOnce ∧ s.attempts.map Attempt.delivered = [false, true] := by
  have hview : (Machine.drive (performSend asWritten) isTruthful (sendMachine asWritten).init
      failedOnceRun).map (fun s => s.attempts.map Attempt.delivered) = some [false, true] := by
    decide +kernel
  obtain ⟨s, hs, hv⟩ := map_eq_some_iff.1 hview
  have hr : ((sendMachine asWritten).restrict fun s l _ => Truthful s l).Run failedOnceRun s :=
    Machine.steps_drive truthful_of_isTruthful hs
  exact ⟨s, hr.of_restrict, emailed_at_most_once hr, hv⟩

end U2os.Mcp.Jobs
