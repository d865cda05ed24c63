import U2os.Lib.Json
import U2os.Mcp.Jobs.Checks

/-!
# Sending an application

An application goes out in two ways: proposed to the agent's gate, or handed to the autopilot's
mailer.  Each way is cut at its only wait.  Up to the wait the ledger gets a row `proposing`; what
comes back, or is thrown, decides what becomes of the row.

## Main results

* `beginProposal_eq`, `beginSend_eq` : all it takes to come to the call.
-/

namespace U2os.Mcp.Jobs

/-- `SEND_TOOLS`. -/
inductive SendTool where
  | gmail | appleMail | appleMailDraft
deriving DecidableEq

/-- The name of a tool. -/
def SendTool.text : SendTool → String
  | .gmail => "email.send"
  | .appleMail => "apple_mail.send"
  | .appleMailDraft => "apple_mail.draft"

/-- The kind of email a tool makes. -/
def SendTool.kind : SendTool → EmailKind
  | .appleMailDraft => .draft
  | .gmail | .appleMail => .application

/-- `idempotencyKey`, before it is hashed. -/
def idempotencyKey (N : Normalizer) (candidate : String) (job : Job) (toAddr : String)
    (kind : EmailKind) : EmailKey where
  candidate := candidate
  company := N.normalizeCompany job.company
  role := N.normalizeRole job.role
  jobId := job.id
  kind := kind
  toAddr := N.toLowerCase toAddr

/-- The reason an email of the ledger blocks. -/
def emailReason (r : EmailRow) : String :=
  match r.status with
  | .uncertain =>
    "an earlier send to " ++ r.message.toAddr ++
      " has an uncertain outcome: check Sent mail, then resolve it"
  | .proposing =>
    "an earlier attempt to email " ++ r.message.toAddr ++
      " did not finish: check the approvals and Sent mail first"
  | st => "an email to " ++ r.message.toAddr ++ " is already " ++ st.text

/-- The statuses of a job that block. -/
def finishedForEmail : List JobStatus :=
  [.applied, .contacted, .rejected, .withdrawn, .closed, .skipped, .interview]

/-- The emails of a job that block one of a kind; a draft in the mail program blocks another. -/
def blockingRows (s : HuntStore) (jobId : String) (kind : EmailKind) : List EmailRow :=
  (s.listEmails jobId).filter fun r => r.kind = kind ∧
    (r.status ∈ blockingEmails ∨ kind = .draft ∧ r.status = .drafted)

def sendBlockers (s : HuntStore) (job : Job) (score : Option Score) (minimumScore : ℕ)
    (kind : EmailKind) : List String :=
  (match score with
    | none => ["the job has not been scored"]
    | some x =>
      if x.degraded then ["the score is degraded (no model)"]
      else if x.score < minimumScore then
        ["score " ++ toString x.score ++ " is below the threshold " ++ toString minimumScore]
      else []) ++
  (if job.status ∈ finishedForEmail then ["the job is already " ++ job.status.text] else []) ++
  (blockingRows s job.id kind).map emailReason

/-- The word is part of the text. -/
def hasInfix (word : List Char) : List Char → Bool
  | [] => word.isEmpty
  | c :: text => word.isPrefixOf (c :: text) || hasInfix word text

/-- The word is part of the text. -/
def mentions (word text : String) : Bool := hasInfix word.toList text.toList

/-- `/already|uncertain/`. -/
def neverForced (reason : String) : Bool := mentions "already" reason || mentions "uncertain" reason

/-- A proposal on its way to `propose`. -/
structure Proposal where
  jobId : String
  emailId : ℕ
  kind : EmailKind
  tool : SendTool
  message : Message
  requestText : String
  reasoning : String
deriving DecidableEq

/-- How `proposeApplicationEmail` comes to its call of `propose`. -/
inductive ProposalStart where
  /-- It throws, and nothing is written. -/
  | refused (error : String)
  /-- It throws inside the `try`, over a job without a score. -/
  | failed (s : HuntStore)
  | proposing (p : Proposal) (s : HuntStore)

/-- The row of a proposal: a failed or rejected earlier attempt is reused. -/
def claimRow (s : HuntStore) (jobId : String) (kind : EmailKind) (message : Message)
    (key : EmailKey) (now : ℕ) : Option (ℕ × HuntStore) :=
  match s.findEmailByKey key with
  | some previous => some (previous.id, s.updateEmail previous.id .proposing none now)
  | none => s.addEmail jobId kind message .proposing key now

/-- `proposeApplicationEmail`, up to the call of `propose`. -/
def beginProposal (N : Normalizer) (s : HuntStore) (job : Job) (candidateEmail : String)
    (minimumScore : ℕ) (tool : SendTool) (force : Bool) (score : Option Score)
    (draft : Option Draft) (now : ℕ) : ProposalStart :=
  match draft with
  | none =>
    .refused "No email draft for this job: run \"job materials\" first (the listing may have no contact address)"
  | some d =>
    let blockers := sendBlockers s job score minimumScore tool.kind
    if d.needsInput ≠ [] then
      .refused ("The listing asks for things your facts do not cover: " ++
        "; ".intercalate d.needsInput ++
        ". Add them to facts.md and rerun \"job materials --force\"")
    else if blockers ≠ [] ∧ force = false then
      .refused ("Not sending: " ++ "; ".intercalate blockers)
    else if blockers.any neverForced then
      .refused ("Not sending even with --force: " ++ "; ".intercalate blockers)
    else if d.attachments = [] then
      .refused "The draft has no staged attachments: rerun \"job materials --force\" so the resume is staged"
    else
      match claimRow s job.id tool.kind d.message
          (idempotencyKey N candidateEmail job d.toAddr tool.kind) now with
      | none => .refused "This email was already proposed"
      | some (emailId, s') =>
        match score with
        | none => .failed (s'.updateEmail emailId .failed none now)
        | some x =>
          .proposing
            { jobId := job.id, emailId := emailId, kind := tool.kind, tool := tool
              message := d.message
              requestText := "Application email for " ++ job.company ++ " - " ++ job.role.getD ""
              reasoning := "Score " ++ toString x.score ++ ": " ++
                "; ".intercalate (x.reasons.take 2) }
            s'

/-- What `propose` returns. -/
structure Outcome where
  status : String
  id : Option String
deriving DecidableEq

def markContacted (s : HuntStore) (jobId : String) (emailId now : ℕ) : HuntStore :=
  (s.updateEmail emailId .sent none now).transition jobId .contacted now

/-- What an outcome makes of the row. -/
def proposedStatus (kind : EmailKind) (status : String) : EmailStatus :=
  if status = "executed" then
    match kind with
    | .draft => .drafted
    | .application => .sent
  else if status = "pending" then .proposed
  else if status = "blocked" then .blocked
  else .failed

/-- `proposeApplicationEmail`, from the outcome of `propose` on: what it returned, or the error it
threw. -/
def settleProposal (s : HuntStore) (p : Proposal) (outcome : Except String Outcome) (now : ℕ) :
    HuntStore :=
  match outcome with
  | .error _ => s.updateEmail p.emailId .failed none now
  | .ok o =>
    let status := proposedStatus p.kind o.status
    let s' := s.updateEmail p.emailId status o.id now
    if status = .sent then markContacted s' p.jobId p.emailId now else s'

/-- `/uncertain/i`. -/
def saysUncertain (text : String) : Bool :=
  hasInfix "uncertain".toList (text.toList.map Char.toLower)

/-- An email on its way to the mailer. -/
structure Sending where
  jobId : String
  emailId : ℕ
  message : Message
deriving DecidableEq

/-- How `sendApplication` comes to its call of `mailer.send`. -/
inductive SendStart where
  | refused (error : String)
  | dryRun (toAddr : String)
  | sending (p : Sending) (s : HuntStore)

/-- `sendApplication`, up to the call of `mailer.send`. -/
def beginSend (N : Normalizer) (s : HuntStore) (jobId candidateEmail : String)
    (draft : Option Draft) (approved : Bool) (score : Option Score) (minimum : ℕ)
    (config : AutopilotConfig) (texts : List Check) (hasMailer : Bool) (now : ℕ) : SendStart :=
  match prepare N s jobId (.email draft) approved score minimum config now texts, draft with
  | .error e, _ => .refused e
  | .ok _, none => .refused "no email draft"
  | .ok job, some d =>
    if config.live = false then .dryRun d.toAddr
    else if hasMailer = false then .refused "No mail sender is configured for the autopilot"
    else
      let key := idempotencyKey N candidateEmail job d.toAddr .application
      if (s.findEmailByKey key).any fun r => r.status ≠ .failed && r.status ≠ .rejected then
        .refused ("An email to " ++ d.toAddr ++ " is already " ++
          ((s.findEmailByKey key).elim "" fun r => r.status.text))
      else
        match claimRow s job.id .application d.message key now with
        | none => .refused "This email was already proposed"
        | some (emailId, s') => .sending ⟨job.id, emailId, d.message⟩ s'

/-- `sendApplication`, from the end of `mailer.send` on: it returned, or threw. -/
def settleSend (s : HuntStore) (p : Sending) (thrown : Option String) (now : ℕ) : HuntStore :=
  match thrown with
  | none => markContacted s p.jobId p.emailId now
  | some message =>
    if saysUncertain message then
      (s.updateEmail p.emailId .uncertain none now).transition p.jobId .uncertain now
    else s.updateEmail p.emailId .failed none now

/-- What `lookup` knows of an action. -/
structure ActionView where
  status : String
  result : Option Json

/-- A turn of the loop of `reconcileEmails`, for an email that is proposed. -/
def reconcileEmail (s : HuntStore) (email : EmailRow) (action : ActionView) (now : ℕ) : HuntStore :=
  if action.status = "executed" ∧ email.kind = .draft then
    s.updateEmail email.id .drafted none now
  else if action.status = "executed" then markContacted s email.jobId email.id now
  else if action.status = "rejected" ∨ action.status = "cancelled" ∨ action.status = "blocked" then
    s.updateEmail email.id .rejected none now
  else if action.status = "failed" then
    if saysUncertain ((action.result.getD (.str "")).render) then
      (s.updateEmail email.id .uncertain none now).transition email.jobId .uncertain now
    else s.updateEmail email.id .failed none now
  else s

def recordManualSend (N : Normalizer) (s : HuntStore) (job : Job) (candidateEmail : String)
    (toAddr : Option String) (draft : Option Draft) (now : ℕ) : Except String HuntStore :=
  match toAddr <|> job.contactEmails.head? with
  | none => .error "No recipient: pass the address the email was sent to"
  | some recipient =>
    if (s.listEmails job.id).any fun r => r.kind = .application && r.status = .sent then
      .error "This job is already recorded as emailed"
    else
      let key := idempotencyKey N candidateEmail job recipient .application
      match s.findEmailByKey key with
      | some previous =>
        .ok (markContacted (s.updateEmail previous.id .sent none now) job.id previous.id now)
      | none =>
        let message : Message :=
          match draft with
          | some d => { d.message with toAddr := recipient }
          | none =>
            { toAddr := recipient, subject := "(sent outside U2OS)", body := "", attachments := [] }
        match s.addEmail job.id .application message .sent key now with
        | some (id, s') => .ok (markContacted s' job.id id now)
        | none => .error "This email was already proposed"

theorem hasInfix_iff {word text : List Char} : hasInfix word text = true ↔ word <:+: text := by
  induction text with
  | nil => simp [hasInfix]
  | cons c text ih =>
    rw [hasInfix, Bool.or_eq_true, List.isPrefixOf_iff_prefix, ih, List.infix_cons_iff]

theorem mentions_iff {word text : String} :
    mentions word text = true ↔ word.toList <:+: text.toList := hasInfix_iff

theorem mentions_append_left {word s t : String} (h : mentions word t = true) :
    mentions word (s ++ t) = true := by
  rw [mentions_iff] at h ⊢
  rw [String.toList_append]
  exact h.trans (List.suffix_append _ _).isInfix

theorem mentions_append_right {word s t : String} (h : mentions word s = true) :
    mentions word (s ++ t) = true := by
  rw [mentions_iff] at h ⊢
  rw [String.toList_append]
  exact h.trans (List.prefix_append _ _).isInfix

theorem neverForced_emailReason {r : EmailRow} (h : r.status ≠ .proposing) :
    neverForced (emailReason r) = true := by
  have halready : mentions "already" " is already " = true := by decide
  have huncertain :
      mentions "uncertain" " has an uncertain outcome: check Sent mail, then resolve it" = true := by
    decide
  unfold neverForced emailReason
  rw [Bool.or_eq_true]
  cases hs : r.status with
  | proposing => exact absurd hs h
  | uncertain => exact .inr (mentions_append_left huncertain)
  | _ => exact .inl (mentions_append_right (mentions_append_left halready))

/-- A proposal that is not refused has no row that blocks, except, with `force`, one that is still
`proposing`. -/
theorem blockingRows_of_not_forced {s : HuntStore} {job : Job} {score : Option Score}
    {minimumScore : ℕ} {kind : EmailKind} {force : Bool}
    (h : ¬ (sendBlockers s job score minimumScore kind ≠ [] ∧ force = false))
    (hf : (sendBlockers s job score minimumScore kind).any neverForced = false) {r : EmailRow}
    (hr : r ∈ blockingRows s job.id kind) : force = true ∧ r.status = .proposing := by
  have hmem : emailReason r ∈ sendBlockers s job score minimumScore kind :=
    List.mem_append_right _ (List.mem_map_of_mem hr)
  constructor
  · by_contra hforce
    exact h ⟨List.ne_nil_of_mem hmem, by simpa using hforce⟩
  · by_contra hp
    have := List.any_eq_false.1 hf _ hmem
    exact this (neverForced_emailReason hp)

/-- A claimed row is one of the same key, or a new one. -/
theorem claimRow_eq {s s' : HuntStore} {jobId : String} {kind : EmailKind} {message : Message}
    {key : EmailKey} {emailId now : ℕ}
    (h : claimRow s jobId kind message key now = some (emailId, s')) :
    (∃ r ∈ s.emails, r.idempotencyKey = key ∧ r.id = emailId ∧
      s' = s.updateEmail emailId .proposing none now) ∨
    (emailId = s.emails.next ∧ s' = { s with
      emails := s.emails.push (.new jobId kind message .proposing key now) fun _ => rfl }) := by
  unfold claimRow at h
  cases hf : s.findEmailByKey key with
  | some r =>
    simp only [hf, Option.some.injEq, Prod.mk.injEq] at h
    obtain ⟨hr, hk⟩ := HuntStore.findEmailByKey_eq_some hf
    obtain ⟨hid, hs⟩ := h
    subst hid
    exact .inl ⟨r, hr, hk, rfl, hs.symm⟩
  | none =>
    simp only [hf] at h
    exact .inr (HuntStore.addEmail_eq h)

section Begin

variable {N : Normalizer} {s : HuntStore} {job : Job} {candidateEmail : String}
  {minimumScore now : ℕ} {tool : SendTool} {force : Bool} {score : Option Score}
  {draft : Option Draft}

/-- A proposal that goes on has claimed its row, and nothing blocked it but what was forced. -/
theorem claimed_of_beginProposal
    (h : ∀ error,
      beginProposal N s job candidateEmail minimumScore tool force score draft now ≠
        .refused error) :
    (∀ r ∈ blockingRows s job.id tool.kind, force = true ∧ r.status = .proposing) ∧
    ∃ d emailId s₁, draft = some d ∧ claimRow s job.id tool.kind d.message
      (idempotencyKey N candidateEmail job d.toAddr tool.kind) now = some (emailId, s₁) ∧
      (∀ p s', beginProposal N s job candidateEmail minimumScore tool force score draft now =
        .proposing p s' → s' = s₁ ∧ p.jobId = job.id ∧ p.emailId = emailId ∧ p.kind = tool.kind ∧
          p.message = d.message) ∧
      (∀ s', beginProposal N s job candidateEmail minimumScore tool force score draft now =
        .failed s' → s' = s₁.updateEmail emailId .failed none now) := by
  cases draft with
  | none => simp [beginProposal] at h
  | some d =>
    simp only [beginProposal] at h ⊢
    by_cases h1 : d.needsInput ≠ []
    · rw [if_pos h1] at h
      exact absurd rfl (h _)
    rw [if_neg h1] at h ⊢
    by_cases h2 : sendBlockers s job score minimumScore tool.kind ≠ [] ∧ force = false
    · rw [if_pos h2] at h
      exact absurd rfl (h _)
    rw [if_neg h2] at h ⊢
    by_cases h3 : (sendBlockers s job score minimumScore tool.kind).any neverForced = true
    · rw [if_pos h3] at h
      exact absurd rfl (h _)
    rw [if_neg h3] at h ⊢
    by_cases h4 : d.attachments = []
    · rw [if_pos h4] at h
      exact absurd rfl (h _)
    rw [if_neg h4] at h ⊢
    refine ⟨fun r hr => blockingRows_of_not_forced h2 (by simpa using h3) hr, ?_⟩
    cases hc : claimRow s job.id tool.kind d.message
        (idempotencyKey N candidateEmail job d.toAddr tool.kind) now with
    | none => simp [hc] at h
    | some row =>
      obtain ⟨emailId, s₁⟩ := row
      refine ⟨d, emailId, s₁, rfl, hc, ?_, ?_⟩
      · cases score with
        | none => simp
        | some x =>
          simp only [ProposalStart.proposing.injEq]
          rintro p s' ⟨rfl, rfl⟩
          exact ⟨rfl, rfl, rfl, rfl, rfl⟩
      · cases score with
        | none =>
          simp only [ProposalStart.failed.injEq]
          exact fun s' h => h.symm
        | some x => simp

end Begin

/-- A send that comes to its call had nothing that blocks, and has claimed its row. -/
theorem beginSend_eq {N : Normalizer} {s s' : HuntStore} {jobId candidateEmail : String}
    {draft : Option Draft} {approved : Bool} {score : Option Score} {minimum now : ℕ}
    {config : AutopilotConfig} {texts : List Check} {hasMailer : Bool} {p : Sending}
    (h : beginSend N s jobId candidateEmail draft approved score minimum config texts hasMailer
      now = .sending p s') :
    ∃ job d, draft = some d ∧ config.live = true ∧
      prepare N s jobId (.email draft) approved score minimum config now texts = .ok job ∧
      claimRow s job.id .application d.message
        (idempotencyKey N candidateEmail job d.toAddr .application) now = some (p.emailId, s') ∧
      p.jobId = job.id ∧ p.message = d.message := by
  unfold beginSend at h
  cases hp : prepare N s jobId (.email draft) approved score minimum config now texts with
  | error e => simp [hp] at h
  | ok job =>
    cases draft with
    | none => simp [hp] at h
    | some d =>
      simp only [hp] at h
      by_cases h1 : config.live = false
      · rw [if_pos h1] at h
        cases h
      rw [if_neg h1] at h
      by_cases h2 : hasMailer = false
      · rw [if_pos h2] at h
        cases h
      rw [if_neg h2] at h
      by_cases h3 : ((s.findEmailByKey (idempotencyKey N candidateEmail job d.toAddr
          .application)).any fun r => r.status ≠ .failed && r.status ≠ .rejected) = true
      · rw [if_pos h3] at h
        cases h
      rw [if_neg h3] at h
      cases hc : claimRow s job.id .application d.message
          (idempotencyKey N candidateEmail job d.toAddr .application) now with
      | none => simp [hc] at h
      | some row =>
        obtain ⟨emailId, s₁⟩ := row
        simp only [hc, SendStart.sending.injEq] at h
        obtain ⟨rfl, rfl⟩ := h
        exact ⟨job, d, rfl, by simpa using h1, rfl, hc, rfl, rfl⟩

end U2os.Mcp.Jobs
