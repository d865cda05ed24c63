import Mathlib.Data.List.Sort
import U2os.Mcp.Jobs.Store

/-!
# The review's deterministic checks

`runChecks` decides from the store whether the autopilot may act on a job now: what was already
sent for it, the limits of the day, and what went to the same company.  What the checks find in
texts (the posting, the letter, the answers, the address) is an input: those read nothing of the
store.
-/

namespace U2os.Mcp.Jobs

/-- The texts a store cannot decide: how companies, roles and addresses are written for
comparison. -/
structure Normalizer where
  normalizeCompany : String → String
  normalizeRole : Option String → String
  toLowerCase : String → String
  canonicalUrl : String → Option String

/-- Companies and roles as they are. -/
def asWritten : Normalizer where
  normalizeCompany := id
  normalizeRole role := role.getD ""
  toLowerCase := id
  canonicalUrl := some

structure Score where
  score : ℕ
  degraded : Bool
  flags : List String
  reasons : List String
deriving DecidableEq

structure Limits where
  emailsPerDay : ℕ
  applicationsPerDay : ℕ
  perCompanyDays : ℕ
deriving DecidableEq

/-- What the checks and the actions read of `autopilot.yaml`. -/
structure AutopilotConfig where
  /-- `mode` is `live`. -/
  live : Bool
  allowRelocation : Bool
  allowBelowSalaryMinimum : Bool
  limits : Limits
deriving DecidableEq

/-- The draft of an email, as `email.json` has it. -/
structure Draft where
  toAddr : String
  subject : String
  text : String
  attachments : List String
  needsInput : List String
deriving DecidableEq

/-- What goes out of a draft. -/
def Draft.message (d : Draft) : Message where
  toAddr := d.toAddr
  subject := d.subject
  body := d.text
  attachments := d.attachments

/-- What a review looks at: an email or a form application. -/
inductive Subject where
  | email (draft : Option Draft)
  | form (application : Option ApplicationRow)
deriving DecidableEq

structure Check where
  name : String
  pass : Bool
  detail : String
  informational : Bool
deriving DecidableEq

/-- A check that counts. -/
def check (name : String) (pass : Bool) (detail : String) : Check :=
  { name := name, pass := pass, detail := detail, informational := false }

/-- A day in milliseconds. -/
def dayMs : ℕ := 86400000

/-- `listJobs`: the newest first, at most 5000. -/
def HuntStore.listJobs (s : HuntStore) (limit : ℕ) : List Job :=
  (s.jobs.rows.insertionSort fun a b =>
    b.firstSeenAt < a.firstSeenAt ∨ a.firstSeenAt = b.firstSeenAt ∧ a.id ≤ b.id).take
      (min limit 5000)

def acted : List JobStatus :=
  [.contacted, .applied, .interview, .rejected, .withdrawn, .closed, .skipped, .uncertain, .error]

/-- The statuses of an email that keep another one from being sent. -/
def blockingEmails : List EmailStatus := [.proposing, .proposed, .sent, .uncertain]

/-- The statuses of a form application that keep another one from being submitted. -/
def blockingForms : List ApplicationStatus := [.submitting, .submitted, .unconfirmed, .uncertain]

/-- The application emails of a job that block. -/
def sentEmails (s : HuntStore) (jobId : String) : List EmailRow :=
  (s.listEmails jobId).filter fun r => r.kind = .application ∧ r.status ∈ blockingEmails

/-- The form applications of a job that block. -/
def openForms (s : HuntStore) (jobId : String) : List ApplicationRow :=
  (s.listApplications jobId).filter fun r => r.status ∈ blockingForms

/-- The application emails of the last day, of all jobs. -/
def recentEmails (s : HuntStore) (now : ℕ) : List EmailRow :=
  s.emails.rows.filter fun r => r.kind = .application ∧
    (r.status = .sent ∨ r.status = .proposed) ∧ now < r.updatedAt + dayMs

/-- The form applications of the last day, of all jobs; one that read no fields does not count. -/
def recentForms (s : HuntStore) (now : ℕ) : List ApplicationRow :=
  s.applications.rows.filter fun r =>
    (r.status = .submitted ∨ r.status = .unconfirmed ∨ r.status = .submitting) ∧
      r.plan.fields ≠ [] ∧ now < r.updatedAt + dayMs

/-- The other jobs of the company that an application went out for. -/
def sameCompany (N : Normalizer) (s : HuntStore) (job : Job) (days now : ℕ) : List Job :=
  (s.listJobs 20000).filter fun other => other.id ≠ job.id ∧
    N.toLowerCase other.company = N.toLowerCase job.company ∧
    (other.status = .contacted ∨ other.status = .applied ∨ other.status = .interview) ∧
      now < other.updatedAt + days * dayMs

/-- The daily limit of a subject. -/
def underLimit (s : HuntStore) (limits : Limits) (now : ℕ) : Subject → Bool
  | .email _ => (recentEmails s now).length < limits.emailsPerDay
  | .form _ => (recentForms s now).length < limits.applicationsPerDay

/-- The checks of a subject itself. -/
def subjectChecks : Subject → List Check
  | .email none => [check "email_draft_present" false "no email draft"]
  | .email (some d) =>
    [check "email_draft_present" (d.toAddr ≠ "" && d.text ≠ "") "",
      check "email_needs_no_input" d.needsInput.isEmpty ("; ".intercalate d.needsInput),
      check "has_attachments" (!d.attachments.isEmpty)
        (if d.attachments.isEmpty then "no resume attached" else "")]
  | .form none => [check "application_plan_present" false "no application plan"]
  | .form (some a) =>
    [check "application_plan_present" true "",
      check "plan_ready" (a.status = .planned && a.plan.ready) (", ".intercalate a.plan.needs),
      check "no_blockers" a.plan.blockers.isEmpty (", ".intercalate a.plan.blockers)]

/-- `runChecks`; `texts` are the checks of the texts. -/
def runChecks (N : Normalizer) (s : HuntStore) (job : Job) (subject : Subject)
    (score : Option Score) (minimum : ℕ) (config : AutopilotConfig) (now : ℕ)
    (texts : List Check) : List Check :=
  let flags := (score.map Score.flags).getD []
  let same := sameCompany N s job config.limits.perCompanyDays now
  [check "scored_by_model" (score.any fun x => !x.degraded)
      (match score with
        | none => "the job has not been scored"
        | some x => if x.degraded then "the score is a rule-based estimate" else ""),
    check "score_meets_threshold" (score.any fun x => minimum ≤ x.score)
      (match score with
        | none => ""
        | some x => "score " ++ toString x.score ++ ", threshold " ++ toString minimum),
    check "job_still_open_for_us" (job.status ∉ acted) ("job is " ++ job.status.text),
    check "no_relocation_unless_allowed"
      ("relocation_required" ∉ flags || config.allowRelocation)
      (if "relocation_required" ∈ flags then "the job requires relocation" else ""),
    check "salary_not_below_minimum_unless_allowed"
      ("salary_below_threshold" ∉ flags || config.allowBelowSalaryMinimum)
      (if "salary_below_threshold" ∈ flags then "pay is below your minimum" else ""),
    check "not_already_contacted" ((sentEmails s job.id).isEmpty && (openForms s job.id).isEmpty)
      ("; ".intercalate ((sentEmails s job.id).map fun r => "email " ++ r.status.text)),
    check
      (match subject with
        | .email _ => "under_daily_email_limit"
        | .form _ => "under_daily_application_limit")
      (underLimit s config.limits now subject)
      (match subject with
        | .email _ => toString (recentEmails s now).length ++ " of " ++
            toString config.limits.emailsPerDay ++ " emails today"
        | .form _ => toString (recentForms s now).length ++ " of " ++
            toString config.limits.applicationsPerDay ++ " applications today"),
    check "no_recent_application_to_same_company"
      (same.isEmpty || config.limits.perCompanyDays = 0)
      ("; ".intercalate (same.map fun j => j.role.getD "another role" ++ " (" ++ j.status.text ++ ")"))]
    ++ subjectChecks subject ++ texts

def failedChecks (checks : List Check) : List Check :=
  checks.filter fun c => !c.pass && !c.informational

/-- A failed check, as the refusal names it. -/
def Check.text (c : Check) : String :=
  if c.detail = "" then c.name else c.name ++ " (" ++ c.detail ++ ")"

/-- `prepare`: the job, when the newest review approves the content of now and no check fails
now; or the refusal.  `approved` is that the review approves. -/
def prepare (N : Normalizer) (s : HuntStore) (jobId : String) (subject : Subject) (approved : Bool)
    (score : Option Score) (minimum : ℕ) (config : AutopilotConfig) (now : ℕ)
    (texts : List Check) : Except String Job :=
  match s.getJob jobId with
  | none => .error ("Unknown job " ++ jobId)
  | some job =>
    if approved = false then
      .error ("Not approved: there is no review approval for the current " ++
        (match subject with
          | .email _ => "email"
          | .form _ => "form") ++
        " content of this job (it was never reviewed, was rejected, or something changed since)")
    else
      let failed := failedChecks (runChecks N s job subject score minimum config now texts)
      if failed ≠ [] then
        .error ("Refused by the checks run just now: " ++ "; ".intercalate (failed.map Check.text))
      else .ok job

section Passes

variable {N : Normalizer} {s : HuntStore} {job : Job} {subject : Subject} {score : Option Score}
  {minimum now : ℕ} {config : AutopilotConfig} {texts : List Check}
  (h : failedChecks (runChecks N s job subject score minimum config now texts) = [])
include h

theorem pass_of_passes {c : Check}
    (hc : c ∈ runChecks N s job subject score minimum config now texts)
    (hi : c.informational = false) : c.pass = true := by
  by_contra hp
  have : c ∈ failedChecks (runChecks N s job subject score minimum config now texts) :=
    List.mem_filter.2 ⟨hc, by simp [hi, hp]⟩
  rw [h] at this
  cases this

theorem not_already_contacted_of_passes :
    sentEmails s job.id = [] ∧ openForms s job.id = [] := by
  have hp := pass_of_passes h (c := check "not_already_contacted"
    ((sentEmails s job.id).isEmpty && (openForms s job.id).isEmpty)
    ("; ".intercalate ((sentEmails s job.id).map fun r => "email " ++ r.status.text)))
    (by simp [runChecks]) rfl
  simpa [check] using hp

end Passes

/-- An action that is prepared was approved, and its checks have passed. -/
theorem prepare_eq_ok {N : Normalizer} {s : HuntStore} {jobId : String} {subject : Subject}
    {approved : Bool} {score : Option Score} {minimum now : ℕ} {config : AutopilotConfig}
    {texts : List Check} {job : Job}
    (h : prepare N s jobId subject approved score minimum config now texts = .ok job) :
    s.getJob jobId = some job ∧ approved = true ∧
      failedChecks (runChecks N s job subject score minimum config now texts) = [] := by
  unfold prepare at h
  cases hj : s.getJob jobId with
  | none => simp [hj] at h
  | some j =>
    simp only [hj] at h
    by_cases ha : approved = false
    · rw [if_pos ha] at h
      cases h
    · rw [if_neg ha] at h
      by_cases hf : failedChecks (runChecks N s j subject score minimum config now texts) = []
      · rw [if_neg (not_not.2 hf)] at h
        cases h
        exact ⟨rfl, by simpa using ha, hf⟩
      · rw [if_pos hf] at h
        cases h

end U2os.Mcp.Jobs
