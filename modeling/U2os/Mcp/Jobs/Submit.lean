import Mathlib.Logic.Function.Basic
import U2os.Mcp.Jobs.Checks

/-!
# Submitting a form

A form is planned, and a plan is submitted by a driver.  Planning waits while the form is read;
submitting waits while the driver fills the form, which calls back just before the click.  Both are
cut there.
-/

namespace U2os.Mcp.Jobs

/-- `withLock` gets the lock: there is no lock file, or it is older than 15 minutes. -/
def lockFree (locks : String → Option ℕ) (now : ℕ) (jobId : String) : Bool :=
  (locks jobId).all fun t => t + 900000 < now

/-- The lock files, with one written or removed. -/
def setLock (locks : String → Option ℕ) (lock : Option String) (at? : Option ℕ) :
    String → Option ℕ :=
  lock.elim locks fun jobId => Function.update locks jobId at?

/-- `formKey`, before it is hashed. -/
def formKey (N : Normalizer) (candidate : String) (job : Job) (url : String) : FormKey where
  candidate := candidate
  company := N.normalizeCompany job.company
  role := N.normalizeRole job.role
  jobId := job.id
  url := (N.canonicalUrl url).getD url
  retryOf := none

/-- A planning that waits for its form to be read. -/
structure Planning where
  jobId : String
  url : String
  key : FormKey
  /-- The application that is planned again. -/
  existing : Option ℕ
  /-- The attempt the owner verified: it was never clicked. -/
  retryFrom : Option ℕ
deriving DecidableEq

/-- The last application for a key, or a retry of one. -/
def existingApplication (s : HuntStore) (jobId : String) (key : FormKey) : Option ApplicationRow :=
  ((s.listApplications jobId).filter fun r => { r.idempotencyKey with retryOf := none } = key).getLast?

/-- `planApplication`, up to the reading of the form; `target` is the address given or chosen. -/
def beginPlan (N : Normalizer) (s : HuntStore) (job : Job) (candidate : String)
    (target : Option String) (verifiedNoClick : Bool) : Except String Planning :=
  match target with
  | none => .error "This job has no application link"
  | some url =>
    let key := formKey N candidate job url
    match verifiedNoClick, existingApplication s job.id key with
    | true, none =>
      .error "A verified no-click retry needs an unconfirmed or uncertain zero-field attempt"
    | true, some r =>
      if (r.status = .unconfirmed ∨ r.status = .uncertain) ∧ r.plan.fields = [] then
        .ok { jobId := job.id, url := url, key := { key with retryOf := some r.id }
              existing := none, retryFrom := some r.id }
      else .error "A verified no-click retry needs an unconfirmed or uncertain zero-field attempt"
    | false, none =>
      .ok { jobId := job.id, url := url, key := key, existing := none, retryFrom := none }
    | false, some r =>
      if r.status ∈ blockingForms then
        .error ("An application for this job is already " ++ r.status.text)
      else
        .ok { jobId := job.id, url := url, key := key, existing := some r.id, retryFrom := none }

/-- The status of a new plan. -/
def planStatus (plan : Plan) : ApplicationStatus :=
  if plan.blockers ≠ [] then .manualRequired else if plan.ready then .planned else .needsInput

/-- `planApplication`, once the form was read and the plan was built; none when the key is taken. -/
def finishPlan (s : HuntStore) (p : Planning) (plan : Plan) (now : ℕ) : Option HuntStore :=
  match p.existing with
  | some id => some (s.updateApplication id (planStatus plan) (some plan) now)
  | none => (s.addApplication p.jobId p.url (planStatus plan) plan p.key now).map Prod.snd

def staleSubmittingMs : ℕ := 600000

/-- A turn of the loop of `recoverInterrupted`. -/
def recoverRow (now : ℕ) (s : HuntStore) (r : ApplicationRow) : HuntStore :=
  let s' := s.updateApplication r.id .uncertain none now
  match s'.getJob r.jobId with
  | some job =>
    if job.status = .applied ∨ job.status = .contacted then s'
    else s'.transition job.id .uncertain now
  | none => s'

def recoverInterrupted (s : HuntStore) (now : ℕ) : HuntStore :=
  (s.applications.rows.filter fun r =>
    r.status = .submitting ∧ r.updatedAt + staleSubmittingMs < now).foldl (recoverRow now) s

/-- The last application of a job. -/
def lastApplication (s : HuntStore) (jobId : String) : Option ApplicationRow :=
  (s.listApplications jobId).getLast?

/-- The statuses of a job for which nothing is submitted. -/
def finishedForForm : List JobStatus :=
  [.applied, .contacted, .rejected, .withdrawn, .closed, .skipped, .interview]

/-- The refusals of `submitApplication`, after `recoverInterrupted`. -/
def submittable (s : HuntStore) (job : Job) (applicationId : Option ℕ) :
    Except String ApplicationRow :=
  match ((s.listApplications job.id).filter fun r => applicationId.all (· = r.id)).getLast? with
  | none => .error "No application plan for this job: run \"job plan\" first"
  | some r =>
    if r.status ∈ blockingForms then
      .error ("Not submitting: the application is already " ++ r.status.text ++
        (if r.status = .uncertain then
          " (check the company's confirmation email before anything else)" else ""))
    else if r.status ≠ .planned then
      .error ("Not submitting: the plan is " ++ r.status.text ++
        (if r.plan.needs = [] then "" else " (" ++ ", ".intercalate r.plan.needs ++ ")"))
    else if job.status ∈ finishedForForm then
      .error ("Not submitting: the job is already " ++ job.status.text)
    else .ok r

/-- A call of `submitApplication` whose driver is at work. -/
structure DriverRun where
  jobId : String
  applicationId : ℕ
  plan : Plan
  submit : Bool
  prefill : Bool
  /-- The job whose lock the caller holds. -/
  lock : Option String
  /-- Its click, among all clicks. -/
  click : Option ℕ
deriving DecidableEq

/-- Who calls `submitApplication`. -/
inductive SubmitRequest where
  /-- The command line: there is no lock. -/
  | direct (job : Job) (submit prefill : Bool) (applicationId : Option ℕ)
  /-- `prefillApplicationForm`. -/
  | prefillForm (jobId : String)
  /-- `submitApplicationForm`, for the autopilot, or for the owner after the owner's approval. -/
  | form (jobId : String) (owner approved : Bool) (score : Option Score) (minimum : ℕ)
      (config : AutopilotConfig) (texts : List Check)

/-- The job whose lock a caller takes. -/
def SubmitRequest.lock : SubmitRequest → Option String
  | .direct .. => none
  | .prefillForm jobId => some jobId
  | .form jobId .. => some jobId

/-- What a caller hands to `submitApplication`. -/
structure Submission where
  job : Job
  submit : Bool
  prefill : Bool
  applicationId : Option ℕ

/-- What a caller checks before it calls `submitApplication`. -/
def SubmitRequest.admit (N : Normalizer) (s : HuntStore) (now : ℕ) :
    SubmitRequest → Except String Submission
  | .direct job submit prefill applicationId => .ok ⟨job, submit, prefill, applicationId⟩
  | .prefillForm jobId =>
    match s.getJob jobId with
    | none => .error ("Unknown job " ++ jobId)
    | some job =>
      if (lastApplication s job.id).any fun r => r.status = .planned && r.plan.ready then
        .ok ⟨job, false, true, none⟩
      else .error "There is no ready application plan to fill in"
  | .form jobId owner approved score minimum config texts =>
    match prepare N s jobId (.form (lastApplication s jobId)) approved score minimum config now
        texts with
    | .error e => .error e
    | .ok job => .ok ⟨job, owner || config.live, false, none⟩

/-- A call up to its driver: the store it leaves, and the run or the refusal. -/
def beginSubmit (N : Normalizer) (s : HuntStore) (request : SubmitRequest) (now : ℕ) :
    HuntStore × Except String DriverRun :=
  match request.admit N s now with
  | .error e => (s, .error e)
  | .ok c =>
    let s' := recoverInterrupted s now
    match submittable s' c.job c.applicationId with
    | .error e => (s', .error e)
    | .ok r =>
      (s', .ok
        { jobId := c.job.id, applicationId := r.id, plan := r.plan, submit := c.submit
          prefill := c.prefill, lock := request.lock, click := none })

/-- `beforeSubmit`: the intent, before the click. -/
def beforeSubmit (s : HuntStore) (r : DriverRun) (now : ℕ) : HuntStore :=
  s.updateApplication r.applicationId .submitting none now

/-- What the status of a driver's result makes of the application. -/
def resultStatus (status : String) : ApplicationStatus :=
  if status = "submitted" then .submitted
  else if status = "unconfirmed" then .unconfirmed
  else if status = "failed" ∨ status = "dry_run" then .planned
  else if status = "manual_required" then .manualRequired
  else if status = "schema_changed" ∨ status = "files_changed" ∨ status = "fill_incomplete" then
    .needsInput
  else .uncertain

/-- What the status of a driver's result makes of the job. -/
def resultTransition (status : String) : Option JobStatus :=
  if status = "submitted" then some .applied
  else if status = "unconfirmed" then some .uncertain
  else if status = "manual_required" ∨ status = "schema_changed" ∨ status = "files_changed" ∨
      status = "fill_incomplete" then some .needsInput
  else none

/-- `submitApplication`, from the result of the driver on; a pre-fill leaves the plan alone. -/
def finishSubmit (s : HuntStore) (r : DriverRun) (status : String) (now : ℕ) : HuntStore :=
  if r.prefill then s
  else
    let s' := s.updateApplication r.applicationId (resultStatus status) none now
    match resultTransition status with
    | some st => s'.transition r.jobId st now
    | none => s'

variable {N : Normalizer}

/-- The key of a plan names the application that it retries. -/
theorem beginPlan_eq_ok {s : HuntStore} {job : Job} {candidate : String} {target : Option String}
    {verifiedNoClick : Bool} {p : Planning}
    (h : beginPlan N s job candidate target verifiedNoClick = .ok p) :
    p.key.retryOf = p.retryFrom := by
  unfold beginPlan at h
  cases target with
  | none => cases h
  | some url =>
    simp only at h
    split at h
    · cases h
    · split_ifs at h
      cases h
      rfl
    · cases h
      rfl
    · split_ifs at h
      cases h
      rfl

theorem submittable_eq_ok {s : HuntStore} {job : Job} {applicationId : Option ℕ}
    {r : ApplicationRow} (h : submittable s job applicationId = .ok r) :
    r ∈ s.applications ∧ r.jobId = job.id ∧ r.status = .planned ∧ job.status ∉ finishedForForm := by
  unfold submittable at h
  split at h
  · cases h
  · rename_i q hq
    split_ifs at h with h1 h2 h3
    cases h
    have hmem := (List.mem_filter.1 (List.mem_of_getLast? hq)).1
    obtain ⟨hr, hj⟩ := HuntStore.mem_listApplications.1 hmem
    exact ⟨hr, hj, not_not.1 h2, h3⟩

theorem beginSubmit_eq_ok {s s' : HuntStore} {request : SubmitRequest} {now : ℕ} {r : DriverRun}
    (h : beginSubmit N s request now = (s', .ok r)) :
    s' = recoverInterrupted s now ∧ r.click = none ∧ ∃ q ∈ s'.applications,
      q.id = r.applicationId ∧ q.jobId = r.jobId ∧ q.status = .planned ∧ q.plan = r.plan := by
  unfold beginSubmit at h
  split at h
  · cases h
  · rename_i c hc
    simp only at h
    split at h
    · cases h
    · rename_i q hq
      obtain ⟨rfl, h⟩ := Prod.mk.inj h
      cases h
      obtain ⟨hmem, hj, hst, _⟩ := submittable_eq_ok hq
      exact ⟨rfl, rfl, q, hmem, rfl, hj, hst, rfl⟩

theorem finishSubmit_applications (s : HuntStore) (r : DriverRun) (status : String) (now : ℕ) :
    (finishSubmit s r status now).applications =
      if r.prefill = true then s.applications
      else (s.updateApplication r.applicationId (resultStatus status) none now).applications := by
  unfold finishSubmit
  by_cases hp : r.prefill = true
  · rw [if_pos hp, if_pos hp]
  · rw [if_neg hp, if_neg hp]
    simp only
    split <;> rfl

theorem beginSubmit_fst (N : Normalizer) (s : HuntStore) (request : SubmitRequest) (now : ℕ) :
    (beginSubmit N s request now).1 = s ∨
      (beginSubmit N s request now).1 = recoverInterrupted s now := by
  unfold beginSubmit
  split
  · exact .inl rfl
  · simp only
    split <;> exact .inr rfl

end U2os.Mcp.Jobs
