import U2os.Lib.Numbered
import U2os.Lib.Table

/-!
# The store of the job hunt

The tables of `hunt.sqlite` that sending and submitting read and write: the jobs, the ledger of
emails and the form applications.  Ids are given in order, and every row is read back in the
order of its id.  Times are milliseconds.

## Main results

* `HuntStore.addEmail_eq`, `HuntStore.mem_updateEmail` : the emails after a write.
* `HuntStore.addApplication_eq`, `HuntStore.mem_updateApplication` : the applications after a
  write.
-/

namespace U2os.Mcp.Jobs

/-- `JOB_STATUSES`. -/
inductive JobStatus where
  | discovered | scored | researching | qualified | materialsGenerated | applying | applied
  | contacted | needsInput | followupDue | screening | interview | offer | rejected | withdrawn
  | closed | skipped | error | uncertain
deriving DecidableEq

def JobStatus.text : JobStatus → String
  | .discovered => "discovered"
  | .scored => "scored"
  | .researching => "researching"
  | .qualified => "qualified"
  | .materialsGenerated => "materials_generated"
  | .applying => "applying"
  | .applied => "applied"
  | .contacted => "contacted"
  | .needsInput => "needs_input"
  | .followupDue => "followup_due"
  | .screening => "screening"
  | .interview => "interview"
  | .offer => "offer"
  | .rejected => "rejected"
  | .withdrawn => "withdrawn"
  | .closed => "closed"
  | .skipped => "skipped"
  | .error => "error"
  | .uncertain => "uncertain"

/-- A row of `jobs`. -/
structure Job where
  id : String
  company : String
  role : Option String
  contactEmails : List String
  applicationUrls : List String
  status : JobStatus
  firstSeenAt : ℕ
  updatedAt : ℕ
deriving DecidableEq

/-- What an email is: a draft in the mail program is not sent. -/
inductive EmailKind where
  | application | draft
deriving DecidableEq

def EmailKind.text : EmailKind → String
  | .application => "application"
  | .draft => "draft"

/-- The status of an email in the ledger. -/
inductive EmailStatus where
  | proposing | proposed | sent | uncertain | drafted | blocked | failed | rejected
deriving DecidableEq

def EmailStatus.text : EmailStatus → String
  | .proposing => "proposing"
  | .proposed => "proposed"
  | .sent => "sent"
  | .uncertain => "uncertain"
  | .drafted => "drafted"
  | .blocked => "blocked"
  | .failed => "failed"
  | .rejected => "rejected"

/-- What an idempotency key is the hash of. -/
structure EmailKey where
  candidate : String
  company : String
  role : String
  jobId : String
  kind : EmailKind
  toAddr : String
deriving DecidableEq

/-- What goes out. -/
structure Message where
  toAddr : String
  subject : String
  body : String
  attachments : List String
deriving DecidableEq

/-- A row of `emails`. -/
structure EmailRow where
  id : ℕ
  jobId : String
  kind : EmailKind
  message : Message
  actionId : Option String
  status : EmailStatus
  idempotencyKey : EmailKey
  createdAt : ℕ
  updatedAt : ℕ
deriving DecidableEq

/-- The status of a form application. -/
inductive ApplicationStatus where
  | planned | needsInput | manualRequired | submitting | submitted | unconfirmed | uncertain
deriving DecidableEq

def ApplicationStatus.text : ApplicationStatus → String
  | .planned => "planned"
  | .needsInput => "needs_input"
  | .manualRequired => "manual_required"
  | .submitting => "submitting"
  | .submitted => "submitted"
  | .unconfirmed => "unconfirmed"
  | .uncertain => "uncertain"

/-- A planned answer of a form. -/
structure PlanField where
  key : String
  label : String
  value : String
  /-- The kind of file the field uploads. -/
  file : Option String
deriving DecidableEq

/-- A plan: the form, the answers and the hashes of the files it was made with. -/
structure Plan where
  url : String
  fields : List PlanField
  files : List (String × String)
  ready : Bool
  needs : List String
  blockers : List String
  schemaHash : String
  planHash : String
deriving DecidableEq

/-- What an idempotency key of an application is the hash of, and the attempt it retries. -/
structure FormKey where
  candidate : String
  company : String
  role : String
  jobId : String
  url : String
  retryOf : Option ℕ
deriving DecidableEq

/-- A row of `applications`. -/
structure ApplicationRow where
  id : ℕ
  jobId : String
  url : String
  status : ApplicationStatus
  plan : Plan
  idempotencyKey : FormKey
  createdAt : ℕ
  updatedAt : ℕ
deriving DecidableEq

/-- The row `addEmail` inserts. -/
def EmailRow.new (jobId : String) (kind : EmailKind) (message : Message) (status : EmailStatus)
    (key : EmailKey) (now : ℕ) (id : ℕ) : EmailRow where
  id := id
  jobId := jobId
  kind := kind
  message := message
  actionId := none
  status := status
  idempotencyKey := key
  createdAt := now
  updatedAt := now

/-- A row with the fields of an update that are given. -/
def EmailRow.patched (r : EmailRow) (status : EmailStatus) (actionId : Option String) (now : ℕ) :
    EmailRow :=
  { r with status := status, actionId := actionId <|> r.actionId, updatedAt := now }

/-- The row `addApplication` inserts. -/
def ApplicationRow.new (jobId url : String) (status : ApplicationStatus) (plan : Plan)
    (key : FormKey) (now : ℕ) (id : ℕ) : ApplicationRow where
  id := id
  jobId := jobId
  url := url
  status := status
  plan := plan
  idempotencyKey := key
  createdAt := now
  updatedAt := now

/-- A row with the fields of an update that are given. -/
def ApplicationRow.patched (r : ApplicationRow) (status : ApplicationStatus) (plan : Option Plan)
    (now : ℕ) : ApplicationRow :=
  { r with status := status, plan := plan.getD r.plan, updatedAt := now }

/-- The tables. -/
structure HuntStore where
  jobs : Table Job Job.id
  emails : Numbered EmailRow EmailRow.id
  applications : Numbered ApplicationRow ApplicationRow.id

variable {status : ApplicationStatus}

namespace HuntStore

/-- A fresh database. -/
def empty : HuntStore := { jobs := .empty, emails := .empty, applications := .empty }

def getJob (s : HuntStore) (id : String) : Option Job := s.jobs.find id

/-- `transition`: the status of a job, and when it changed. -/
def transition (s : HuntStore) (jobId : String) (toStatus : JobStatus) (now : ℕ) : HuntStore :=
  { s with
    jobs := s.jobs.updateWhere (fun j => j.id = jobId ∧ j.status ≠ toStatus)
      (fun j => { j with status := toStatus, updatedAt := now }) fun _ => rfl }

def listEmails (s : HuntStore) (jobId : String) : List EmailRow :=
  s.emails.rows.filter fun r => r.jobId = jobId

def findEmailByKey (s : HuntStore) (key : EmailKey) : Option EmailRow :=
  s.emails.rows.find? fun r => r.idempotencyKey = key

/-- `addEmail`: refused when the key is taken. -/
def addEmail (s : HuntStore) (jobId : String) (kind : EmailKind) (message : Message)
    (status : EmailStatus) (key : EmailKey) (now : ℕ) : Option (ℕ × HuntStore) :=
  if (s.findEmailByKey key).isSome then none
  else
    some (s.emails.next,
      { s with emails := s.emails.push (.new jobId kind message status key now) fun _ => rfl })

/-- `updateEmail`: an action id that is not given stays as it was. -/
def updateEmail (s : HuntStore) (id : ℕ) (status : EmailStatus) (actionId : Option String)
    (now : ℕ) : HuntStore :=
  { s with emails := s.emails.modify id (fun r => r.patched status actionId now) fun _ => rfl }

def listApplications (s : HuntStore) (jobId : String) : List ApplicationRow :=
  s.applications.rows.filter fun r => r.jobId = jobId

/-- `addApplication`: refused when the key is taken. -/
def addApplication (s : HuntStore) (jobId url : String) (status : ApplicationStatus) (plan : Plan)
    (key : FormKey) (now : ℕ) : Option (ℕ × HuntStore) :=
  if s.applications.rows.any fun r => r.idempotencyKey = key then none
  else
    some (s.applications.next,
      { s with
        applications := s.applications.push (.new jobId url status plan key now) fun _ => rfl })

/-- `updateApplication`: a plan that is not given stays as it was. -/
def updateApplication (s : HuntStore) (id : ℕ) (status : ApplicationStatus) (plan : Option Plan)
    (now : ℕ) : HuntStore :=
  { s with
    applications := s.applications.modify id (fun r => r.patched status plan now) fun _ => rfl }

variable {s s' : HuntStore} {jobId url : String} {id now : ℕ}

theorem mem_listEmails {r : EmailRow} : r ∈ s.listEmails jobId ↔ r ∈ s.emails ∧ r.jobId = jobId := by
  simp [listEmails, Numbered.mem_rows]

theorem mem_listApplications {r : ApplicationRow} :
    r ∈ s.listApplications jobId ↔ r ∈ s.applications ∧ r.jobId = jobId := by
  simp [listApplications, Numbered.mem_rows]

theorem findEmailByKey_eq_some {key : EmailKey} {r : EmailRow} (h : s.findEmailByKey key = some r) :
    r ∈ s.emails ∧ r.idempotencyKey = key :=
  ⟨List.mem_of_find?_eq_some h, by simpa using List.find?_some h⟩

/-- A new email has the next number. -/
theorem addEmail_eq {kind : EmailKind} {message : Message} {status : EmailStatus} {key : EmailKey}
    (h : s.addEmail jobId kind message status key now = some (id, s')) :
    id = s.emails.next ∧ s' = { s with
      emails := s.emails.push (.new jobId kind message status key now) fun _ => rfl } := by
  simp only [addEmail, Option.ite_none_left_eq_some] at h
  obtain ⟨_, h⟩ := h
  cases h
  exact ⟨rfl, rfl⟩

theorem mem_updateEmail {status : EmailStatus} {actionId : Option String} {r : EmailRow} :
    r ∈ (s.updateEmail id status actionId now).emails ↔
      ∃ r₀ ∈ s.emails, r = if r₀.id = id then r₀.patched status actionId now else r₀ :=
  Numbered.mem_modify (f := fun r => EmailRow.patched r status actionId now) fun _ => rfl

theorem addApplication_eq {plan : Plan} {key : FormKey}
    (h : s.addApplication jobId url status plan key now = some (id, s')) :
    id = s.applications.next ∧ s' = { s with
      applications := s.applications.push (.new jobId url status plan key now) fun _ => rfl } := by
  simp only [addApplication, Option.ite_none_left_eq_some] at h
  obtain ⟨_, h⟩ := h
  cases h
  exact ⟨rfl, rfl⟩

theorem mem_addApplication {plan : Plan} {key : FormKey}
    (h : s.addApplication jobId url status plan key now = some (id, s')) {r : ApplicationRow} :
    r ∈ s'.applications ↔
      r ∈ s.applications ∨ r = .new jobId url status plan key now s.applications.next := by
  obtain ⟨_, rfl⟩ := addApplication_eq h
  have hid : ∀ n, (ApplicationRow.new jobId url status plan key now n).id = n := fun _ => rfl
  exact Numbered.mem_push hid

theorem mem_updateApplication {plan : Option Plan} {r : ApplicationRow} : r ∈
    (s.updateApplication id status plan now).applications ↔
      ∃ r₀ ∈ s.applications, r = if r₀.id = id then r₀.patched status plan now else r₀ :=
  Numbered.mem_modify (f := fun r => ApplicationRow.patched r status plan now) fun _ => rfl

end HuntStore

end U2os.Mcp.Jobs
