import U2os.Majordomo.Actions.Machine

/-!
# Workers

The execution of leased actions (`actions/exec.rs`): any number of workers over one store.  A
worker leases an action, checks it, begins an attempt, calls the capability and settles the
attempt; every call of the store is one step, and so is the call of the capability.  A worker
that crashes takes no more steps; a restarted one is another worker.
-/

namespace U2os.Majordomo

open Function Machine.Steps

structure CapabilityError where
  message : String
  info : ErrorInfo := {}
  /-- The failure is known to have happened before any effect. -/
  safeToRetry : Bool := false

/-- A registered capability, as far as the runtime asks it anything. -/
structure Capability where
  /-- Whether the provider honours the idempotency key. -/
  supportsIdempotency : Bool

/-- What a call of a capability came to. -/
inductive ExecResult where
  | ok
  | err (e : CapabilityError)
  | panic

/-- The answer of the authorizer. -/
inductive Authorization where
  | allow
  | deny (reason : String) (class_ : ErrorClass)

/-- A worker's configuration. -/
structure Runtime where
  workerId : String
  leaseMs : Int
  retry : RetryPolicy
  capabilities : String → Option Capability

/-- The functions of the standard library the runtime relies on. -/
structure Env where
  sha256 : String → String
  toUppercase : String → String

/-- The checks of `execute` before the attempt: how to stop the action, or its capability. -/
def check (env : Env) (rt : Runtime) (auth : Authorization) (a : Action) :
    Except (StopStatus × String × ErrorClass) Capability :=
  match rt.capabilities a.tool with
  | none => .error (.failed, "No capability is registered for this tool", .nonRetryable)
  | some capability =>
    match auth with
    | .deny reason class_ => .error (.cancelled, reason, class_)
    | .allow =>
      if a.consequential = true ∧ a.approvedAtMs = none then
        .error (.failed, "Current policy requires owner approval", .ownerAttentionRequired)
      else if argumentsSha256 env.sha256 a.arguments ≠ a.argumentsSha256 then
        .error (.failed, "Queued payload differs from the approved proposal",
          .ownerAttentionRequired)
      else .ok capability

/-- The class a failed call is settled with. -/
def failClass (env : Env) (capability : Capability) (e : CapabilityError) : ErrorClass :=
  let c := classify env.toUppercase e.info
  if c = .retryable ∧ capability.supportsIdempotency = false ∧ e.safeToRetry = false then
    .ownerAttentionRequired
  else c

/-- The call of the store that settles an attempt. -/
def settleOp (env : Env) (rt : Runtime) (t : Attempt) (capability : Capability) :
    ExecResult → Op
  | .ok => .completeAttempt t.id rt.workerId
  | .err e => .failAttempt t.id rt.workerId e.message (failClass env capability e) rt.retry
  | .panic => .failAttempt t.id rt.workerId "capability panicked; the outcome is unknown"
      .outcomeUncertain rt.retry

inductive Worker where
  /-- Between two actions. -/
  | idle
  /-- It holds a lease of `a`. -/
  | leased (a : Action)
  /-- It began the attempt `t` and is about to call the capability. -/
  | begun (a : Action) (t : Attempt) (capability : Capability)
  /-- The capability returned. -/
  | returned (a : Action) (t : Attempt) (capability : Capability) (r : ExecResult)

/-- The store and the workers. -/
structure Workers where
  db : Db
  worker : ℕ → Worker

/-- Calls that are not part of the execution of an action: the owner's commands, requests and
recoveries. -/
def Op.External : Op → Prop
  | .submit _ | .approve _ _ | .reject _ _ | .cancel _ | .recover | .renewLease _ _ _
  | .requeue _ | .resolveUncertain _ _ _ => True
  | _ => False

instance : DecidablePred Op.External := fun op => by
  cases op <;> unfold Op.External <;> infer_instance

/-- What happens next, with everything the environment decides. -/
inductive Input where
  | external (op : Op) (now : Int) (random : List Word)
  | lease (w : ℕ) (id : Option String) (now : Int) (random : List Word)
  | proceed (w : ℕ) (auth : Authorization) (now : Int) (random : List Word)
  | invoke (w : ℕ) (r : ExecResult)
  | settle (w : ℕ) (now : Int) (random : List Word)

/-- What happened. -/
inductive Label where
  /-- A call from outside the workers. -/
  | external (c : Call)
  | lease (w : ℕ) (c : Call)
  | stop (w : ℕ) (c : Call)
  | begin_ (w : ℕ) (c : Call)
  /-- `capability.execute` ran for the attempt `t`. -/
  | invoke (w : ℕ) (t : Attempt) (r : ExecResult)
  | settle (w : ℕ) (t : Attempt) (capability : Capability) (r : ExecResult) (c : Call)

/-- The call an operation makes and the database after it. -/
def perform (sha256 : String → String) (db : Db) (op : Op) (now : Int) (random : List Word) :
    Call × Db :=
  let r := op.exec sha256 now ⟨db, random⟩
  (⟨op, now, random, r.1⟩, r.2.db)

/-- Where a worker is after a lease call. -/
def afterLease : Except ActionError Reply → Worker
  | .ok (.leased (some a)) => .leased a
  | _ => .idle

/-- Where a worker is after beginning an attempt. -/
def afterBegin (a : Action) (capability : Capability) : Except ActionError Reply → Worker
  | .ok (.attempt t) => .begun a t capability
  | _ => .idle

/-- One step of the workers. -/
def step? (env : Env) (rt : ℕ → Runtime) (s : Workers) : Input → Option (Label × Workers)
  | .external op now random =>
    if op.External then
      let r := perform env.sha256 s.db op now random
      some (.external r.1, { s with db := r.2 })
    else none
  | .lease w id now random =>
    match s.worker w with
    | .idle =>
      let r := perform env.sha256 s.db (.lease id (rt w).workerId (rt w).leaseMs) now random
      some (.lease w r.1, ⟨r.2, update s.worker w (afterLease r.1.result)⟩)
    | _ => none
  | .proceed w auth now random =>
    match s.worker w with
    | .leased a =>
      match check env (rt w) auth a with
      | .error (status, message, class_) =>
        let r := perform env.sha256 s.db (.stopLeased a.id (rt w).workerId status message class_)
          now random
        some (.stop w r.1, ⟨r.2, update s.worker w .idle⟩)
      | .ok capability =>
        let r := perform env.sha256 s.db (.beginAttempt a.id (rt w).workerId) now random
        some (.begin_ w r.1,
          ⟨r.2, update s.worker w (afterBegin a capability r.1.result)⟩)
    | _ => none
  | .invoke w r =>
    match s.worker w with
    | .begun a t capability =>
      some (.invoke w t r, ⟨s.db, update s.worker w (.returned a t capability r)⟩)
    | _ => none
  | .settle w now random =>
    match s.worker w with
    | .returned _ t capability q =>
      let r := perform env.sha256 s.db (settleOp env (rt w) t capability q) now random
      some (.settle w t capability q r.1, ⟨r.2, update s.worker w .idle⟩)
    | _ => none

/-- The machine of the workers over an empty store. -/
def runtime (env : Env) (rt : ℕ → Runtime) : Machine Workers Label where
  init := ⟨Db.empty, fun _ => .idle⟩
  step s l t := ∃ i, step? env rt s i = some (l, t)

section

variable {env : Env} {rt : ℕ → Runtime}

theorem step_perform (sha256 : String → String) (db : Db) (op : Op) (now : Int)
    (random : List Word) : (actionStore sha256).step db (perform sha256 db op now random).1
      (perform sha256 db op now random).2 :=
  step_exec sha256 db op now random

/-- What a step of the workers can be. -/
inductive RuntimeStep (env : Env) (rt : ℕ → Runtime) (s : Workers) : Label → Workers → Prop
  | external {c : Call} {db : Db} (hop : c.op.External)
      (hst : (actionStore env.sha256).step s.db c db) :
      RuntimeStep env rt s (.external c) { s with db := db }
  | lease {w : ℕ} {id : Option String} {c : Call} {db : Db} (hw : s.worker w = .idle)
      (hop : c.op = .lease id (rt w).workerId (rt w).leaseMs)
      (hst : (actionStore env.sha256).step s.db c db) :
      RuntimeStep env rt s (.lease w c)
        ⟨db, update s.worker w (afterLease c.result)⟩
  | stop {w : ℕ} {a : Action} {c : Call} {db : Db} {status : StopStatus} {message : String}
      {class_ : ErrorClass} (hw : s.worker w = .leased a)
      (hop : c.op = .stopLeased a.id (rt w).workerId status message class_)
      (hst : (actionStore env.sha256).step s.db c db) :
      RuntimeStep env rt s (.stop w c) ⟨db, update s.worker w .idle⟩
  | begin_ {w : ℕ} {a : Action} {capability : Capability} {c : Call} {db : Db}
      (hw : s.worker w = .leased a) (hop : c.op = .beginAttempt a.id (rt w).workerId)
      (hst : (actionStore env.sha256).step s.db c db) :
      RuntimeStep env rt s (.begin_ w c)
        ⟨db, update s.worker w (afterBegin a capability c.result)⟩
  | invoke {w : ℕ} {a : Action} {t : Attempt} {capability : Capability} {r : ExecResult}
      (hw : s.worker w = .begun a t capability) :
      RuntimeStep env rt s (.invoke w t r)
        ⟨s.db, update s.worker w (.returned a t capability r)⟩
  | settle {w : ℕ} {a : Action} {t : Attempt} {capability : Capability} {r : ExecResult}
      {c : Call} {db : Db} (hw : s.worker w = .returned a t capability r)
      (hop : c.op = settleOp env (rt w) t capability r)
      (hst : (actionStore env.sha256).step s.db c db) :
      RuntimeStep env rt s (.settle w t capability r c) ⟨db, update s.worker w .idle⟩

/-- All a step of the workers can do. -/
theorem runtime_cases {s t : Workers} {l : Label} (h : (runtime env rt).step s l t) :
    RuntimeStep env rt s l t := by
  obtain ⟨i, hi⟩ := h
  cases i with
  | external op now random =>
    simp only [step?] at hi
    split_ifs at hi with hop
    cases hi
    exact .external hop (step_perform _ _ _ _ _)
  | lease w id now random =>
    simp only [step?] at hi
    split at hi
    · next hw => cases hi; exact .lease hw rfl (step_perform _ _ _ _ _)
    · cases hi
  | proceed w auth now random =>
    simp only [step?] at hi
    split at hi
    · next a hw =>
      split at hi
      · cases hi; exact .stop hw rfl (step_perform _ _ _ _ _)
      · cases hi; exact .begin_ hw rfl (step_perform _ _ _ _ _)
    · cases hi
  | invoke w r =>
    simp only [step?] at hi
    split at hi
    · next a t capability hw => cases hi; exact .invoke hw
    · cases hi
  | settle w now random =>
    simp only [step?] at hi
    split at hi
    · next a t capability q hw => cases hi; exact .settle hw rfl (step_perform _ _ _ _ _)
    · cases hi

theorem runtime_refines : (runtime env rt).Refines (actionStore env.sha256) Workers.db := by
  intro s l t h
  cases runtime_cases h with
  | invoke hw => exact ⟨[], nil⟩
  | external _ hst | lease _ _ hst | stop _ _ hst | begin_ _ _ hst | settle _ _ hst =>
    exact ⟨_, single hst⟩

end

/-- The labels and the state of a list of inputs, as far as they are possible. -/
def drive (env : Env) (rt : ℕ → Runtime) : Workers → List Input → Option (List Label × Workers)
  | s, [] => some ([], s)
  | s, i :: is => do
    let (l, t) ← step? env rt s i
    let (ls, u) ← drive env rt t is
    pure (l :: ls, u)

theorem steps_drive {env : Env} {rt : ℕ → Runtime} {s t : Workers} {is : List Input}
    {ls : List Label} (h : drive env rt s is = some (ls, t)) :
    (runtime env rt).Steps s ls t := by
  induction is generalizing s ls with
  | nil => cases h; exact nil
  | cons i is ih =>
    simp only [drive, Option.bind_eq_bind, Option.bind_eq_some_iff] at h
    obtain ⟨⟨l, u⟩, hl, ⟨ls', v⟩, hls, heq⟩ := h
    cases heq
    exact cons ⟨i, hl⟩ (ih hls)

end U2os.Majordomo
