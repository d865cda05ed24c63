import U2os.Lib.Run
import U2os.Server.Agent.ActionQueueWorker

/-!
# The queue as a machine

Any number of turns over the three tables, and the other places of the server that write an
action: the owner's `reject`, the places that block or cancel a pending action,
`cancelUnstartedAction` and `repropose`.

Every piece of a turn is a step, and so is every other write, with the check right before it.
A worker is an object in one process, and up to the call of the tool it awaits nothing, so a
worker leases nothing while another of its turns is on the way to its call.  Nothing else is
assumed of the order of the steps: workers may be in different processes, leases may run out
under their holders, and a turn may stop at every point.

## Main results

* `QueueStep`, `queueStep_of_step` : all a step can do.
* `Move.actionWrite`, `ActionWrite.find_eq` : what a piece does to the rows of the actions.
-/

namespace U2os.Server.Agent

open Policy Option

/-- The tables and the turns. -/
structure QueueState where
  db : ActionDb
  turns : ℕ → Turn

/-- Where a pending action is denied. -/
inductive Denial where
  /-- `reject`. -/
  | reject (rejectedBy : String) (now : ℕ)
  /-- `approve`, stopped by the policy or by the account, or after the deadline of the run. -/
  | block (error : Option String)
  /-- `cancelRun` of the workflow engine. -/
  | cancel (error : String)

def Denial.patch : Denial → ActionPatch
  | .reject rejectedBy now =>
    { status := some .rejected, rejectedBy := some rejectedBy, rejectedAt := some now }
  | .block error => { status := some .blocked, result := error.map errorResult }
  | .cancel error => .failure .cancelled error

/-- What can happen. -/
inductive QueueLabel where
  | turn (t : ℕ) (act : Act)
  | deny (actionId : String) (d : Denial)
  | cancelUnstarted (actionId : String)
  /-- The last statement of `repropose`; the new action is a proposal of its own. -/
  | repropose (actionId : String) (result : Json)

/-- The worker that takes a lease. -/
def QueueLabel.leasedBy : QueueLabel → Option String
  | .turn _ (.lease w _ _) | .turn _ (.tick w _ _) => some w
  | _ => none

def QueueLabel.turn? : QueueLabel → Option ℕ
  | .turn t _ => some t
  | _ => none

/-- The turn is on the way to its call, or to its end without one. -/
def Turn.occupies (w : String) : Turn → Bool
  | .work w' _ phase => w' = w && phase.isSync
  | _ => false

/-- No turn of the worker is on the way to its call. -/
def QueueState.Free (s : QueueState) (w : String) : Prop := ∀ t, (s.turns t).occupies w = false

/-- A piece of a turn was done. -/
def QueueState.put (s : QueueState) (t : ℕ) (db : ActionDb) (u : Turn) : QueueState where
  db := db
  turns := Function.update s.turns t u

/-- The action stopped as stale, and no package asked for it. -/
def AgentAction.isStale (a : AgentAction) : Bool :=
  a.status = .failed && a.packageContext = none &&
    (a.result.bind fun r => r.get? "error") = some (.str staleActionError)

/-- A step of the machine. -/
def performQueue (C : WorkerConfig) (s : QueueState) : QueueLabel → Option QueueState
  | .turn t act => (advance C s.db (s.turns t) act).map fun r => s.put t r.1 r.2
  | .deny actionId d =>
    match s.db.actions.find actionId with
    | some a =>
      if a.status = .pending then some { s with db := s.db.patch actionId d.patch } else none
    | none => none
  | .cancelUnstarted actionId => some { s with db := cancelUnstartedAction s.db actionId }
  | .repropose actionId result =>
    match s.db.actions.find actionId with
    | some a =>
      if a.isStale then some { s with db := s.db.patch actionId { result := some result } }
      else none
    | none => none

/-- Empty tables. -/
def ActionDb.empty : ActionDb := ⟨.empty, .empty, .empty⟩

/-- The workers, the gate and the owner over one queue. -/
def queueMachine (C : WorkerConfig) : Machine QueueState QueueLabel where
  init := { db := .empty, turns := fun _ => .idle }
  step s l s' := performQueue C s l = some s' ∧ ∀ w, l.leasedBy = some w → s.Free w

/-- All a step can do. -/
inductive QueueStep (C : WorkerConfig) (s : QueueState) : QueueLabel → QueueState → Prop
  | turn {t : ℕ} {act : Act} {db : ActionDb} {u : Turn}
      (hfree : ∀ w, (QueueLabel.turn t act).leasedBy = some w → s.Free w)
      (h : Move C s.db (s.turns t) act db u) : QueueStep C s (.turn t act) (s.put t db u)
  | deny {actionId : String} {d : Denial} {a : AgentAction}
      (ha : s.db.actions.find actionId = some a) (hs : a.status = .pending) :
    QueueStep C s (.deny actionId d) { s with db := s.db.patch actionId d.patch }
  | cancelUnstarted (actionId : String) :
    QueueStep C s (.cancelUnstarted actionId) { s with db := cancelUnstartedAction s.db actionId }
  | repropose {actionId : String} {result : Json} {a : AgentAction}
      (ha : s.db.actions.find actionId = some a) (hs : a.isStale = true) :
    QueueStep C s (.repropose actionId result)
      { s with db := s.db.patch actionId { result := some result } }

variable {C : WorkerConfig}

/-- A step of the machine is one of the listed ones. -/
theorem queueStep_of_step {s s' : QueueState} {l : QueueLabel}
    (h : (queueMachine C).step s l s') : QueueStep C s l s' := by
  obtain ⟨hp, hfree⟩ := h
  cases l with
  | turn t act =>
    obtain ⟨r, hr, rfl⟩ := map_eq_some_iff.1 hp
    exact .turn hfree (move_of_advance hr)
  | deny actionId d =>
    simp only [performQueue] at hp
    split at hp
    · rename_i a ha
      split_ifs at hp with hs
      cases hp
      exact .deny ha hs
    · cases hp
  | cancelUnstarted actionId => cases hp; exact .cancelUnstarted actionId
  | repropose actionId result =>
    simp only [performQueue] at hp
    split at hp
    · rename_i a ha
      split_ifs at hp with hs
      cases hp
      exact .repropose ha hs
    · cases hp

/-- The action a lease takes. -/
def QueueState.leases (s : QueueState) : QueueLabel → Option String
  | .turn t (.lease _ _ now) =>
    match s.turns t with
    | .entering id => (s.db.queue.find id).bind fun q => if q.due now then some id else none
    | _ => none
  | .turn _ (.tick _ _ now) => (nextDue s.db.queue now).map QueueItem.actionId
  | _ => none

/-- The action whose tool a step calls. -/
def QueueState.calls (s : QueueState) : QueueLabel → Option String
  | .turn t .call =>
    match s.turns t with
    | .work _ item (.calling _) => some item.actionId
    | _ => none
  | _ => none

/-- Steps one after another, as long as they can be done; only the first `n` turns take part. -/
def driveQueue (C : WorkerConfig) (n : ℕ) (s : QueueState) : List QueueLabel → Option QueueState
  | [] => some s
  | l :: h =>
    if l.turn?.all (· < n) ∧ l.leasedBy.all fun w => ∀ t < n, (s.turns t).occupies w = false then
      (performQueue C s l).bind fun s' => driveQueue C n s' h
    else none

/-- What is driven by turns below a bound is a run, and the turns from there on are idle. -/
theorem steps_driveQueue {n : ℕ} {s s' : QueueState} {h : List QueueLabel}
    (hs : ∀ t, n ≤ t → s.turns t = .idle) (hd : driveQueue C n s h = some s') :
    (queueMachine C).Steps s h s' ∧ ∀ t, n ≤ t → s'.turns t = .idle := by
  induction h generalizing s with
  | nil => cases hd; exact ⟨.nil, hs⟩
  | cons l h ih =>
    simp only [driveQueue] at hd
    split_ifs at hd with hl
    obtain ⟨s₁, h₁, hd⟩ := bind_eq_some_iff.1 hd
    have hfree : ∀ w, l.leasedBy = some w → s.Free w := by
      intro w hw t
      by_cases ht : t < n
      · have hall := hl.2
        rw [hw] at hall
        exact of_decide_eq_true hall t ht
      · rw [hs t (not_lt.1 ht)]
        rfl
    have hs₁ : ∀ t, n ≤ t → s₁.turns t = .idle := by
      intro t ht
      cases queueStep_of_step (C := C) ⟨h₁, hfree⟩ with
      | @turn t' act db u _ _ =>
        have ht' : t' < n := by simpa [QueueLabel.turn?] using hl.1
        simp only [QueueState.put]
        rw [Function.update_of_ne (by omega)]
        exact hs t ht
      | _ => exact hs t ht
    obtain ⟨hsteps, hidle⟩ := ih hs₁ hd
    exact ⟨.cons ⟨h₁, hfree⟩ hsteps, hidle⟩

/-- A decision that asks for nothing. -/
def allowed : Evaluation where
  autonomyLevel := .level 4
  requiresApproval := false
  blocked := false
  domain := "email"
  rule := "email.send:autonomous"
  reason := "email.send is configured for delegated autonomy."

/-- A decision that blocks. -/
def forbidden : Evaluation where
  autonomyLevel := .level 5
  requiresApproval := true
  blocked := true
  domain := "email"
  rule := "email.send:never"
  reason := "email.send is blocked by policy (never)."

/-- A proposal to send an e-mail. -/
def emailProposal (e : Evaluation) : Proposal where
  id := "act-1"
  requestedBy := "owner"
  tool := "email.send"
  arguments := .obj [("to", .str "ada@example.org")]
  evaluation := e

/-- What a worker sees of the e-mail. -/
def emailView (e : Evaluation) (now : ℕ) : View where
  now := now
  evaluation := .ok e

/-- Workers whose tools do not support idempotency. -/
def plainWorkers : WorkerConfig where
  idempotent _ := false

/-- The action is proposed, enqueued and leased by the worker `w-1`, by the turn 0. -/
def proposeAndLease : List QueueLabel :=
  [.turn 0 (.propose (emailProposal allowed) 0), .turn 0 (.enqueue 0),
    .turn 0 (.lease "w-1" 30_000 0), .turn 0 (.expire 0)]

theorem driveQueue_append (C : WorkerConfig) (n : ℕ) (s : QueueState) (h h' : List QueueLabel) :
    driveQueue C n s (h ++ h') = (driveQueue C n s h).bind fun s' => driveQueue C n s' h' := by
  induction h generalizing s with
  | nil => rfl
  | cons l h ih =>
    simp only [List.cons_append, driveQueue]
    split_ifs
    · rw [bind_assoc]
      exact Option.bind_congr fun s' _ => ih s'
    · rfl

/-- The status of an action after steps from the start. -/
def statusAfter (C : WorkerConfig) (n : ℕ) (h : List QueueLabel) (a : String) :
    Option ActionStatus :=
  (driveQueue C n (queueMachine C).init h).bind fun s =>
    (s.db.actions.find a).map AgentAction.status

theorem exists_run_of_statusAfter {n : ℕ} {h h' : List QueueLabel} {a : String}
    {st st' : ActionStatus} (hs : statusAfter C n h a = some st)
    (hs' : statusAfter C n (h ++ h') a = some st') :
    ∃ s s' r r', (queueMachine C).Run h s ∧ (queueMachine C).Steps s h' s' ∧
      s.db.actions.find a = some r ∧ r.status = st ∧
      s'.db.actions.find a = some r' ∧ r'.status = st' := by
  obtain ⟨s, hd, hr⟩ := bind_eq_some_iff.1 hs
  obtain ⟨s', hd', hr'⟩ := bind_eq_some_iff.1 hs'
  rw [driveQueue_append, hd, bind_some] at hd'
  obtain ⟨r, hf, rfl⟩ := map_eq_some_iff.1 hr
  obtain ⟨r', hf', rfl⟩ := map_eq_some_iff.1 hr'
  obtain ⟨hrun, hidle⟩ := steps_driveQueue (fun _ _ => rfl) hd
  exact ⟨s, s', r, r', hrun, (steps_driveQueue hidle hd').1, hf, rfl, hf', rfl⟩

@[simp] theorem find_patch (db : ActionDb) (id : String) (patch : ActionPatch) (k : String) :
    (db.patch id patch).actions.find k =
      (db.actions.find k).map fun a => if k = id then patch.apply a else a :=
  find_updateAgentAction

@[simp] theorem QueueState.put_db (s : QueueState) (t : ℕ) (db : ActionDb) (u : Turn) :
    (s.put t db u).db = db := rfl

theorem QueueState.put_turns (s : QueueState) (t : ℕ) (db : ActionDb) (u : Turn) (t' : ℕ) :
    (s.put t db u).turns t' = if t' = t then u else s.turns t' := by
  simp only [QueueState.put, Function.update_apply]

@[simp] theorem QueueState.put_turns_self (s : QueueState) (t : ℕ) (db : ActionDb) (u : Turn) :
    (s.put t db u).turns t = u := by
  simp [QueueState.put_turns]

theorem QueueState.put_turns_of_ne (s : QueueState) {t t' : ℕ} (db : ActionDb) (u : Turn)
    (h : t' ≠ t) : (s.put t db u).turns t' = s.turns t' := by
  simp [QueueState.put_turns, h]

/-- The action a piece patches; an approval apart. -/
def Turn.patch? : Turn → Act → Option (String × ActionPatch)
  | .proposed p, .withdraw => some (p.id, .failure .cancelled "Run cancelled before execution")
  | .work _ item (.noting note _), .note => some (item.actionId, note.patch)
  | .work _ item (.returned _ result), .record none =>
    some (item.actionId, { status := some .executed, result := some result })
  | .work _ item (.threw _ e), .note => some (item.actionId, .failure .failed e.message)
  | _, _ => none

/-- A piece inserts a proposal, approves a pending action, patches an action or leaves the actions
alone. -/
inductive ActionWrite (db : ActionDb) (u : Turn) (act : Act) (db' : ActionDb) : Prop
  | insert {p : Proposal} {now : ℕ} (hu : u = .idle) (hact : act = .propose p now)
      (h : db.actions.insert? (p.row now) = some db'.actions)
  | approve {id approvedBy rule : String} {now : ℕ} {a : AgentAction}
      (hact : act = .approve id approvedBy rule now)
      (ha : db.actions.find id = some a) (hs : a.status = .pending)
      (h : db'.actions = updateAgentAction db.actions id (approval approvedBy now))
  | patch {id : String} {patch : ActionPatch} (hp : u.patch? act = some (id, patch))
      (h : db'.actions = updateAgentAction db.actions id patch)
  | keep (h : db'.actions = db.actions)

theorem beginActionAttempt_actions {db : ActionDb} {a w id : String} {now : ℕ}
    {r : ActionDb × Attempt} (h : beginActionAttempt db a w id now = some r) :
    r.1.actions = db.actions := by
  obtain ⟨q, attempts, -, -, -, -, -, -, rfl⟩ := beginActionAttempt_eq_some h
  rfl

theorem settleAttempt_actions {db : ActionDb} {id w : String} {x : Settlement} {now : ℕ}
    {r : ActionDb × QueueItem} (h : settleAttempt db id w x now = some r) :
    r.1.actions = db.actions := by
  obtain ⟨y, q, -, -, -, -, -, -, rfl⟩ := settleAttempt_eq_some h
  rfl

theorem Move.actionWrite {db db' : ActionDb} {u u' : Turn} {act : Act}
    (h : Move C db u act db' u') : ActionWrite db u act db' := by
  cases h with
  | propose h => exact .insert rfl rfl h
  | withdraw => exact .patch rfl rfl
  | approve ha hs => exact .approve rfl ha hs rfl
  | work h =>
    cases h with
    | note | record | noteFailure => exact .patch rfl rfl
    | settle h | begin h => exact .keep (beginActionAttempt_actions h)
    | settled h | complete h => exact .keep (settleAttempt_actions h)
    | fail h =>
      obtain ⟨y, -, h⟩ := failActionAttempt_eq_some h
      exact .keep (settleAttempt_actions h)
    | _ => exact .keep rfl
  | _ => exact .keep rfl

theorem ActionWrite.find_eq {db db' : ActionDb} {u : Turn} {act : Act}
    (h : ActionWrite db u act db') {a : String} {r : AgentAction}
    (hr : db.actions.find a = some r) :
    db'.actions.find a = some r ∨
      (r.status = .pending ∧ ∃ by_ rule now, act = .approve a by_ rule now ∧
        db'.actions.find a = some ((approval by_ now).apply r)) ∨
      ∃ patch, u.patch? act = some (a, patch) ∧ db'.actions.find a = some (patch.apply r) := by
  have hpatch : ∀ id patch, (updateAgentAction db.actions id patch).find a =
      some (if a = id then patch.apply r else r) := by
    intro id patch
    rw [find_updateAgentAction, hr]
    rfl
  cases h with
  | @insert p now hu hact h =>
    refine .inl ?_
    rw [Table.find_insert? h, if_neg, hr]
    rintro rfl
    exact (Table.insert?_eq_some.1 h).1 r (Table.mem_of_find hr) (Table.key_of_find hr)
  | @approve id by_ rule now b hact hb hs h =>
    rw [h, hpatch]
    by_cases hid : a = id
    · subst hid
      rw [hr, some_inj] at hb
      exact .inr (.inl ⟨hb ▸ hs, by_, rule, now, hact, by rw [if_pos rfl]⟩)
    · exact .inl (by rw [if_neg hid])
  | @patch id patch hp h =>
    rw [h, hpatch]
    by_cases hid : a = id
    · subst hid
      exact .inr (.inr ⟨patch, hp, by rw [if_pos rfl]⟩)
    · exact .inl (by rw [if_neg hid])
  | keep h => exact .inl (h ▸ hr)

end U2os.Server.Agent
