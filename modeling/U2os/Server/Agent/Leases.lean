import U2os.Server.Agent.QueueMachine

/-!
# Leases and attempts

What holds of the queue and of the attempts in every run of the queue machine: turns and rows fit
together, a worker is on the way to one call at a time, a worker that holds its lease finds no
attempt under way, and an item never has two attempts under way.

The proofs do not follow the pieces of the turns one by one.  What a piece does to the two tables
is said once (`QueueWrite`), and the invariants are kept by each of these writes.

## Main results

* `Move.queueWrite` : every piece of a turn is one of the writes.
* `sound_of_run` : the invariant holds in every run.
* `one_executing_attempt` : at most one attempt of an item is under way.
-/

namespace U2os.Server.Agent

open Option QueueItem QueueState Table

/-! ### Writes of the queue -/

/-- The turn is a worker's. -/
def Turn.isWork : Turn → Bool
  | .work .. => true
  | _ => false

/-- A worker in this phase has taken its lease, closed the lost attempts and begun none. -/
def Phase.isReady : Phase → Bool
  | .checking | .noting .. | .stopping _ | .settling | .beginning => true
  | _ => false

/-- The attempt a worker has begun, for a call or for the books. -/
def Phase.begun? : Phase → Option String
  | .settled i => some i
  | phase => phase.attempt?

/-- A worker in this phase is about to complete its attempt. -/
def Phase.isCompleting : Phase → Bool
  | .settled _ | .published .. => true
  | _ => false

/-- What a piece of a turn does to the queue and to the attempts. -/
inductive QueueWrite (C : WorkerConfig) (db : ActionDb) : Turn → ActionDb → Turn → Prop
  | leave {u u' : Turn} {db' : ActionDb} (hu : u'.isWork = false) (hq : db'.queue = db.queue)
      (ha : db'.attempts = db.attempts) : QueueWrite C db u db' u'
  | enqueue {u u' : Turn} {db' : ActionDb} {x : Enqueue} {now : ℕ} (hu : u'.isWork = false)
      (hq : enqueueAction db.queue x now = some db'.queue) (ha : db'.attempts = db.attempts) :
    QueueWrite C db u db' u'
  | requeue {u' : Turn} {db' : ActionDb} {x : Enqueue} {ref decision : String} {now : ℕ}
      (hu : u'.isWork = false)
      (hq : requeueAction db.queue x.actionId ref decision now = some db'.queue)
      (ha : db'.attempts = db.attempts) : QueueWrite C db (.approved x) db' u'
  | lease {u : Turn} {db' : ActionDb} {w : String} {leaseMs now : ℕ} {q : QueueItem}
      (hu : u.isWork = false) (hf : db.queue.find q.actionId = some q) (hdue : q.due now)
      (hq : db'.queue = db.queue.put (q.leased w leaseMs now)) (ha : db'.attempts = db.attempts) :
    QueueWrite C db u db' (.work w (q.leased w leaseMs now) .recovering)
  | expire (w : String) (item : QueueItem) (now : ℕ) :
    QueueWrite C db (.work w item .recovering)
      { db with attempts := expireAttempts db.attempts item.actionId now } (.work w item .checking)
  | check (w : String) (item : QueueItem) (v : View) :
    QueueWrite C db (.work w item .checking) db (.work w item (executeLeased C
      (db.actions.find item.actionId) item (listActionAttempts db.attempts item.actionId) v).phase)
  | note {db' : ActionDb} (w : String) (item : QueueItem) (note : Note) (x : Stop)
      (hq : db'.queue = db.queue) (ha : db'.attempts = db.attempts) :
    QueueWrite C db (.work w item (.noting note x)) db' (.work w item (.stopping x))
  | stop {u' : Turn} {db' : ActionDb} (hu : u'.isWork = false) {w : String} {item : QueueItem}
      {x : Stop}
      (hq : stopLeasedAction db.queue item.actionId w x.status x.error x.errorClass =
        some db'.queue) (ha : db'.attempts = db.attempts) :
    QueueWrite C db (.work w item (.stopping x)) db' u'
  | begin {w : String} {item : QueueItem} {id : String} {now : ℕ} {r : ActionDb × Attempt}
      {phase phase' : Phase}
      (hphase : phase = .beginning ∧ phase' = .calling id ∨
        phase = .settling ∧ phase' = .settled id)
      (h : beginActionAttempt db item.actionId w id now = some r) :
    QueueWrite C db (.work w item phase) r.1 (.work w item phase')
  /-- Before, during and after the call. -/
  | call {db' : ActionDb} {w : String} {item : QueueItem} {id : String} {phase phase' : Phase}
      (hp : phase.attempt? = some id) (hp' : phase'.attempt? = some id)
      (hsync : phase'.isSync = false)
      (hq : db'.queue = db.queue) (ha : db'.attempts = db.attempts) :
    QueueWrite C db (.work w item phase) db' (.work w item phase')
  | renew (w : String) (item : QueueItem) (id : String) (leaseMs now : ℕ) :
    QueueWrite C db (.work w item (.inFlight id))
      { db with queue := renewActionLease db.queue item.actionId w leaseMs now }
      (.work w item (.inFlight id))
  | complete {u' : Turn} (hu : u'.isWork = false) {w : String} {item : QueueItem} {id : String}
      {phase : Phase} (hp : phase.begun? = some id) (hc : phase.isCompleting = true) {now : ℕ}
      {r : ActionDb × QueueItem} (h : completeActionAttempt db id w now = some r) :
    QueueWrite C db (.work w item phase) r.1 u'
  | fail {u' : Turn} (hu : u'.isWork = false) {w : String} {item : QueueItem} {id : String}
      {e : ToolError} {error : String} {c : ErrorClass} {now : ℕ}
      {r : ActionDb × QueueItem} (h : failActionAttempt db id w error c now = some r) :
    QueueWrite C db (.work w item (.failed id e)) r.1 u'

variable {db' : ActionDb} {a i id k w : String} {item p q q' : QueueItem} {phase : Phase}
  {u' : Turn}

variable {act : Act}

theorem Work.queueWrite {C : WorkerConfig} {db : ActionDb} (h : Work C db w item phase act db' u') :
    QueueWrite C db (.work w item phase) db' u' := by
  cases h with
  | expire now => exact .expire w item now
  | check v => exact .check w item v
  | note note x => exact .note w item note x rfl rfl
  | stop h => exact .stop rfl h rfl
  | settle h => exact .begin (.inr ⟨rfl, rfl⟩) h
  | settled h => exact .complete rfl rfl rfl h
  | begin h => exact .begin (.inl ⟨rfl, rfl⟩) h
  | renew id leaseMs now => exact .renew w item id leaseMs now
  | complete h => exact .complete rfl rfl rfl h
  | fail h => exact .fail rfl h
  | _ => exact .call rfl rfl rfl rfl rfl

theorem Move.queueWrite {C : WorkerConfig} {db : ActionDb} {u : Turn}
    (h : Move C db u act db' u') : QueueWrite C db u db' u' := by
  cases h with
  | enqueue _ h => exact .enqueue rfl h rfl
  | @dispatch x now queue h =>
    unfold Agent.dispatch at h
    split_ifs at h
    · exact .requeue rfl h rfl
    · exact .enqueue rfl h rfl
  | lease h =>
    obtain ⟨q, hq, hdue, rfl⟩ := leaseActionByActionId_eq_some h
    obtain rfl := key_of_find hq
    exact .lease rfl hq hdue rfl rfl
  | tick h =>
    obtain ⟨q, -, hq, hdue, rfl⟩ := leaseNextAction_eq_some h
    exact .lease rfl hq hdue rfl rfl
  | work h => exact h.queueWrite
  | _ => exact .leave rfl rfl rfl

/-! ### Items and attempts -/

/-- How the row of an item can change. -/
inductive ItemChange (q : QueueItem) : QueueItem → Prop
  | keep : ItemChange q q
  | requeue (ref decision : String) (now : ℕ) (h : q.status = .failed ∨ q.status = .cancelled) :
    ItemChange q (q.requeued ref decision now)
  | lease (w : String) (leaseMs now : ℕ) (h : q.due now) : ItemChange q (q.leased w leaseMs now)
  | stop (st : StopStatus) (error : String) (c : ErrorClass) (h : q.status = .leased) :
    ItemChange q (q.stopped st error c)
  | renew (expiresAt : ℕ) (h : q.status.isHeld = true) :
    ItemChange q { q with leaseExpiresAt := some expiresAt }
  | begin (h : q.status = .leased) : ItemChange q q.begun
  | settle (x : Settlement) (h : q.status = .executing)
      (hx : x.queueStatus = .completed ∨ x.queueStatus = .retryWait ∨
        x.queueStatus = .deadLetter ∨ x.queueStatus = .failed) : ItemChange q (q.settled x)
  | unstart (h : q.status.waits = true) : ItemChange q q.unstarted

theorem ItemChange.fixed (h : ItemChange q q') :
    q'.actionId = q.actionId ∧ q'.tool = q.tool ∧ q'.arguments = q.arguments ∧
      q.attemptCount ≤ q'.attemptCount := by
  cases h <;> exact ⟨rfl, rfl, rfl, by simp [requeued, leased,
    stopped, begun, settled, unstarted]⟩

variable {queue : Queue}

theorem find_put_item (hq : queue.find a = some q) (hid : q'.actionId = a) (k : String) :
    (queue.put q').find k = if k = a then some q' else queue.find k := by
  subst hid
  exact find_put_of_find hq k

theorem itemChange_put
    (hq : queue.find a = some q) (hc : ItemChange q q') (hp : queue.find k = some p) :
    ∃ p', (queue.put q').find k = some p' ∧ ItemChange p p' := by
  have hid : q'.actionId = a := hc.fixed.1.trans (key_of_find hq)
  rw [find_put_item hq hid]
  split_ifs with hk
  · subst hk
    rw [hq, some_inj] at hp
    exact ⟨q', rfl, hp ▸ hc⟩
  · exact ⟨p, hp, .keep⟩

variable {now : ℕ} {r : ActionDb × QueueItem}

theorem itemChange_settle {db : ActionDb} {x : Settlement}
    (h : settleAttempt db id w x now = some r)
    (hx : x.queueStatus = .completed ∨ x.queueStatus = .retryWait ∨
      x.queueStatus = .deadLetter ∨ x.queueStatus = .failed)
    {k : String} {p : QueueItem} (hp : db.queue.find k = some p) :
    ∃ p', r.1.queue.find k = some p' ∧ ItemChange p p' := by
  obtain ⟨y, q, -, -, -, hq, hs, -, rfl⟩ := settleAttempt_eq_some h
  exact itemChange_put hq (.settle x hs hx) hp

theorem find_renewActionLease (queue : Queue) (a w : String) (leaseMs now : ℕ) (k : String) :
    (renewActionLease queue a w leaseMs now).find k = (queue.find k).map fun q =>
      if q.actionId = a ∧ q.status.isHeld ∧ q.leaseOwner = some w then
        { q with leaseExpiresAt := some (now + leaseMs) }
      else q :=
  find_updateWhere (t := queue)

/-- An item goes on in its row, whatever is written. -/
theorem QueueWrite.itemChange {C : WorkerConfig} {db : ActionDb} {u : Turn}
    (h : QueueWrite C db u db' u') {k : String} {p : QueueItem} (hp : db.queue.find k = some p) :
    ∃ p', db'.queue.find k = some p' ∧ ItemChange p p' := by
  have hkeep : ∀ {queue}, queue = db.queue → ∃ p', queue.find k = some p' ∧ ItemChange p p' :=
    fun e => ⟨p, e ▸ hp, .keep⟩
  cases h with
  | leave _ hq => exact hkeep hq
  | enqueue _ hq =>
    refine ⟨p, ?_, .keep⟩
    rw [find_enqueueAction hq, if_neg, hp]
    rintro ⟨-, hn⟩
    rw [hp] at hn
    cases hn
  | requeue _ hq =>
    obtain ⟨q, hf, hs, -, hq⟩ := requeueAction_eq_some hq
    rw [hq]
    exact itemChange_put hf (.requeue _ _ _ hs) hp
  | lease _ hf hdue hq =>
    rw [hq]
    exact itemChange_put hf (.lease _ _ _ hdue) hp
  | expire | check => exact hkeep rfl
  | note _ _ _ _ hq => exact hkeep hq
  | stop _ hq =>
    obtain ⟨q, hf, hs, -, hq⟩ := stopLeasedAction_eq_some hq
    rw [hq]
    exact itemChange_put hf (.stop _ _ _ hs) hp
  | begin _ h =>
    obtain ⟨q, attempts, hf, hs, -, -, -, -, rfl⟩ := beginActionAttempt_eq_some h
    exact itemChange_put hf (.begin hs) hp
  | call _ _ _ hq => exact hkeep hq
  | renew w item id leaseMs now =>
    refine ⟨_, (find_renewActionLease ..).trans (congrArg (Option.map _) hp), ?_⟩
    dsimp only
    split_ifs with hr
    · exact .renew _ hr.2.1
    · exact .keep
  | complete _ _ _ h => exact itemChange_settle h (.inl rfl) hp
  | fail _ h =>
    obtain ⟨y, -, h⟩ := failActionAttempt_eq_some h
    exact itemChange_settle h (.inr (failure_queueStatus ..)) hp

theorem find_put_of_none {p' : QueueItem}
    (hp : queue.find k = some p) (hid : p'.actionId = p.actionId) (hq : queue.find a = none) :
    (queue.put p').find a = none := by
  have hne : a ≠ k := by
    rintro rfl
    rw [hp] at hq
    cases hq
  exact ((find_put_item hp (hid.trans (key_of_find hp)) a).trans (if_neg hne)).trans hq

theorem find_settle_of_none {db : ActionDb} {x : Settlement}
    (h : settleAttempt db id w x now = some r)
    (hq : db.queue.find a = none) : r.1.queue.find a = none := by
  obtain ⟨y, p, -, -, -, hp, -, -, rfl⟩ := settleAttempt_eq_some h
  exact find_put_of_none hp rfl hq

theorem find_begin_of_none {db : ActionDb} {r : ActionDb × Attempt}
    (h : beginActionAttempt db k w id now = some r) (hq : db.queue.find a = none) :
    r.1.queue.find a = none := by
  obtain ⟨p, attempts, hp, -, -, -, -, -, rfl⟩ := beginActionAttempt_eq_some h
  exact find_put_of_none hp rfl hq

theorem find_enqueue_of_none {queue' : Queue} {x : Enqueue}
    (h : enqueueAction queue x now = some queue') (hq : queue.find a = none)
    (hq' : queue'.find a = some q') : x.actionId = a ∧ q' = x.row now := by
  rw [find_enqueueAction h] at hq'
  split_ifs at hq' with hk
  · exact ⟨hk.1.symm, (some_inj.1 hq').symm⟩
  · rw [hq] at hq'
    cases hq'

/-- An action comes into the queue through its proposal or its approval. -/
theorem Move.enqueues {C : WorkerConfig} {db : ActionDb} {u : Turn}
    (h : Move C db u act db' u') {a : String} (hq : db.queue.find a = none) {q' : QueueItem}
    (hq' : db'.queue.find a = some q') : ∃ (x : Enqueue) (now : ℕ), x.actionId = a ∧ q' = x.row now ∧
      (u = .approved x ∨ ∃ p, u = .proposed p ∧ x = p.enqueue) := by
  have habsurd : db'.queue.find a = none → ∃ (x : Enqueue) (now : ℕ), x.actionId = a ∧
      q' = x.row now ∧ (u = .approved x ∨ ∃ p, u = .proposed p ∧ x = p.enqueue) := by
    intro hn
    rw [hn] at hq'
    cases hq'
  cases h with
  | @enqueue p now queue _ h =>
    obtain ⟨hx, hrow⟩ := find_enqueue_of_none h hq hq'
    exact ⟨_, now, hx, hrow, .inr ⟨p, rfl, rfl⟩⟩
  | @dispatch x now queue h =>
    unfold Agent.dispatch at h
    split_ifs at h
    · obtain ⟨p, hp, -, -, rfl⟩ := requeueAction_eq_some h
      exact habsurd (find_put_of_none hp rfl hq)
    · obtain ⟨hx, hrow⟩ := find_enqueue_of_none h hq hq'
      exact ⟨x, now, hx, hrow, .inl rfl⟩
  | lease h =>
    obtain ⟨p, hp, -, rfl⟩ := leaseActionByActionId_eq_some h
    exact habsurd (find_put_of_none hp rfl hq)
  | tick h =>
    obtain ⟨p, -, hp, -, rfl⟩ := leaseNextAction_eq_some h
    exact habsurd (find_put_of_none hp rfl hq)
  | work h =>
    apply habsurd
    cases h with
    | stop h =>
      obtain ⟨p, hp, -, -, rfl⟩ := stopLeasedAction_eq_some h
      exact find_put_of_none hp rfl hq
    | settle h | begin h => exact find_begin_of_none h hq
    | settled h | complete h => exact find_settle_of_none h hq
    | renew => exact (find_renewActionLease ..).trans (congrArg (Option.map _) hq)
    | fail h =>
      obtain ⟨y, -, h⟩ := failActionAttempt_eq_some h
      exact find_settle_of_none h hq
    | _ => exact hq
  | _ => exact habsurd hq

/-- How an attempt can change. -/
inductive AttemptChange (x : Attempt) : Attempt → Prop
  | keep : AttemptChange x x
  | expire (now : ℕ) (h : x.status = .executing) : AttemptChange x (x.expired now)
  | settle (y : Settlement) (now : ℕ) (h : x.status = .executing)
      (hy : y.attemptStatus ≠ .executing) : AttemptChange x (x.settled y now)

variable {x x' : Attempt}

theorem AttemptChange.fixed (h : AttemptChange x x') :
    x'.id = x.id ∧ x'.actionId = x.actionId ∧ x'.attemptNumber = x.attemptNumber ∧
      x'.leaseOwner = x.leaseOwner := by
  cases h <;> exact ⟨rfl, rfl, rfl, rfl⟩

theorem AttemptChange.executing (h : AttemptChange x x')
    (hx : x'.status = .executing) : x' = x := by
  cases h with
  | keep => rfl
  | expire => cases hx
  | settle y now _ hy => exact absurd hx hy

/-- The attempt is under way, or its worker was lost. -/
def Attempt.isOpen (x : Attempt) : Prop := x.status = .executing ∨ x.error = some leaseExpired

theorem AttemptChange.isOpen (h : AttemptChange x x') (hx : x'.isOpen) :
    x.isOpen := by
  cases h with
  | keep => exact hx
  | expire now h | settle y now h => exact .inl h

theorem failure_attemptStatus (n : ℕ) (error : String) (c : ErrorClass) (now : ℕ) :
    (failure n error c now).attemptStatus ≠ .executing := by
  simp [failure]

theorem attemptChange_settle {db : ActionDb} {x : Settlement}
    (h : settleAttempt db id w x now = some r)
    (hx : x.attemptStatus ≠ .executing) (i : String) :
    (∀ y', r.1.attempts.find i = some y' → ∃ y, db.attempts.find i = some y ∧ AttemptChange y y') ∧
      ∀ y, db.attempts.find i = some y → ∃ y', r.1.attempts.find i = some y' ∧
        AttemptChange y y' := by
  obtain ⟨y, q, hy, hs, -, -, -, -, rfl⟩ := settleAttempt_eq_some h
  have hyid : y.id = id := key_of_find hy
  have hid : (y.settled x now).id = id := hyid
  have hfind : (db.attempts.put (y.settled x now)).find i =
      if i = id then some (y.settled x now) else db.attempts.find i := by
    subst hid
    exact find_put_of_find hy i
  have hc : AttemptChange y (y.settled x now) := .settle x now hs hx
  by_cases hi : i = id
  · rw [hi] at hfind ⊢
    rw [if_pos rfl] at hfind
    refine ⟨fun y' hy' => ⟨y, hy, ?_⟩, fun z hz => ⟨_, hfind, ?_⟩⟩
    · rwa [← some_inj.1 (hfind.symm.trans hy')]
    · rwa [← some_inj.1 (hy.symm.trans hz)]
  · rw [if_neg hi] at hfind
    exact ⟨fun y' hy' => ⟨y', hfind ▸ hy', .keep⟩, fun z hz => ⟨z, hfind ▸ hz, .keep⟩⟩

theorem find_expireAttempts (attempts : Attempts) (a : String) (now : ℕ) (i : String) :
    (expireAttempts attempts a now).find i = (attempts.find i).map fun x =>
      if x.actionId = a ∧ x.status = .executing then x.expired now else x :=
  find_updateWhere (t := attempts)

/-- The attempt `x'` was begun by the turn. -/
structure Begins (db : ActionDb) (u : Turn) (db' : ActionDb) (u' : Turn) (i : String)
    (x' : Attempt) : Prop where
  fresh : db.attempts.find i = none
  turn : ∃ w item phase phase' now q, u = .work w item phase ∧ u' = .work w item phase' ∧
    (phase = .beginning ∧ phase' = .calling i ∨ phase = .settling ∧ phase' = .settled i) ∧
    db.queue.find item.actionId = some q ∧ q.status = .leased ∧ q.leaseOwner = some w ∧
    db'.queue.find item.actionId = some q.begun ∧ x' = q.attempt i w now

theorem begins_of_begin {db : ActionDb} {r : ActionDb × Attempt} {phase' : Phase}
    (hphase : phase = .beginning ∧ phase' = .calling id ∨
      phase = .settling ∧ phase' = .settled id)
    (h : beginActionAttempt db item.actionId w id now = some r) :
    ∃ x, r.1.attempts.find id = some x ∧ x.actionId = item.actionId ∧
      Begins db (.work w item phase) r.1 (.work w item phase') id x := by
  obtain ⟨q, attempts, hf, hs, ho, he, hn, hi, rfl⟩ := beginActionAttempt_eq_some h
  have hid : q.actionId = item.actionId := key_of_find hf
  have hx : attempts.find id = some (q.attempt id w now) :=
    find_key ((mem_of_insert? hi).2 (.inr rfl))
  refine ⟨_, hx, hid, find_eq_none.2 (insert?_eq_some.1 hi).1, w, item, phase,
    phase', now, q, rfl, rfl, hphase, hf, hs, ho, ?_, rfl⟩
  exact (find_put_item hf (show q.begun.actionId = item.actionId from hid) _).trans (if_pos rfl)

/-- An attempt was there before, or the worker has just begun it. -/
theorem QueueWrite.attempt_back {C : WorkerConfig} {db : ActionDb} {u : Turn}
    (h : QueueWrite C db u db' u') {i : String} {x' : Attempt}
    (hx : db'.attempts.find i = some x') :
    (∃ x, db.attempts.find i = some x ∧ AttemptChange x x') ∨ Begins db u db' u' i x' := by
  have hkeep : db'.attempts = db.attempts → (∃ x, db.attempts.find i = some x ∧
      AttemptChange x x') ∨ Begins db u db' u' i x' :=
    fun e => .inl ⟨x', e ▸ hx, .keep⟩
  cases h with
  | leave _ _ ha | enqueue _ _ ha | requeue _ _ ha | lease _ _ _ _ ha => exact hkeep ha
  | expire w item now =>
    rw [find_expireAttempts, map_eq_some_iff] at hx
    obtain ⟨x, hx, rfl⟩ := hx
    refine .inl ⟨x, hx, ?_⟩
    split_ifs with he
    · exact .expire now he.2
    · exact .keep
  | check => exact hkeep rfl
  | note _ _ _ _ _ ha | stop _ _ ha | call _ _ _ _ ha => exact hkeep ha
  | renew => exact hkeep rfl
  | @begin w item id now r phase phase' hphase h =>
    obtain ⟨x, hf, -, hb⟩ := begins_of_begin hphase h
    by_cases hid : i = id
    · subst hid
      rw [hx, some_inj] at hf
      exact .inr (hf ▸ hb)
    · obtain ⟨q, attempts, -, -, -, -, -, hi, rfl⟩ := beginActionAttempt_eq_some h
      rw [find_insert? hi] at hx
      exact .inl ⟨x', (if_neg hid).symm.trans hx, .keep⟩
  | complete _ _ _ h => exact .inl ((attemptChange_settle h (by decide) i).1 x' hx)
  | fail _ h =>
    obtain ⟨y, -, h⟩ := failActionAttempt_eq_some h
    exact .inl ((attemptChange_settle h (failure_attemptStatus _ _ _ _) i).1 x' hx)

theorem QueueWrite.attempt_forth {C : WorkerConfig} {db : ActionDb} {u : Turn}
    (h : QueueWrite C db u db' u') {i : String} {x : Attempt} (hx : db.attempts.find i = some x) :
    ∃ x', db'.attempts.find i = some x' ∧ AttemptChange x x' := by
  have hkeep : db'.attempts = db.attempts →
      ∃ x', db'.attempts.find i = some x' ∧ AttemptChange x x' := fun e => ⟨x, e ▸ hx, .keep⟩
  cases h with
  | leave _ _ ha | enqueue _ _ ha | requeue _ _ ha | lease _ _ _ _ ha => exact hkeep ha
  | expire w item now =>
    refine ⟨_, (find_expireAttempts ..).trans (congrArg (Option.map _) hx), ?_⟩
    dsimp only
    split_ifs with he
    · exact .expire now he.2
    · exact .keep
  | check => exact hkeep rfl
  | note _ _ _ _ _ ha | stop _ _ ha | call _ _ _ _ ha => exact hkeep ha
  | renew => exact hkeep rfl
  | begin _ h =>
    obtain ⟨q, attempts, -, -, -, -, -, hi, rfl⟩ := beginActionAttempt_eq_some h
    refine ⟨x, (find_insert? hi i).trans (if_neg ?_ |>.trans hx), .keep⟩
    rintro rfl
    exact (insert?_eq_some.1 hi).1 x (mem_of_find hx) (key_of_find hx)
  | complete _ _ _ h => exact (attemptChange_settle h (by decide) i).2 x hx
  | fail _ h =>
    obtain ⟨y, -, h⟩ := failActionAttempt_eq_some h
    exact (attemptChange_settle h (failure_attemptStatus _ _ _ _) i).2 x hx

/-- The item is leased to the worker. -/
def QueueItem.leasedTo (w : String) (q : QueueItem) : Prop :=
  q.status = .leased ∧ q.leaseOwner = some w

/-- Where the row of an item comes from, as far as workers may hold the item. -/
inductive ItemBack (db : ActionDb) (u : Turn) (db' : ActionDb) (u' : Turn) (k : String)
    (q' : QueueItem) : Prop
  | same {q : QueueItem} (hq : db.queue.find k = some q) (hs : q.status = q'.status)
      (ho : q.leaseOwner = q'.leaseOwner)
  | leased {w : String} {item : QueueItem} (hu : u' = .work w item .recovering)
      (hl : q'.leasedTo w)
  | begun {i : String} {x : Attempt} (hx : x.actionId = k) (hb : Begins db u db' u' i x)
      (hs : q'.status = .executing)
  | released (hs : q'.status.isHeld = false)

theorem itemBack_put {db : ActionDb} {u : Turn}
    (p' : QueueItem) (hp : db.queue.find id = some p) (hid : p'.actionId = p.actionId)
    (hq : (db.queue.put p').find k = some q')
    (h : k = id → q' = p' → ItemBack db u db' u' k q') : ItemBack db u db' u' k q' := by
  rw [find_put_item hp (hid.trans (key_of_find hp))] at hq
  split_ifs at hq with hk
  · exact h hk (some_inj.1 hq).symm
  · exact .same hq rfl rfl

theorem itemBack_settle {db : ActionDb} {u : Turn} {x : Settlement}
    (h : settleAttempt db id w x now = some r)
    (hx : x.queueStatus.isHeld = false) (hq : r.1.queue.find k = some q') :
    ItemBack db u r.1 u' k q' := by
  obtain ⟨y, p, -, -, -, hp, -, -, rfl⟩ := settleAttempt_eq_some h
  exact itemBack_put (p.settled x) hp rfl hq fun _ e => .released (e ▸ hx)

theorem failure_isHeld (n : ℕ) (error : String) (c : ErrorClass) (now : ℕ) :
    (failure n error c now).queueStatus.isHeld = false := by
  rcases failure_queueStatus n error c now with e | e | e <;> rw [e] <;> rfl

theorem QueueWrite.item_back {C : WorkerConfig} {db : ActionDb} {u : Turn}
    (h : QueueWrite C db u db' u') {k : String} {q' : QueueItem}
    (hq : db'.queue.find k = some q') : ItemBack db u db' u' k q' := by
  have hkeep : db'.queue = db.queue → ItemBack db u db' u' k q' :=
    fun e => .same (e ▸ hq) rfl rfl
  cases h with
  | leave _ he => exact hkeep he
  | @enqueue _ _ _ x now _ he =>
    rw [find_enqueueAction he] at hq
    split_ifs at hq
    · cases hq
      exact .released rfl
    · exact .same hq rfl rfl
  | requeue _ he =>
    obtain ⟨p, hp, -, -, he⟩ := requeueAction_eq_some he
    rw [he] at hq
    exact itemBack_put (p.requeued _ _ _) hp rfl hq fun _ e => .released (e ▸ rfl)
  | @lease _ _ w leaseMs now p _ hp hdue he =>
    rw [he] at hq
    exact itemBack_put (p.leased w leaseMs now) hp rfl hq
      fun _ e => .leased rfl (e ▸ ⟨rfl, rfl⟩)
  | expire | check => exact hkeep rfl
  | note _ _ _ _ he => exact hkeep he
  | @stop _ _ _ w item x he =>
    obtain ⟨p, hp, -, -, he⟩ := stopLeasedAction_eq_some he
    rw [he] at hq
    refine itemBack_put (p.stopped _ _ _) hp rfl hq fun _ e => .released ?_
    rw [e]
    show x.status.queueStatus.isHeld = false
    cases x.status <;> rfl
  | begin hphase h =>
    obtain ⟨x, -, hx, hb⟩ := begins_of_begin hphase h
    obtain ⟨p, attempts, hp, -, -, -, -, -, rfl⟩ := beginActionAttempt_eq_some h
    exact itemBack_put p.begun hp rfl hq
      fun hk e => .begun (hx.trans hk.symm) hb (e ▸ rfl)
  | call _ _ _ he => exact hkeep he
  | renew w item id leaseMs now =>
    rw [find_renewActionLease, map_eq_some_iff] at hq
    obtain ⟨q, hq, rfl⟩ := hq
    refine .same hq ?_ ?_ <;> split_ifs <;> rfl
  | complete _ _ _ h => exact itemBack_settle h rfl hq
  | fail _ h =>
    obtain ⟨y, -, h⟩ := failActionAttempt_eq_some h
    exact itemBack_settle h (failure_isHeld _ _ _ _) hq

theorem QueueWrite.leasedTo_back {C : WorkerConfig} {db : ActionDb} {u : Turn}
    (h : QueueWrite C db u db' u') {k w : String} {q' : QueueItem}
    (hq : db'.queue.find k = some q') (hl : q'.leasedTo w) :
    (∃ q, db.queue.find k = some q ∧ q.leasedTo w) ∨
      ∃ item, u' = .work w item .recovering := by
  cases h.item_back hq with
  | same hq hs ho => exact .inl ⟨_, hq, hs.trans hl.1, ho.trans hl.2⟩
  | leased hu hl' =>
    obtain rfl := some_inj.1 (hl'.2.symm.trans hl.2)
    exact .inr ⟨_, hu⟩
  | begun _ _ hs =>
    rw [hl.1] at hs
    cases hs
  | released hs =>
    rw [hl.1] at hs
    cases hs

theorem QueueWrite.executing_back {C : WorkerConfig} {db : ActionDb} {u : Turn}
    (h : QueueWrite C db u db' u') {k : String} {q' : QueueItem}
    (hq : db'.queue.find k = some q') (he : q'.status = .executing) :
    (∃ q, db.queue.find k = some q ∧ q.status = .executing) ∨
      ∃ i x, x.actionId = k ∧ Begins db u db' u' i x := by
  cases h.item_back hq with
  | same hq hs => exact .inl ⟨_, hq, hs.trans he⟩
  | leased _ hl =>
    rw [hl.1] at he
    cases he
  | begun hx hb => exact .inr ⟨_, _, hx, hb⟩
  | released hs =>
    rw [he] at hs
    cases hs

theorem Phase.begun?_of_attempt? (h : phase.attempt? = some i) :
    phase.begun? = some i := by
  cases phase <;> first | exact h | cases h

/-- The worker settles its attempt `i` of an item that is executing, and is done. -/
structure Settles (db : ActionDb) (u u' : Turn) (i : String) (x : Attempt) : Prop where
  turn : ∃ w item phase, u = .work w item phase ∧ phase.begun? = some i
  leaves : u'.isWork = false
  executing : x.status = .executing
  item : ∃ q, db.queue.find x.actionId = some q ∧ q.status = .executing

/-- What becomes of an attempt that is under way. -/
inductive AttemptFate (db : ActionDb) (u : Turn) (db' : ActionDb) (u' : Turn) (i : String)
    (x x' : Attempt) : Prop
  | keep (h : x' = x)
  | expired (hs : x'.status ≠ .executing) (he : x'.error = some leaseExpired)
  | completed (h : Settles db u u' i x)
      (hq : ∃ q', db'.queue.find x.actionId = some q' ∧ q'.status = .completed)
  | failed (h : Settles db u u' i x)
      (hu : ∃ w item phase, u = .work w item phase ∧ phase.attempt? = some i)

/-- All that can happen to an attempt. -/
theorem QueueWrite.attempt_fate {C : WorkerConfig} {db : ActionDb} {u : Turn}
    (h : QueueWrite C db u db' u') {i : String} {x x' : Attempt}
    (hx : db.attempts.find i = some x) (hx' : db'.attempts.find i = some x') :
    AttemptFate db u db' u' i x x' := by
  have hkeep : db'.attempts = db.attempts → AttemptFate db u db' u' i x x' :=
    fun e => .keep (some_inj.1 (hx'.symm.trans ((congrArg (find · i) e).trans hx)))
  cases h with
  | leave _ _ ha | enqueue _ _ ha | requeue _ _ ha | lease _ _ _ _ ha => exact hkeep ha
  | expire w item now =>
    rw [find_expireAttempts, hx, map_some, some_inj] at hx'
    subst hx'
    split_ifs with he
    · exact .expired (by simp [Attempt.expired]) rfl
    · exact .keep rfl
  | check => exact hkeep rfl
  | note _ _ _ _ _ ha | stop _ _ ha | call _ _ _ _ ha => exact hkeep ha
  | renew => exact hkeep rfl
  | begin _ h =>
    obtain ⟨q, attempts, -, -, -, -, -, hi, rfl⟩ := beginActionAttempt_eq_some h
    rw [find_insert? hi] at hx'
    split_ifs at hx' with hid
    · subst hid
      exact absurd (key_of_find hx)
        ((insert?_eq_some.1 hi).1 x (mem_of_find hx))
    · exact .keep (some_inj.1 (hx'.symm.trans hx))
  | @complete _ hu w item id phase hp hc now r h =>
    obtain ⟨y, q, hy, hys, -, hq, hs, -, rfl⟩ := settleAttempt_eq_some h
    have hyid : y.id = id := key_of_find hy
    by_cases hi : i = id
    · subst hi
      rw [hx, some_inj] at hy
      subst hy
      have hqid : (q.settled { queueStatus := .completed, attemptStatus := .completed }).actionId =
          x.actionId := show q.actionId = x.actionId from key_of_find hq
      exact .completed ⟨⟨w, item, phase, rfl, hp⟩, hu, hys, q, hq, hs⟩
        ⟨_, (find_put_item hq hqid _).trans (if_pos rfl), rfl⟩
    · refine .keep (some_inj.1 (hx'.symm.trans (Eq.trans ?_ hx)))
      exact find_put_of_ne fun e => hi (e.trans hyid)
  | @fail _ hu w item id e error c now r h =>
    obtain ⟨z, -, h⟩ := failActionAttempt_eq_some h
    obtain ⟨y, q, hy, hys, -, hq, hs, -, rfl⟩ := settleAttempt_eq_some h
    have hyid : y.id = id := key_of_find hy
    by_cases hi : i = id
    · subst hi
      rw [hx, some_inj] at hy
      subst hy
      exact .failed ⟨⟨w, item, .failed i e, rfl, rfl⟩, hu, hys, q, hq, hs⟩
        ⟨w, item, .failed i e, rfl, rfl⟩
    · refine .keep (some_inj.1 (hx'.symm.trans (Eq.trans ?_ hx)))
      exact find_put_of_ne fun e => hi (e.trans hyid)

theorem Decision.phase_isReady (d : Decision) : d.phase.isReady = true := by
  rcases d with ⟨_ | _, _⟩ | _ | _ <;> rfl

theorem Phase.isSync_of_isReady (h : phase.isReady = true) :
    phase.isSync = true := by
  cases phase <;> first | rfl | cases h

theorem Phase.begun?_of_isReady (h : phase.isReady = true) :
    phase.begun? = none := by
  cases phase <;> first | rfl | cases h

/-- What a worker was before. -/
structure Continues (db : ActionDb) (db' : ActionDb) (w : String) (item : QueueItem)
    (phase phase' : Phase) : Prop where
  sync : phase'.isSync = true → phase.isSync = true
  ready : phase'.isReady = true → phase = .recovering ∨ phase.isReady = true
  begun : ∀ i, phase'.begun? = some i → phase.begun? = some i ∨
    ∃ x', db'.attempts.find i = some x' ∧
      Begins db (.work w item phase) db' (.work w item phase') i x'
  attempt : ∀ i, phase'.attempt? = some i →
    phase.attempt? = some i ∧ phase'.isSync = false ∨ phase = .beginning

/-- A worker with an item had it before, or has just taken its lease. -/
theorem QueueWrite.work_back {C : WorkerConfig} {db db' : ActionDb} {u : Turn} {w : String}
    {item : QueueItem} {phase' : Phase} (h : QueueWrite C db u db' (.work w item phase')) :
    (u.isWork = false ∧ phase' = .recovering ∧ ∃ q, db.queue.find item.actionId = some q ∧
        item.tool = q.tool ∧ item.arguments = q.arguments) ∨
      ∃ phase, u = .work w item phase ∧ Continues db db' w item phase phase' := by
  generalize hu' : Turn.work w item phase' = u' at h
  cases h with
  | leave hu | enqueue hu | requeue hu | stop hu | complete hu | fail hu => subst hu'; cases hu
  | lease hu hf => cases hu'; exact .inl ⟨hu, rfl, _, hf, rfl, rfl⟩
  | expire =>
    cases hu'
    exact .inr ⟨_, rfl, fun _ => rfl, fun _ => .inl rfl, nofun, nofun⟩
  | check =>
    cases hu'
    have hr := Decision.phase_isReady (executeLeased C (db.actions.find item.actionId) item
      (listActionAttempts db.attempts item.actionId) ‹View›)
    refine .inr ⟨_, rfl, fun _ => rfl, fun _ => .inr rfl, fun i hi => ?_, fun i hi => ?_⟩
    · rw [Phase.begun?_of_isReady hr] at hi
      cases hi
    · have hi' := Phase.begun?_of_attempt? hi
      rw [Phase.begun?_of_isReady hr] at hi'
      cases hi'
  | note =>
    cases hu'
    exact .inr ⟨_, rfl, fun _ => rfl, fun _ => .inr rfl, nofun, nofun⟩
  | @begin w item id now r phase phase' hphase h =>
    cases hu'
    refine .inr ⟨phase, rfl, ?_, ?_, fun i hi => .inr ?_, fun i hi => ?_⟩
    · rcases hphase with ⟨rfl, rfl⟩ | ⟨rfl, rfl⟩ <;> exact fun _ => rfl
    · rcases hphase with ⟨rfl, rfl⟩ | ⟨rfl, rfl⟩ <;> exact fun hr => by cases hr
    · obtain rfl : id = i := by
        rcases hphase with ⟨rfl, rfl⟩ | ⟨rfl, rfl⟩ <;> exact some_inj.1 hi
      obtain ⟨x, hx, -, hb⟩ := begins_of_begin hphase h
      exact ⟨x, hx, hb⟩
    · rcases hphase with ⟨rfl, -⟩ | ⟨-, rfl⟩
      · exact .inr rfl
      · cases hi
  | call hp hp' hsync =>
    cases hu'
    refine .inr ⟨_, rfl, fun hs => ?_, fun hr => ?_, fun i hi => .inl ?_, fun i hi => .inl ?_⟩
    · rw [hsync] at hs
      cases hs
    · rw [Phase.isSync_of_isReady hr] at hsync
      cases hsync
    · rw [Phase.begun?_of_attempt? hp'] at hi
      rw [Phase.begun?_of_attempt? hp, hi]
    · exact ⟨by rw [hp, ← hp', hi], hsync⟩
  | renew =>
    cases hu'
    exact .inr ⟨_, rfl, fun h => h, fun h => .inr h, fun i hi => .inl hi,
      fun i hi => .inl ⟨hi, rfl⟩⟩

/-! ### Steps -/

/-- What a step of the machine does to the queue and to the attempts. -/
inductive StepWrite (C : WorkerConfig) (s : QueueState) : QueueState → Prop
  | turn {t : ℕ} {db : ActionDb} {u : Turn}
      (hfree : ∀ w item, u = .work w item .recovering → s.Free w)
      (h : QueueWrite C s.db (s.turns t) db u) : StepWrite C s (s.put t db u)
  | other {s' : QueueState} (ht : s'.turns = s.turns) (ha : s'.db.attempts = s.db.attempts)
      (hq : s'.db.queue = s.db.queue ∨ ∃ id q, s.db.queue.find id = some q ∧
        q.status.waits = true ∧ s'.db.queue = s.db.queue.put q.unstarted) : StepWrite C s s'

theorem Move.leasedBy {C : WorkerConfig} {db db' : ActionDb} {u : Turn} {w : String}
    {item : QueueItem} (h : Move C db u act db' (.work w item .recovering)) (t : ℕ) :
    (QueueLabel.turn t act).leasedBy = some w := by
  generalize hu : Turn.work w item .recovering = u' at h
  cases h with
  | lease | tick => cases hu; rfl
  | work h =>
    subst hu
    generalize hu : Turn.work w item .recovering = u' at h
    cases h with
    | check v =>
      injection hu with _ _ hphase
      have hr := Decision.phase_isReady (executeLeased C (db.actions.find ‹QueueItem›.actionId)
        ‹QueueItem› (listActionAttempts db.attempts ‹QueueItem›.actionId) v)
      rw [← hphase] at hr
      cases hr
    | _ => cases hu
  | _ => cases hu

theorem QueueStep.stepWrite {C : WorkerConfig} {s s' : QueueState} {l : QueueLabel}
    (h : QueueStep C s l s') : StepWrite C s s' := by
  cases h with
  | @turn t act db u hfree h =>
    refine .turn (fun w item hu => ?_) h.queueWrite
    subst hu
    exact hfree w (h.leasedBy t)
  | deny | repropose => exact .other rfl rfl (.inl rfl)
  | cancelUnstarted id =>
    rcases cancelUnstartedAction_cases s.db id with h | ⟨q, a, hq, -, hw, -, h⟩
    · exact .other rfl (by rw [h]) (.inl (by rw [h]))
    · exact .other rfl (by rw [h]) (.inr ⟨id, q, hq, hw, by rw [h]⟩)

variable {C : WorkerConfig} {s s' : QueueState}

theorem StepWrite.itemChange (h : StepWrite C s s') {k : String} {p : QueueItem}
    (hp : s.db.queue.find k = some p) :
    ∃ p', s'.db.queue.find k = some p' ∧ ItemChange p p' := by
  cases h with
  | turn _ h => exact h.itemChange hp
  | other _ _ hq =>
    rcases hq with hq | ⟨id, q, hf, hw, hq⟩
    · exact ⟨p, hq ▸ hp, .keep⟩
    · rw [hq]
      exact itemChange_put hf (.unstart hw) hp

/-- A worker holds a lease on its item, and no attempt of the item is under way. -/
def ActionDb.Idle (db : ActionDb) (a w : String) : Prop :=
  ∀ q, db.queue.find a = some q → q.leasedTo w →
    ∀ i x, db.attempts.find i = some x → x.actionId = a → x.status ≠ .executing

/-- What holds of turns, leases and attempts. -/
structure QueueState.Sound (s : QueueState) : Prop where
  /-- A worker has a copy of its item, as far as the item does not change. -/
  item : ∀ t w item phase, s.turns t = .work w item phase →
    ∃ q, s.db.queue.find item.actionId = some q ∧ item.tool = q.tool ∧
      item.arguments = q.arguments
  /-- The attempt a worker has begun is one of its item, and open. -/
  begun : ∀ t w item phase i, s.turns t = .work w item phase → phase.begun? = some i →
    ∃ x, s.db.attempts.find i = some x ∧ x.actionId = item.actionId ∧ x.isOpen
  /-- No other turn has begun the attempt. -/
  own : ∀ t t' w w' item item' phase phase' i, s.turns t = .work w item phase →
    s.turns t' = .work w' item' phase' → phase.begun? = some i → phase'.begun? = some i → t = t'
  /-- A worker is on the way to one call at a time. -/
  alone : ∀ t t' w, (s.turns t).occupies w = true → (s.turns t').occupies w = true → t = t'
  /-- The attempts of an item are counted. -/
  number : ∀ i x, s.db.attempts.find i = some x →
    ∃ q, s.db.queue.find x.actionId = some q ∧ x.attemptNumber ≤ q.attemptCount
  /-- No two attempts of an item have one number. -/
  distinct : ∀ i j x y, s.db.attempts.find i = some x → s.db.attempts.find j = some y →
    x.actionId = y.actionId → x.attemptNumber = y.attemptNumber → x = y
  /-- A worker that has closed the lost attempts and still holds its lease finds none. -/
  ready : ∀ t w item phase, s.turns t = .work w item phase → phase.isReady = true →
    s.db.Idle item.actionId w
  /-- At most one attempt of an item is under way. -/
  single : ∀ i j x y, s.db.attempts.find i = some x → s.db.attempts.find j = some y →
    x.actionId = y.actionId → x.status = .executing → y.status = .executing → x = y

theorem sound_init (C : WorkerConfig) : (queueMachine C).init.Sound where
  item := fun _ _ _ _ h => by cases h
  begun := fun _ _ _ _ _ h => by cases h
  own := fun _ _ _ _ _ _ _ _ _ h => by cases h
  alone := fun _ _ _ h => by cases h
  number := fun _ _ h => by cases h
  distinct := fun _ _ _ _ h => by cases h
  ready := fun _ _ _ _ h => by cases h
  single := fun _ _ _ _ h => by cases h

theorem put_turns_cases {t t' : ℕ} {db : ActionDb} {u v : Turn}
    (h : (s.put t db u).turns t' = v) : (t' = t ∧ u = v) ∨ (t' ≠ t ∧ s.turns t' = v) := by
  by_cases ht : t' = t
  · subst ht
    rw [put_turns_self] at h
    exact .inl ⟨rfl, h⟩
  · rw [put_turns_of_ne _ _ _ ht] at h
    exact .inr ⟨ht, h⟩

theorem Begins.unfold {db : ActionDb} {u : Turn}
    (h : Begins db u db' u' i x) : ∃ w item phase q, u = .work w item phase ∧
      phase.isReady = true ∧ x.actionId = item.actionId ∧ x.leaseOwner = w ∧
      db.queue.find item.actionId = some q ∧ q.leasedTo w ∧
      db'.queue.find item.actionId = some q.begun ∧ x.attemptNumber = q.attemptCount + 1 := by
  obtain ⟨w, item, phase, phase', now, q, rfl, rfl, hphase, hf, hs, ho, hf', rfl⟩ := h.turn
  have hid : q.actionId = item.actionId := key_of_find hf
  refine ⟨w, item, phase, q, rfl, ?_, hid, rfl, hf, ⟨hs, ho⟩, hf', rfl⟩
  rcases hphase with ⟨rfl, -⟩ | ⟨rfl, -⟩ <;> rfl

theorem Begins.executing {db : ActionDb} {u : Turn}
    (h : Begins db u db' u' i x) : x.status = .executing := by
  obtain ⟨_, _, _, _, _, _, _, _, _, _, _, _, _, rfl⟩ := h.turn
  rfl

theorem Begins.id_eq {db : ActionDb} {u : Turn} {j : String} {y : Attempt}
    (hx : Begins db u db' u' i x) (hy : Begins db u db' u' j y) : i = j := by
  obtain ⟨_, _, _, phase', _, _, _, rfl, hphase, -⟩ := hx.turn
  obtain ⟨_, _, _, phase'', _, _, _, he, hphase', -⟩ := hy.turn
  cases he
  rcases hphase with ⟨-, rfl⟩ | ⟨-, rfl⟩ <;> rcases hphase' with ⟨-, h⟩ | ⟨-, h⟩ <;> cases h <;> rfl

section Turn

variable {t : ℕ} {db : ActionDb} {u : Turn}

theorem QueueState.Sound.put_item (hS : s.Sound) (h : QueueWrite C s.db (s.turns t) db u) :
    ∀ t' w item phase, (s.put t db u).turns t' = .work w item phase →
      ∃ q, db.queue.find item.actionId = some q ∧ item.tool = q.tool ∧
        item.arguments = q.arguments := by
  intro t' w item phase ht'
  have hold : ∃ q, s.db.queue.find item.actionId = some q ∧ item.tool = q.tool ∧
      item.arguments = q.arguments := by
    rcases put_turns_cases ht' with ⟨rfl, rfl⟩ | ⟨-, ht'⟩
    · rcases h.work_back with ⟨-, -, hq⟩ | ⟨phase, ht, -⟩
      · exact hq
      · exact hS.item _ _ _ _ ht
    · exact hS.item _ _ _ _ ht'
  obtain ⟨q, hq, htool, hargs⟩ := hold
  obtain ⟨q', hq', hc⟩ := h.itemChange hq
  obtain ⟨-, htool', hargs', -⟩ := hc.fixed
  exact ⟨q', hq', htool.trans htool'.symm, hargs.trans hargs'.symm⟩

theorem begun?_back (h : QueueWrite C s.db (s.turns t) db u) {t' : ℕ} {w : String}
    {item : QueueItem} {phase : Phase} {i : String}
    (ht' : (s.put t db u).turns t' = .work w item phase) (hi : phase.begun? = some i) :
    (∃ phase₀, s.turns t' = .work w item phase₀ ∧ phase₀.begun? = some i) ∨
      (t' = t ∧ ∃ x, db.attempts.find i = some x ∧ Begins s.db (s.turns t) db u i x) := by
  rcases put_turns_cases ht' with ⟨rfl, rfl⟩ | ⟨-, ht'⟩
  · rcases h.work_back with ⟨-, rfl, -⟩ | ⟨phase₀, ht, hcont⟩
    · cases hi
    · rcases hcont.begun i hi with hi | ⟨x, hx, hb⟩
      · exact .inl ⟨phase₀, ht, hi⟩
      · exact .inr ⟨rfl, x, hx, ht ▸ hb⟩
  · exact .inl ⟨phase, ht', hi⟩

theorem QueueState.Sound.put_begun (hS : s.Sound) (h : QueueWrite C s.db (s.turns t) db u) :
    ∀ t' w item phase i, (s.put t db u).turns t' = .work w item phase → phase.begun? = some i →
      ∃ x, db.attempts.find i = some x ∧ x.actionId = item.actionId ∧ x.isOpen := by
  intro t' w item phase i ht' hi
  rcases begun?_back h ht' hi with ⟨phase₀, ht, hi₀⟩ | ⟨rfl, x, hx, hb⟩
  · obtain ⟨x, hx, ha, ho⟩ := hS.begun _ _ _ _ _ ht hi₀
    obtain ⟨x', hx', hc⟩ := h.attempt_forth hx
    refine ⟨x', hx', hc.fixed.2.1.trans ha, ?_⟩
    -- nobody else settles it, and whoever settles it is done
    have hno : ¬Settles s.db (s.turns t) u i x := by
      intro hset
      obtain ⟨w', item', phase', hturn, hp⟩ := hset.turn
      obtain rfl := hS.own t' t w w' item item' phase₀ phase' i ht hturn hi₀ hp
      rw [put_turns_self] at ht'
      rw [ht'] at hset
      cases hset.leaves
    cases h.attempt_fate hx hx' with
    | keep e => exact e ▸ ho
    | expired _ he => exact .inr he
    | completed hset | failed hset => exact absurd hset hno
  · refine ⟨x, hx, ?_, .inl hb.executing⟩
    obtain ⟨w', item', phase₁, phase₂, _, _, hturn, hu, -⟩ := hb.turn
    obtain ⟨w'', item'', phase₃, q, hturn', -, ha, -⟩ := hb.unfold
    rw [put_turns_self] at ht'
    rw [hturn] at hturn'
    rw [ht'] at hu
    cases hturn'
    cases hu
    exact ha

theorem QueueState.Sound.put_own (hS : s.Sound) (h : QueueWrite C s.db (s.turns t) db u) :
    ∀ t₁ t₂ w₁ w₂ item₁ item₂ phase₁ phase₂ i, (s.put t db u).turns t₁ = .work w₁ item₁ phase₁ →
      (s.put t db u).turns t₂ = .work w₂ item₂ phase₂ → phase₁.begun? = some i →
      phase₂.begun? = some i → t₁ = t₂ := by
  -- a new attempt was nobody's before
  have hnew : ∀ {t₀ w item phase i x}, s.turns t₀ = .work w item phase → phase.begun? = some i →
      ¬Begins s.db (s.turns t) db u i x := by
    intro t₀ w item phase i x ht hi hb
    obtain ⟨x, hx, -⟩ := hS.begun _ _ _ _ _ ht hi
    rw [hb.fresh] at hx
    cases hx
  intro t₁ t₂ w₁ w₂ item₁ item₂ phase₁ phase₂ i h₁ h₂ hi₁ hi₂
  rcases begun?_back h h₁ hi₁ with ⟨p₁, ht₁, hp₁⟩ | ⟨e₁, x₁, -, hb₁⟩ <;>
    rcases begun?_back h h₂ hi₂ with ⟨p₂, ht₂, hp₂⟩ | ⟨e₂, x₂, -, hb₂⟩
  · exact hS.own _ _ _ _ _ _ _ _ _ ht₁ ht₂ hp₁ hp₂
  · exact absurd hb₂ (hnew ht₁ hp₁)
  · exact absurd hb₁ (hnew ht₂ hp₂)
  · rw [e₁, e₂]

theorem QueueWrite.occupies_back (h : QueueWrite C s.db (s.turns t) db u)
    (hfree : ∀ w item, u = .work w item .recovering → s.Free w) {w : String}
    (hu : u.occupies w = true) : (s.turns t).occupies w = true ∨ s.Free w := by
  cases u with
  | work w' item phase' =>
    obtain ⟨hw, hsync⟩ : w' = w ∧ phase'.isSync = true := by
      simpa [Turn.occupies] using hu
    subst hw
    rcases h.work_back with ⟨-, rfl, -⟩ | ⟨phase, ht, hcont⟩
    · exact .inr (hfree w' item rfl)
    · rw [ht]
      exact .inl (by simp [Turn.occupies, hcont.sync hsync])
  | _ => cases hu

theorem QueueState.Sound.put_alone (hS : s.Sound) (h : QueueWrite C s.db (s.turns t) db u)
    (hfree : ∀ w item, u = .work w item .recovering → s.Free w) :
    ∀ t₁ t₂ w, ((s.put t db u).turns t₁).occupies w = true →
      ((s.put t db u).turns t₂).occupies w = true → t₁ = t₂ := by
  -- a turn that is not `t` occupied its worker before, so the worker was not free
  have hother : ∀ t₁ w, t₁ ≠ t → u.occupies w = true → (s.turns t₁).occupies w = false := by
    intro t₁ w ht₁ hu
    rcases h.occupies_back hfree hu with ht | hf
    · by_contra hc
      exact ht₁ (hS.alone _ _ w (by simpa using hc) ht)
    · exact hf t₁
  intro t₁ t₂ w h₁ h₂
  by_cases ht₁ : t₁ = t <;> by_cases ht₂ : t₂ = t
  · rw [ht₁, ht₂]
  · rw [ht₁, put_turns_self] at h₁
    rw [put_turns_of_ne _ _ _ ht₂, hother t₂ w ht₂ h₁] at h₂
    cases h₂
  · rw [ht₂, put_turns_self] at h₂
    rw [put_turns_of_ne _ _ _ ht₁, hother t₁ w ht₁ h₂] at h₁
    cases h₁
  · rw [put_turns_of_ne _ _ _ ht₁] at h₁
    rw [put_turns_of_ne _ _ _ ht₂] at h₂
    exact hS.alone _ _ w h₁ h₂

theorem QueueState.Sound.put_number (hS : s.Sound) (h : QueueWrite C s.db (s.turns t) db u) :
    ∀ i x, db.attempts.find i = some x →
      ∃ q, db.queue.find x.actionId = some q ∧ x.attemptNumber ≤ q.attemptCount := by
  intro i x' hx'
  rcases h.attempt_back hx' with ⟨x, hx, hc⟩ | hb
  · obtain ⟨q, hq, hn⟩ := hS.number i x hx
    obtain ⟨q', hq', hqc⟩ := h.itemChange hq
    obtain ⟨-, ha, hnum, -⟩ := hc.fixed
    refine ⟨q', ha ▸ hq', ?_⟩
    rw [hnum]
    exact hn.trans hqc.fixed.2.2.2
  · obtain ⟨w, item, phase, q, -, -, ha, -, -, -, hq', hn⟩ := hb.unfold
    exact ⟨q.begun, ha ▸ hq', hn.le⟩

theorem QueueState.Sound.put_distinct (hS : s.Sound) (h : QueueWrite C s.db (s.turns t) db u) :
    ∀ i j x y, db.attempts.find i = some x → db.attempts.find j = some y →
      x.actionId = y.actionId → x.attemptNumber = y.attemptNumber → x = y := by
  -- a new attempt has a greater number than every old one
  have hnew : ∀ {i j x y y'}, Begins s.db (s.turns t) db u i x → s.db.attempts.find j = some y →
      AttemptChange y y' → x.actionId = y'.actionId → x.attemptNumber ≠ y'.attemptNumber := by
    intro i j x y y' hb hy hc ha hn
    obtain ⟨w, item, phase, q, -, -, hax, -, hq, -, -, hnum⟩ := hb.unfold
    obtain ⟨-, hay, hny, -⟩ := hc.fixed
    obtain ⟨q', hq', hle⟩ := hS.number j y hy
    rw [← hay, ← ha, hax, hq, some_inj] at hq'
    subst hq'
    omega
  intro i j x' y' hx' hy' ha hn
  rcases h.attempt_back hx' with ⟨x, hx, hcx⟩ | hbx <;>
    rcases h.attempt_back hy' with ⟨y, hy, hcy⟩ | hby
  · obtain ⟨-, hax, hnx, -⟩ := hcx.fixed
    obtain ⟨-, hay, hny, -⟩ := hcy.fixed
    obtain rfl := hS.distinct i j x y hx hy (by rw [← hax, ← hay, ha]) (by rw [← hnx, ← hny, hn])
    obtain rfl : i = j := (key_of_find hx).symm.trans (key_of_find hy)
    exact some_inj.1 (hx'.symm.trans hy')
  · exact absurd hn.symm (hnew hby hx hcx ha.symm)
  · exact absurd hn (hnew hbx hy hcy ha)
  · obtain rfl := hbx.id_eq hby
    exact some_inj.1 (hx'.symm.trans hy')

theorem QueueState.Sound.put_ready (hS : s.Sound) (h : QueueWrite C s.db (s.turns t) db u)
    (hfree : ∀ w item, u = .work w item .recovering → s.Free w) :
    ∀ t' w item phase, (s.put t db u).turns t' = .work w item phase → phase.isReady = true →
      db.Idle item.actionId w := by
  intro t' w item phase ht' hr q' hq' hl i x' hx' ha hex
  have hocc : ∀ {v : ℕ}, s.turns v = .work w item phase → (s.turns v).occupies w = true := by
    intro v hv
    simp [hv, Turn.occupies, Phase.isSync_of_isReady hr]
  -- the lease is older than this piece
  have hback : ∃ q, s.db.queue.find item.actionId = some q ∧ q.leasedTo w := by
    rcases h.leasedTo_back hq' hl with hq | ⟨item', hu⟩
    · exact hq
    · rcases put_turns_cases ht' with ⟨-, hu'⟩ | ⟨-, ht'⟩
      · rw [hu] at hu'
        cases hu'
        cases hr
      · have hf := hfree w item' hu t'
        rw [hocc ht'] at hf
        cases hf
  obtain ⟨q, hq, hql⟩ := hback
  rcases h.attempt_back hx' with ⟨x, hx, hc⟩ | hb
  · obtain rfl := hc.executing hex
    rcases put_turns_cases ht' with ⟨rfl, rfl⟩ | ⟨-, ht'⟩
    · rcases h.work_back with ⟨-, rfl, -⟩ | ⟨phase₀, ht, hcont⟩
      · cases hr
      · rcases hcont.ready hr with rfl | hr₀
        · -- the lost attempts were closed just now
          rw [ht] at h
          cases h with
          | expire _ _ now =>
            rw [find_expireAttempts, hx, map_some, some_inj] at hx'
            rw [if_pos ⟨ha, hex⟩] at hx'
            rw [← hx'] at hex
            cases hex
          | begin hphase => rcases hphase with ⟨h, -⟩ | ⟨h, -⟩ <;> cases h
          | call hp => cases hp
          | leave hu | enqueue hu | lease hu | complete hu => cases hu
        · exact hS.ready _ _ _ _ ht hr₀ q hq hql i x' hx ha hex
    · exact hS.ready _ _ _ _ ht' hr q hq hql i x' hx ha hex
  · obtain ⟨w', item', phase', q₀, -, -, hax, -, -, -, hq₀, -⟩ := hb.unfold
    rw [← hax, ha, hq', some_inj] at hq₀
    subst hq₀
    cases hl.1

theorem QueueState.Sound.put_single (hS : s.Sound) (h : QueueWrite C s.db (s.turns t) db u) :
    ∀ i j x y, db.attempts.find i = some x → db.attempts.find j = some y →
      x.actionId = y.actionId → x.status = .executing → y.status = .executing → x = y := by
  -- where an attempt begins, none was under way
  have hnew : ∀ {i j x y}, Begins s.db (s.turns t) db u i x → s.db.attempts.find j = some y →
      x.actionId = y.actionId → y.status ≠ .executing := by
    intro i j x y hb hy ha
    obtain ⟨w, item, phase, q, ht, hr, hax, -, hq, hl, -, -⟩ := hb.unfold
    exact hS.ready t w item phase ht hr q hq hl j y hy (ha.symm.trans hax)
  intro i j x' y' hx' hy' ha hex hey
  rcases h.attempt_back hx' with ⟨x, hx, hcx⟩ | hbx <;>
    rcases h.attempt_back hy' with ⟨y, hy, hcy⟩ | hby
  · obtain rfl := hcx.executing hex
    obtain rfl := hcy.executing hey
    exact hS.single i j _ _ hx hy ha hex hey
  · obtain rfl := hcx.executing hex
    exact absurd hex (hnew hby hx ha.symm)
  · obtain rfl := hcy.executing hey
    exact absurd hey (hnew hbx hy ha)
  · obtain rfl := hbx.id_eq hby
    exact some_inj.1 (hx'.symm.trans hy')

end Turn

/-- Every write keeps turns, leases and attempts in line. -/
theorem QueueState.Sound.step (hS : s.Sound) (h : StepWrite C s s') : s'.Sound := by
  cases h with
  | @turn t db u hfree h =>
    exact ⟨hS.put_item h, hS.put_begun h, hS.put_own h, hS.put_alone h hfree, hS.put_number h,
      hS.put_distinct h, hS.put_ready h hfree, hS.put_single h⟩
  | other ht ha hq =>
    have hc : ∀ {k p}, s.db.queue.find k = some p →
        ∃ p', s'.db.queue.find k = some p' ∧ ItemChange p p' :=
      (StepWrite.other (C := C) ht ha hq).itemChange
    have hl : ∀ {k w p'}, s'.db.queue.find k = some p' → p'.leasedTo w →
        s.db.queue.find k = some p' := by
      intro k w p' hp' hl
      rcases hq with hq | ⟨id, q, hf, -, hq⟩
      · rw [← hq, hp']
      · have hid : q.unstarted.actionId = id :=
          (show q.actionId = id from key_of_find hf)
        rw [hq, find_put_item hf hid] at hp'
        split_ifs at hp' with hk
        · cases hp'
          cases hl.1
        · exact hp'
    refine ⟨?_, ?_, ?_, ?_, ?_, ?_, ?_, ?_⟩
    · intro t w item phase hturn
      rw [ht] at hturn
      obtain ⟨q, hf, htool, hargs⟩ := hS.item t w item phase hturn
      obtain ⟨q', hf', hqc⟩ := hc hf
      exact ⟨q', hf', htool.trans hqc.fixed.2.1.symm, hargs.trans hqc.fixed.2.2.1.symm⟩
    · rw [ht, ha]
      exact hS.begun
    · rw [ht]
      exact hS.own
    · rw [ht]
      exact hS.alone
    · intro i x hx
      rw [ha] at hx
      obtain ⟨q, hf, hn⟩ := hS.number i x hx
      obtain ⟨q', hf', hqc⟩ := hc hf
      exact ⟨q', hf', hn.trans hqc.fixed.2.2.2⟩
    · rw [ha]
      exact hS.distinct
    · intro t w item phase hturn hr q hf hql
      rw [ht] at hturn
      rw [ha]
      exact hS.ready t w item phase hturn hr q (hl hf hql) hql
    · rw [ha]
      exact hS.single

theorem sound_of_run {h : List QueueLabel} (hr : (queueMachine C).Run h s) : s.Sound :=
  hr.invariant (sound_init C) fun _ _ _ hS hst => hS.step (queueStep_of_step hst).stepWrite

end U2os.Server.Agent
