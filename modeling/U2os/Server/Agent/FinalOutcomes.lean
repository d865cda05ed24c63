import U2os.Server.Agent.ExecutedActions

/-!
# Final outcomes

When an answer about an action is its last word.  An action *at rest* was decided against or given
up, its item is done, and no turn is half-way with it: from then on its tool never returns.  The
books say where a success shows: in the row, in a completed item, with a worker that goes on after
its record and in an answer.  As long as results are recorded by one worker alone and their events
are published, each of them means that the action is finished.
-/

namespace U2os.Server.Agent

open List Option ActionPatch QueueItem QueueStatus Table Turn

/-! ### Actions at rest -/

/-- The action whose tool returns in a step. -/
def QueueState.returns (s : QueueState) : QueueLabel → Option String
  | .turn t (.return_ _) =>
    match s.turns t with
    | .work _ item (.inFlight _) => some item.actionId
    | _ => none
  | _ => none

/-- No worker takes an item in this status. -/
def QueueStatus.isDone : QueueStatus → Bool
  | .completed | .failed | .deadLetter | .cancelled => true
  | _ => false

/-- The turn neither enqueues the action, nor writes it or calls its tool. -/
def Turn.isPast (a : String) : Turn → Bool
  | .proposed p => p.id ≠ a
  | .approved x => x.actionId ≠ a
  | .work _ item phase => item.actionId ≠ a || !phase.mayAct
  | _ => true

/-- The action is not pending, its item is done, and no turn is half-way with it. -/
structure AtRest (a : String) (s : QueueState) : Prop where
  row : ∃ r, s.db.actions.find a = some r ∧ r.status ≠ .pending
  item : ∀ q, s.db.queue.find a = some q → q.status.isDone = true
  turns : ∀ t, (s.turns t).isPast a = true

variable {C : WorkerConfig} {s s' : QueueState} {a : String}

variable {u u' : Turn} {act : Act}

theorem Turn.patch?_of_isPast {id : String} {patch : ActionPatch}
    (hu : u.isPast a = true) (hp : u.patch? act = some (id, patch)) : id ≠ a := by
  unfold patch? at hp
  split at hp
  all_goals cases hp
  · simpa [isPast] using hu
  all_goals simpa [isPast, Phase.mayAct] using hu

theorem QueueItem.not_due_of_isDone {q : QueueItem} {now : ℕ} (h : q.status.isDone = true) :
    ¬q.due now := by
  rintro (⟨hs, -⟩ | ⟨hs, -⟩) <;> cases hq : q.status <;> simp_all [isDone,
    waits, isHeld]

variable {db db' : ActionDb}

/-- A turn that is past an action stays so. -/
theorem Move.isPast (h : Move C db u act db' u')
    (hu : u.isPast a = true) (hr : ∃ r, db.actions.find a = some r ∧ r.status ≠ .pending)
    (hq : ∀ q, db.queue.find a = some q → q.status.isDone = true) : u'.isPast a = true := by
  obtain ⟨r, hr, hs⟩ := hr
  cases h with
  | @propose p now actions h =>
    have hne : p.id ≠ a := by
      rintro rfl
      exact (Table.insert?_eq_some.1 h).1 r (Table.mem_of_find hr) (Table.key_of_find hr)
    simpa [Turn.isPast] using hne
  | @approve id by_ rule now b hb hb' =>
    have hid : b.id = id := Table.key_of_find hb
    have hne : id ≠ a := by
      rintro rfl
      rw [hr, some_inj] at hb
      exact hs (hb ▸ hb')
    simpa [Turn.isPast, AgentAction.enqueue, hid] using hne
  | @lease id w leaseMs now r h =>
    obtain ⟨q, hf, hdue, rfl⟩ := leaseActionByActionId_eq_some h
    have hne : q.actionId ≠ a := by
      rw [show q.actionId = id from Table.key_of_find hf]
      rintro rfl
      exact QueueItem.not_due_of_isDone (hq q hf) hdue
    simp [Turn.isPast, QueueItem.leased, hne]
  | @tick w leaseMs now r h =>
    obtain ⟨q, -, hf, hdue, rfl⟩ := leaseNextAction_eq_some h
    have hne : q.actionId ≠ a := by
      rintro rfl
      exact QueueItem.not_due_of_isDone (hq q hf) hdue
    simp [Turn.isPast, QueueItem.leased, hne]
  | @work w item phase act db' u h =>
    by_cases hia : item.actionId = a
    · have hphase : phase.mayAct = false := by simpa [Turn.isPast, hia] using hu
      cases h with
      | stop | settled | complete | fail => rfl
      | settle | publishFailure => simp [Turn.isPast, Phase.mayAct]
      | _ => cases hphase
    · cases h <;> simp [Turn.isPast, hia]
  | _ => rfl

theorem find_put_of_done {queue : Queue} {p p' q : QueueItem} {k : String}
    (hp : queue.find k = some p) (hid : p'.actionId = p.actionId) (hd : p.status.isDone = false)
    (hq : queue.find a = some q) (hqd : q.status.isDone = true) :
    (queue.put p').find a = some q := by
  have hne : a ≠ k := by
    rintro rfl
    rw [hp, some_inj] at hq
    rw [hq, hqd] at hd
    cases hd
  exact ((find_put_item hp (hid.trans (key_of_find hp)) a).trans (if_neg hne)).trans hq

theorem find_settle_of_done {id w : String} {x : Settlement} {now : ℕ} {r : ActionDb × QueueItem}
    (h : settleAttempt db id w x now = some r) {q : QueueItem}
    (hq : db.queue.find a = some q) (hqd : q.status.isDone = true) :
    r.1.queue.find a = some q := by
  obtain ⟨y, p, -, -, -, hp, hs, -, rfl⟩ := settleAttempt_eq_some h
  exact find_put_of_done hp rfl (by rw [hs]; rfl) hq hqd

theorem QueueWrite.find_of_isPast (h : QueueWrite C db u db' u')
    (hu : u.isPast a = true) {q : QueueItem} (hq : db.queue.find a = some q)
    (hd : q.status.isDone = true) : db'.queue.find a = some q := by
  cases h with
  | leave _ hqu => exact hqu ▸ hq
  | enqueue _ hqu =>
    rw [find_enqueueAction hqu, if_neg, hq]
    rintro ⟨-, hn⟩
    rw [hq] at hn
    cases hn
  | @requeue _ _ x ref decision now _ hqu =>
    have hne : x.actionId ≠ a := by simpa [isPast] using hu
    obtain ⟨p, hp, -, -, hqu⟩ := requeueAction_eq_some hqu
    rw [hqu]
    have hid : (p.requeued ref decision now).actionId = x.actionId :=
      show p.actionId = x.actionId from key_of_find hp
    exact ((find_put_item hp hid a).trans (if_neg hne.symm)).trans hq
  | lease _ hp hdue hqu =>
    rw [hqu]
    refine find_put_of_done hp rfl ?_ hq hd
    exact Bool.eq_false_of_not_eq_true fun e => not_due_of_isDone e hdue
  | expire | check => exact hq
  | note _ _ _ _ hqu => exact hqu ▸ hq
  | stop _ hqu =>
    obtain ⟨p, hp, hs, -, hqu⟩ := stopLeasedAction_eq_some hqu
    rw [hqu]
    exact find_put_of_done hp rfl (by rw [hs]; rfl) hq hd
  | begin _ h =>
    obtain ⟨p, attempts, hp, hs, -, -, -, -, rfl⟩ := beginActionAttempt_eq_some h
    exact find_put_of_done hp rfl (by rw [hs]; rfl) hq hd
  | call _ _ _ hqu => exact hqu ▸ hq
  | renew w item id leaseMs now =>
    refine ((find_renewActionLease ..).trans (congrArg (Option.map _) hq)).trans (congrArg some ?_)
    refine if_neg fun ⟨_, hh, _⟩ => ?_
    cases hs : q.status <;> simp_all [isDone, isHeld]
  | complete _ _ _ h => exact find_settle_of_done h hq hd
  | fail _ h =>
    obtain ⟨y, -, h⟩ := failActionAttempt_eq_some h
    exact find_settle_of_done h hq hd

theorem Move.find_none_of_isPast
    (h : Move C db u act db' u') (hu : u.isPast a = true) (hq : db.queue.find a = none) :
    db'.queue.find a = none := by
  cases hq' : db'.queue.find a with
  | none => rfl
  | some q' =>
    obtain ⟨x, now, rfl, -, rfl | ⟨p, rfl, rfl⟩⟩ := h.enqueues hq hq'
    · simp [Turn.isPast] at hu
    · simp [Turn.isPast, Proposal.enqueue] at hu

theorem AtRest.row_step {l : QueueLabel} (hA : AtRest a s) (h : QueueStep C s l s') :
    ∃ r, s'.db.actions.find a = some r ∧ r.status ≠ .pending := by
  obtain ⟨r, hr, hs⟩ := hA.row
  cases hl : l.turn? with
  | none =>
    obtain ⟨patch, hp, hstatus, -⟩ := h.row_of_other hl hr
    refine ⟨_, hp, ?_⟩
    rcases hstatus with hn | hn | ⟨hn, -⟩
    · simpa [apply, hn] using hs
    · simp [apply, hn]
    · exact absurd hn hs
  | some t =>
    cases h with
    | turn _ h =>
      rcases h.actionWrite.find_eq hr with hk | ⟨hn, -⟩ | ⟨patch, hp, -⟩
      · exact ⟨r, hk, hs⟩
      · exact absurd hn hs
      · exact absurd rfl (patch?_of_isPast (hA.turns _) hp)
    | _ => cases hl

theorem AtRest.item_step {l : QueueLabel} (hA : AtRest a s) (h : QueueStep C s l s') :
    s'.db.queue.find a = s.db.queue.find a := by
  cases h with
  | @turn t act db u _ h =>
    cases hq : s.db.queue.find a with
    | none => exact h.find_none_of_isPast (hA.turns t) hq
    | some q => exact h.queueWrite.find_of_isPast (hA.turns t) hq (hA.item q hq)
  | cancelUnstarted id =>
    rcases cancelUnstartedAction_cases s.db id with h | ⟨p, b, hp, -, hw, -, h⟩
    · exact congrArg (fun db : ActionDb => db.queue.find a) h
    · refine (congrArg (fun db : ActionDb => db.queue.find a) h).trans ?_
      cases hq : s.db.queue.find a with
      | none => exact find_put_of_none hp rfl hq
      | some q =>
        refine find_put_of_done hp rfl ?_ hq (hA.item q hq)
        cases hs : p.status <;> simp_all [waits, isDone]
  | _ => rfl

theorem AtRest.step {l : QueueLabel} (hA : AtRest a s) (h : QueueStep C s l s') : AtRest a s' := by
  refine ⟨hA.row_step h, fun q hq => hA.item q ((hA.item_step h).symm.trans hq), fun t => ?_⟩
  cases h with
  | @turn t' act db u _ h =>
    by_cases ht : t = t'
    · subst ht
      rw [QueueState.put_turns_self]
      exact h.isPast (hA.turns t) hA.row hA.item
    · rw [QueueState.put_turns_of_ne _ _ _ ht]
      exact hA.turns t
  | _ => exact hA.turns t

theorem AtRest.returns_ne (hA : AtRest a s) (l : QueueLabel) : s.returns l ≠ some a := by
  intro hr
  unfold QueueState.returns at hr
  split at hr
  · rename_i t _
    split at hr
    · rename_i w item i hturn
      cases hr
      have ht := hA.turns t
      simp [hturn, isPast, Phase.mayAct] at ht
    · cases hr
  · cases hr

/-! ### The books -/

/-- A result is recorded while nobody else is half-way with the action. -/
def RecordedAlone (s : QueueState) (l : QueueLabel) : Prop :=
  ∀ t w item i v, l = .turn t (.record none) → s.turns t = .work w item (.returned i v) →
    ∀ t', t' ≠ t → (s.turns t').isQuiet item.actionId = true

/-- A worker in this phase goes on after a success. -/
def Phase.isAfter : Phase → Bool
  | .settling | .settled _ | .recorded .. | .published .. => true
  | _ => false

/-- The result a worker recorded. -/
def Phase.recorded? : Phase → Option Json
  | .recorded _ v | .published _ v => some v
  | _ => none

/-- Where a success shows, the action is finished. -/
structure QueueState.Books (s : QueueState) : Prop where
  rows : ∀ a r, s.db.actions.find a = some r → r.status = .executed → Finished a r s
  items : ∀ a q, s.db.queue.find a = some q → q.status = .completed → ∃ r, Finished a r s
  works : ∀ t w item phase, s.turns t = .work w item phase → phase.isAfter = true →
    ∃ r, Finished item.actionId r s ∧ ∀ v, phase.recorded? = some v → r.result = some v
  answers : ∀ t o, s.turns t = .answered o → o.status = .executed →
    ∃ r, Finished o.id r s ∧ r.result = o.result

theorem Turn.patch?_executed {patch : ActionPatch}
    (hp : u.patch? act = some (a, patch)) {r : AgentAction}
    (he : (patch.apply r).status = .executed) :
    act = .record none ∧ ∃ w item i v, u = .work w item (.returned i v) ∧ item.actionId = a := by
  unfold patch? at hp
  split at hp <;> cases hp
  · simp [apply, ActionPatch.failure] at he
  · rename_i note x
    rcases note with _ | ⟨_ | _ | _, message⟩ <;>
      simp [apply, Note.patch, ActionPatch.failure, NotedStatus.status] at he
  · exact ⟨rfl, _, _, _, _, rfl, rfl⟩
  · simp [apply, ActionPatch.failure] at he

theorem Move.executes (h : Move C db u act db' u')
    {r' : AgentAction} (hr : db'.actions.find a = some r') (he : r'.status = .executed)
    (hno : ∀ r, db.actions.find a = some r → r.status ≠ .executed) :
    act = .record none ∧ ∃ w item i v, u = .work w item (.returned i v) ∧ item.actionId = a := by
  cases hf : db.actions.find a with
  | none =>
    have hnone : ∀ id patch, (updateAgentAction db.actions id patch).find a = none := by
      intro id patch
      rw [find_updateAgentAction, hf]
      rfl
    cases h.actionWrite with
    | @insert p now hu hact h =>
      rw [find_insert? h] at hr
      split_ifs at hr with hk
      · cases hr
        simp only [Proposal.row, Proposal.status] at he
        split_ifs at he
      · rw [hf] at hr
        cases hr
    | approve _ _ _ h | patch _ h => rw [h, hnone] at hr; cases hr
    | keep h => rw [h, hf] at hr; cases hr
  | some r =>
    rcases h.actionWrite.find_eq hf with hk | ⟨-, by_, rule, now, -, hk⟩ | ⟨patch, hp, hk⟩
    · obtain rfl : r' = r := some_inj.1 (hr.symm.trans hk)
      exact absurd he (hno r' hf)
    · rw [hr] at hk
      cases hk
      cases he
    · rw [hr] at hk
      cases hk
      exact patch?_executed hp he

theorem QueueStep.executed_of_other {l : QueueLabel} (h : QueueStep C s l s')
    (hl : l.turn? = none) {r' : AgentAction} (hr' : s'.db.actions.find a = some r')
    (he : r'.status = .executed) : ∃ r, s.db.actions.find a = some r ∧ r.status = .executed := by
  cases hr : s.db.actions.find a with
  | none =>
    rw [h.find_none_of_other hl hr] at hr'
    cases hr'
  | some r =>
    obtain ⟨patch, hp, hstatus, -⟩ := h.row_of_other hl hr
    rw [hr'] at hp
    cases hp
    rcases hstatus with hn | hn | ⟨-, hn | ⟨hn, -⟩⟩
    · exact ⟨r, rfl, by simpa [apply, hn] using he⟩
    all_goals simp [apply, hn] at he

theorem completed_put {queue : Queue} {p p' q' : QueueItem} {k : String}
    (hp : queue.find k = some p) (hq : (queue.put p').find a = some q')
    (hc : q'.status = .completed) (hid : p'.actionId = p.actionId)
    (hp' : p'.status ≠ .completed) :
    ∃ q, queue.find a = some q ∧ q.status = .completed := by
  rw [find_put_item hp (hid.trans (key_of_find hp))] at hq
  split_ifs at hq with hk
  · cases hq
    exact absurd hc hp'
  · exact ⟨q', hq, hc⟩

theorem completed_settle {id w : String} {x : Settlement} {now : ℕ} {r : ActionDb × QueueItem}
    (h : settleAttempt db id w x now = some r) {q' : QueueItem}
    (hq : r.1.queue.find a = some q') (hc : q'.status = .completed) :
    (∃ q, db.queue.find a = some q ∧ q.status = .completed) ∨
      x.queueStatus = .completed ∧ ∃ y, db.attempts.find id = some y ∧ y.actionId = a := by
  obtain ⟨y, p, hy, -, -, hp, -, -, rfl⟩ := settleAttempt_eq_some h
  by_cases hk : a = y.actionId
  · subst hk
    have hid : (p.settled x).actionId = y.actionId :=
      show p.actionId = y.actionId from key_of_find hp
    rw [find_put_item hp hid, if_pos rfl] at hq
    cases hq
    exact .inr ⟨hc, y, hy, rfl⟩
  · have hid : (p.settled x).actionId = y.actionId :=
      show p.actionId = y.actionId from key_of_find hp
    rw [find_put_item hp hid, if_neg hk] at hq
    exact .inl ⟨q', hq, hc⟩

/-- An item is completed by the worker that is about to complete it. -/
theorem QueueWrite.completed_back (h : QueueWrite C db u db' u')
    {q' : QueueItem} (hq : db'.queue.find a = some q') (hc : q'.status = .completed) :
    (∃ q, db.queue.find a = some q ∧ q.status = .completed) ∨
      ∃ w item phase id y, u = .work w item phase ∧ phase.isCompleting = true ∧
        phase.begun? = some id ∧ db.attempts.find id = some y ∧ y.actionId = a := by
  cases h with
  | leave _ hqu => exact .inl ⟨q', hqu ▸ hq, hc⟩
  | enqueue _ hqu =>
    rw [find_enqueueAction hqu] at hq
    split_ifs at hq
    · cases hq
      cases hc
    · exact .inl ⟨q', hq, hc⟩
  | requeue _ hqu =>
    obtain ⟨p, hp, -, -, hqu⟩ := requeueAction_eq_some hqu
    rw [hqu] at hq
    exact .inl (completed_put hp hq hc rfl (by simp [QueueItem.requeued]))
  | lease _ hp _ hqu =>
    rw [hqu] at hq
    exact .inl (completed_put hp hq hc rfl (by simp [QueueItem.leased]))
  | expire | check => exact .inl ⟨q', hq, hc⟩
  | note _ _ _ _ hqu => exact .inl ⟨q', hqu ▸ hq, hc⟩
  | @stop _ _ _ w item x hqu =>
    obtain ⟨p, hp, -, -, hqu⟩ := stopLeasedAction_eq_some hqu
    rw [hqu] at hq
    refine .inl (completed_put hp hq hc rfl ?_)
    rcases x with ⟨_ | _, error, c⟩ <;> simp [QueueItem.stopped, StopStatus.queueStatus]
  | begin _ h =>
    obtain ⟨p, attempts, hp, -, -, -, -, -, rfl⟩ := beginActionAttempt_eq_some h
    exact .inl (completed_put hp hq hc rfl (by simp [QueueItem.begun]))
  | call _ _ _ hqu => exact .inl ⟨q', hqu ▸ hq, hc⟩
  | renew w item id leaseMs now =>
    rw [find_renewActionLease, map_eq_some_iff] at hq
    obtain ⟨q, hq, rfl⟩ := hq
    refine .inl ⟨q, hq, ?_⟩
    split_ifs at hc <;> exact hc
  | complete _ hp hcomp h =>
    rcases completed_settle h hq hc with hold | ⟨-, y, hy, hya⟩
    · exact .inl hold
    · exact .inr ⟨_, _, _, _, y, rfl, hcomp, hp, hy, hya⟩
  | fail _ h =>
    obtain ⟨y, -, h⟩ := failActionAttempt_eq_some h
    rcases completed_settle h hq hc with hold | ⟨hx, -⟩
    · exact .inl hold
    · rcases failure_queueStatus _ _ _ _ with h | h | h <;> rw [hx] at h <;> cases h

theorem Phase.isAfter_of_isCompleting {phase : Phase} (h : phase.isCompleting = true) :
    phase.isAfter = true := by
  cases phase <;> first | rfl | cases h

theorem executed_of_settling {action : Option AgentAction} {item : QueueItem}
    {attempts : List Attempt} {v : View}
    (h : (executeLeased C action item attempts v).phase.isAfter = true) :
    ∃ r, action = some r ∧ r.status = .executed := by
  have hcheck : ∀ r e, (checkAction C r item attempts v e).phase.isAfter = false := by
    intro r e
    unfold checkAction
    repeat' split
    all_goals rfl
  cases action with
  | none => cases h
  | some r =>
    refine ⟨r, rfl, ?_⟩
    by_contra hne
    rw [executeLeased, if_neg hne] at h
    repeat' split at h
    all_goals first
      | cases h
      | rw [hcheck] at h; cases h

theorem Proposal.outcome_ne_executed {p : Proposal} {o : Outcome} (h : p.outcome = some o) :
    o.status ≠ .executed := by
  unfold Proposal.outcome at h
  split at h <;> cases h <;> simp

theorem QueueStatus.toStep_ne_executed (st : QueueStatus) : st.toStep ≠ .executed := by
  cases st <;> simp [toStep]

theorem executed_of_currentOutcome {o : Outcome}
    (h : currentOutcome db a = some o) (ho : o.status = .executed) :
    ∃ r, db.actions.find a = some r ∧ o.id = a ∧ r.result = o.result ∧
      (r.status = .executed ∨ ∃ q, db.queue.find a = some q ∧ q.status = .completed) := by
  obtain ⟨r, hr, rfl⟩ := map_eq_some_iff.1 h
  refine ⟨r, hr, show r.id = a from key_of_find hr, rfl, ?_⟩
  dsimp only at ho
  cases hq : db.queue.find a with
  | none =>
    rw [hq] at ho
    refine .inl ?_
    cases hs : r.status <;> simp [hs, ActionStatus.toStep] at ho ⊢
  | some q =>
    rw [hq] at ho
    refine .inr ⟨q, rfl, ?_⟩
    cases hs : q.status <;> simp [hs, toStep] at ho ⊢

section Books

variable {l : QueueLabel} (hB : s.Books) (hS : s.Sound) (h : QueueStep C s l s')
  (hev : ∀ a, ¬EventThrows a s l)

include hB hS h hev

theorem QueueState.Books.row_step (hA : s.Audited) (hal : RecordedAlone s l) :
    ∀ a r, s'.db.actions.find a = some r →
    r.status = .executed → Finished a r s' := by
  intro a r' hr' he
  by_cases hold : ∃ r, s.db.actions.find a = some r ∧ r.status = .executed
  · obtain ⟨r, hr, he₀⟩ := hold
    have hF := (hB.rows a r hr he₀).step hS h (hev a)
    obtain rfl : r = r' := some_inj.1 (hF.row.symm.trans hr')
    exact hF
  · cases hl : l.turn? with
    | none => exact absurd (h.executed_of_other hl hr' he) hold
    | some t =>
      cases id h with
      | @turn t act db u _ hm =>
        obtain ⟨rfl, w, item, i, v, ht, rfl⟩ := hm.executes hr' he fun r hr he => hold ⟨r, hr, he⟩
        obtain ⟨r, hF, -⟩ := finished_of_record hS hA ht (hal t w item i v rfl ht) h
        obtain rfl : r = r' := some_inj.1 (hF.row.symm.trans hr')
        exact hF
      | _ => cases hl

theorem QueueState.Books.item_step : ∀ a q, s'.db.queue.find a = some q →
    q.status = .completed → ∃ r, Finished a r s' := by
  intro a q' hq' hc
  have hold : (∃ q, s.db.queue.find a = some q ∧ q.status = .completed) → ∃ r, Finished a r s' := by
    rintro ⟨q, hq, hc⟩
    obtain ⟨r, hF⟩ := hB.items a q hq hc
    exact ⟨r, hF.step hS h (hev a)⟩
  cases id h with
  | @turn t act db u _ hm =>
    rcases hm.queueWrite.completed_back hq' hc with hq | ⟨w, item, phase, i, y, ht, hp, hb, hy, rfl⟩
    · exact hold hq
    · obtain ⟨r, hF, -⟩ := hB.works t w item phase ht (Phase.isAfter_of_isCompleting hp)
      obtain ⟨x, hx, hxa, -⟩ := hS.begun t w item phase i ht hb
      rw [hy, some_inj] at hx
      subst hx
      exact ⟨r, (hxa ▸ hF).step hS h (hev _)⟩
  | cancelUnstarted id =>
    rcases cancelUnstartedAction_cases s.db id with hdb | ⟨p, b, hp, -, -, -, hdb⟩
    · exact hold ⟨q', (congrArg (fun db : ActionDb => db.queue.find a) hdb).symm.trans hq', hc⟩
    · have hput := (congrArg (fun db : ActionDb => db.queue.find a) hdb).symm.trans hq'
      exact hold (completed_put hp hput hc rfl (by simp [unstarted]))
  | _ => exact hold ⟨q', hq', hc⟩

/-- A worker past its record has written the result that it recorded. -/
theorem QueueState.Books.work_step (hA : s.Audited) (hal : RecordedAlone s l) :
    ∀ t w item phase, s'.turns t = .work w item phase → phase.isAfter = true →
    ∃ r, Finished item.actionId r s' ∧ ∀ v, phase.recorded? = some v → r.result = some v := by
  intro t' w item phase ht' hp
  have hold : ∀ {phase₀}, s.turns t' = .work w item phase₀ → phase₀.isAfter = true →
      (∀ v, phase.recorded? = some v → phase₀.recorded? = some v) →
      ∃ r, Finished item.actionId r s' ∧ ∀ v, phase.recorded? = some v → r.result = some v := by
    intro phase₀ ht₀ hp₀ hv
    obtain ⟨r, hF, hres⟩ := hB.works t' w item phase₀ ht₀ hp₀
    exact ⟨r, hF.step hS h (hev _), fun v hr => hres v (hv v hr)⟩
  cases id h with
  | @turn t act db u _ hm =>
    rcases put_turns_cases ht' with ⟨rfl, rfl⟩ | ⟨-, ht⟩
    · generalize hturn : s.turns t' = u₀ at hm
      generalize hu : Turn.work w item phase = u at hm
      cases hm with
      | lease | tick =>
        cases hu
        cases hp
      | work hw =>
        cases hw with
        | check v =>
          cases hu
          obtain ⟨r, hr, he⟩ := executed_of_settling hp
          refine ⟨r, (hB.rows _ r hr he).step hS h (hev _), fun v' hv => ?_⟩
          have hnone : ∀ d : Decision, d.phase.recorded? = none := by
            rintro (⟨_ | _, _⟩ | _ | _) <;> rfl
          rw [hnone] at hv
          cases hv
        | settle =>
          cases hu
          exact hold hturn rfl nofun
        | record i v =>
          cases hu
          obtain ⟨r, hF, hv⟩ := finished_of_record hS hA hturn (hal t' w item i v rfl hturn) h
          refine ⟨r, hF, fun v' hv' => hv.trans (congrArg some ?_)⟩
          exact some_inj.1 hv'
        | publish =>
          cases hu
          exact hold hturn rfl fun v hv => hv
        | expire | note | begin | call | return_ | throw_ | renew | recordThrows | publishThrows
        | noteFailure | publishFailure => cases hu; cases hp
        | _ => cases hu
      | _ => cases hu
    · exact hold ht hp fun v hv => hv
  | _ => exact hold ht' hp fun v hv => hv

/-- What is answered as executed is in the row of the action. -/
theorem QueueState.Books.answer_step : ∀ t o, s'.turns t = .answered o → o.status = .executed →
    ∃ r, Finished o.id r s' ∧ r.result = o.result := by
  intro t' o ht' ho
  have hold : (∃ r, Finished o.id r s ∧ r.result = o.result) →
      ∃ r, Finished o.id r s' ∧ r.result = o.result := by
    rintro ⟨r, hF, hres⟩
    exact ⟨r, hF.step hS h (hev _), hres⟩
  cases id h with
  | @turn t act db u _ hm =>
    rcases put_turns_cases ht' with ⟨rfl, rfl⟩ | ⟨-, ht⟩
    · apply hold
      generalize hturn : s.turns t' = u₀ at hm
      generalize hu : Turn.answered o = u at hm
      cases hm with
      | withdraw => cases hu; cases ho
      | refuse hp =>
        cases hu
        exact absurd ho (Proposal.outcome_ne_executed hp)
      | read hr =>
        cases hu
        obtain ⟨r, hrow, hid, hres, hst⟩ := executed_of_currentOutcome hr ho
        rw [hid]
        rcases hst with he | ⟨q, hq, hc⟩
        · exact ⟨r, hB.rows _ r hrow he, hres⟩
        · obtain ⟨r', hF⟩ := hB.items _ q hq hc
          obtain rfl : r' = r := some_inj.1 (hF.row.symm.trans hrow)
          exact ⟨r', hF, hres⟩
      | work hw =>
        cases hw with
        | @complete i v now r hc =>
          cases hu
          obtain ⟨r, hF, hres⟩ := hB.works t' _ _ _ hturn rfl
          exact ⟨r, hF, hres v rfl⟩
        | @stop x =>
          cases hu
          rcases x with ⟨_ | _, _, _⟩ <;> cases ho
        | fail =>
          cases hu
          exact absurd ho (toStep_ne_executed _)
        | _ => cases hu
      | _ => cases hu
    · exact hold (hB.answers t' o ht ho)
  | _ => exact hold (hB.answers t' o ht' ho)

end Books

/-- The queue, where results are recorded by one worker alone and their events are published. -/
def orderlyQueue (C : WorkerConfig) : Machine QueueState QueueLabel :=
  (queueMachine C).restrict fun s l _ => RecordedAlone s l ∧ ∀ a, ¬EventThrows a s l

theorem books_init (C : WorkerConfig) : (queueMachine C).init.Books where
  rows := fun _ _ h => by cases h
  items := fun _ _ h => by cases h
  works := fun _ _ _ _ h => by cases h
  answers := fun _ _ h => by cases h

/-- The invariants of an orderly queue. -/
structure QueueState.Orderly (s : QueueState) : Prop where
  sound : s.Sound
  audited : s.Audited
  books : s.Books

theorem orderly_init (C : WorkerConfig) : (queueMachine C).init.Orderly :=
  ⟨sound_init C, audited_of_run (C := C) .nil, books_init C⟩

theorem QueueState.Orderly.step {l : QueueLabel} (hO : s.Orderly)
    (h : (orderlyQueue C).step s l s') : s'.Orderly := by
  obtain ⟨hst, hal, hev⟩ := h
  have hq := queueStep_of_step hst
  exact ⟨hO.sound.step hq.stepWrite, hO.audited.step hq,
    ⟨hO.books.row_step hO.sound hq hev hO.audited hal, hO.books.item_step hO.sound hq hev,
      hO.books.work_step hO.sound hq hev hO.audited hal, hO.books.answer_step hO.sound hq hev⟩⟩

theorem steps_orderlyQueue {h : List QueueLabel} (hs : ∀ t, 1 ≤ t → s.turns t = .idle)
    (hp : ∀ t e, QueueLabel.turn t (.publish (some e)) ∉ h) (hd : driveQueue C 1 s h = some s') :
    (orderlyQueue C).Steps s h s' := by
  induction h generalizing s with
  | nil =>
    cases hd
    exact .nil
  | cons l h ih =>
    rw [← singleton_append, driveQueue_append, bind_eq_some_iff] at hd
    obtain ⟨s₁, h₁, hd⟩ := hd
    obtain ⟨hsteps, hs₁⟩ := steps_driveQueue hs h₁
    obtain ⟨s₀, h₀, hst⟩ := hsteps.last (h := [])
    obtain rfl := h₀.eq_of_nil
    refine .cons ⟨hst, ?_, ?_⟩ (ih hs₁ (fun t e hm => hp t e (mem_cons_of_mem _ hm)) hd)
    · intro t w item i v _ ht t' htt
      -- the turn that records is the only one at work
      have h₀ : t = 0 := by
        by_contra hne
        rw [hs t (by omega)] at ht
        cases ht
      rw [hs t' (by omega)]
      rfl
    · rintro a ⟨t, e, w, item, i, v, rfl, -⟩
      exact hp t e (mem_cons_self ..)

end U2os.Server.Agent
