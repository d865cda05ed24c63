import U2os.Lib.Run
import U2os.Majordomo.Actions.Store

/-!
# What the action store can do to its tables

Every operation of the action store is a sequence of three kinds of row changes: a request is
stored, a row makes one transition of the table, a lease is prolonged.  `Move` lists, once and
for all operations, what each trigger does to the row and to the attempts; the later modules
derive every invariant from it and never unfold an operation.

## Main results

* `submit_ok`, `approve_ok`, … : every operation as changes.
-/

namespace U2os.Majordomo

open Table Tx

/-- The table `action_attempts`. -/
abbrev Attempts := Table Attempt Attempt.id

/-- The columns `transition` sets after `mutate`. -/
def Action.stamp (a : Action) (to_ : Status) (now : Int) (eventId : String) : Action :=
  { a with status := to_, updatedAtMs := now, lastEventId := some eventId }

/-- The settlements an attempt can get. -/
def Settlement.Legal (c : Settlement) : Prop :=
  (c.trigger = .complete ∧ c.attemptStatus = .completed) ∨
  (c.trigger = .failRetry ∧ c.attemptStatus = .failed ∧ c.class_ = some .retryable) ∨
  (c.trigger = .failDeadLetter ∧ c.attemptStatus = .failed) ∨
  (c.trigger = .failTerminal ∧ c.attemptStatus = .failed) ∨
  (c.trigger = .markUncertain ∧ c.attemptStatus = .uncertain)

/-- The effect of a trigger on the row of an action and on the attempts, before the row is
stamped with its new status. -/
inductive Move (now : Int) : Trigger → Action → Attempts → Action → Attempts → Prop
  | approve {a T} (by_ : String) : Move now .approve a T
      { a with approvedBy := some by_, approvedAtMs := some now, nextAttemptAtMs := now } T
  | reject {a T} : Move now .reject a T
      { a with lastError := some "Rejected by owner", errorClass := some .ownerAttentionRequired }
      T
  | cancel {a T} : Move now .cancel a T
      { a with lastError := some "Cancelled before attempt", errorClass := some .nonRetryable } T
  | requeue {a T} (hr : a.errorClass ≠ some .recoveryReviewRequired)
      (hu : a.errorClass ≠ some .outcomeUncertain)
      (ha : ¬(a.consequential = true ∧ a.approvedAtMs = none)) : Move now .requeue a T
      (clearLease { a with nextAttemptAtMs := now, lastError := none, errorClass := none }) T
  | resolve {a T} (r : Resolution) : Move now r.trigger.1 a T
      { a with
        lastError := none
        errorClass := none
        nextAttemptAtMs := if r = .confirmedNotDone then now else a.nextAttemptAtMs } T
  | lease {a T} (owner : String) (leaseMs : Int) (hn : a.nextAttemptAtMs ≤ now)
      (ha : a.consequential = false ∨ a.approvedAtMs ≠ none) : Move now .lease a T
      { a with leaseOwner := some owner, leaseExpiresAtMs := some (satAdd now leaseMs) } T
  | expireIdle {a T} (hs : a.status = .leased) : Move now .expireLease a T (expireRow now a) T
  | expireExecuting {a} {T : Attempts} (hs : a.status = .executing) :
      Move now .expireLease a T (expireRow now a)
        (T.updateWhere (fun t => t.actionId = a.id ∧ t.status = .executing) (closeUncertain now)
          (closeUncertain_id now))
  | begin_ {a} {T T' : Attempts} (owner attemptId : String) (ho : a.leaseOwner = some owner)
      (hx : ∃ e, a.leaseExpiresAtMs = some e ∧ now < e)
      (hT : T.insert? ⟨attemptId, a.id, a.attemptCount + 1, owner, .executing, now, none, none,
        none⟩ = some T')
      (hn : ∀ x ∈ T, ¬(x.actionId = a.id ∧ x.attemptNumber = a.attemptCount + 1)) :
      Move now .beginAttempt a T { a with attemptCount := a.attemptCount + 1 } T'
  | settle {a} {T : Attempts} (c : Settlement) (hc : c.Legal) (t : Attempt) (ht : t ∈ T)
      (hs : t.status = .executing) (hid : t.actionId = a.id)
      (ho : a.leaseOwner = some t.leaseOwner) : Move now c.trigger a T
      (clearLease { a with
        lastError := c.message
        errorClass := c.class_
        nextAttemptAtMs := if 0 < c.nextAttempt then c.nextAttempt else a.nextAttemptAtMs })
      (T.put (closeAttempt now c t))
  | stop {a T} (status : StopStatus) (owner error : String) (class_ : ErrorClass)
      (ho : a.leaseOwner = some owner) : Move now status.trigger a T
      (clearLease { a with lastError := some (boundedError error), errorClass := some class_ }) T

/-- One change of the tables. -/
inductive Change where
  /-- A request was stored as this row. -/
  | submitted (a : Action)
  /-- A row made a transition, from `a` to `a'`. -/
  | moved (trigger : Trigger) (a a' : Action)
  /-- The lease of this action was prolonged. -/
  | renewed (id : String)

/-- Entries that leave the entries of a transition alone. -/
def Harmless (extra : List (String × Json)) : Prop :=
  ∀ p ∈ extra, p.1 ≠ "from" ∧ p.1 ≠ "to" ∧ p.1 ≠ "trigger"

/-- A row as a request stores it, before its first event. -/
structure Fresh (a : Action) : Prop where
  status : a.status = if a.consequential then .awaitingApproval else .queued
  attemptCount : a.attemptCount = 0
  leaseOwner : a.leaseOwner = none
  leaseExpiresAtMs : a.leaseExpiresAtMs = none
  approvedAtMs : a.approvedAtMs = none
  errorClass : a.errorClass = none
  lastEventId : a.lastEventId = none
  id : a.id ≠ ""

/-- The changes of the tables. -/
inductive DbStep : Db → Change → Db → Prop
  | submitted {s : Db} {a : Action} {actions : Table Action Action.id} {ev : Event}
      {log : EventLog} {extra : List (String × Json)} (hf : Fresh a)
      (hk : ∀ x ∈ s.actions, x.idempotencyKey ≠ a.idempotencyKey)
      (hi : s.actions.insert? { a with lastEventId := some ev.id } = some actions)
      (hl : log.events = s.events.events ++ [ev])
      (he : ev.toNewEvent = transitionEvent a none "submit" extra) (hx : Harmless extra) :
      DbStep s (.submitted { a with lastEventId := some ev.id })
        { s with events := log, actions := actions }
  | moved {s : Db} {trigger : Trigger} {a a₁ : Action} {to_ : Status} {now : Int}
      {attempts : Attempts} {ev : Event} {log : EventLog} {extra : List (String × Json)}
      (ha : a ∈ s.actions) (hn : next a.status trigger = .ok to_)
      (hm : Move now trigger a s.attempts a₁ attempts)
      (hl : log.events = s.events.events ++ [ev])
      (he : ev.toNewEvent =
        transitionEvent { a₁ with status := to_ } (some a.status) trigger.asStr extra)
      (hx : Harmless extra) :
      DbStep s (.moved trigger a (a₁.stamp to_ now ev.id))
        { s with
          events := log, actions := s.actions.put (a₁.stamp to_ now ev.id), attempts := attempts }
  | renewed {s : Db} {a : Action} {leaseMs now : Int} (ha : a ∈ s.actions)
      (hs : a.status.Held) (hx : ∃ e, a.leaseExpiresAtMs = some e ∧ now < e) :
      DbStep s (.renewed a.id)
        { s with actions := s.actions.put (renewRow leaseMs now a) }

/-- The machine of the changes. -/
def changes : Machine Db Change := ⟨Db.empty, DbStep⟩

/-! ### Columns every trigger keeps -/

theorem expireRow_id (now : Int) (a : Action) : (expireRow now a).id = a.id := by
  unfold expireRow
  split_ifs <;> rfl

variable {now : Int} {g : Trigger} {a a₁ r : Action} {T T' : Attempts}

theorem Move.id_eq (hm : Move now g a T a₁ T') : a₁.id = a.id := by
  cases hm <;> first | rfl | exact expireRow_id now a

theorem DbStep.mem_submitted {s t : Db} (hst : DbStep s (.submitted a) t) :
    a ∈ t.actions := by
  generalize hch : Change.submitted a = ch at hst
  cases hst with
  | submitted hf hk hi hl he hx =>
    rw [Change.submitted.inj hch]
    exact (mem_of_insert? hi).2 (.inr rfl)
  | _ => cases hch

theorem DbStep.mem_moved {s t : Db} {a' : Action} (hst : DbStep s (.moved g a a') t) :
    a ∈ s.actions ∧ a' ∈ t.actions ∧ a'.id = a.id ∧ next a.status g = .ok a'.status := by
  generalize hch : Change.moved g a a' = ch at hst
  cases hst with
  | @moved g' a₀ a₁ to_ now attempts ev log extra ha hn hm hl he hx =>
    cases hch
    have hkey : a.id = (a₁.stamp to_ now ev.id).id := hm.id_eq.symm
    exact ⟨ha, (mem_put_of_mem ha hkey).2 (.inr rfl), hkey.symm, hn⟩
  | _ => cases hch

theorem expireRow_attemptCount (now : Int) (a : Action) :
    (expireRow now a).attemptCount = a.attemptCount := by
  unfold expireRow
  split_ifs <;> rfl

theorem expireRow_consequential (now : Int) (a : Action) :
    (expireRow now a).consequential = a.consequential := by
  unfold expireRow
  split_ifs <;> rfl

theorem Move.consequential (hm : Move now g a T a₁ T') : a₁.consequential = a.consequential := by
  cases hm <;> first | rfl | exact expireRow_consequential now a

theorem Move.idempotencyKey (hm : Move now g a T a₁ T') : a₁.idempotencyKey = a.idempotencyKey := by
  cases hm <;> first | rfl | (unfold expireRow; split_ifs <;> rfl)

theorem Move.lastEventId (hm : Move now g a T a₁ T') : a₁.lastEventId = a.lastEventId := by
  cases hm <;> first | rfl | (unfold expireRow; split_ifs <;> rfl)

/-- No action is deleted, and its key and its class stay. -/
theorem DbStep.persists {s t : Db} {c : Change} (hst : DbStep s c t) {a : Action}
    (ha : a ∈ s.actions) : ∃ a' ∈ t.actions, a'.id = a.id ∧
      a'.idempotencyKey = a.idempotencyKey ∧ a'.consequential = a.consequential := by
  cases hst with
  | submitted hf hk hi hl he hx =>
    exact ⟨a, (mem_of_insert? hi).2 (.inl ha), rfl, rfl, rfl⟩
  | @moved g b b₁ to_ now attempts ev log extra hb hn hm hl he hx =>
    have hkey : b.id = (b₁.stamp to_ now ev.id).id := hm.id_eq.symm
    by_cases hab : a.id = b.id
    · obtain rfl := eq_of_key ha hb hab
      exact ⟨_, (mem_put_of_mem hb hkey).2 (.inr rfl), hkey.symm, hm.idempotencyKey,
        hm.consequential⟩
    · exact ⟨a, (mem_put_of_mem hb hkey).2 (.inl ⟨ha, fun e => hab (e.trans hkey.symm)⟩),
        rfl, rfl, rfl⟩
  | @renewed b leaseMs now hb hs hx =>
    have hkey : b.id = (renewRow leaseMs now b).id := rfl
    by_cases hab : a.id = b.id
    · obtain rfl := eq_of_key ha hb hab
      exact ⟨_, (mem_put_of_mem hb hkey).2 (.inr rfl), rfl, rfl, rfl⟩
    · exact ⟨a, (mem_put_of_mem hb hkey).2 (.inl ⟨ha, hab⟩), rfl, rfl, rfl⟩

variable {c : Settlement}

theorem Settlement.Legal.trigger_mem (h : c.Legal) :
    c.trigger ∈ [Trigger.complete, .failRetry, .failDeadLetter, .failTerminal, .markUncertain] := by
  rcases h with ⟨h, -⟩ | ⟨h, -⟩ | ⟨h, -⟩ | ⟨h, -⟩ | ⟨h, -⟩ <;> simp [h]

theorem Move.of_requeue
    (hm : Move now .requeue a T a₁ T') : a.errorClass ≠ some .recoveryReviewRequired ∧
      a.errorClass ≠ some .outcomeUncertain ∧
      ¬(a.consequential = true ∧ a.approvedAtMs = none) := by
  generalize hg : Trigger.requeue = g at hm
  cases hm with
  | requeue hr hu ha => exact ⟨hr, hu, ha⟩
  | resolve r => cases r <;> simp [Resolution.trigger] at hg
  | settle c hc => simpa [← hg] using hc.trigger_mem
  | stop status => cases status <;> simp [StopStatus.trigger] at hg
  | _ => simp at hg

theorem Move.of_failed
    (hm : Move now g a T a₁ T') (hg : g = .failRetry ∨ g = .failDeadLetter ∨ g = .failTerminal) :
    ∃ t ∈ T, t.actionId = a.id ∧ t.status = .executing ∧
      ∃ t' ∈ T', t'.id = t.id ∧ t'.status = .failed := by
  cases hm with
  | settle c hc t ht hs hid _ =>
    refine ⟨t, ht, hid, hs, closeAttempt now c t,
      (mem_put_of_mem ht (closeAttempt_id now c t).symm).2 (.inr rfl), rfl, ?_⟩
    rcases hc with ⟨h, -⟩ | ⟨-, h, -⟩ | ⟨-, h⟩ | ⟨-, h⟩ | ⟨h, -⟩
    · simp [h] at hg
    · exact h
    · exact h
    · exact h
    · simp [h] at hg
  | resolve r => cases r <;> simp [Resolution.trigger] at hg
  | stop status => cases status <;> simp [StopStatus.trigger] at hg
  | _ => simp at hg

theorem Move.closed_persists
    (hm : Move now g a T a₁ T') {x : Attempt} (hx : x ∈ T) (hs : x.status ≠ .executing) :
    x ∈ T' := by
  cases hm with
  | begin_ _ _ _ _ hT _ => exact (mem_of_insert? hT).2 (.inl hx)
  | expireExecuting _ => exact mem_updateWhere.2 ⟨x, hx, (if_neg fun h => hs h.2).symm⟩
  | settle c _ t ht hts _ _ =>
    refine (mem_put_of_mem ht (closeAttempt_id now c t).symm).2 (.inl ⟨hx, fun h => ?_⟩)
    exact hs (eq_of_key hx ht h ▸ hts)
  | _ => exact hx

theorem Move.of_approve (hm : Move now .approve a T a₁ T') : a₁.approvedAtMs = some now := by
  generalize hg : Trigger.approve = g at hm
  cases hm with
  | approve by_ => rfl
  | resolve r => cases r <;> simp [Resolution.trigger] at hg
  | settle c hc => simpa [← hg] using hc.trigger_mem
  | stop status => cases status <;> simp [StopStatus.trigger] at hg
  | _ => simp at hg

theorem Move.attemptCount
    (hm : Move now g a T a₁ T') (hg : g ≠ .beginAttempt) : a₁.attemptCount = a.attemptCount := by
  cases hm <;> first | rfl | exact expireRow_attemptCount now a | exact absurd rfl hg

theorem Move.attempt_persists
    (hm : Move now g a T a₁ T') {x : Attempt} (hx : x ∈ T) : ∃ x' ∈ T', x'.id = x.id ∧
      x'.actionId = x.actionId ∧ x'.attemptNumber = x.attemptNumber := by
  cases hm with
  | begin_ _ _ _ _ hT _ => exact ⟨x, (mem_of_insert? hT).2 (.inl hx), rfl, rfl, rfl⟩
  | expireExecuting _ =>
    refine ⟨_, mem_updateWhere.2 ⟨x, hx, rfl⟩, ?_⟩
    split_ifs <;> exact ⟨rfl, rfl, rfl⟩
  | settle c _ t ht _ _ _ =>
    by_cases hxt : x.id = t.id
    · obtain rfl := eq_of_key hx ht hxt
      exact ⟨_, (mem_put_of_mem ht (closeAttempt_id now c x).symm).2 (.inr rfl), rfl, rfl,
        rfl⟩
    · exact ⟨x, (mem_put_of_mem ht (closeAttempt_id now c t).symm).2 (.inl ⟨hx, hxt⟩),
        rfl, rfl, rfl⟩
  | _ => exact ⟨x, hx, rfl, rfl, rfl⟩

/-- A row differs from another one only in columns `persist` writes. -/
def SameRequest (a a₁ : Action) : Prop := writeColumns a₁ a = a₁

theorem SameRequest.id_eq (h : SameRequest a a₁) : a₁.id = a.id :=
  (congrArg Action.id h).symm

theorem SameRequest.stamp (h : SameRequest a a₁) (to_ : Status) (now : Int)
    (eventId : String) : SameRequest a (a₁.stamp to_ now eventId) :=
  congrArg (fun x => Action.stamp x to_ now eventId) h

variable {s s' : Session} {attemptId by_ id owner : String}

theorem load_ok (h : (load id).Ok s a s') :
    a ∈ s.db.actions ∧ a.id = id ∧ s' = s := by
  simp only [load, ok_bind, ok_get, ok_ofOption, ok_mapError, ok_ofExcept] at h
  obtain ⟨_, _, ⟨rfl, rfl⟩, _, _, ⟨hf, rfl⟩, hread, rfl⟩ := h
  obtain ⟨-, rfl⟩ := rowToAction_eq_ok.1 hread
  exact ⟨mem_of_find hf, key_of_find hf, rfl⟩

theorem loadAttempt_ok {t : Attempt}
    (h : (loadAttempt id).Ok s t s') : t ∈ s.db.attempts ∧ t.id = id ∧ s' = s := by
  simp only [loadAttempt, ok_bind, ok_get, ok_ofOption] at h
  obtain ⟨_, _, ⟨rfl, rfl⟩, hf, rfl⟩ := h
  exact ⟨mem_of_find hf, key_of_find hf, rfl⟩

variable {extra : List (String × Json)}

theorem recordEvent_ok {from_ : Option Status} {trigger : String}
    (h : (recordEvent a from_ trigger extra now).Ok s r s') :
    ∃ (ev : Event) (log : EventLog), r = { a with lastEventId := some ev.id } ∧
      log.events = s.db.events.events ++ [ev] ∧
      ev.toNewEvent = transitionEvent a from_ trigger extra ∧
      s'.db = { s.db with events := log } := by
  simp only [recordEvent, ok_bind, ok_mapError, ok_pure] at h
  obtain ⟨ev, t, hev, rfl, rfl⟩ := h
  obtain ⟨he, -, log, hl, hdb⟩ := append_ok hev
  exact ⟨ev, log, rfl, hl, he, hdb⟩

theorem persist_ok {a₀ : Action} {u : Unit}
    (h : (persist a a₀.status).Ok s u s') (h₀ : a₀ ∈ s.db.actions) (hr : SameRequest a₀ a) :
    s'.db = { s.db with actions := s.db.actions.put a } := by
  simp only [persist, ok_bind, ok_get, ok_set, ok_ensure] at h
  obtain ⟨_, _, ⟨rfl, rfl⟩, _, _, rfl, -, rfl⟩ := h
  have hput := updateWhere_eq_put (p := fun r => r.id = a.id ∧ r.status = a₀.status)
    (writeColumns_id a) h₀ ⟨hr.id_eq.symm, rfl⟩
    fun r hr' => hr'.1.trans hr.id_eq
  rw [show writeColumns a a₀ = a from hr] at hput
  rw [← hput]

theorem transition_ok {trigger : Trigger} {mutate : Action → Except ActionError Action}
    (h : (transition id trigger now extra mutate).Ok s r s')
    (hm : ∀ a a₁, mutate a = .ok a₁ → SameRequest a a₁) :
    ∃ (a a₁ : Action) (to_ : Status) (ev : Event) (log : EventLog), a ∈ s.db.actions ∧ a.id = id ∧
      next a.status trigger = .ok to_ ∧ mutate a = .ok a₁ ∧ r = a₁.stamp to_ now ev.id ∧
      log.events = s.db.events.events ++ [ev] ∧
      ev.toNewEvent =
        transitionEvent { a₁ with status := to_ } (some a.status) trigger.asStr extra ∧
      s'.db = { s.db with events := log, actions := s.db.actions.put r } := by
  simp only [transition, ok_bind, ok_ofExcept, ok_pure] at h
  obtain ⟨a, _, hload, to_, _, ⟨hnext, rfl⟩, a₁, _, ⟨hmut, rfl⟩, a₂, t, hrec, _, _, hper, rfl,
    rfl⟩ := h
  obtain ⟨hmem, hid, rfl⟩ := load_ok hload
  obtain ⟨ev, log, rfl, hlog, hev, hdb⟩ := recordEvent_ok hrec
  have hsame := (hm a a₁ hmut).stamp to_ now ev.id
  have hwrite := persist_ok hper (by rw [hdb]; exact hmem) hsame
  refine ⟨a, a₁, to_, ev, log, hmem, hid, ?_, hmut, rfl, hlog, hev, ?_⟩
  · cases hn : next a.status trigger with
    | error e => rw [hn] at hnext; cases hnext
    | ok x => rw [hn] at hnext; cases hnext; rfl
  · rw [hwrite, hdb]

/-! ### The operations as changes -/

theorem moved_of_transition {trigger : Trigger} {mutate : Action → Except ActionError Action}
    (h : (transition id trigger now extra mutate).Ok s r s')
    (hx : Harmless extra) (hm : ∀ a a₁, mutate a = .ok a₁ → SameRequest a a₁)
    (hmove : ∀ a a₁, a ∈ s.db.actions → a.id = id → mutate a = .ok a₁ →
      Move now trigger a s.db.attempts a₁ s.db.attempts) :
    ∃ a, a ∈ s.db.actions ∧ a.id = id ∧ DbStep s.db (.moved trigger a r) s'.db := by
  obtain ⟨a, a₁, to_, ev, log, hmem, hid, hn, hmut, rfl, hl, he, hdb⟩ := transition_ok h hm
  refine ⟨a, hmem, hid, ?_⟩
  rw [hdb]
  exact DbStep.moved hmem hn (hmove a a₁ hmem hid hmut) hl he hx

theorem harmless_nil : Harmless [] := by simp [Harmless]

theorem approve_ok (h : (approve id by_ now).Ok s r s') :
    ∃ a, a ∈ s.db.actions ∧ a.id = id ∧ DbStep s.db (.moved .approve a r) s'.db := by
  simp only [approve, ok_bind, ok_ofExcept] at h
  obtain ⟨_, _, ⟨-, rfl⟩, h⟩ := h
  refine moved_of_transition h (by simp [Harmless]) ?_ ?_
  · rintro a _ ⟨⟩; rfl
  · rintro a _ - - ⟨⟩; exact Move.approve by_

theorem reject_ok (h : (reject id by_ now).Ok s r s') :
    ∃ a, a ∈ s.db.actions ∧ a.id = id ∧ DbStep s.db (.moved .reject a r) s'.db := by
  simp only [reject, ok_bind, ok_ofExcept] at h
  obtain ⟨_, _, ⟨-, rfl⟩, h⟩ := h
  refine moved_of_transition h (by simp [Harmless]) ?_ ?_
  · rintro a _ ⟨⟩; rfl
  · rintro a _ - - ⟨⟩; exact Move.reject

theorem cancel_ok (h : (cancel id now).Ok s r s') :
    ∃ a, a ∈ s.db.actions ∧ a.id = id ∧ DbStep s.db (.moved .cancel a r) s'.db := by
  refine moved_of_transition h harmless_nil ?_ ?_
  · rintro a _ ⟨⟩; rfl
  · rintro a _ - - ⟨⟩; exact Move.cancel

theorem requeue_ok (h : (requeue id now).Ok s r s') :
    ∃ a, a ∈ s.db.actions ∧ a.id = id ∧ DbStep s.db (.moved .requeue a r) s'.db := by
  simp only [requeue, ok_bind, ok_ensure] at h
  obtain ⟨current, _, hload, _, _, ⟨hr, rfl⟩, _, _, ⟨hu, rfl⟩, h⟩ := h
  obtain ⟨hmem, hid, rfl⟩ := load_ok hload
  refine moved_of_transition h harmless_nil ?_ ?_
  · intro a a₁ hmut
    split_ifs at hmut
    cases hmut; rfl
  · intro a a₁ ha haid hmut
    obtain rfl := eq_of_key ha hmem (haid.trans hid.symm)
    split_ifs at hmut with happ
    cases hmut
    exact Move.requeue hr hu happ

theorem resolveUncertain_ok {res : Resolution} (h : (resolveUncertain id res by_ now).Ok s r s') :
    ∃ a, a ∈ s.db.actions ∧ a.id = id ∧ DbStep s.db (.moved res.trigger.1 a r) s'.db := by
  simp only [resolveUncertain, ok_bind, ok_ofExcept] at h
  obtain ⟨_, _, ⟨-, rfl⟩, h⟩ := h
  refine moved_of_transition h (by simp [Harmless]) ?_ ?_
  · rintro a _ ⟨⟩; rfl
  · rintro a _ - - ⟨⟩; exact Move.resolve res

theorem requireOwner_bind_ok {f : Unit → Except ActionError Action}
    (h : requireOwner a owner >>= f = .ok a₁) :
    a.leaseOwner = some owner ∧ f () = .ok a₁ := by
  unfold requireOwner at h
  split_ifs at h with ho
  · exact ⟨ho, h⟩
  · cases h

theorem stopLeased_ok {error : String} {status : StopStatus} {class_ : ErrorClass}
    (h : (stopLeased id owner status error class_ now).Ok s r s') :
    ∃ a, a ∈ s.db.actions ∧ a.id = id ∧ DbStep s.db (.moved status.trigger a r) s'.db := by
  refine moved_of_transition h harmless_nil ?_ ?_
  · intro a a₁ hmut
    obtain ⟨-, hrow⟩ := requireOwner_bind_ok hmut
    cases hrow; rfl
  · intro a a₁ _ _ hmut
    obtain ⟨ho, hrow⟩ := requireOwner_bind_ok hmut
    cases hrow
    exact Move.stop status owner error class_ ho

theorem mem_due {db : Db} {id : Option String}
    (h : a ∈ due db id now) : a ∈ db.actions ∧ a.status.Waiting ∧ a.nextAttemptAtMs ≤ now ∧
      (a.consequential = false ∨ a.approvedAtMs ≠ none) ∧ ∀ i, id = some i → a.id = i := by
  have h' := List.mem_filter.1 ((List.mem_insertionSort _).1 h)
  obtain ⟨hmem, hp⟩ := h'
  have hp' : a.status.Waiting ∧ a.nextAttemptAtMs ≤ now ∧
      (a.consequential = false ∨ a.approvedAtMs ≠ none) ∧ id.all (a.id = ·) := of_decide_eq_true hp
  refine ⟨hmem, hp'.1, hp'.2.1, hp'.2.2.1, ?_⟩
  rintro i rfl
  simpa using hp'.2.2.2

/-- A lease takes nothing, or one action for its owner. -/
theorem leaseBody_ok {id : Option String} {leaseMs : Int} {r : Option Action}
    (h : (leaseBody id owner leaseMs now).Ok s r s') :
    (r = none ∧ s'.db = s.db) ∨ ∃ a a', r = some a' ∧ a ∈ s.db.actions ∧
      (∀ i, id = some i → a.id = i) ∧ a'.leaseOwner = some owner ∧
      DbStep s.db (.moved .lease a a') s'.db := by
  simp only [leaseBody, ok_bind, ok_get] at h
  obtain ⟨_, _, ⟨rfl, rfl⟩, h⟩ := h
  split at h
  · obtain ⟨rfl, rfl⟩ := ok_pure.1 h
    exact .inl ⟨rfl, rfl⟩
  · next c hc =>
    obtain ⟨hmem, -, hn, happ, hid⟩ := mem_due (List.mem_of_head? hc)
    obtain ⟨r', t, htr, h⟩ := ok_bind.1 h
    obtain ⟨rfl, rfl⟩ := ok_pure.1 h
    have hrow : r'.leaseOwner = some owner := by
      obtain ⟨_, _, _, _, _, -, -, -, ⟨⟩, rfl, -⟩ := transition_ok htr (by rintro a _ ⟨⟩; rfl)
      rfl
    refine .inr ?_
    obtain ⟨a, ha, haid, hstep⟩ := moved_of_transition htr (by simp [Harmless])
      (by rintro a _ ⟨⟩; rfl) fun a a₁ ha haid hmut => by
        obtain rfl := eq_of_key ha hmem haid
        cases hmut
        exact Move.lease owner leaseMs hn happ
    exact ⟨a, r', rfl, ha, fun i hi => haid.trans (hid i hi), hrow, hstep⟩

theorem expireLease_ok {r : Bool}
    (h : (expireLease now id).Ok s r s') : ∃ a a', a ∈ s.db.actions ∧ a.id = id ∧
      DbStep s.db (.moved .expireLease a a') s'.db := by
  obtain ⟨a', t, htr, h⟩ := ok_bind.1 h
  obtain ⟨a, a₁, to_, ev, log, hmem, rfl, hn, hmut, rfl, hl, he, hdb⟩ :=
    transition_ok htr fun a a₁ hmut => by
      cases hmut
      unfold expireRow
      split_ifs <;> rfl
  cases hmut
  refine ⟨a, (expireRow now a).stamp to_ now ev.id, hmem, rfl, ?_⟩
  have hfrom : (a.status = .leased ∧ to_ = .queued) ∨
      (a.status = .executing ∧ to_ = .outcomeUncertain) := by
    have hmem' := next_eq_ok.1 hn
    generalize a.status = f at hmem' ⊢
    simpa [transitions] using hmem'
  rcases hfrom with ⟨hs, rfl⟩ | ⟨hs, rfl⟩
  · rw [if_neg (by simp [Action.stamp])] at h
    obtain ⟨-, rfl⟩ := ok_pure.1 h
    rw [hdb]
    exact DbStep.moved hmem hn (Move.expireIdle hs) hl he harmless_nil
  · rw [if_pos (show ((expireRow now a).stamp _ now ev.id).status = .outcomeUncertain from rfl)]
      at h
    simp only [updateAttempts, ok_bind, ok_modify, ok_pure] at h
    obtain ⟨_, _, rfl, -, rfl⟩ := h
    rw [hdb]
    exact DbStep.moved hmem hn (Move.expireExecuting hs) hl he harmless_nil

theorem recoverLoop_ok {ids : List String} {report r : RecoveryReport}
    (h : (recoverLoop now ids report).Ok s r s') :
    ∃ cs, changes.Steps s.db cs s'.db ∧ ∀ c ∈ cs, ∃ a a', c = .moved .expireLease a a' := by
  induction ids generalizing report s with
  | nil =>
    obtain ⟨-, rfl⟩ := ok_pure.1 h
    exact ⟨[], Machine.Steps.nil, by simp⟩
  | cons id ids ih =>
    obtain ⟨b, t, hx, h⟩ := ok_bind.1 h
    obtain ⟨a, a', -, -, hstep⟩ := expireLease_ok hx
    obtain ⟨cs, hcs, hall⟩ := ih h
    refine ⟨_ :: cs, Machine.Steps.cons hstep hcs, ?_⟩
    rintro c (_ | ⟨_, hc⟩)
    · exact ⟨a, a', rfl⟩
    · exact hall c hc

theorem recover_ok {r : RecoveryReport} (h : (recover now).Ok s r s') :
    ∃ cs, changes.Steps s.db cs s'.db ∧ ∀ c ∈ cs, ∃ a a', c = .moved .expireLease a a' := by
  simp only [recover, ok_bind, ok_get] at h
  obtain ⟨_, _, ⟨rfl, rfl⟩, h⟩ := h
  exact recoverLoop_ok h

theorem renewLease_ok {leaseMs : Int} {r : Bool} (h : (renewLease id owner leaseMs now).Ok s r s') :
    s'.db = s.db ∨ DbStep s.db (.renewed id) s'.db := by
  simp only [renewLease, ok_bind, ok_get, ok_set, ok_ensure, ok_pure] at h
  obtain ⟨_, _, ⟨-, rfl⟩, _, s, ⟨rfl, rfl⟩, _, _, rfl, -, rfl⟩ := h
  by_cases hex : ∃ a ∈ s.db.actions, a.id = id ∧ a.status.Held ∧ a.leaseOwner = some owner ∧
      a.leaseExpiresAtMs.any (now < ·)
  · obtain ⟨a, ha, rfl, hs, ho, hx⟩ := hex
    right
    have hput := updateWhere_eq_put (p := fun r => r.id = a.id ∧ r.status.Held ∧
      r.leaseOwner = some owner ∧ r.leaseExpiresAtMs.any (now < ·))
      (renewRow_id leaseMs now) ha ⟨rfl, hs, ho, hx⟩ fun r hr => hr.1
    obtain ⟨e, he, hlt⟩ := (Option.any_eq_true _ _).1 hx
    rw [hput]
    exact DbStep.renewed ha hs ⟨e, he, of_decide_eq_true hlt⟩
  · left
    have hrows : s.db.actions.updateWhere (fun r => r.id = id ∧ r.status.Held ∧
        r.leaseOwner = some owner ∧ r.leaseExpiresAtMs.any (now < ·))
        (renewRow leaseMs now) (renewRow_id leaseMs now) = s.db.actions :=
      updateWhere_eq_self fun r hr hp => hex ⟨r, hr, hp⟩
    rw [hrows]

theorem insertAttempt_ok {t : Attempt} {u : Unit} (h : (insertAttempt t).Ok s u s') :
    (∀ x ∈ s.db.attempts, ¬(x.actionId = t.actionId ∧ x.attemptNumber = t.attemptNumber)) ∧
      ∃ T : Attempts, s.db.attempts.insert? t = some T ∧
        s'.db = { s.db with attempts := T } := by
  simp only [insertAttempt, ok_bind, ok_get, ok_ensure, ok_ofOption, ok_set] at h
  obtain ⟨_, _, ⟨rfl, rfl⟩, _, _, ⟨hn, rfl⟩, T, _, ⟨hT, rfl⟩, rfl⟩ := h
  exact ⟨hn, T, hT, rfl⟩

theorem beginRow_ok (h : beginRow owner now a = .ok a₁) : a.leaseOwner = some owner ∧
      (∃ e, a.leaseExpiresAtMs = some e ∧ now < e) ∧
      a₁ = { a with attemptCount := a.attemptCount + 1 } := by
  obtain ⟨ho, h⟩ := requireOwner_bind_ok h
  split_ifs at h with hx
  cases h
  refine ⟨ho, ?_, rfl⟩
  cases he : a.leaseExpiresAtMs with
  | none => simp [he] at hx
  | some e => exact ⟨e, rfl, by simpa [he] using hx⟩

/-- An attempt that is begun is new, and it belongs to the holder of the lease. -/
theorem beginAttempt_ok {r : Attempt}
    (h : (beginAttempt id owner now).Ok s r s') : ∃ a a', a ∈ s.db.actions ∧ a.id = id ∧
      DbStep s.db (.moved .beginAttempt a a') s'.db ∧ r ∈ s'.db.attempts ∧ r.actionId = id ∧
      r.attemptNumber = a'.attemptCount ∧ r.leaseOwner = owner ∧ r.status = .executing ∧
      ∀ x ∈ s.db.attempts, x.id ≠ r.id := by
  simp only [beginAttempt, ok_bind, ok_mapError] at h
  obtain ⟨a', t, htr, aid, u, hid, _, v, hins, hload⟩ := h
  obtain ⟨a, a₁, to_, ev, log, hmem, rfl, hn, hmut, rfl, hl, he, hdb⟩ :=
    transition_ok htr fun a a₁ hmut => by
      obtain ⟨-, -, rfl⟩ := beginRow_ok hmut
      rfl
  obtain ⟨ho, hx, rfl⟩ := beginRow_ok hmut
  have hu := (newId_ok hid).1
  obtain ⟨hnum, T, hT, hv⟩ := insertAttempt_ok hins
  obtain ⟨hr, hrid, rfl⟩ := loadAttempt_ok hload
  rw [hu, hdb] at hnum hT hv
  have hstep := DbStep.moved hmem hn (Move.begin_ owner aid ho hx hT hnum) hl he
    harmless_nil
  rw [← hv] at hstep
  refine ⟨a, _, hmem, rfl, hstep, hr, ?_⟩
  rw [hv] at hr
  have hnew := (insert?_eq_some.1 hT).1
  rcases (mem_of_insert? hT).1 hr with hr | rfl
  · exact absurd hrid (hnew r hr)
  · exact ⟨rfl, rfl, rfl, rfl, hnew⟩

theorem settleRow_ok (h : settleRow owner c a = .ok a₁) : a.leaseOwner = some owner ∧
      a₁ = clearLease { a with
        lastError := c.message
        errorClass := c.class_
        nextAttemptAtMs := if 0 < c.nextAttempt then c.nextAttempt else a.nextAttemptAtMs } := by
  obtain ⟨ho, hrow⟩ := requireOwner_bind_ok h
  exact ⟨ho, by cases hrow; rfl⟩

theorem settleRow_sameRequest (h : settleRow owner c a = .ok a₁) : SameRequest a a₁ := by
  obtain ⟨-, rfl⟩ := settleRow_ok h
  rfl

theorem settle_ok {choose : Attempt → Settlement}
    (h : (settle attemptId owner now choose).Ok s r s')
    (hc : ∀ t, (choose t).Legal) : ∃ a t, a ∈ s.db.actions ∧ t ∈ s.db.attempts ∧
      t.id = attemptId ∧ t.actionId = a.id ∧ t.status = .executing ∧ t.leaseOwner = owner ∧
      DbStep s.db (.moved (choose t).trigger a r) s'.db := by
  simp only [settle, ok_bind, ok_ensure, ok_pure] at h
  obtain ⟨t, _, hload, _, _, ⟨⟨hs, hown⟩, rfl⟩, a', u, htr, _, v, hup, rfl, rfl⟩ := h
  obtain ⟨ht, htid, rfl⟩ := loadAttempt_ok hload
  obtain ⟨a, a₁, to_, ev, log, hmem, hid, hn, hmut, rfl, hl, he, hdb⟩ :=
    transition_ok htr fun _ _ => settleRow_sameRequest
  obtain ⟨ho, rfl⟩ := settleRow_ok hmut
  refine ⟨a, t, hmem, ht, htid, hid.symm, hs, hown, ?_⟩
  have hput := updateWhere_eq_put
    (p := fun x : Attempt => x.id = attemptId ∧ x.status = .executing)
    (closeAttempt_id now (choose t)) ht ⟨htid, hs⟩
    fun x hx => hx.1.trans htid.symm
  obtain rfl := ok_modify.1 hup
  rw [hdb]
  simp only
  rw [hput]
  exact DbStep.moved hmem hn (Move.settle _ (hc t) t ht hs hid.symm (by rw [ho, hown])) hl he
    harmless_nil

theorem failSettlement_legal (error : String) (class_ : ErrorClass) (policy : RetryPolicy)
    (now : Int) (t : Attempt) : (failSettlement error class_ policy now t).Legal := by
  unfold failSettlement
  cases hf : failureOutcome class_ t.attemptNumber policy.maxAttempts with
  | retry =>
    obtain ⟨rfl, -⟩ := failureOutcome_eq_retry.1 hf
    exact .inr (.inl ⟨rfl, rfl, rfl⟩)
  | deadLetter => exact .inr (.inr (.inl ⟨rfl, rfl⟩))
  | terminal => exact .inr (.inr (.inr (.inl ⟨rfl, rfl⟩)))
  | uncertain => exact .inr (.inr (.inr (.inr ⟨rfl, rfl⟩)))

theorem completeAttempt_ok (h : (completeAttempt attemptId owner now).Ok s r s') :
    ∃ a t, a ∈ s.db.actions ∧ t ∈ s.db.attempts ∧ t.id = attemptId ∧ t.actionId = a.id ∧
      t.status = .executing ∧ t.leaseOwner = owner ∧
      DbStep s.db (.moved .complete a r) s'.db :=
  settle_ok h fun _ => .inl ⟨rfl, rfl⟩

theorem failAttempt_ok {error : String} {class_ : ErrorClass} {policy : RetryPolicy}
    (h : (failAttempt attemptId owner error class_ policy now).Ok s r s') :
    ∃ a t, a ∈ s.db.actions ∧ t ∈ s.db.attempts ∧ t.id = attemptId ∧ t.actionId = a.id ∧
      t.status = .executing ∧ t.leaseOwner = owner ∧
      DbStep s.db (.moved (failSettlement error class_ policy now t).trigger a r) s'.db := by
  simp only [failAttempt, ok_bind, ok_ensure] at h
  obtain ⟨_, _, ⟨-, rfl⟩, _, _, ⟨-, rfl⟩, h⟩ := h
  exact settle_ok h (failSettlement_legal error class_ policy now)

theorem insertAction_ok {u : Unit} (h : (insertAction a).Ok s u s') :
    (∀ x ∈ s.db.actions, x.idempotencyKey ≠ a.idempotencyKey) ∧
      ∃ T : Table Action Action.id, s.db.actions.insert? a = some T ∧
        s'.db = { s.db with actions := T } := by
  simp only [insertAction, ok_bind, ok_get, ok_ensure, ok_ofOption, ok_set] at h
  obtain ⟨_, _, ⟨rfl, rfl⟩, _, _, ⟨hk, rfl⟩, T, _, ⟨hT, rfl⟩, rfl⟩ := h
  exact ⟨hk, T, hT, rfl⟩

theorem newRow_fresh (sha256 : String → String) (new : NewAction) {id : String} (key : String)
    (now : Int) (hid : id ≠ "") : Fresh (newRow sha256 new id key now) :=
  ⟨rfl, rfl, rfl, rfl, rfl, rfl, rfl, hid⟩

/-- A new action is stored as it was asked for. -/
theorem create_ok {sha256 : String → String} {new : NewAction} {key : String} {r : Submission}
    (h : (create sha256 new key now).Ok s r s')
    (hne : ∀ i, new.actionId = some i → i ≠ "") :
    r.created = true ∧ r.action.idempotencyKey = key ∧
      r.action.consequential = new.consequential ∧
      (∀ id, new.actionId = some id → r.action.id = id) ∧
      DbStep s.db (.submitted r.action) s'.db := by
  simp only [create, ok_bind, ok_pure] at h
  obtain ⟨id, t, hid, _, u, hins, a, _, hload, r', v, hrec, _, w, hper, rfl, rfl⟩ := h
  have hid' : t.db = s.db ∧ id ≠ "" ∧ ∀ i, new.actionId = some i → id = i := by
    cases hn : new.actionId with
    | none =>
      simp only [hn, submitId, ok_mapError] at hid
      exact ⟨(newId_ok hid).1, (newId_ok hid).2, by simp⟩
    | some i =>
      simp only [hn, submitId, ok_pure] at hid
      obtain ⟨rfl, rfl⟩ := hid
      exact ⟨rfl, hne id hn, fun _ h => Option.some_inj.1 h⟩
  obtain ⟨hk, T, hT, hu⟩ := insertAction_ok hins
  obtain ⟨hmem, haid, rfl⟩ := load_ok hload
  rw [hid'.1] at hk hT hu
  have ha : a = newRow sha256 new id key now := by
    rw [hu] at hmem
    rcases (mem_of_insert? hT).1 hmem with h | h
    · exact absurd haid ((insert?_eq_some.1 hT).1 a h)
    · exact h
  obtain ⟨ev, log, rfl, hl, he, hv⟩ := recordEvent_ok hrec
  have hw := persist_ok hper (by rw [hv]; exact hmem) rfl
  subst ha
  refine ⟨rfl, rfl, rfl, hid'.2.2, ?_⟩
  rw [hu] at hl hv
  have hstep := DbStep.submitted (newRow_fresh sha256 new key now hid'.2.1) hk
    (insert?_put hT rfl) hl he (by simp [Harmless])
  rw [hw, hv]
  exact hstep

/-- A submission finds the action of its key or makes one. -/
theorem submit_ok {sha256 : String → String} {new : NewAction} {r : Submission}
    (h : (submit sha256 new now).Ok s r s') :
    ∃ key, submitKey new = .ok key ∧
      ((r.created = false ∧ existing s.db key (new.actionId.getD "") = some r.action ∧
          s'.db = s.db) ∨
        (r.created = true ∧ existing s.db key (new.actionId.getD "") = none ∧
          r.action.idempotencyKey = key ∧ r.action.consequential = new.consequential ∧
          (∀ id, new.actionId = some id → r.action.id = id) ∧
          DbStep s.db (.submitted r.action) s'.db)) := by
  simp only [submit, ok_bind, ok_ofExcept, ok_ensure, ok_get] at h
  obtain ⟨_, _, ⟨-, rfl⟩, _, _, ⟨-, rfl⟩, _, _, ⟨hname, rfl⟩, key, _, ⟨hkey, rfl⟩, _, _,
    ⟨rfl, rfl⟩, h⟩ := h
  have hne : ∀ i, new.actionId = some i → i ≠ "" := fun i hi => by
    rw [hi] at hname
    exact (checkName_eq_ok.1 hname).1
  refine ⟨key, hkey, ?_⟩
  split at h
  · next a ha =>
    obtain ⟨rfl, rfl⟩ := ok_pure.1 h
    exact .inl ⟨rfl, ha, rfl⟩
  · next hnone =>
    obtain ⟨h₁, h₂, h₃, h₄, h₅⟩ := create_ok h hne
    exact .inr ⟨h₁, hnone, h₂, h₃, h₄, h₅⟩

end U2os.Majordomo
