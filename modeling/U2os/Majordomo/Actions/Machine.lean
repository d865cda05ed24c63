import U2os.Majordomo.Actions.Change

/-!
# The action store as a machine

A step of the machine is one call of the store: the operation, the clock reading, the random
words it was given and the result it returned.  Failed calls are steps too.
-/

namespace U2os.Majordomo

/-- The operations of the action store. -/
inductive Op where
  | submit (new : NewAction)
  | approve (id by_ : String)
  | reject (id by_ : String)
  | cancel (id : String)
  | recover
  /-- `lease_next` for `none`, `lease_action` for an id. -/
  | lease (id : Option String) (owner : String) (leaseMs : Int)
  | renewLease (id owner : String) (leaseMs : Int)
  | beginAttempt (id owner : String)
  | completeAttempt (attemptId owner : String)
  | failAttempt (attemptId owner error : String) (class_ : ErrorClass) (policy : RetryPolicy)
  | stopLeased (id owner : String) (status : StopStatus) (error : String) (class_ : ErrorClass)
  | requeue (id : String)
  | resolveUncertain (id : String) (resolution : Resolution) (by_ : String)

/-- What an operation returns. -/
inductive Reply where
  | submission (r : Submission)
  | action (a : Action)
  | report (r : RecoveryReport)
  | leased (a : Option Action)
  | renewed (b : Bool)
  | attempt (t : Attempt)

/-- The result of a call with its value wrapped. -/
def wrap {α : Type} (f : α → Reply) (r : Except ActionError α × Session) :
    Except ActionError Reply × Session :=
  (r.1.map f, r.2)

/-- The execution of an operation at the time `now`. -/
def Op.exec (sha256 : String → String) (now : Int) (s : Session) :
    Op → Except ActionError Reply × Session
  | submit new => wrap .submission ((Majordomo.submit sha256 new now).atomically s)
  | approve id by_ => wrap .action ((Majordomo.approve id by_ now).atomically s)
  | reject id by_ => wrap .action ((Majordomo.reject id by_ now).atomically s)
  | cancel id => wrap .action ((Majordomo.cancel id now).atomically s)
  | recover => wrap .report ((Majordomo.recover now).atomically s)
  | lease id owner leaseMs => wrap .leased (Majordomo.lease id owner leaseMs now s)
  | renewLease id owner leaseMs =>
    wrap .renewed ((Majordomo.renewLease id owner leaseMs now).atomically s)
  | beginAttempt id owner => wrap .attempt ((Majordomo.beginAttempt id owner now).atomically s)
  | completeAttempt attemptId owner =>
    wrap .action ((Majordomo.completeAttempt attemptId owner now).atomically s)
  | failAttempt attemptId owner error class_ policy =>
    wrap .action ((Majordomo.failAttempt attemptId owner error class_ policy now).atomically s)
  | stopLeased id owner status error class_ =>
    wrap .action ((Majordomo.stopLeased id owner status error class_ now).atomically s)
  | requeue id => wrap .action ((Majordomo.requeue id now).atomically s)
  | resolveUncertain id resolution by_ =>
    wrap .action ((Majordomo.resolveUncertain id resolution by_ now).atomically s)

/-- One call of the store. -/
structure Call where
  op : Op
  now : Int
  random : List Word
  result : Except ActionError Reply

/-- The action store: its steps are calls. -/
def actionStore (sha256 : String → String) : Machine Db Call where
  init := Db.empty
  step s c t := ∃ rest, c.op.exec sha256 c.now ⟨s, c.random⟩ = (c.result, ⟨t, rest⟩)

def Call.Succeeded (c : Call) : Prop := ∃ r, c.result = .ok r

/-- The changes a call can make. -/
def Call.Emits (c : Call) : Change → Prop
  | .submitted a => ∃ new r, c.op = .submit new ∧ c.result = .ok (.submission r) ∧
      r.action = a ∧ r.created = true ∧ a.consequential = new.consequential
  | .renewed _ => True
  | .moved trigger a a' =>
    match c.op with
    | .approve id _ => trigger = .approve ∧ a.id = id ∧ c.result = .ok (.action a')
    | .reject id _ => trigger = .reject ∧ a.id = id ∧ c.result = .ok (.action a')
    | .cancel id => trigger = .cancel ∧ a.id = id ∧ c.result = .ok (.action a')
    | .recover => trigger = .expireLease
    | .lease id owner _ => trigger = .expireLease ∨
        (trigger = .lease ∧ (∀ i, id = some i → a.id = i) ∧ a'.leaseOwner = some owner ∧
          c.result = .ok (.leased (some a')))
    | .beginAttempt id _ => trigger = .beginAttempt ∧ a.id = id ∧ c.Succeeded
    | .completeAttempt _ _ => trigger = .complete
    | .failAttempt _ _ error class_ policy => ∃ t, t.status = .executing ∧
        trigger = (failSettlement error class_ policy c.now t).trigger
    | .stopLeased id _ status _ _ => trigger = status.trigger ∧ a.id = id
    | .requeue id => trigger = .requeue ∧ a.id = id ∧ c.result = .ok (.action a')
    | .resolveUncertain id resolution _ =>
        trigger = resolution.trigger.1 ∧ a.id = id ∧ c.result = .ok (.action a')
    | _ => False

variable {c : Call} {a a' : Action}

variable {s t : Db}

section

variable {sha256 : String → String}

theorem wrap_prod {α : Type} {f : α → Reply} {x : Except ActionError α × Session} {s' : Session}
    {r : Except ActionError Reply} (h : wrap f x = (r, s')) : ∃ q, x = (q, s') ∧ r = q.map f := by
  cases h
  exact ⟨x.1, rfl, rfl⟩

theorem wrap_eq {α : Type} {f : α → Reply} {x : ActionTx α} {s s' : Session}
    {r : Except ActionError Reply} (h : wrap f (x.atomically s) = (r, s')) :
    (∃ a, r = .ok (f a) ∧ x.Ok s a s') ∨ (∃ e, r = .error e ∧ s' = s) := by
  cases hx : x.atomically s with
  | mk q u =>
    rw [hx] at h
    cases q with
    | ok a =>
      cases h
      exact .inl ⟨a, rfl, Tx.atomically_ok.1 hx⟩
    | error e =>
      cases h
      exact .inr ⟨e, rfl, Tx.atomically_error hx⟩

theorem steps_of_change {ch : Change} (h : DbStep s ch t)
    (he : c.Emits ch) : ∃ cs, changes.Steps s cs t ∧ ∀ x ∈ cs, c.Emits x :=
  ⟨[ch], Machine.Steps.single h, by simpa using he⟩

theorem steps_of_eq (h : t = s) :
    ∃ cs, changes.Steps s cs t ∧ ∀ x ∈ cs, c.Emits x :=
  ⟨[], h ▸ Machine.Steps.nil, by simp⟩

theorem lease_cases {id : Option String} {owner : String} {leaseMs now : Int} {s s' : Session}
    {r : Except ActionError (Option Action)} (h : lease id owner leaseMs now s = (r, s')) :
    (∃ e, r = .error e ∧ s' = s) ∨ ∃ report t, (leaseRecover owner leaseMs now).Ok s report t ∧
      (leaseBody id owner leaseMs now).atomically t = (r, s') := by
  unfold lease at h
  cases hx : (leaseRecover owner leaseMs now).atomically s with
  | mk q u =>
    rw [hx] at h
    cases q with
    | error e =>
      cases h
      exact .inl ⟨e, rfl, Tx.atomically_error hx⟩
    | ok report => exact .inr ⟨report, u, Tx.atomically_ok.1 hx, h⟩

theorem leaseRecover_ok {owner : String} {leaseMs now : Int} {r : RecoveryReport}
    {s s' : Session} (h : (leaseRecover owner leaseMs now).Ok s r s') :
    (recover now).Ok s r s' := by
  simp only [leaseRecover, Tx.ok_bind, Tx.ok_ofExcept, Tx.ok_ensure] at h
  obtain ⟨_, _, ⟨-, rfl⟩, _, _, ⟨-, rfl⟩, h⟩ := h
  exact h

/-- A call does a sequence of changes, each of them one that it may do. -/
theorem Call.changes_of_step (h : (actionStore sha256).step s c t) :
    ∃ cs, changes.Steps s cs t ∧ ∀ x ∈ cs, c.Emits x := by
  obtain ⟨op, now, random, result⟩ := c
  obtain ⟨rest, h⟩ := h
  simp only at h
  cases op with
  | submit new =>
    rcases wrap_eq h with ⟨r, rfl, hok⟩ | ⟨e, -, hs⟩
    · obtain ⟨key, -, ⟨-, -, hs⟩ | ⟨hc, -, -, hcons, -, hstep⟩⟩ := submit_ok hok
      · exact steps_of_eq hs
      · exact steps_of_change hstep ⟨new, r, rfl, rfl, rfl, hc, hcons⟩
    · exact steps_of_eq (congrArg Session.db hs)
  | approve id by_ =>
    rcases wrap_eq h with ⟨r, rfl, hok⟩ | ⟨e, -, hs⟩
    · obtain ⟨a, -, haid, hstep⟩ := approve_ok hok
      exact steps_of_change hstep ⟨rfl, haid, rfl⟩
    · exact steps_of_eq (congrArg Session.db hs)
  | reject id by_ =>
    rcases wrap_eq h with ⟨r, rfl, hok⟩ | ⟨e, -, hs⟩
    · obtain ⟨a, -, haid, hstep⟩ := reject_ok hok
      exact steps_of_change hstep ⟨rfl, haid, rfl⟩
    · exact steps_of_eq (congrArg Session.db hs)
  | cancel id =>
    rcases wrap_eq h with ⟨r, rfl, hok⟩ | ⟨e, -, hs⟩
    · obtain ⟨a, -, haid, hstep⟩ := cancel_ok hok
      exact steps_of_change hstep ⟨rfl, haid, rfl⟩
    · exact steps_of_eq (congrArg Session.db hs)
  | recover =>
    rcases wrap_eq h with ⟨r, rfl, hok⟩ | ⟨e, -, hs⟩
    · obtain ⟨cs, hcs, hall⟩ := recover_ok hok
      refine ⟨cs, hcs, fun x hx => ?_⟩
      obtain ⟨a, a', rfl⟩ := hall x hx
      exact rfl
    · exact steps_of_eq (congrArg Session.db hs)
  | lease id owner leaseMs =>
    obtain ⟨q, hq, rfl⟩ := wrap_prod h
    rcases lease_cases hq with ⟨e, -, hs⟩ | ⟨report, u, hrec, hbody⟩
    · exact steps_of_eq (congrArg Session.db hs)
    · obtain ⟨cs, hcs, hall⟩ := recover_ok (leaseRecover_ok hrec)
      have hemit : ∀ x ∈ cs, (⟨.lease id owner leaseMs, now, random, q.map .leased⟩ : Call).Emits
          x := by
        intro x hx
        obtain ⟨a, a', rfl⟩ := hall x hx
        exact .inl rfl
      cases q with
      | error e =>
        obtain rfl := Tx.atomically_error hbody
        exact ⟨cs, hcs, hemit⟩
      | ok r =>
        rcases leaseBody_ok (Tx.atomically_ok.1 hbody) with
          ⟨-, hs⟩ | ⟨a, a', rfl, -, hid, ho, hstep⟩
        · simp only at hs
          exact ⟨cs, hs ▸ hcs, hemit⟩
        · have hlease : changes.Steps u.db [.moved .lease a a'] t := Machine.Steps.single hstep
          refine ⟨cs ++ [.moved .lease a a'], hcs.trans hlease, fun x hx => ?_⟩
          rcases List.mem_append.1 hx with hx | hx
          · exact hemit x hx
          · obtain rfl := List.mem_singleton.1 hx
            exact .inr ⟨rfl, hid, ho, rfl⟩
  | renewLease id owner leaseMs =>
    rcases wrap_eq h with ⟨r, rfl, hok⟩ | ⟨e, -, hs⟩
    · rcases renewLease_ok hok with hs | hstep
      · exact steps_of_eq hs
      · exact steps_of_change hstep trivial
    · exact steps_of_eq (congrArg Session.db hs)
  | beginAttempt id owner =>
    rcases wrap_eq h with ⟨r, rfl, hok⟩ | ⟨e, -, hs⟩
    · obtain ⟨a, a', -, haid, hstep, -⟩ := beginAttempt_ok hok
      exact steps_of_change hstep ⟨rfl, haid, _, rfl⟩
    · exact steps_of_eq (congrArg Session.db hs)
  | completeAttempt attemptId owner =>
    rcases wrap_eq h with ⟨r, rfl, hok⟩ | ⟨e, -, hs⟩
    · obtain ⟨a, t', -, -, -, -, -, -, hstep⟩ := completeAttempt_ok hok
      exact steps_of_change hstep rfl
    · exact steps_of_eq (congrArg Session.db hs)
  | failAttempt attemptId owner error class_ policy =>
    rcases wrap_eq h with ⟨r, rfl, hok⟩ | ⟨e, -, hs⟩
    · obtain ⟨a, t', -, -, -, -, hex, -, hstep⟩ := failAttempt_ok hok
      exact steps_of_change hstep ⟨t', hex, rfl⟩
    · exact steps_of_eq (congrArg Session.db hs)
  | stopLeased id owner status error class_ =>
    rcases wrap_eq h with ⟨r, rfl, hok⟩ | ⟨e, -, hs⟩
    · obtain ⟨a, -, haid, hstep⟩ := stopLeased_ok hok
      exact steps_of_change hstep ⟨rfl, haid⟩
    · exact steps_of_eq (congrArg Session.db hs)
  | requeue id =>
    rcases wrap_eq h with ⟨r, rfl, hok⟩ | ⟨e, -, hs⟩
    · obtain ⟨a, -, haid, hstep⟩ := requeue_ok hok
      exact steps_of_change hstep ⟨rfl, haid, rfl⟩
    · exact steps_of_eq (congrArg Session.db hs)
  | resolveUncertain id resolution by_ =>
    rcases wrap_eq h with ⟨r, rfl, hok⟩ | ⟨e, -, hs⟩
    · obtain ⟨a, -, haid, hstep⟩ := resolveUncertain_ok hok
      exact steps_of_change hstep ⟨rfl, haid, rfl⟩
    · exact steps_of_eq (congrArg Session.db hs)

theorem failSettlement_trigger (error : String) (class_ : ErrorClass) (policy : RetryPolicy)
    (now : Int) (t : Attempt) :
    (failSettlement error class_ policy now t).trigger ∈
      [Trigger.failRetry, .failDeadLetter, .failTerminal, .markUncertain] := by
  unfold failSettlement
  split <;> simp

/-- Only the owner's word resolves an attempt. -/
theorem Call.Emits.resolve {g : Trigger} (h : c.Emits (.moved g a a'))
    (hg : g = .resolveDone ∨ g = .resolveNotDone) :
    ∃ r by_, c.op = .resolveUncertain a.id r by_ ∧ g = r.trigger.1 ∧ c.Succeeded := by
  obtain ⟨op, now, random, result⟩ := c
  cases op with
  | resolveUncertain id r by_ =>
    obtain ⟨hgr, rfl, hok⟩ := h
    exact ⟨r, by_, rfl, hgr, _, hok⟩
  | failAttempt attemptId owner error class_ policy =>
    obtain ⟨t, -, rfl⟩ := h
    have := failSettlement_trigger error class_ policy now t
    rcases hg with hg | hg <;> simp [hg] at this
  | stopLeased id owner status error class_ =>
    obtain ⟨rfl, -⟩ := h
    cases status <;> simp [StopStatus.trigger] at hg
  | lease id owner leaseMs =>
    rcases h with rfl | ⟨rfl, -⟩ <;> simp at hg
  | submit | renewLease => exact h.elim
  | recover | completeAttempt => obtain rfl := h; simp at hg
  | approve | reject | cancel | beginAttempt | requeue => obtain ⟨rfl, -⟩ := h; simp at hg

theorem Call.Emits.byOwner {g : Trigger} (h : c.Emits (.moved g a a'))
    (hg : g = .approve ∨ g = .requeue) :
    ((g = .approve ∧ ∃ by_, c.op = .approve a.id by_) ∨ g = .requeue ∧ c.op = .requeue a.id) ∧
      c.Succeeded := by
  obtain ⟨op, now, random, result⟩ := c
  cases op with
  | approve id by_ =>
    obtain ⟨rfl, rfl, hok⟩ := h
    exact ⟨.inl ⟨rfl, by_, rfl⟩, _, hok⟩
  | requeue id =>
    obtain ⟨rfl, rfl, hok⟩ := h
    exact ⟨.inr ⟨rfl, rfl⟩, _, hok⟩
  | failAttempt attemptId owner error class_ policy =>
    obtain ⟨t, -, hg'⟩ := h
    have := failSettlement_trigger error class_ policy now t
    rcases hg with rfl | rfl <;> simp [← hg'] at this
  | stopLeased id owner status error class_ =>
    rcases hg with rfl | rfl <;> cases status <;> simp [Call.Emits, StopStatus.trigger] at h
  | resolveUncertain id r by_ =>
    rcases hg with rfl | rfl <;> cases r <;> simp [Call.Emits, Resolution.trigger] at h
  | _ => rcases hg with rfl | rfl <;> simp [Call.Emits] at h

theorem Call.Emits.approve (h : c.Emits (.moved .approve a a')) :
    ∃ by_, c.op = .approve a.id by_ ∧ c.Succeeded := by
  obtain ⟨⟨-, by_, hop⟩ | ⟨hg, -⟩, hok⟩ := h.byOwner (.inl rfl)
  · exact ⟨by_, hop, hok⟩
  · cases hg

theorem Call.Emits.requeue (h : c.Emits (.moved .requeue a a')) :
    c.op = .requeue a.id ∧ c.Succeeded := by
  obtain ⟨⟨hg, -⟩ | ⟨-, hop⟩, hok⟩ := h.byOwner (.inr rfl)
  · cases hg
  · exact ⟨hop, hok⟩

/-- Only a reported failure fails an attempt. -/
theorem Call.Emits.failed {g : Trigger} (h : c.Emits (.moved g a a'))
    (hg : g = .failRetry ∨ g = .failDeadLetter ∨ g = .failTerminal) :
    ∃ attemptId owner error class_ policy,
      c.op = .failAttempt attemptId owner error class_ policy ∧ class_ ≠ .outcomeUncertain ∧
        (g = .failRetry → class_ = .retryable) := by
  obtain ⟨op, now, random, result⟩ := c
  cases op with
  | failAttempt attemptId owner error class_ policy =>
    obtain ⟨t, -, rfl⟩ := h
    refine ⟨attemptId, owner, error, class_, policy, rfl, ?_, fun hr => ?_⟩
    · rintro rfl
      simp [failSettlement, failureOutcome] at hg
    · by_contra hne
      have hout : failureOutcome class_ t.attemptNumber policy.maxAttempts ≠ .retry :=
        fun e => hne (failureOutcome_eq_retry.1 e).1
      unfold failSettlement at hr
      split at hr
      · next h => exact hout h
      · cases hr
      · cases hr
      · cases hr
  | stopLeased id owner status error class_ =>
    obtain ⟨rfl, -⟩ := h
    cases status <;> simp [StopStatus.trigger] at hg
  | resolveUncertain id r by_ =>
    obtain ⟨rfl, -⟩ := h
    cases r <;> simp [Resolution.trigger] at hg
  | lease id owner leaseMs =>
    rcases h with rfl | ⟨rfl, -⟩ <;> simp at hg
  | submit | renewLease => exact h.elim
  | recover | completeAttempt => obtain rfl := h; simp at hg
  | approve | reject | cancel | beginAttempt | requeue => obtain ⟨rfl, -⟩ := h; simp at hg

theorem actionStore_refines : (actionStore sha256).Refines changes id := fun _ _ _ h =>
  let ⟨cs, hcs, _⟩ := Call.changes_of_step h
  ⟨cs, hcs⟩

theorem reachable_changes {h : List Call} (hr : (actionStore sha256).Run h s) :
    changes.Reachable s :=
  actionStore_refines.steps hr

theorem step_exec (sha256 : String → String) (s : Db) (op : Op) (now : Int) (random : List Word) :
    (actionStore sha256).step s ⟨op, now, random, (op.exec sha256 now ⟨s, random⟩).1⟩
      (op.exec sha256 now ⟨s, random⟩).2.db :=
  ⟨(op.exec sha256 now ⟨s, random⟩).2.random, rfl⟩

end

/-- The digest of the text `null`, the only arguments of the examples below. -/
def nullDigest (_ : String) : String :=
  "74234e98afe7498fb5daf1f36ac2d78acc339464f950703b8c019892f982b90b"

/-- The calls and the database of a script of operations. -/
def script (sha256 : String → String) : Db → List (Op × Int × List Word) → List Call × Db
  | s, [] => ([], s)
  | s, (op, now, random) :: rest =>
    let r := op.exec sha256 now ⟨s, random⟩
    let tail := script sha256 r.2.db rest
    (⟨op, now, random, r.1⟩ :: tail.1, tail.2)

theorem steps_script (sha256 : String → String) (s : Db) (ops : List (Op × Int × List Word)) :
    (actionStore sha256).Steps s (script sha256 s ops).1 (script sha256 s ops).2 := by
  induction ops generalizing s with
  | nil => exact Machine.Steps.nil
  | cons o ops ih => exact Machine.Steps.cons (step_exec sha256 s o.1 o.2.1 o.2.2) (ih _)

end U2os.Majordomo
