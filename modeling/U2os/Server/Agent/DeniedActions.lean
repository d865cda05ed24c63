import U2os.Server.Agent.QueueMachine

/-!
# Denied actions

Whether an action that was rejected, blocked or cancelled stays so.  A worker looks at the action
once, before its attempt, and of the three statuses it knows only `rejected` again.  So a denied
action stays denied exactly as long as no worker takes it up afresh, and no worker is under way
with it when it is denied.
-/

namespace U2os.Server.Agent

open ActionPatch ActionStatus QueueLabel QueueState Turn

/-- `rejected`, `blocked` or `cancelled`. -/
def ActionStatus.isDenied : ActionStatus → Bool
  | .rejected | .blocked | .cancelled => true
  | _ => false

/-- The row of the action is denied. -/
def ActionDb.Denied (db : ActionDb) (a : String) : Prop :=
  ∃ r, db.actions.find a = some r ∧ r.status.isDenied = true

/-- What a worker checks of a denied action. -/
def AgentAction.refused (r : AgentAction) : Prop := r.status = .rejected ∨ r.rejectedAt.isSome

/-- A worker in this phase may still write the action or call its tool. -/
def Phase.mayAct : Phase → Bool
  | .recovering | .checking | .noting .. | .beginning | .calling _ | .inFlight _ | .returned ..
  | .recorded .. | .threw .. => true
  | _ => false

/-- The turn is a worker's and may still write the action or call its tool. -/
def Turn.mayAct (a : String) : Turn → Bool
  | .work _ item phase => item.actionId = a && phase.mayAct
  | _ => false

/-- The checks of the turn are still to come. -/
def Turn.isChecking : Turn → Bool
  | .work _ _ .recovering | .work _ _ .checking => true
  | _ => false

/-- The step does not take up a denied action, and it denies the action only while no other turn
is under way with it. -/
structure Undisturbed (a : String) (s : QueueState) (l : QueueLabel) (s' : QueueState) : Prop where
  alone : ¬s.db.Denied a → s'.db.Denied a →
    ∀ t, l.turn? ≠ some t → (s.turns t).mayAct a = false
  untaken : s.leases l = some a →
    ∀ r, s.db.actions.find a = some r → r.status.isDenied = true → r.refused

/-- The action is denied, and no turn can change that. -/
structure Sealed (a : String) (s : QueueState) (r : AgentAction) : Prop where
  row : s.db.actions.find a = some r
  denied : r.status.isDenied = true
  rejected : r.status = .rejected → r.rejectedAt.isSome = true
  turns : ∀ t, (s.turns t).mayAct a = true →
    (s.turns t).isChecking = true ∧ r.rejectedAt.isSome = true

variable {act : Act}

theorem Turn.patch?_cases {u : Turn} {a : String} {patch : ActionPatch}
    (h : u.patch? act = some (a, patch)) :
    patch = .failure .cancelled "Run cancelled before execution" ∨
      (u.mayAct a = true ∧ u.isChecking = false) := by
  unfold patch? at h
  split at h <;> cases h
  · exact .inl rfl
  all_goals exact .inr ⟨by simp [mayAct, Phase.mayAct], rfl⟩

theorem executeLeased_of_refused {C : WorkerConfig} {r : AgentAction} {item : QueueItem}
    {attempts : List Attempt} {v : View} (h : r.refused) :
    executeLeased C (some r) item attempts v =
      .halt .cancelled "Owner approval was rejected or revoked" .ownerAttentionRequired :=
  if_pos h

variable {db db' : ActionDb}

theorem Move.takes {C : WorkerConfig} {s : QueueState} {t : ℕ} {u : Turn} {a : String}
    (h : Move C s.db (s.turns t) act db u) (hu : u.mayAct a = true) :
    (s.turns t).mayAct a = true ∨
      (s.leases (.turn t act) = some a ∧ u.isChecking = true) := by
  generalize hturn : s.turns t = v at h
  cases h with
  | @lease id w leaseMs now r h =>
    obtain ⟨q, hq, hdue, rfl⟩ := leaseActionByActionId_eq_some h
    obtain rfl : q.actionId = id := Table.key_of_find hq
    obtain rfl : q.actionId = a := of_decide_eq_true (Bool.and_eq_true_iff.1 hu).1
    exact .inr ⟨by simp [leases, hturn, hq, hdue], rfl⟩
  | @tick w leaseMs now r h =>
    obtain ⟨q, hq, hf, hdue, rfl⟩ := leaseNextAction_eq_some h
    obtain rfl : q.actionId = a := of_decide_eq_true (Bool.and_eq_true_iff.1 hu).1
    exact .inr ⟨by simp [leases, hq], rfl⟩
  | work h => cases h <;> simp_all [mayAct, Phase.mayAct]
  | _ => simp [mayAct] at hu

theorem Move.checks {C : WorkerConfig} {u u' : Turn} {a : String} {r : AgentAction}
    (h : Move C db u act db' u') (hr : db.actions.find a = some r)
    (href : r.rejectedAt.isSome = true) (hm : u.mayAct a = true) (hc : u.isChecking = true)
    (hm' : u'.mayAct a = true) : u'.isChecking = true := by
  cases h with
  | work h =>
    cases h with
    | expire => rfl
    | check =>
      obtain rfl := of_decide_eq_true (Bool.and_eq_true_iff.1 hm).1
      rw [hr, executeLeased_of_refused (.inr href)] at hm'
      simp [Decision.halt, Decision.phase, mayAct, Phase.mayAct] at hm'
    | _ => simp [isChecking] at hc
  | quit => simp [mayAct] at hm'
  | _ => simp [isChecking] at hc

theorem denied_congr (h : db'.actions = db.actions) (a : String) :
    db'.Denied a ↔ db.Denied a := by
  unfold ActionDb.Denied
  rw [h]

/-- A piece of a turn that denies an action is past acting on it. -/
theorem Move.denies {C : WorkerConfig} {u u' : Turn} {a : String}
    (h : Move C db u act db' u') (h₀ : ¬db.Denied a) (h₁ : db'.Denied a) :
    u'.mayAct a = false ∧ ∃ r, db'.actions.find a = some r ∧ r.status ≠ .rejected := by
  obtain ⟨r, hr, hd⟩ := h₁
  have hpatch : ∀ id patch, db'.actions = (db.patch id patch).actions →
      ∃ b, db.actions.find a = some b ∧ a = id ∧ r = patch.apply b := by
    intro id patch hdb
    rw [hdb, find_patch, Option.map_eq_some_iff] at hr
    obtain ⟨b, hb, rfl⟩ := hr
    split_ifs at hd with hid
    · exact ⟨b, hb, hid, if_pos hid⟩
    · exact absurd ⟨b, hb, hd⟩ h₀
  have hkeep : db'.actions ≠ db.actions := fun e => h₀ ((denied_congr e a).1 ⟨r, hr, hd⟩)
  cases h with
  | @propose p now actions h =>
    refine ⟨rfl, r, hr, ?_⟩
    rw [Table.find_insert? h] at hr
    split_ifs at hr with ha
    · cases hr
      simp only [Proposal.row, Proposal.status]
      split_ifs <;> simp
    · exact absurd ⟨r, hr, hd⟩ h₀
  | withdraw p =>
    obtain ⟨b, -, -, rfl⟩ := hpatch _ _ rfl
    exact ⟨rfl, _, hr, by simp [apply, ActionPatch.failure]⟩
  | approve =>
    obtain ⟨b, -, -, rfl⟩ := hpatch _ _ rfl
    simp [apply, approval, isDenied] at hd
  | work h =>
    cases h with
    | note note x =>
      obtain ⟨b, -, -, rfl⟩ := hpatch _ _ rfl
      refine ⟨by simp [mayAct, Phase.mayAct], _, hr, ?_⟩
      rcases note with _ | ⟨_ | _ | _, message⟩ <;>
        simp [Note.patch, NotedStatus.status, ActionPatch.failure, apply]
    | record =>
      obtain ⟨b, -, -, rfl⟩ := hpatch _ _ rfl
      simp [apply, isDenied] at hd
    | noteFailure =>
      obtain ⟨b, -, -, rfl⟩ := hpatch _ _ rfl
      simp [apply, ActionPatch.failure, isDenied] at hd
    | settle h | begin h => exact absurd (beginActionAttempt_actions h) hkeep
    | settled h | complete h => exact absurd (settleAttempt_actions h) hkeep
    | fail h =>
      obtain ⟨y, -, h⟩ := failActionAttempt_eq_some h
      exact absurd (settleAttempt_actions h) hkeep
    | _ => exact absurd rfl hkeep
  | _ => exact absurd rfl hkeep

theorem QueueStep.row_of_other {C : WorkerConfig} {s s' : QueueState} {l : QueueLabel}
    (h : QueueStep C s l s') (hl : l.turn? = none) {a : String} {r : AgentAction}
    (hr : s.db.actions.find a = some r) :
    ∃ patch : ActionPatch, s'.db.actions.find a = some (patch.apply r) ∧
      (patch.status = none ∨ patch.status = some .cancelled ∨
        (r.status = .pending ∧ (patch.status = some .blocked ∨
          patch.status = some .rejected ∧ patch.rejectedAt.isSome = true))) ∧
      (patch.rejectedAt.isSome = true → r.status = .pending) := by
  have hnone : (({} : ActionPatch).apply r) = r := rfl
  have hpatch : ∀ id patch, (s.db.patch id patch).actions.find a =
      some ((if a = id then patch else {}).apply r) := by
    intro id patch
    rw [find_patch, hr]
    split_ifs <;> rfl
  cases h with
  | turn => simp [turn?] at hl
  | @deny id d b hb hs =>
    refine ⟨_, hpatch id d.patch, ?_⟩
    split_ifs with hid
    · subst hid
      rw [hr, Option.some_inj] at hb
      cases d <;> simp [Denial.patch, ActionPatch.failure, hb, hs]
    · simp
  | cancelUnstarted id =>
    rcases cancelUnstartedAction_cases s.db id with h | ⟨q, b, -, -, -, -, h⟩
    · exact ⟨{}, by rw [h, hr, hnone], .inl rfl, by simp⟩
    · refine ⟨_, (congrArg (fun db : ActionDb => db.actions.find a) h).trans
        (hpatch id { status := some .cancelled }), ?_⟩
      split_ifs <;> simp
  | @repropose id result b hb hs =>
    refine ⟨_, hpatch id { result := some result }, ?_⟩
    split_ifs <;> simp

variable {C : WorkerConfig} {s s' : QueueState} {l : QueueLabel} {a : String} {r : AgentAction}

theorem QueueStep.find_none_of_other (h : QueueStep C s l s')
    (hl : l.turn? = none) (hr : s.db.actions.find a = none) : s'.db.actions.find a = none := by
  have hpatch : ∀ id patch, (s.db.patch id patch).actions.find a = none := by
    intro id patch
    rw [find_patch, hr]
    rfl
  cases h with
  | turn => cases hl
  | deny | repropose => exact hpatch ..
  | cancelUnstarted id =>
    rcases cancelUnstartedAction_cases s.db id with h | ⟨q, b, -, -, -, -, h⟩
    · exact (congrArg (fun db : ActionDb => db.actions.find a) h).trans hr
    · exact (congrArg (fun db : ActionDb => db.actions.find a) h).trans (hpatch ..)

theorem QueueStep.row_patched (h : QueueStep C s l s')
    (hr : s.db.actions.find a = some r) :
    ∃ patch : ActionPatch, s'.db.actions.find a = some (patch.apply r) := by
  cases hl : l.turn? with
  | none =>
    obtain ⟨patch, hp, -⟩ := h.row_of_other hl hr
    exact ⟨patch, hp⟩
  | some t =>
    cases h with
    | turn _ h =>
      rcases h.actionWrite.find_eq hr with hk | ⟨-, by_, rule, now, -, hk⟩ | ⟨patch, -, hk⟩
      · exact ⟨{}, hk⟩
      · exact ⟨_, hk⟩
      · exact ⟨patch, hk⟩
    | _ => cases hl

theorem sealed_of_denied (h : QueueStep C s l s') (hun : Undisturbed a s l s')
    (h₀ : ¬s.db.Denied a) (h₁ : s'.db.Denied a) : ∃ r, Sealed a s' r := by
  obtain ⟨r', hr', hd⟩ := id h₁
  cases hl : l.turn? with
  | none =>
    have hturns : s'.turns = s.turns := by cases h <;> first | rfl | simp [turn?] at hl
    have hdb : ∃ r, s.db.actions.find a = some r := by
      cases hf : s.db.actions.find a with
      | some r => exact ⟨r, rfl⟩
      | none =>
        cases h with
        | turn => simp [turn?] at hl
        | cancelUnstarted id =>
          rcases cancelUnstartedAction_cases s.db id with h | ⟨q, b, -, -, -, -, h⟩
          · rw [h, hf] at hr'; cases hr'
          · rw [h, find_updateAgentAction, hf] at hr'; cases hr'
        | _ => rw [find_patch, hf] at hr'; cases hr'
    obtain ⟨r, hr⟩ := hdb
    obtain ⟨patch, hp, hstatus, -⟩ := h.row_of_other hl hr
    obtain rfl : patch.apply r = r' := Option.some_inj.1 (hp.symm.trans hr')
    refine ⟨_, hr', hd, fun hrej => ?_, fun t ht => ?_⟩
    · rcases hstatus with hn | hn | ⟨hpend, hn | ⟨hn, hat⟩⟩
      · exact absurd ⟨r, hr, by simpa [apply, hn] using hd⟩ h₀
      · simp [apply, hn] at hrej
      · simp [apply, hn] at hrej
      · cases hx : patch.rejectedAt <;> simp_all [apply]
    · rw [hturns, hun.alone h₀ h₁ t (by simp [hl])] at ht
      cases ht
  | some t =>
    cases h with
    | @turn t' act db u hfree h =>
      obtain rfl : t' = t := by simpa [turn?] using hl
      obtain ⟨hu, b, hb, hrej⟩ := h.denies h₀ h₁
      obtain rfl : b = r' := Option.some_inj.1 (hb.symm.trans hr')
      refine ⟨b, hr', hd, fun e => absurd e hrej, fun t ht => ?_⟩
      by_cases htt : t = t'
      · subst htt
        rw [put_turns_self, hu] at ht
        cases ht
      · rw [put_turns_of_ne _ _ _ htt,
          hun.alone h₀ h₁ t (by simpa [turn?] using Ne.symm htt)] at ht
        cases ht
    | _ => simp [turn?] at hl

/-- An undisturbed step leaves a denied action denied. -/
theorem Sealed.step (hS : Sealed a s r) (h : QueueStep C s l s') (hun : Undisturbed a s l s') :
    ∃ r', Sealed a s' r' := by
  have hden := hS.denied
  cases hl : l.turn? with
  | none =>
    have hturns : s'.turns = s.turns := by cases h <;> first | rfl | simp [turn?] at hl
    obtain ⟨patch, hp, hstatus, hat⟩ := h.row_of_other hl hS.row
    have hpend : r.status ≠ .pending := fun e => by simp [e, isDenied] at hden
    have hat' : (patch.apply r).rejectedAt = r.rejectedAt := by
      cases hx : patch.rejectedAt with
      | none => simp [apply, hx]
      | some n => exact absurd (hat (by simp [hx])) hpend
    refine ⟨_, hp, ?_, ?_, fun t ht => ?_⟩
    · rcases hstatus with hn | hn | ⟨he, -⟩
      · simpa [apply, hn] using hden
      · simp [apply, hn, isDenied]
      · exact absurd he hpend
    · intro hrej
      rw [hat']
      rcases hstatus with hn | hn | ⟨he, -⟩
      · exact hS.rejected (by simpa [apply, hn] using hrej)
      · simp [apply, hn] at hrej
      · exact absurd he hpend
    · rw [hturns] at ht ⊢
      rw [hat']
      exact hS.turns t ht
  | some t =>
    cases h with
    | @turn t' act db u hfree h =>
      -- the row is left alone, or withdrawn: whoever else writes it is past its checks
      have hrow : ∃ r', db.actions.find a = some r' ∧ r'.status.isDenied = true ∧
          (r'.status = .rejected → r'.rejectedAt.isSome = true) ∧ r'.rejectedAt = r.rejectedAt := by
        rcases h.actionWrite.find_eq hS.row with hk | ⟨hpend, -⟩ | ⟨patch, hp, hk⟩
        · exact ⟨r, hk, hden, hS.rejected, rfl⟩
        · simp [hpend, isDenied] at hden
        · rcases patch?_cases hp with rfl | ⟨hm, hc⟩
          · exact ⟨_, hk, rfl, by simp [apply, ActionPatch.failure], rfl⟩
          · rw [(hS.turns t' hm).1] at hc
            cases hc
      obtain ⟨r', hr', hd', hrej, hat⟩ := hrow
      refine ⟨r', hr', hd', hrej, fun t ht => ?_⟩
      rw [hat]
      by_cases htt : t = t'
      · subst htt
        rw [put_turns_self] at ht ⊢
        rcases h.takes ht with hm | ⟨hlease, hc⟩
        · obtain ⟨hc, href⟩ := hS.turns t hm
          exact ⟨h.checks hS.row href hm hc ht, href⟩
        · exact ⟨hc, (hun.untaken hlease r hS.row hden).elim hS.rejected id⟩
      · rw [put_turns_of_ne _ _ _ htt] at ht ⊢
        exact hS.turns t ht
    | _ => simp [turn?] at hl

theorem Sealed.calls_ne (hS : Sealed a s r) (l : QueueLabel) : s.calls l ≠ some a := by
  intro hc
  unfold calls at hc
  split at hc
  · rename_i t
    split at hc
    · rename_i w item i hturn
      cases hc
      have hm := (hS.turns t (by simp [hturn, mayAct, Phase.mayAct])).1
      simp [hturn, isChecking] at hm
    · cases hc
  · cases hc

/-- From here on the action is neither pending, approved nor executed, and its tool is not
called. -/
def StaysDenied (M : Machine QueueState QueueLabel) (a : String) (s : QueueState) : Prop :=
  ∀ h s', M.Steps s h s' →
    (∀ r, s'.db.actions.find a = some r →
      r.status ≠ .pending ∧ r.status ≠ .approved ∧ r.status ≠ .executed) ∧
    ∀ l, s'.calls l ≠ some a

theorem sealed_of_run {h : List QueueLabel}
    (hr : ((queueMachine C).restrict (Undisturbed a)).Run h s) (hd : s.db.Denied a) :
    ∃ r, Sealed a s r := by
  refine hr.invariant (I := fun s => s.db.Denied a → ∃ r, Sealed a s r) ?_ ?_ hd
  · rintro ⟨r, hr, -⟩
    cases hr
  · intro s l s' ih ⟨hst, hun⟩ hd
    by_cases h₀ : s.db.Denied a
    · obtain ⟨r, hS⟩ := ih h₀
      exact hS.step (queueStep_of_step hst) hun
    · exact sealed_of_denied (queueStep_of_step hst) hun h₀ hd

/-- In every run of undisturbed steps a denied action stays denied. -/
theorem denied_stays_denied (C : WorkerConfig) (a : String) {h : List QueueLabel} {s : QueueState}
    (hr : ((queueMachine C).restrict (Undisturbed a)).Run h s) (hd : s.db.Denied a) :
    StaysDenied ((queueMachine C).restrict (Undisturbed a)) a s := by
  intro h' s' hs
  obtain ⟨r', hS⟩ := hs.invariant (I := fun s => ∃ r, Sealed a s r) (sealed_of_run hr hd)
    fun t l u ⟨r, hS⟩ ⟨hst, hun⟩ => hS.step (queueStep_of_step hst) hun
  refine ⟨fun r hr => ?_, hS.calls_ne⟩
  obtain rfl : r' = r := Option.some_inj.1 (hS.row.symm.trans hr)
  have hden := hS.denied
  refine ⟨?_, ?_, ?_⟩ <;> intro e <;> simp [e, isDenied] at hden

/-- Steps of the turn 0 alone are undisturbed as long as the action is not denied. -/
theorem run_undisturbed {C : WorkerConfig} {a : String} {h : List QueueLabel} {s : QueueState}
    (hd : driveQueue C 1 (queueMachine C).init h = some s) (hturn : ∀ l ∈ h, l.turn? = some 0)
    (hopen : ∀ i < h.length, ∀ st ∈ statusAfter C 1 (h.take i) a, st.isDenied = false) :
    ((queueMachine C).restrict (Undisturbed a)).Run h s := by
  induction h using List.reverseRecOn generalizing s with
  | nil =>
    cases hd
    exact .nil
  | append_singleton h l ih =>
    rw [driveQueue_append] at hd
    obtain ⟨s₁, h₁, hd⟩ := Option.bind_eq_some_iff.1 hd
    obtain ⟨-, hidle⟩ := steps_driveQueue (fun _ _ => rfl) h₁
    have hst : (queueMachine C).step s₁ l s := by
      obtain ⟨t, hst, hnil⟩ := (steps_driveQueue hidle hd).1.uncons
      exact hnil.eq_of_nil ▸ hst
    refine (ih h₁ (fun l hl => hturn l (by simp [hl])) fun i hi => ?_).snoc ⟨hst, ?_, ?_⟩
    · have := hopen i (by simp; omega)
      rwa [List.take_append_of_le_length hi.le] at this
    · -- the other turns are idle
      intro _ _ t ht
      rw [hidle t (Nat.one_le_iff_ne_zero.2 fun h₀ => ht (h₀ ▸ hturn l (by simp)))]
      rfl
    · intro _ r hr hden
      have hstatus := hopen h.length (by simp) r.status
      rw [List.take_left' rfl, statusAfter, h₁, Option.bind_some, hr] at hstatus
      rw [hstatus rfl] at hden
      cases hden

/-- The action is leased, and its worker finds that the policy has come to block it. -/
def leasedThenBlocked : List QueueLabel :=
  proposeAndLease ++ [.turn 0 (.check (emailView forbidden 0)), .turn 0 .note]

/-- An action that was queued and leased before it was blocked. -/
theorem denied_stays_denied_forbidden :
    ∃ s, ((queueMachine plainWorkers).restrict (Undisturbed "act-1")).Run leasedThenBlocked s ∧
      (s.db.queue.find "act-1").isSome = true ∧
      StaysDenied ((queueMachine plainWorkers).restrict (Undisturbed "act-1")) "act-1" s := by
  have hblocked : (driveQueue plainWorkers 1 (queueMachine plainWorkers).init leasedThenBlocked).any
      (fun s => (s.db.queue.find "act-1").isSome &&
        (s.db.actions.find "act-1").any fun r => r.status.isDenied) = true := by
    decide +kernel
  obtain ⟨s, hs, hand⟩ := (Option.any_eq_true _ _).1 hblocked
  obtain ⟨hqueued, hdenied⟩ := Bool.and_eq_true_iff.1 hand
  have hrun := run_undisturbed (a := "act-1") hs (by decide) (by decide +kernel)
  exact ⟨s, hrun, hqueued, denied_stays_denied plainWorkers "act-1" hrun
    ((Option.any_eq_true _ _).1 hdenied)⟩

/-- The worker `w-1` blocks the action and is lost before it stops the item.  The worker `w-2`
takes the item over, finds that the policy allows the action, and executes it. -/
def noteAndTakeover : List QueueLabel :=
  [.turn 0 (.check (emailView forbidden 0)), .turn 0 .note, .turn 0 .quit]

/-- See `noteAndTakeover`. -/
def takeoverExecutes : List QueueLabel :=
  [.turn 1 (.tick "w-2" 30_000 40_000), .turn 1 (.expire 40_000),
    .turn 1 (.check (emailView allowed 40_000)), .turn 1 (.begin "att-1" 40_000), .turn 1 .call,
    .turn 1 (.return_ (.str "sent")), .turn 1 (.record none)]

/-- A blocked action can be executed. -/
theorem blocked_action_executed :
    ¬∀ (C : WorkerConfig) (a : String) (h : List QueueLabel) (s : QueueState),
      (queueMachine C).Run h s → s.db.Denied a → StaysDenied (queueMachine C) a s := by
  intro hall
  have hb : statusAfter plainWorkers 2 (proposeAndLease ++ noteAndTakeover) "act-1" =
      some .blocked := by decide +kernel
  have he : statusAfter plainWorkers 2
      (proposeAndLease ++ noteAndTakeover ++ takeoverExecutes) "act-1" = some .executed := by
    decide +kernel
  obtain ⟨s, s', r, r', hrun, hsteps, hf, hst, hf', hst'⟩ := exists_run_of_statusAfter hb he
  have hd : s.db.Denied "act-1" := ⟨r, hf, by rw [hst]; rfl⟩
  exact ((hall _ _ _ s hrun hd _ s' hsteps).1 r' hf').2.2 hst'

end U2os.Server.Agent
