import U2os.Server.Agent.DeniedActions
import U2os.Server.Agent.NoReplay

/-!
# Executed actions

What becomes of an action whose tool returned.  As soon as the result is recorded, and nobody else
is half-way with the action, the row of the action is never written again, the item goes straight
to its end, and the tool is not called a second time.  Where the process stops before the record, the
attempt is lost, and the tool is not called again either, unless it supports idempotency.
-/

namespace U2os.Server.Agent

open Option QueueState Turn

/-- A worker in this phase does not call the tool, and writes no action that is executed. -/
def Phase.isQuiet : Phase → Bool
  | .recovering | .checking | .settling | .settled _ | .recorded .. | .published .. => true
  | .stopping x => x.status = .cancelled
  | _ => false

/-- As it goes on, the turn does not write the executed action `a`. -/
def Turn.isQuiet (a : String) : Turn → Bool
  | .proposed p => p.id ≠ a
  | .approved x => x.actionId ≠ a
  | .work _ item phase => item.actionId ≠ a || phase.isQuiet
  | _ => true

/-- An item in this status is to be worked on, or was given up. -/
def QueueStatus.isUndone : QueueStatus → Bool
  | .queued | .retryWait | .failed => true
  | _ => false

/-- `publish` throws on the event of a recorded result of the action. -/
def EventThrows (a : String) (s : QueueState) (l : QueueLabel) : Prop :=
  ∃ t e w item i v, l = .turn t (.publish (some e)) ∧
    s.turns t = .work w item (.recorded i v) ∧ item.actionId = a

/-- The action is executed, and every turn is quiet about it. -/
structure Finished (a : String) (r : AgentAction) (s : QueueState) : Prop where
  row : s.db.actions.find a = some r
  executed : r.status = .executed
  queued : ∃ q, s.db.queue.find a = some q
  quiet : ∀ t, (s.turns t).isQuiet a = true

variable {C : WorkerConfig} {s s' : QueueState} {a : String} {r : AgentAction}

variable {act : Act}

theorem Turn.patch?_of_isQuiet {u : Turn} {id : String} {patch : ActionPatch}
    (hu : u.isQuiet a = true) (hp : u.patch? act = some (id, patch)) : id ≠ a := by
  unfold patch? at hp
  split at hp
  all_goals cases hp
  · simpa [isQuiet] using hu
  all_goals simpa [isQuiet, Phase.isQuiet] using hu

variable {item : QueueItem}

theorem executeLeased_of_executed {attempts : List Attempt} {v : View} (he : r.status = .executed) :
    (executeLeased C (some r) item attempts v).phase.isQuiet = true := by
  simp only [executeLeased, he]
  split_ifs <;> rfl

variable {db db' : ActionDb}

theorem Work.isQuiet {w : String} {phase : Phase} {u' : Turn}
    (h : Work C db w item phase act db' u')
    (hu : (Turn.work w item phase).isQuiet a = true) (hr : db.actions.find a = some r)
    (he : r.status = .executed)
    (hev : ∀ e i v, act = .publish (some e) → phase = .recorded i v → item.actionId ≠ a) :
    u'.isQuiet a = true := by
  by_cases hia : item.actionId = a
  · subst hia
    have hphase : phase.isQuiet = true := by simpa [isQuiet] using hu
    cases h with
    | check v =>
      simp only [isQuiet, hr, executeLeased_of_executed he, Bool.or_true]
    | publishThrows id result e => exact absurd rfl (hev e id result rfl rfl)
    | expire | settle | settled | publish | complete | stop => simp [isQuiet, Phase.isQuiet]
    | _ => cases hphase
  · cases h <;> simp [isQuiet, hia]

theorem Move.isQuiet {u u' : Turn} (h : Move C db u act db' u')
    (hu : u.isQuiet a = true) (hr : db.actions.find a = some r) (he : r.status = .executed)
    (hev : ∀ e w item i v, act = .publish (some e) → u = .work w item (.recorded i v) →
      item.actionId ≠ a) : u'.isQuiet a = true := by
  cases h with
  | @propose p now actions h =>
    have hne : p.id ≠ a := by
      rintro rfl
      exact (Table.insert?_eq_some.1 h).1 r (Table.mem_of_find hr) (Table.key_of_find hr)
    simpa [isQuiet] using hne
  | @approve id by_ rule now b hb hs =>
    have hid : b.id = id := Table.key_of_find hb
    have hne : id ≠ a := by
      rintro rfl
      rw [hr, some_inj] at hb
      rw [← hb, he] at hs
      cases hs
    simpa [isQuiet, AgentAction.enqueue, hid] using hne
  | lease => simp [isQuiet, Phase.isQuiet]
  | tick => simp [isQuiet, Phase.isQuiet]
  | work h => exact h.isQuiet hu hr he fun e i v ha hp => hev e _ _ i v ha (by rw [hp])
  | _ => rfl

theorem undone_settle {id w : String} {x : Settlement} {now : ℕ} {r : ActionDb × QueueItem}
    (h : settleAttempt db id w x now = some r)
    (hx : ∀ y, db.attempts.find id = some y → y.actionId = a → x.queueStatus.isUndone = false)
    {q : QueueItem} (hq : db.queue.find a = some q) :
    ∃ q', r.1.queue.find a = some q' ∧ (q'.status.isUndone = true → q'.status = q.status) := by
  obtain ⟨y, p, hy, -, -, hp, -, -, rfl⟩ := settleAttempt_eq_some h
  have hid : (p.settled x).actionId = y.actionId :=
    show p.actionId = y.actionId from Table.key_of_find hp
  have hfind := find_put_item hp hid a
  split_ifs at hfind with hk
  · refine ⟨_, hfind, fun hu => ?_⟩
    have hxu : x.queueStatus.isUndone = true := hu
    rw [hx y hy hk.symm] at hxu
    cases hxu
  · exact ⟨q, hfind.trans hq, fun _ => rfl⟩

theorem undone_put {queue : Queue} {p p' q : QueueItem} {k : String} (hp : queue.find k = some p)
    (hid : p'.actionId = p.actionId) (hu : k = a → p'.status.isUndone = false)
    (hq : queue.find a = some q) :
    ∃ q', (queue.put p').find a = some q' ∧ (q'.status.isUndone = true → q'.status = q.status) := by
  have hfind := find_put_item hp (hid.trans (Table.key_of_find hp)) a
  split_ifs at hfind with hk
  · refine ⟨_, hfind, fun h => ?_⟩
    rw [hu hk.symm] at h
    cases h
  · exact ⟨q, hfind.trans hq, fun _ => rfl⟩

/-- A write of a quiet turn does not undo the item of an action. -/
theorem QueueWrite.undone (hS : s.Sound) {t : ℕ} {db : ActionDb} {u : Turn}
    (h : QueueWrite C s.db (s.turns t) db u) (hu : (s.turns t).isQuiet a = true) {q : QueueItem}
    (hq : s.db.queue.find a = some q) :
    ∃ q', db.queue.find a = some q' ∧ (q'.status.isUndone = true → q'.status = q.status) := by
  have hkeep : ∀ {queue}, queue = s.db.queue →
      ∃ q', queue.find a = some q' ∧ (q'.status.isUndone = true → q'.status = q.status) :=
    fun e => ⟨q, e ▸ hq, fun _ => rfl⟩
  have hbegun := fun w item phase i => hS.begun t w item phase i
  generalize s.turns t = v at h hu hbegun
  cases h with
  | leave _ hqu => exact hkeep hqu
  | enqueue _ hqu =>
    refine ⟨q, ?_, fun _ => rfl⟩
    rw [find_enqueueAction hqu, if_neg, hq]
    rintro ⟨-, hn⟩
    rw [hq] at hn
    cases hn
  | @requeue _ _ x ref decision now _ hqu =>
    obtain ⟨p, hp, -, -, hqu⟩ := requeueAction_eq_some hqu
    rw [hqu]
    exact undone_put hp rfl (fun hk => by simp [isQuiet, hk] at hu) hq
  | lease _ hp _ hqu =>
    rw [hqu]
    exact undone_put hp rfl (fun _ => rfl) hq
  | expire => exact hkeep rfl
  | check => exact hkeep rfl
  | note _ _ _ _ hqu => exact hkeep hqu
  | @stop _ _ _ w item x hqu =>
    obtain ⟨p, hp, -, -, hqu⟩ := stopLeasedAction_eq_some hqu
    rw [hqu]
    refine undone_put hp rfl (fun hk => ?_) hq
    have hx : x.status = .cancelled := by simpa [isQuiet, Phase.isQuiet, hk] using hu
    simp [QueueItem.stopped, hx, StopStatus.queueStatus, QueueStatus.isUndone]
  | begin _ h =>
    obtain ⟨p, attempts, hp, -, -, -, -, -, rfl⟩ := beginActionAttempt_eq_some h
    exact undone_put hp rfl (fun _ => rfl) hq
  | call _ _ _ hqu => exact hkeep hqu
  | renew w item id leaseMs now =>
    refine ⟨_, (find_renewActionLease ..).trans (congrArg (Option.map _) hq), fun _ => ?_⟩
    dsimp only
    split_ifs <;> rfl
  | complete _ _ _ h => exact undone_settle h (fun _ _ _ => rfl) hq
  | @fail _ _ w item id e error c now r h =>
    obtain ⟨y, -, h⟩ := failActionAttempt_eq_some h
    refine undone_settle h (fun y hy hya => ?_) hq
    -- the attempt is one of the item the worker is at work on
    obtain ⟨x, hx, hxa, -⟩ := hbegun w item _ id rfl rfl
    rw [hy, some_inj] at hx
    subst hx
    simp [isQuiet, Phase.isQuiet, hxa.symm.trans hya] at hu

/-- A worker in this phase has passed the checks. -/
def Phase.isPassed : Phase → Bool
  | .beginning => true
  | phase => phase.attempt?.isSome

/-- A worker past its checks is at work on what was proposed. -/
def QueueState.Audited (s : QueueState) : Prop :=
  ∀ t w item phase, s.turns t = .work w item phase → phase.isPassed = true →
    ∃ r, s.db.actions.find item.actionId = some r ∧ item.arguments = r.arguments

theorem Work.same {w w' : String} {item' : QueueItem} {phase phase' : Phase}
    (h : Work C db w item phase act db' (.work w' item' phase')) : w' = w ∧ item' = item := by
  generalize hu : Turn.work w' item' phase' = u at h
  cases h <;> cases hu <;> exact ⟨rfl, rfl⟩

theorem Work.isPassed {w : String} {phase phase' : Phase}
    (h : Work C db w item phase act db' (.work w item phase'))
    (hp : phase'.isPassed = true) : phase.isPassed = true ∨
      ∃ r, db.actions.find item.actionId = some r ∧ item.arguments = r.arguments := by
  generalize hu : Turn.work w item phase' = u at h
  cases h with
  | check v =>
    cases hu
    refine .inr ?_
    cases hd : executeLeased C (db.actions.find item.actionId) item
      (listActionAttempts db.attempts item.actionId) v with
    | attempt =>
      obtain ⟨r, hr, hc⟩ := cleared_of_attempt hd
      exact ⟨r, hr, hc.payload⟩
    | settle =>
      rw [hd] at hp
      cases hp
    | stop note x =>
      rw [hd] at hp
      cases note <;> cases hp
  | expire | settle => cases hu; cases hp
  | note => cases hu; cases hp
  | _ => first | cases hu; exact .inl rfl | cases hu

variable {l : QueueLabel}

/-- Every step keeps the recorded results in line with the attempts. -/
theorem QueueState.Audited.step (hA : s.Audited) (h : QueueStep C s l s') :
    s'.Audited := by
  intro t w item phase ht hp
  -- arguments are never patched
  have hold : (∃ r, s.db.actions.find item.actionId = some r ∧ item.arguments = r.arguments) →
      ∃ r, s'.db.actions.find item.actionId = some r ∧ item.arguments = r.arguments := by
    rintro ⟨r, hr, he⟩
    obtain ⟨patch, hr'⟩ := h.row_patched hr
    exact ⟨_, hr', he⟩
  apply hold
  cases h with
  | @turn t' act db u _ h =>
    rcases put_turns_cases ht with ⟨rfl, rfl⟩ | ⟨-, ht⟩
    · generalize hv : s.turns t = v at h
      generalize hu : Turn.work w item phase = u at h
      cases h with
      | lease | tick =>
        cases hu
        cases hp
      | work h =>
        subst hu
        obtain ⟨rfl, rfl⟩ := h.same
        rcases h.isPassed hp with hp₀ | hr
        · exact hA t _ _ _ hv hp₀
        · exact hr
      | _ => cases hu
    · exact hA t w item phase ht hp
  | _ => exact hA t w item phase ht hp

theorem audited_of_run {h : List QueueLabel} (hr : (queueMachine C).Run h s) : s.Audited :=
  hr.invariant (I := QueueState.Audited) (fun _ _ _ _ ht => by cases ht)
    fun _ _ _ hA hst => hA.step (queueStep_of_step hst)

/-! ### Finished actions -/

/-- The row of a finished action does not change. -/
theorem Finished.row_step (hF : Finished a r s) (h : QueueStep C s l s') :
    s'.db.actions.find a = some r := by
  have hpatch : ∀ {id patch}, id ≠ a → (s.db.patch id patch).actions.find a = some r := by
    intro id patch hid
    rw [find_patch, hF.row]
    exact congrArg some (if_neg hid.symm)
  have hne : ∀ {id b}, s.db.actions.find id = some b → b.status ≠ .executed → id ≠ a := by
    rintro id b hb hs rfl
    rw [hF.row, some_inj] at hb
    exact hs (hb ▸ hF.executed)
  cases h with
  | @turn t act db u _ h =>
    rcases h.actionWrite.find_eq hF.row with hk | ⟨hs, -⟩ | ⟨patch, hp, -⟩
    · exact hk
    · rw [hF.executed] at hs
      cases hs
    · exact absurd rfl (patch?_of_isQuiet (hF.quiet t) hp)
  | deny hb hs => exact hpatch (hne hb (by rw [hs]; decide))
  | cancelUnstarted id =>
    rcases cancelUnstartedAction_cases s.db id with h | ⟨q, b, -, hb, -, hs, h⟩
    · exact (congrArg (fun db : ActionDb => db.actions.find a) h).trans hF.row
    · exact (congrArg (fun db : ActionDb => db.actions.find a) h).trans (hpatch (hne hb hs))
  | @repropose id result b hb hs =>
    refine hpatch (hne hb fun e => ?_)
    simp [AgentAction.isStale, e] at hs

theorem Finished.item_step (hF : Finished a r s) (hS : s.Sound)
    (h : QueueStep C s l s') {q : QueueItem} (hq : s.db.queue.find a = some q) :
    ∃ q', s'.db.queue.find a = some q' ∧ (q'.status.isUndone = true → q'.status = q.status) := by
  cases h with
  | @turn t act db u _ h => exact h.queueWrite.undone hS (hF.quiet t) hq
  | cancelUnstarted id =>
    rcases cancelUnstartedAction_cases s.db id with h | ⟨p, b, hp, hb, -, hs, h⟩
    · exact ⟨q, (congrArg (fun db : ActionDb => db.queue.find a) h).trans hq, fun _ => rfl⟩
    · rw [h]
      refine undone_put hp rfl (fun hk => ?_) hq
      subst hk
      rw [hF.row, some_inj] at hb
      exact absurd (hb ▸ hF.executed) hs
  | _ => exact ⟨q, hq, fun _ => rfl⟩

theorem Finished.step (hF : Finished a r s) (hS : s.Sound)
    (h : QueueStep C s l s') (hev : ¬EventThrows a s l) : Finished a r s' := by
  obtain ⟨q, hq⟩ := hF.queued
  obtain ⟨q', hq', -⟩ := hF.item_step hS h hq
  refine ⟨hF.row_step h, hF.executed, ⟨q', hq'⟩, fun t => ?_⟩
  cases h with
  | @turn t' act db u _ h =>
    by_cases ht : t = t'
    · subst ht
      rw [put_turns_self]
      refine h.isQuiet (hF.quiet t) hF.row hF.executed fun e w item i v hact hturn hia => ?_
      exact hev ⟨t, e, w, item, i, v, by rw [hact], hturn, hia⟩
    · rw [put_turns_of_ne _ _ _ ht]
      exact hF.quiet t
  | _ => exact hF.quiet t

theorem calling_of_calls (h : s.calls l = some a) : ∃ t w item j,
    l = .turn t .call ∧ s.turns t = .work w item (.calling j) ∧ item.actionId = a := by
  unfold calls at h
  split at h
  · split at h
    · rename_i t _ w item j ht
      exact ⟨t, w, item, j, rfl, ht, some_inj.1 h⟩
    · cases h
  · cases h

theorem calls_of_isQuiet (hq : ∀ t, (s.turns t).isQuiet a = true) (l : QueueLabel) :
    s.calls l ≠ some a := by
  intro hc
  obtain ⟨t, w, item, j, -, hturn, rfl⟩ := calling_of_calls hc
  have ht := hq t
  simp [hturn, isQuiet, Phase.isQuiet] at ht

theorem finished_of_record (hS : s.Sound) {t : ℕ} {w : String} {item : QueueItem} {i : String}
    {v : Json} (hA : s.Audited) (ht : s.turns t = .work w item (.returned i v))
    (hq : ∀ t', t' ≠ t → (s.turns t').isQuiet item.actionId = true)
    (hst : QueueStep C s (.turn t (.record none)) s') :
    ∃ r, Finished item.actionId r s' ∧ r.result = some v := by
  obtain ⟨r, hr, -⟩ := hA t w item _ ht rfl
  obtain ⟨q, hfind, -⟩ := hS.item t w item _ ht
  cases hst with
  | turn _ h =>
    rw [ht] at h
    cases h with
    | work h =>
      cases h with
      | record =>
        refine ⟨({ status := some .executed, result := some v } : ActionPatch).apply r,
          ⟨?_, rfl, ⟨q, hfind⟩, fun t' => ?_⟩, rfl⟩
        · rw [put_db, find_patch, hr]
          exact congrArg some (if_pos rfl)
        · by_cases htt : t' = t
          · subst htt
            simp [isQuiet, Phase.isQuiet]
          · rw [put_turns_of_ne _ _ _ htt]
            exact hq t' htt

theorem lost_of_quit (hS : s.Sound) {t : ℕ} {w : String} {item : QueueItem} {i : String} {v : Json}
    (ht : s.turns t = .work w item (.returned i v))
    (hst : QueueStep C s (.turn t .quit) s') : Lost item.actionId s' := by
  obtain ⟨x, hx, hxa, ho⟩ := hS.begun t w item _ i ht rfl
  cases hst with
  | turn _ h =>
    rw [ht] at h
    cases h with
    | work h => cases h
    | quit =>
      refine ⟨i, x, hx, hxa, ?_⟩
      by_cases hs : x.status = .executing
      · refine .inr ⟨hs, .inr fun t' w' item' phase' ht' hp => ?_⟩
        rcases put_turns_cases ht' with ⟨-, hu⟩ | ⟨hne, ht'⟩
        · cases hu
        · exact hne (hS.own t' t w' w item' item phase' _ i ht' ht hp rfl)
      · exact .inl ⟨hs, ho.resolve_left hs⟩

/-! ### Runs -/

/-- Whatever follows, the row of the action is the same, its item neither goes back into the queue
nor is given up, and its tool is not called. -/
def StaysExecuted (M : Machine QueueState QueueLabel) (a : String) (r : AgentAction)
    (s : QueueState) : Prop :=
  ∀ h s₁, M.Steps s h s₁ → s₁.db.actions.find a = some r ∧ (∀ l, s₁.calls l ≠ some a) ∧
    ∀ l s₂ q, M.step s₁ l s₂ → s₁.db.queue.find a = some q →
      ∃ q', s₂.db.queue.find a = some q' ∧ (q'.status.isUndone = true → q'.status = q.status)

/-- The queue, where `publish` does not throw on the event of a recorded result of the action. -/
def eventedQueue (C : WorkerConfig) (a : String) : Machine QueueState QueueLabel :=
  (queueMachine C).restrict fun s l _ => ¬EventThrows a s l

theorem Finished.staysExecuted (hF : Finished a r s) (hS : s.Sound) :
    StaysExecuted (eventedQueue C a) a r s := by
  intro h s₁ hs
  obtain ⟨hF₁, hS₁⟩ := hs.invariant (I := fun s => Finished a r s ∧ s.Sound) ⟨hF, hS⟩
    fun t l u ⟨hF, hS⟩ ⟨hst, hev⟩ => ⟨hF.step hS (queueStep_of_step hst) hev,
      hS.step (queueStep_of_step hst).stepWrite⟩
  exact ⟨hF₁.row, calls_of_isQuiet hF₁.quiet, fun l s₂ q hst hq =>
    hF₁.item_step hS₁ (queueStep_of_step hst.1) hq⟩

/-- The tool of an action returned, and nobody else is half-way with the action.  Once the result is
recorded, the action stays executed; where the process stops before that, the tool is not called
again unless it supports idempotency. -/
theorem executed_stays_executed (C : WorkerConfig) {h : List QueueLabel} {s : QueueState} {t : ℕ}
    {w : String} {item : QueueItem} {i : String} {v : Json} (hr : (queueMachine C).Run h s)
    (ht : s.turns t = .work w item (.returned i v))
    (hq : ∀ t', t' ≠ t → (s.turns t').isQuiet item.actionId = true) :
    (∀ s₁, (queueMachine C).step s (.turn t (.record none)) s₁ →
      ∃ r, r.status = .executed ∧ r.result = some v ∧
        StaysExecuted (eventedQueue C item.actionId) item.actionId r s₁) ∧
    ∀ s₁, (queueMachine C).step s (.turn t .quit) s₁ → C.idempotent item.tool = false →
      ∀ h' s', (queueMachine C).Steps s₁ h' s' → ∀ l, s'.calls l ≠ some item.actionId := by
  have hS := sound_of_run hr
  refine ⟨fun s₁ hst => ?_, fun s₁ hst hidem h' s' hs l => ?_⟩
  · obtain ⟨r, hF, hv⟩ := finished_of_record hS (audited_of_run hr) ht hq (queueStep_of_step hst)
    exact ⟨r, hF.executed, hv, hF.staysExecuted (hS.step (queueStep_of_step hst).stepWrite)⟩
  · obtain ⟨hs₁, hturns⟩ : s₁.db = s.db ∧ ∀ t', (s₁.turns t').isQuiet item.actionId = true := by
      cases queueStep_of_step hst with
      | turn _ h =>
        rw [ht] at h
        cases h with
        | work h => cases h
        | quit =>
          refine ⟨rfl, fun t' => ?_⟩
          by_cases htt : t' = t
          · subst htt
            rw [put_turns_self]
            rfl
          · rw [put_turns_of_ne _ _ _ htt]
            exact hq t' htt
    obtain ⟨q, hfind, htool, -⟩ := hS.item t w item _ ht
    have hun : Unrepeatable C item.actionId s₁ := by
      intro p hp
      rw [hs₁, hfind, some_inj] at hp
      rw [← hp, ← htool, hidem]
    have hn := begun_before_lost (hr.snoc hst) (lost_of_quit hS ht (queueStep_of_step hst)) hun hs
    intro hc
    obtain ⟨t', w', item', j, -, ht', ha⟩ := calling_of_calls hc
    have hold := hn.calling t' w' item' j ht' ha
    refine calls_of_isQuiet hturns (.turn t' .call) ?_
    rw [calls, hold]
    exact congrArg some ha

/-- The tool of the e-mail returned. -/
def proposeAndReturn : List QueueLabel :=
  proposeAndBegin ++ [.turn 0 .call, .turn 0 (.return_ (.str "sent"))]

/-- The action whose tool returned to the turn. -/
def QueueState.returned? (s : QueueState) (t : ℕ) : Option String :=
  match s.turns t with
  | .work _ item (.returned ..) => some item.actionId
  | _ => none

theorem QueueState.returned?_eq_some {t : ℕ} (h : s.returned? t = some a) :
    ∃ w item i v, s.turns t = .work w item (.returned i v) ∧ item.actionId = a := by
  unfold returned? at h
  split at h
  · rename_i w item i v ht
    exact ⟨w, item, i, v, ht, some_inj.1 h⟩
  · cases h

/-- The e-mail, sent by a single worker. -/
theorem executed_stays_executed_email : ∃ s, s.returned? 0 = some "act-1" ∧
    (∀ s₁, (queueMachine plainWorkers).step s (.turn 0 (.record none)) s₁ →
      ∃ r, r.status = .executed ∧ StaysExecuted (eventedQueue plainWorkers "act-1") "act-1" r s₁) ∧
    ∀ s₁, (queueMachine plainWorkers).step s (.turn 0 .quit) s₁ →
      ∀ h' s', (queueMachine plainWorkers).Steps s₁ h' s' → ∀ l, s'.calls l ≠ some "act-1" := by
  have h₀ : (driveQueue plainWorkers 1 (queueMachine plainWorkers).init proposeAndReturn).map
      (returned? · 0) = some (some "act-1") := by
    decide +kernel
  obtain ⟨s, hd, hret⟩ := map_eq_some_iff.1 h₀
  obtain ⟨w, item, i, v, ht, ha⟩ := returned?_eq_some hret
  obtain ⟨hrun, hidle⟩ := steps_driveQueue (fun _ _ => rfl) hd
  obtain ⟨h₁, h₂⟩ := executed_stays_executed plainWorkers hrun ht fun t' ht' => by
    rw [hidle t' (by omega)]
    rfl
  rw [ha] at h₁ h₂
  refine ⟨s, hret, fun s₁ hst => ?_, fun s₁ hst => h₂ s₁ hst rfl⟩
  obtain ⟨r, he, -, hS⟩ := h₁ s₁ hst
  exact ⟨r, he, hS⟩

/-- Steps that meet `P` do not undo the call of `a`, after its tool returned: they note no failure,
do not put the item back or give it up, and do not call the tool again, unless a process stopped and
the tool supports idempotency. -/
def KeepsReturned (C : WorkerConfig) (P : QueueLabel → Prop) (a : String) (s : QueueState) : Prop :=
  ∀ h s₁ l s₂, (queueMachine C).Steps s h s₁ → (queueMachine C).step s₁ l s₂ →
    (∀ k ∈ h ++ [l], P k) →
    (∀ r r', s₁.db.actions.find a = some r → s₂.db.actions.find a = some r' →
      r'.status = .failed → r.status = .failed) ∧
    (∀ q q', s₁.db.queue.find a = some q → s₂.db.queue.find a = some q' →
      q'.status.isUndone = true → q'.status = q.status) ∧
    (s₁.calls l = some a → (∃ t, .turn t .quit ∈ h) ∧
      ∀ q, s₁.db.queue.find a = some q → C.idempotent q.tool = true)

theorem not_keepsReturned (C : WorkerConfig) {P : QueueLabel → Prop} (n t : ℕ)
    (h h' : List QueueLabel) (l : QueueLabel) (a : String) (st : ActionStatus)
    (hret : (driveQueue C n (queueMachine C).init h).map (returned? · t) = some (some a))
    (hb : statusAfter C n (h ++ h') a = some st) (hst : st ≠ .failed)
    (he : statusAfter C n (h ++ h' ++ [l]) a = some .failed) (hP : ∀ k ∈ h' ++ [l], P k) :
    ¬∀ h s t w item i v, (queueMachine C).Run h s → s.turns t = .work w item (.returned i v) →
      KeepsReturned C P item.actionId s := by
  intro hall
  obtain ⟨s, hd, hret⟩ := map_eq_some_iff.1 hret
  obtain ⟨w, item, i, v, ht, rfl⟩ := returned?_eq_some hret
  obtain ⟨hrun, hidle⟩ := steps_driveQueue (fun _ _ => rfl) hd
  obtain ⟨s₁, hd₁, hs₁⟩ := bind_eq_some_iff.1 hb
  obtain ⟨s₂, hd₂, hs₂⟩ := bind_eq_some_iff.1 he
  rw [driveQueue_append, hd₁, bind_some] at hd₂
  rw [driveQueue_append, hd, bind_some] at hd₁
  obtain ⟨hsteps, hidle₁⟩ := steps_driveQueue hidle hd₁
  obtain ⟨u, hu, hstep⟩ := (steps_driveQueue hidle₁ hd₂).1.last (h := [])
  obtain rfl := hu.eq_of_nil
  obtain ⟨r, hr, hrs⟩ := map_eq_some_iff.1 hs₁
  obtain ⟨r', hr', hrs'⟩ := map_eq_some_iff.1 hs₂
  have hfail := (hall h s t w item i v hrun ht h' _ l s₂ hsteps hstep hP).1 r r' hr hr' hrs'
  exact hst (hrs.symm.trans hfail)

/-- The process stops before the result is recorded, and the worker `w-2` finds a lost attempt. -/
def stopAndTakeover : List QueueLabel :=
  [.turn 0 .quit, takeoverTick, .turn 1 (.expire 40_000),
    .turn 1 (.check (emailView allowed 40_000))]

/-- Workers whose tools support idempotency. -/
def idempotentWorkers : WorkerConfig where
  idempotent _ := true

/-- The worker `w-2` takes the item over, while the tool is at work for `w-1`, and calls it too.
Then the tool returns to `w-1`. -/
def takeoverAndReturn : List QueueLabel :=
  proposeAndBegin ++ [.turn 0 .call, takeoverTick, .turn 1 (.expire 40_000),
    .turn 1 (.check (emailView allowed 40_000)), .turn 1 (.begin "att-2" 40_000), .turn 1 .call,
    .turn 0 (.return_ (.str "sent"))]

def secondCallFails : List QueueLabel :=
  [.turn 0 (.record none), .turn 1 (.throw_ { message := "timeout", errorClass := .retryable })]

/-- A failure may be noted on an action whose tool returned: where the process stopped before the
result was recorded, and where another worker took the item over in the meantime. -/
theorem executed_noted_failed :
    (¬∀ C h s t w item i v, (queueMachine C).Run h s →
      s.turns t = .work w item (.returned i v) →
        KeepsReturned C (fun _ => True) item.actionId s) ∧
    ¬∀ C h s t w item i v, (queueMachine C).Run h s → s.turns t = .work w item (.returned i v) →
      KeepsReturned C (fun l => ∀ u, l ≠ .turn u .quit) item.actionId s := by
  refine ⟨fun hall => ?_, fun hall => ?_⟩
  · refine not_keepsReturned plainWorkers 2 0 proposeAndReturn stopAndTakeover (.turn 1 .note) "act-1"
      .approved ?_ ?_ (by decide) ?_ (fun _ _ => trivial) (hall plainWorkers)
    all_goals decide +kernel
  · refine not_keepsReturned idempotentWorkers 2 0 takeoverAndReturn secondCallFails (.turn 1 .note)
      "act-1" .executed ?_ ?_ (by decide) ?_ ?_ (hall idempotentWorkers)
    · decide +kernel
    · decide +kernel
    · decide +kernel
    · simp [secondCallFails]

end U2os.Server.Agent
