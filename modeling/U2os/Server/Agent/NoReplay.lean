import U2os.Server.Agent.Leases

/-!
# No replay after a lost attempt

What is left of an attempt whose worker was lost, and why no later worker calls a tool again that
does not support idempotency.  An attempt is *open* while it is under way, and again once a lease
closed it because its worker was lost.  Before it begins an attempt a worker looks at the newest
attempt only; that is enough, because the newest attempt of an item with an open one is open
itself, unless the item is completed.

## Main results

* `guarded_of_run` : every run is guarded.
-/

namespace U2os.Server.Agent

open List Option

/-- The attempt has the greatest number of its item. -/
structure ActionDb.Newest (db : ActionDb) (a : String) (x : Attempt) : Prop where
  find : ∃ i, db.attempts.find i = some x
  action : x.actionId = a
  le : ∀ j y, db.attempts.find j = some y → y.actionId = a → y.attemptNumber ≤ x.attemptNumber

theorem getLast?_listActionAttempts {s : QueueState} (hS : s.Sound) {a : String} {x : Attempt}
    (hx : s.db.Newest a x) : (listActionAttempts s.db.attempts a).getLast? = some x := by
  obtain ⟨⟨i, hi⟩, ha, hle⟩ := hx
  have hmem : x ∈ listActionAttempts s.db.attempts a := by
    rw [listActionAttempts, mem_insertionSort, mem_filter]
    exact ⟨Table.mem_of_find hi, by simpa using ha⟩
  cases hlast : (listActionAttempts s.db.attempts a).getLast? with
  | none => rw [getLast?_eq_none_iff.1 hlast] at hmem; cases hmem
  | some y =>
    obtain ⟨ys, hys⟩ := getLast?_eq_some_iff.1 hlast
    have hy : y ∈ listActionAttempts s.db.attempts a := by rw [hys]; simp
    rw [listActionAttempts, mem_insertionSort, mem_filter] at hy
    have hya : y.actionId = a := by simpa using hy.2
    have hyf : s.db.attempts.find y.id = some y := Table.find_key hy.1
    have hxy : x.attemptNumber ≤ y.attemptNumber := by
      have hsorted := pairwise_insertionSort (fun x y : Attempt =>
        x.attemptNumber ≤ y.attemptNumber) (s.db.attempts.rows.filter fun x => x.actionId = a)
      rw [hys] at hmem
      rw [show insertionSort _ _ = ys ++ [y] from hys, pairwise_append] at hsorted
      rcases List.mem_append.1 hmem with hm | hm
      · exact hsorted.2.2 x hm y (by simp)
      · rw [mem_singleton.1 hm]
    have hyx := hle _ _ hyf hya
    rw [hS.distinct _ _ y x hyf hi (hya.trans ha.symm) (by omega)]

/-! ### What workers rely on -/

/-- What holds of the attempts of tools that do not support idempotency. -/
structure QueueState.Guarded (C : WorkerConfig) (s : QueueState) : Prop where
  /-- With an open attempt the newest one is open, unless the item is completed. -/
  newest : ∀ a q, s.db.queue.find a = some q → C.idempotent q.tool = false →
    ∀ i x, s.db.attempts.find i = some x → x.actionId = a → x.isOpen →
      q.status = .completed ∨ ∃ y, s.db.Newest a y ∧ y.isOpen
  /-- A worker that can settle the attempt of its call has the only open one. -/
  only : ∀ t w item phase i q x, s.turns t = .work w item phase → phase.attempt? = some i →
    s.db.queue.find item.actionId = some q → C.idempotent q.tool = false →
    s.db.attempts.find i = some x → x.status = .executing → q.status = .executing →
    ∀ j y, s.db.attempts.find j = some y → y.actionId = item.actionId → y.isOpen → y = x
  /-- A worker that can begin an attempt for a call finds no open one. -/
  fresh : ∀ t w item q, s.turns t = .work w item .beginning →
    s.db.queue.find item.actionId = some q → C.idempotent q.tool = false → q.leasedTo w →
    ∀ j y, s.db.attempts.find j = some y → y.actionId = item.actionId → ¬y.isOpen

theorem guarded_init (C : WorkerConfig) : (queueMachine C).init.Guarded C where
  newest := fun _ _ h => by cases h
  only := fun _ _ _ _ _ _ _ h => by cases h
  fresh := fun _ _ _ _ h => by cases h

section Step

variable {C : WorkerConfig} {s s' : QueueState} {t : ℕ} {db : ActionDb} {u : Turn}

theorem ItemChange.completed {q q' : QueueItem} (h : ItemChange q q')
    (hq : q.status = .completed) : q'.status = .completed := by
  cases h with
  | keep => exact hq
  | requeue _ _ _ h => rcases h with h | h <;> rw [hq] at h <;> cases h
  | lease _ _ _ h => rcases h with ⟨h, -⟩ | ⟨h, -⟩ <;> rw [hq] at h <;> cases h
  | stop _ _ _ h | renew _ h | begin h | settle _ h | unstart h => rw [hq] at h; cases h

theorem newest_of_begins (hS : s.Sound) (h : QueueWrite C s.db (s.turns t) db u) {i : String}
    {x : Attempt} (hx : db.attempts.find i = some x) (hb : Begins s.db (s.turns t) db u i x) :
    db.Newest x.actionId x := by
  refine ⟨⟨i, hx⟩, rfl, fun j y' hy' ha => ?_⟩
  rcases h.attempt_back hy' with ⟨y, hy, hc⟩ | hb'
  · obtain ⟨w, item, phase, q, -, -, hax, -, hq, -, -, hnum⟩ := hb.unfold
    obtain ⟨-, hay, hny, -⟩ := hc.fixed
    obtain ⟨q', hq', hle⟩ := hS.number j y hy
    rw [← hay, ha, hax, hq, some_inj] at hq'
    subst hq'
    omega
  · obtain rfl := hb'.id_eq hb
    rw [some_inj.1 (hx.symm.trans hy')]

theorem ActionDb.Newest.step (h : QueueWrite C s.db (s.turns t) db u) {a : String}
    {y y' : Attempt} {j : String} (hy : s.db.Newest a y)
    (hj' : db.attempts.find j = some y') (hc : AttemptChange y y')
    (hnew : ∀ i x, db.attempts.find i = some x → x.actionId = a →
      ¬Begins s.db (s.turns t) db u i x) : db.Newest a y' := by
  obtain ⟨-, ha, hn, -⟩ := hc.fixed
  refine ⟨⟨j, hj'⟩, ha.trans hy.action, fun i x' hx' hax => ?_⟩
  rcases h.attempt_back hx' with ⟨x, hx, hcx⟩ | hb
  · obtain ⟨-, hax', hnx, -⟩ := hcx.fixed
    rw [hnx, hn]
    exact hy.le i x hx (hax'.symm.trans hax)
  · exact absurd hb (hnew i x' hx' hax)

/-- After a write the newest attempt of an item is open where one is, unless the item is completed.
-/
theorem QueueState.Guarded.put_newest (hG : s.Guarded C) (hS : s.Sound)
    (h : QueueWrite C s.db (s.turns t) db u) :
    ∀ a q, db.queue.find a = some q → C.idempotent q.tool = false →
      ∀ i x, db.attempts.find i = some x → x.actionId = a → x.isOpen →
        q.status = .completed ∨ ∃ y, db.Newest a y ∧ y.isOpen := by
  intro a q' hq' hidem i x' hx' ha ho
  by_cases hnew : ∃ j z, db.attempts.find j = some z ∧ z.actionId = a ∧
      Begins s.db (s.turns t) db u j z
  · obtain ⟨j, z, hz, rfl, hb⟩ := hnew
    exact .inr ⟨z, newest_of_begins hS h hz hb, .inl hb.executing⟩
  · have hnew' : ∀ j z, db.attempts.find j = some z → z.actionId = a →
        ¬Begins s.db (s.turns t) db u j z := fun j z hz hza hb => hnew ⟨j, z, hz, hza, hb⟩
    rcases h.attempt_back hx' with ⟨x, hx, hc⟩ | hb
    · have hxa : x.actionId = a := hc.fixed.2.1.symm.trans ha
      obtain ⟨q, hq, -⟩ := hS.number i x hx
      rw [hxa] at hq
      obtain ⟨p', hp', hqc⟩ := h.itemChange hq
      obtain rfl : p' = q' := some_inj.1 (hp'.symm.trans hq')
      have hidem₀ : C.idempotent q.tool = false := hqc.fixed.2.1 ▸ hidem
      rcases hG.newest a q hq hidem₀ i x hx hxa (hc.isOpen ho) with hcomp | ⟨y, hy, hyo⟩
      · exact .inl (hqc.completed hcomp)
      · obtain ⟨j, hj⟩ := hy.find
        obtain ⟨y', hj', hyc⟩ := h.attempt_forth hj
        have hny := hy.step h hj' hyc hnew'
        -- the newest one is still open, or it was settled just now
        cases h.attempt_fate hj hj' with
        | keep e => exact .inr ⟨y', hny, e ▸ hyo⟩
        | expired _ he => exact .inr ⟨y', hny, .inr he⟩
        | completed _ hq =>
          obtain ⟨p, hp, hps⟩ := hq
          rw [hy.action, hp', some_inj] at hp
          exact .inl (hp ▸ hps)
        | failed hs hu =>
          obtain ⟨w, item, phase, hturn, hphase⟩ := hu
          obtain ⟨p, hp, hps⟩ := hs.item
          rw [hy.action, hq, some_inj] at hp
          subst hp
          obtain ⟨x₀, hx₀, hax₀, -⟩ :=
            hS.begun t w item phase j hturn (Phase.begun?_of_attempt? hphase)
          rw [hj, some_inj] at hx₀
          subst hx₀
          have hia : item.actionId = a := hax₀.symm.trans hy.action
          obtain rfl := hG.only t w item phase j q y hturn hphase (hia ▸ hq) hidem₀ hj
            hs.executing hps i x hx (hxa.trans hia.symm) (hc.isOpen ho)
          obtain rfl : i = j := (Table.key_of_find hx).symm.trans (Table.key_of_find hj)
          rw [hx', some_inj] at hj'
          exact .inr ⟨y', hny, hj' ▸ ho⟩
    · exact absurd hb (hnew' i x' hx' ha)

theorem beginning_back {w : String} {item : QueueItem}
    (h : QueueWrite C s.db (s.turns t) db (.work w item .beginning)) :
    s.turns t = .work w item .checking ∧ db = s.db ∧ ∃ v, executeLeased C
      (s.db.actions.find item.actionId) item (listActionAttempts s.db.attempts item.actionId) v =
        .attempt := by
  generalize hu : Turn.work w item .beginning = u at h
  generalize hv : s.turns t = v at h
  cases h with
  | leave h | enqueue h | requeue h | stop h | complete h | fail h => subst hu; cases h
  | check w' item' v =>
    injection hu with hw hitem hphase
    subst hw hitem
    refine ⟨rfl, rfl, v, ?_⟩
    generalize executeLeased C _ _ _ v = d at hphase
    rcases d with ⟨_ | _, _⟩ | _ | _ <;> first | rfl | cases hphase
  | begin hphase =>
    injection hu with _ _ hp
    rcases hphase with ⟨-, h⟩ | ⟨-, h⟩ <;> rw [h] at hp <;> cases hp
  | call _ hp' =>
    injection hu with _ _ hp
    rw [← hp] at hp'
    cases hp'
  | _ => injection hu with _ _ hp; cases hp

theorem QueueState.Guarded.put_fresh (hG : s.Guarded C) (hS : s.Sound)
    (h : QueueWrite C s.db (s.turns t) db u)
    (hfree : ∀ w item, u = .work w item .recovering → s.Free w) :
    ∀ t' w item q, (s.put t db u).turns t' = .work w item .beginning →
      db.queue.find item.actionId = some q → C.idempotent q.tool = false → q.leasedTo w →
      ∀ j y, db.attempts.find j = some y → y.actionId = item.actionId → ¬y.isOpen := by
  intro t' w item q' ht' hq' hidem hl j y' hj' ha ho
  rcases put_turns_cases ht' with ⟨rfl, rfl⟩ | ⟨hne, ht'⟩
  · -- the checks have just seen the newest attempt
    obtain ⟨hturn, rfl, v, hd⟩ := beginning_back h
    have hno := hS.ready t' w item .checking hturn rfl q' hq' hl
    rcases hG.newest _ q' hq' hidem j y' hj' ha ho with hcomp | ⟨x, hx, hxo⟩
    · rw [hl.1] at hcomp
      cases hcomp
    · obtain ⟨i, hi⟩ := hx.find
      have herr : x.error = some leaseExpired := hxo.resolve_left (hno i x hi hx.action)
      obtain ⟨a, -, hcl⟩ := cleared_of_attempt hd
      have hcert := hcl.certain
      rw [getLast?_listActionAttempts hS hx] at hcert
      obtain ⟨q, hq, htool, -⟩ := hS.item t' w item .checking hturn
      rw [hq', some_inj] at hq
      subst hq
      rw [htool, hidem] at hcert
      exact absurd (hcert herr) (by simp)
  · rcases h.leasedTo_back hq' hl with ⟨q, hq, hql⟩ | ⟨item', hu⟩
    · obtain ⟨p', hp', hqc⟩ := h.itemChange hq
      obtain rfl : p' = q' := some_inj.1 (hp'.symm.trans hq')
      rcases h.attempt_back hj' with ⟨y, hy, hc⟩ | hb
      · exact hG.fresh t' w item q ht' hq (hqc.fixed.2.1 ▸ hidem) hql j y hy
          (hc.fixed.2.1.symm.trans ha) (hc.isOpen ho)
      · obtain ⟨_, item', _, q₀, _, _, hax, _, _, _, hq₀, _⟩ := hb.unfold
        rw [← hax, ha, hq', some_inj] at hq₀
        subst hq₀
        cases hl.1
    · have hf := hfree w item' hu t'
      rw [ht'] at hf
      simp [Turn.occupies, Phase.isSync] at hf

theorem attempt?_back (h : QueueWrite C s.db (s.turns t) db u) {t' : ℕ} {w : String}
    {item : QueueItem} {phase : Phase} {i : String} {x : Attempt}
    (ht' : (s.put t db u).turns t' = .work w item phase) (hp : phase.attempt? = some i)
    (hx : s.db.attempts.find i = some x) :
    ∃ phase₀, s.turns t' = .work w item phase₀ ∧ phase₀.attempt? = some i := by
  rcases put_turns_cases ht' with ⟨rfl, rfl⟩ | ⟨-, ht'⟩
  · rcases h.work_back with ⟨-, rfl, -⟩ | ⟨phase₀, hturn, hcont⟩
    · cases hp
    · rcases hcont.attempt i hp with ⟨hp₀, -⟩ | rfl
      · exact ⟨phase₀, hturn, hp₀⟩
      · rcases hcont.begun i (Phase.begun?_of_attempt? hp) with hb | ⟨x', -, hb⟩
        · cases hb
        · rw [hb.fresh] at hx
          cases hx
  · exact ⟨phase, ht', hp⟩

theorem QueueState.Guarded.put_only (hG : s.Guarded C) (hS : s.Sound)
    (h : QueueWrite C s.db (s.turns t) db u) :
    ∀ t' w item phase i q x, (s.put t db u).turns t' = .work w item phase →
      phase.attempt? = some i → db.queue.find item.actionId = some q →
      C.idempotent q.tool = false → db.attempts.find i = some x → x.status = .executing →
      q.status = .executing →
      ∀ j y, db.attempts.find j = some y → y.actionId = item.actionId → y.isOpen → y = x := by
  intro t' w item phase i q' x' ht' hp hq' hidem hx' hex hqe j y' hj' ha ho
  rcases h.attempt_back hx' with ⟨x, hx, hc⟩ | hb
  · obtain rfl := hc.executing hex
    obtain ⟨phase₀, hturn, hp₀⟩ := attempt?_back h ht' hp hx
    rcases h.executing_back hq' hqe with ⟨q, hq, hqe₀⟩ | ⟨k, z, hza, hb⟩
    · obtain ⟨p', hp', hqc⟩ := h.itemChange hq
      obtain rfl : p' = q' := some_inj.1 (hp'.symm.trans hq')
      rcases h.attempt_back hj' with ⟨y, hy, hcy⟩ | hby
      · obtain rfl := hG.only t' w item phase₀ i q x' hturn hp₀ hq (hqc.fixed.2.1 ▸ hidem) hx hex
          hqe₀ j y hy (hcy.fixed.2.1.symm.trans ha) (hcy.isOpen ho)
        obtain rfl : i = j := (Table.key_of_find hx).symm.trans (Table.key_of_find hy)
        exact some_inj.1 (hj'.symm.trans hx')
      · obtain ⟨_, item', _, q₀, _, _, hay, _, hq₀, hl, _, _⟩ := hby.unfold
        rw [← hay, ha, hq, some_inj] at hq₀
        subst hq₀
        rw [hl.1] at hqe₀
        cases hqe₀
    · -- an attempt begins only where none is under way
      obtain ⟨w', item', phase', q₀, ht, hr, haz, -, hq₀, hl, -, -⟩ := hb.unfold
      obtain ⟨x₀, hx₀, hax, -⟩ := hS.begun t' w item phase₀ i hturn (Phase.begun?_of_attempt? hp₀)
      rw [hx, some_inj] at hx₀
      subst hx₀
      exact absurd hex (hS.ready t w' item' phase' ht hr q₀ hq₀ hl i x' hx
        (hax.trans (hza.symm.trans haz)))
  · rcases put_turns_cases ht' with ⟨rfl, rfl⟩ | ⟨-, ht'⟩
    · obtain ⟨w', item', phase₀, phase', now, q, hturn, hu, hphase, hq, hs, hw, -, -⟩ := hb.turn
      cases hu
      rcases hphase with ⟨rfl, rfl⟩ | ⟨-, rfl⟩
      · rcases h.attempt_back hj' with ⟨y, hy, hcy⟩ | hby
        · obtain ⟨p', hp', hqc⟩ := h.itemChange hq
          obtain rfl : p' = q' := some_inj.1 (hp'.symm.trans hq')
          exact absurd (hcy.isOpen ho) (hG.fresh t' w item q hturn hq (hqc.fixed.2.1 ▸ hidem)
            ⟨hs, hw⟩ j y hy (hcy.fixed.2.1.symm.trans ha))
        · obtain rfl := hb.id_eq hby
          exact some_inj.1 (hj'.symm.trans hx')
      · cases hp
    · obtain ⟨x, hx, -⟩ := hS.begun t' w item phase i ht' (Phase.begun?_of_attempt? hp)
      rw [hb.fresh] at hx
      cases hx

end Step

/-- Every write keeps the guard: an open attempt of such a tool stops the next one. -/
theorem QueueState.Guarded.step {C : WorkerConfig} {s s' : QueueState} (hG : s.Guarded C)
    (hS : s.Sound) (h : StepWrite C s s') : s'.Guarded C := by
  cases h with
  | @turn t db u hfree h => exact ⟨hG.put_newest hS h, hG.put_only hS h, hG.put_fresh hS h hfree⟩
  | @other s' ht ha hq =>
    -- an item that waits is neither completed, leased nor executing
    have hold : ∀ {k q'}, s'.db.queue.find k = some q' → ∃ q, s.db.queue.find k = some q ∧
        q'.tool = q.tool ∧ (q.status = .completed → q'.status = .completed) ∧
          (q'.status.isHeld = true → q' = q) := by
      intro k q' hq'
      rcases hq with hq | ⟨id, p, hp, hw, hq⟩
      · exact ⟨q', hq ▸ hq', rfl, fun h => h, fun _ => rfl⟩
      · have hid : p.unstarted.actionId = id := show p.actionId = id from Table.key_of_find hp
        rw [hq, find_put_item hp hid] at hq'
        split_ifs at hq' with hk
        · cases hq'
          refine ⟨p, hk ▸ hp, rfl, fun h => ?_, fun h => by cases h⟩
          rw [h] at hw
          cases hw
        · exact ⟨q', hq', rfl, fun h => h, fun _ => rfl⟩
    refine ⟨?_, ?_, ?_⟩
    · intro a q' hq' hidem i x hx hxa ho
      obtain ⟨q, hf, htool, hcomp, -⟩ := hold hq'
      rw [ha] at hx
      rcases hG.newest a q hf (htool ▸ hidem) i x hx hxa ho with h | ⟨y, hy, hyo⟩
      · exact .inl (hcomp h)
      · exact .inr ⟨y, ⟨ha ▸ hy.find, hy.action, ha ▸ hy.le⟩, hyo⟩
    · intro t w item phase i q' x hturn hp hq' hidem hx hex hqe j y hy
      obtain ⟨q, hf, htool, -, hheld⟩ := hold hq'
      obtain rfl := hheld (by rw [hqe]; rfl)
      rw [ht] at hturn
      rw [ha] at hx hy
      exact hG.only t w item phase i q' x hturn hp hf hidem hx hex hqe j y hy
    · intro t w item q' hturn hq' hidem hl j y hy
      obtain ⟨q, hf, htool, -, hheld⟩ := hold hq'
      obtain rfl := hheld (by rw [hl.1]; rfl)
      rw [ht] at hturn
      rw [ha] at hy
      exact hG.fresh t w item q' hturn hf hidem hl j y hy

theorem guarded_of_run {C : WorkerConfig} {h : List QueueLabel} {s : QueueState}
    (hr : (queueMachine C).Run h s) : s.Guarded C := by
  refine (hr.invariant (I := fun s => s.Sound ∧ s.Guarded C) ⟨sound_init C, guarded_init C⟩
    fun s l s' ⟨hS, hG⟩ hst => ?_).2
  have hw := (queueStep_of_step hst).stepWrite
  exact ⟨hS.step hw, hG.step hS hw⟩

/-! ### Lost attempts -/

/-- The attempt is open, and nobody can settle it any more. -/
def LostAttempt (s : QueueState) (i : String) (x : Attempt) : Prop :=
  x.status ≠ .executing ∧ x.error = some leaseExpired ∨
    x.status = .executing ∧
      ((∀ q, s.db.queue.find x.actionId = some q → q.status ≠ .executing) ∨
        ∀ t w item phase, s.turns t = .work w item phase → phase.begun? ≠ some i)

/-- An attempt of the action is lost. -/
def Lost (a : String) (s : QueueState) : Prop :=
  ∃ i x, s.db.attempts.find i = some x ∧ x.actionId = a ∧ LostAttempt s i x

theorem LostAttempt.isOpen {s : QueueState} {i : String} {x : Attempt} (h : LostAttempt s i x) :
    x.isOpen := by
  rcases h with ⟨-, h⟩ | ⟨h, -⟩
  · exact .inr h
  · exact .inl h

variable {C : WorkerConfig} {s s' : QueueState} {a : String}

/-- A lost attempt stays lost. -/
theorem Lost.step (hl : Lost a s) (hS : s.Sound) (h : StepWrite C s s') : Lost a s' := by
  obtain ⟨i, x, hx, hxa, hx₀⟩ := hl
  cases h with
  | @turn t db u hfree h =>
    obtain ⟨x', hx', hc⟩ := h.attempt_forth hx
    refine ⟨i, x', hx', hc.fixed.2.1.trans hxa, ?_⟩
    rcases hx₀ with ⟨hs, he⟩ | ⟨hs, hfree'⟩
    · cases hc with
      | keep => exact .inl ⟨hs, he⟩
      | expire _ h | settle _ _ h => exact absurd h hs
    · -- whoever settles it has begun it, and the item is executing
      have hno : ¬Settles s.db (s.turns t) u i x := by
        intro hset
        obtain ⟨w, item, phase, ht, hp⟩ := hset.turn
        obtain ⟨q, hq, hqe⟩ := hset.item
        rcases hfree' with hf | hf
        · exact hf q hq hqe
        · exact hf t w item phase ht hp
      cases h.attempt_fate hx hx' with
      | expired hs' he => exact .inl ⟨hs', he⟩
      | completed hset | failed hset => exact absurd hset hno
      | keep e =>
        subst e
        refine .inr ⟨hs, ?_⟩
        rcases hfree' with hf | hf
        · refine .inl fun q' hq' hqe => ?_
          rcases h.executing_back hq' hqe with ⟨q, hq, hqe⟩ | ⟨j, z, hza, hb⟩
          · exact hf q hq hqe
          · obtain ⟨w, item, phase, q, ht, hr, haz, -, hq, hl, -, -⟩ := hb.unfold
            exact hS.ready t w item phase ht hr q hq hl i x' hx (hza.symm.trans haz) hs
        · refine .inr fun t' w item phase ht' hp => ?_
          rcases put_turns_cases ht' with ⟨rfl, rfl⟩ | ⟨-, ht'⟩
          · rcases h.work_back with ⟨-, rfl, -⟩ | ⟨phase₀, ht, hcont⟩
            · cases hp
            · rcases hcont.begun i hp with hp₀ | ⟨_, -, hb⟩
              · exact hf t' w item phase₀ ht hp₀
              · rw [hb.fresh] at hx
                cases hx
          · exact hf t' w item phase ht' hp
  | other ht ha hq =>
    refine ⟨i, x, ha ▸ hx, hxa, ?_⟩
    rcases hx₀ with hx₀ | ⟨hs, hf | hf⟩
    · exact .inl hx₀
    · refine .inr ⟨hs, .inl fun q' hq' hqe => ?_⟩
      rcases hq with hq | ⟨id, p, hp, hw, hq⟩
      · exact hf q' (hq ▸ hq') hqe
      · have hid : p.unstarted.actionId = id := show p.actionId = id from Table.key_of_find hp
        rw [hq, find_put_item hp hid] at hq'
        split_ifs at hq'
        · cases hq'
          cases hqe
        · exact hf q' hq' hqe
    · exact .inr ⟨hs, .inr (ht ▸ hf)⟩

/-- The tool of the action does not support idempotency. -/
def Unrepeatable (C : WorkerConfig) (a : String) (s : QueueState) : Prop :=
  ∀ q, s.db.queue.find a = some q → C.idempotent q.tool = false

theorem Lost.no_begin (hl : Lost a s) (hi : Unrepeatable C a s) (hG : s.Guarded C) {t : ℕ}
    {db : ActionDb} {u : Turn} {i : String} {x : Attempt} {w : String} {item : QueueItem}
    (hb : Begins s.db (s.turns t) db u i x) (ht : s.turns t = .work w item .beginning) :
    item.actionId ≠ a := by
  rintro rfl
  obtain ⟨w', item', phase, q, ht', -, -, -, hq, hql, -, -⟩ := hb.unfold
  rw [ht] at ht'
  cases ht'
  obtain ⟨j, y, hy, hya, hlost⟩ := hl
  exact hG.fresh t w item q ht hq (hi q hq) hql j y hy hya hlost.isOpen

theorem calling_back {t t' : ℕ} {db : ActionDb} {u : Turn}
    (h : QueueWrite C s.db (s.turns t) db u) {w : String} {item : QueueItem} {j : String}
    (ht' : (s.put t db u).turns t' = .work w item (.calling j)) :
    s.turns t' = .work w item (.calling j) ∨
      s.turns t = .work w item .beginning ∧ ∃ x, Begins s.db (s.turns t) db u j x := by
  rcases put_turns_cases ht' with ⟨rfl, rfl⟩ | ⟨-, ht'⟩
  · rcases h.work_back with ⟨-, hphase, -⟩ | ⟨phase₀, hturn, hcont⟩
    · cases hphase
    · rcases hcont.attempt j rfl with ⟨-, hsync⟩ | rfl
      · cases hsync
      · rcases hcont.begun j rfl with hb | ⟨x, -, hb⟩
        · cases hb
        · exact .inr ⟨hturn, x, hturn ▸ hb⟩
  · exact .inl ht'

/-- What holds from the moment on at which an attempt of the action is lost. -/
structure NoNewCall (C : WorkerConfig) (a : String) (s s' : QueueState) : Prop where
  sound : s'.Sound
  guarded : s'.Guarded C
  lost : Lost a s'
  tool : Unrepeatable C a s'
  calling : ∀ t w item j, s'.turns t = .work w item (.calling j) → item.actionId = a →
    s.turns t = .work w item (.calling j)

theorem Unrepeatable.step (hi : Unrepeatable C a s) (hl : Lost a s) (hS : s.Sound)
    (hw : StepWrite C s s') : Unrepeatable C a s' := by
  obtain ⟨i, x, hx, rfl, -⟩ := hl
  obtain ⟨q, hq, -⟩ := hS.number i x hx
  obtain ⟨q', hq', hc⟩ := hw.itemChange hq
  intro p hp
  obtain rfl : p = q' := some_inj.1 (hp.symm.trans hq')
  rw [hc.fixed.2.1]
  exact hi q hq

theorem NoNewCall.step {s₀ : QueueState} (hn : NoNewCall C a s₀ s) (hw : StepWrite C s s') :
    NoNewCall C a s₀ s' := by
  refine ⟨hn.sound.step hw, hn.guarded.step hn.sound hw, hn.lost.step hn.sound hw,
    hn.tool.step hn.lost hn.sound hw, fun t' w item j ht' hia => ?_⟩
  cases hw with
  | @turn t db u hfree h =>
    rcases calling_back h ht' with ht' | ⟨ht, x, hb⟩
    · exact hn.calling t' w item j ht' hia
    · exact absurd hia (hn.lost.no_begin hn.tool hn.guarded hb ht)
  | other ht _ _ => exact hn.calling t' w item j (ht ▸ ht') hia

theorem begun_before_lost {h h' : List QueueLabel} (hr : (queueMachine C).Run h s)
    (hl : Lost a s) (hi : Unrepeatable C a s) (hs : (queueMachine C).Steps s h' s') :
    NoNewCall C a s s' :=
  hs.invariant (I := NoNewCall C a s)
    ⟨sound_of_run hr, guarded_of_run hr, hl, hi, fun _ _ _ _ ht _ => ht⟩
    fun _ _ _ hn hst => hn.step (queueStep_of_step hst).stepWrite

/-! ### Take-overs -/

variable {l : QueueLabel}

theorem leases_step (hl : s.leases l = some a) (h : QueueStep C s l s') :
    s'.db.attempts = s.db.attempts ∧ ∃ q w leaseMs now, s.db.queue.find a = some q ∧
      s'.db.queue.find a = some (q.leased w leaseMs now) := by
  have hput : ∀ {q : QueueItem} {w : String} {leaseMs now : ℕ}, s.db.queue.find a = some q →
      (s.db.queue.put (q.leased w leaseMs now)).find a = some (q.leased w leaseMs now) := by
    intro q w leaseMs now hq
    have hid : (q.leased w leaseMs now).actionId = a :=
      show q.actionId = a from Table.key_of_find hq
    exact (find_put_item hq hid a).trans (if_pos rfl)
  cases h with
  | @turn t act db u hfree h =>
    generalize ht : s.turns t = v at h
    cases h with
    | @lease id w leaseMs now r h =>
      obtain ⟨q, hq, hdue, rfl⟩ := leaseActionByActionId_eq_some h
      have ha : id = a := by simpa [QueueState.leases, ht, hq, hdue] using hl
      subst ha
      exact ⟨rfl, q, w, leaseMs, now, hq, hput hq⟩
    | @tick w leaseMs now r h =>
      obtain ⟨q, hn, hq, -, rfl⟩ := leaseNextAction_eq_some h
      have ha : q.actionId = a := by simpa [QueueState.leases, hn] using hl
      subst ha
      exact ⟨rfl, q, w, leaseMs, now, hq, hput hq⟩
    | miss h =>
      simp only [QueueState.leases, ht, bind_eq_some_iff] at hl
      obtain ⟨q, hq, hd⟩ := hl
      split_ifs at hd with hdue
      simp [leaseActionByActionId, hq, hdue] at h
    | work h => cases h <;> cases hl
    | _ => cases hl
  | _ => cases hl

theorem leases_calling (hl : s.leases l = some a) (h : QueueStep C s l s') {t : ℕ}
    {w : String} {item : QueueItem} {j : String}
    (ht : s'.turns t = .work w item (.calling j)) : s.turns t = .work w item (.calling j) := by
  cases h with
  | @turn t' act db u hfree h =>
    rcases calling_back h.queueWrite ht with ht | ⟨ht', x, hb⟩
    · exact ht
    · -- a worker that begins its attempt takes no lease
      obtain ⟨_, _, _, _, _, _, -, -, hphase, -⟩ := hb.turn
      rw [ht'] at h
      cases h with
      | work h =>
        cases h
        cases hl
      | quit => cases hl
  | _ => exact ht

/-- A lease takes the item of a tool that does not support idempotency over from a worker whose
attempt is still under way. -/
structure TakesOver (C : WorkerConfig) (a : String) (s : QueueState) (l : QueueLabel)
    (s' : QueueState) : Prop where
  step : (queueMachine C).step s l s'
  leases : s.leases l = some a
  underway : ∃ i x, s.db.attempts.find i = some x ∧ x.actionId = a ∧ x.status = .executing
  tool : Unrepeatable C a s

theorem TakesOver.lost (h : TakesOver C a s l s') : Lost a s' := by
  obtain ⟨ha, q, w, leaseMs, now, -, hq⟩ := leases_step h.leases (queueStep_of_step h.step)
  obtain ⟨i, x, hx, hxa, hs⟩ := h.underway
  refine ⟨i, x, ha ▸ hx, hxa, .inr ⟨hs, .inl fun p hp hpe => ?_⟩⟩
  rw [hxa, hq, some_inj] at hp
  rw [← hp] at hpe
  cases hpe

theorem TakesOver.unrepeatable (h : TakesOver C a s l s') :
    Unrepeatable C a s' := by
  obtain ⟨-, q, w, leaseMs, now, hq, hq'⟩ := leases_step h.leases (queueStep_of_step h.step)
  intro p hp
  rw [hq', some_inj] at hp
  rw [← hp]
  exact h.tool q hq

/-- At every moment at most one attempt of an item is under way. -/
def OneExecuting (C : WorkerConfig) : Prop :=
  ∀ h s, (queueMachine C).Run h s → ∀ i j x y, s.db.attempts.find i = some x →
    s.db.attempts.find j = some y → x.actionId = y.actionId → x.status = .executing →
    y.status = .executing → x = y

/-- At most one attempt of an item is under way, and after a take-over the only workers that call
the tool are those that stood before their call already. -/
theorem no_replay (C : WorkerConfig) :
    OneExecuting C ∧ ∀ a h s l s₁ h' s', (queueMachine C).Run h s → TakesOver C a s l s₁ →
      (queueMachine C).Steps s₁ h' s' → ∀ t w item j, s'.turns t = .work w item (.calling j) →
        item.actionId = a → s.turns t = .work w item (.calling j) := by
  refine ⟨fun h s hr => (sound_of_run hr).single, ?_⟩
  intro a h s l s₁ h' s' hr hto hs t w item j ht ha
  have ht₁ := (begun_before_lost (hr.snoc hto.step) hto.lost hto.unrepeatable hs).calling
    t w item j ht ha
  exact leases_calling hto.leases (queueStep_of_step hto.step) ht₁

/-- The worker `w-1` has begun its attempt. -/
def proposeAndBegin : List QueueLabel :=
  proposeAndLease ++ [.turn 0 (.check (emailView allowed 0)), .turn 0 (.begin "att-1" 0)]

/-- The worker `w-2` takes the item over. -/
def takeoverTick : QueueLabel := .turn 1 (.tick "w-2" 30_000 40_000)

theorem exists_takeover : ∃ h s s', (queueMachine plainWorkers).Run h s ∧
    TakesOver plainWorkers "act-1" s takeoverTick s' ∧
    s'.calls (.turn 0 .call) = some "act-1" := by
  have h₁ : (driveQueue plainWorkers 2 (queueMachine plainWorkers).init proposeAndBegin).map
      (fun s => (s.leases takeoverTick, (s.db.attempts.find "att-1").map fun x =>
        (x.actionId, x.status))) = some (some "act-1", some ("act-1", .executing)) := by
    decide +kernel
  have h₂ : (driveQueue plainWorkers 2 (queueMachine plainWorkers).init
      (proposeAndBegin ++ [takeoverTick])).map (fun s => s.calls (.turn 0 .call)) =
        some (some "act-1") := by
    decide +kernel
  obtain ⟨s, hd, hv⟩ := map_eq_some_iff.1 h₁
  obtain ⟨s', hd', hc⟩ := map_eq_some_iff.1 h₂
  rw [driveQueue_append, hd, bind_some] at hd'
  obtain ⟨hrun, hidle⟩ := steps_driveQueue (fun _ _ => rfl) hd
  obtain ⟨hl, hx⟩ := Prod.mk.inj hv
  obtain ⟨x, hx, hxv⟩ := map_eq_some_iff.1 hx
  obtain ⟨hxa, hxs⟩ := Prod.mk.inj hxv
  obtain ⟨t, ht, hst⟩ := (steps_driveQueue hidle hd').1.last (h := [])
  obtain rfl := ht.eq_of_nil
  exact ⟨_, _, s', hrun, ⟨hst, hl, ⟨_, x, hx, hxa, hxs⟩, fun _ _ => rfl⟩, hc⟩

/-- A worker may make its call after it lost its lease. -/
theorem overtaken_worker_calls :
    ¬∀ C, OneExecuting C ∧ ∀ a h s l s₁ h' s', (queueMachine C).Run h s →
      TakesOver C a s l s₁ → (queueMachine C).Steps s₁ h' s' → ∀ l', s'.calls l' ≠ some a := by
  intro hall
  obtain ⟨h, s, s', hr, hto, hc⟩ := exists_takeover
  exact (hall plainWorkers).2 _ _ _ _ _ _ _ hr hto .nil _ hc

/-- The take-over from `w-1`: whoever calls the tool afterwards stood before the call already. -/
theorem no_replay_takeover : ∃ s s', TakesOver plainWorkers "act-1" s takeoverTick s' ∧
    ∀ h' s'', (queueMachine plainWorkers).Steps s' h' s'' → ∀ t w item j,
      s''.turns t = .work w item (.calling j) → item.actionId = "act-1" →
        s.turns t = .work w item (.calling j) := by
  obtain ⟨h, s, s', hr, hto, -⟩ := exists_takeover
  exact ⟨s, s', hto, fun h' s'' => (no_replay plainWorkers).2 _ h s _ s' h' s'' hr hto⟩

end U2os.Server.Agent
