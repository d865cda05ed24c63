import U2os.Server.Triggers.Footprint

/-!
# One trigger that throws

Each trigger that a tick or an event comes to ends as it would on its own.  But an error is thrown
through the loop, and whatever stands after a throwing trigger is missed until the next tick, where
the same happens again.
-/

namespace U2os.Server.Triggers

open Script List Option Trigger

/-! ### The work of a tick -/

section

variable {host : Host} {tick : Tick} {s t : State} {id : String}

/-- The ids of the selected rows. -/
def ids (p : Trigger → Bool) (s : State) : List String := (s.select p).map Trigger.id

theorem mem_ids {p : Trigger → Bool} :
    id ∈ ids p s ↔ ∃ r, s.triggers.find id = some r ∧ p r = true := by
  simp only [ids, State.select, List.mem_map, mem_filter, Table.mem_rows, Table.find_eq_some]
  constructor
  · rintro ⟨r, ⟨hr, hp⟩, hid⟩
    exact ⟨r, ⟨hr, hid⟩, hp⟩
  · rintro ⟨r, ⟨hr, hid⟩, hp⟩
    exact ⟨r, ⟨hr, hp⟩, hid⟩

theorem nodup_ids (p : Trigger → Bool) (s : State) : (ids p s).Nodup :=
  (filter_sublist.map Trigger.id).nodup s.triggers.nodup

/-- The due timers and schedules. -/
def dueIds (tick : Tick) (s : State) : List String := ids (isDueRow tick.now) s

/-- The condition watches. -/
def watchIds (s : State) : List String := ids isWatchRow s

/-- The triggers that a tick comes to, in its order. -/
def tickIds (tick : Tick) (s : State) : List String := dueIds tick s ++ watchIds s

theorem not_mem_watchIds (h : id ∈ dueIds tick s) : id ∉ watchIds s := by
  intro hw
  obtain ⟨r, hr, hdue⟩ := mem_ids.1 h
  obtain ⟨r', hr', hwatch⟩ := mem_ids.1 hw
  rw [hr, some_inj] at hr'
  subst hr'
  simp only [isDueRow, isWatchRow, Bool.and_eq_true, Bool.or_eq_true,
    decide_eq_true_eq] at hdue hwatch
  rcases hdue.1.2 with hk | hk
  · exact nomatch hk.symm.trans hwatch.2
  · exact nomatch hk.symm.trans hwatch.2

theorem nodup_tickIds (tick : Tick) (s : State) : (tickIds tick s).Nodup :=
  nodup_append.2 ⟨nodup_ids _ s, nodup_ids _ s, fun _ hi _ hj he =>
    not_mem_watchIds hi (he ▸ hj)⟩

/-- The work on a trigger of a tick that begins in `s`. -/
def visit (host : Host) (tick : Tick) (s : State) (id : String) : Script State Unit :=
  if id ∈ watchIds s then visitWatch host tick id else visitDue host tick id

/-- On its own, the work on the trigger throws. -/
def Throws (host : Host) (tick : Tick) (s : State) (id : String) : Prop :=
  Fails (visit host tick s) s id

instance : DecidablePred (Throws host tick s) :=
  fun _ => inferInstanceAs (Decidable (_ = none))

/-- The trigger can be claimed: no other process has a lease of it. -/
def Claimable (tick : Tick) (s : State) (id : String) : Prop :=
  (s.claimRow tick id (decide (id ∉ watchIds s))).isSome = true

instance : DecidablePred (Claimable tick s) :=
  fun _ => inferInstanceAs (Decidable (_ = true))

theorem onClaim_visit (host : Host) (tick : Tick) (s : State) (id : String) :
    ∃ k, OnClaim id k ∧
      visit host tick s id = claimTrigger tick id (decide (id ∉ watchIds s)) >>= k := by
  unfold visit
  split_ifs with h
  · refine ⟨_, ⟨?_, ?_⟩, by rw [decide_eq_false (not_not.2 h)]; rfl⟩
    · rfl
    · rintro r rfl
      exact within_withLeaseHeartbeat tick r (within_runConditionWatch host r tick.now)
  · refine ⟨_, ⟨?_, ?_⟩, by rw [decide_eq_true h]; rfl⟩
    · rfl
    · rintro r rfl
      exact within_withLeaseHeartbeat tick r (within_fireTimerOrSchedule host tick r)

theorem within_visit (host : Host) (tick : Tick) (s : State) (id : String) :
    (visit host tick s id).Within view (footprint id) := by
  obtain ⟨k, hk, he⟩ := onClaim_visit host tick s id
  rw [he]
  exact hk.within_bind

theorem claimsOf_visit (h : Claimable tick s id) :
    claimsOf ((visit host tick s id).run s).2 id = claimsOf s id ++ [id] := by
  obtain ⟨k, hk, he⟩ := onClaim_visit host tick s id
  obtain ⟨r, hr⟩ := isSome_iff_exists.1 h
  rw [he, hk.claims, hr, map_some, id_of_claimRow hr]
  rfl

theorem agree_visit (h : ¬Claimable tick s id) :
    Agree view (footprint id) ((visit host tick s id).run s).2 s := by
  obtain ⟨k, hk, he⟩ := onClaim_visit host tick s id
  rw [he]
  exact hk.agree (not_isSome_iff_eq_none.1 h)

theorem agree_visit_iff :
    Agree view (footprint id) ((visit host tick s id).run s).2 s ↔ ¬Claimable tick s id := by
  refine ⟨fun h hc => ?_, agree_visit⟩
  have hsame : claimsOf ((visit host tick s id).run s).2 id = claimsOf s id :=
    Shown.claims.inj (h (.claims id) (.inr rfl))
  rw [claimsOf_visit hc] at hsame
  exact cons_ne_nil _ _ (append_right_eq_self.1 hsame)

theorem watchIds_eq (s : State) : watchIds s =
    ((kinds s).filter fun e =>
      e.2 = .conditionWatch && (s.triggers.find e.1).any enabled).map Prod.fst := by
  unfold watchIds ids State.select kinds
  rw [List.filter_map, List.map_map]
  refine congrArg _ (filter_congr fun r hr => ?_)
  simp only [Function.comp_apply, isWatchRow, Table.find_key hr, any_some]
  exact Bool.and_comm _ _

/-- The loop over the due triggers leaves the watches as they are. -/
theorem watchIds_dueLoop :
    watchIds ((forEach (dueIds tick s) (visit host tick s)).run s).2 = watchIds s := by
  have hframe : Agree view {.order} ((forEach (dueIds tick s) (visit host tick s)).run s).2 s := by
    refine forEach_frame (within_visit host tick s) fun b _ => ?_
    rintro i rfl (h | h) <;> cases h
  have horder : kinds ((forEach (dueIds tick s) (visit host tick s)).run s).2 = kinds s :=
    Shown.order.inj (hframe .order rfl)
  rw [watchIds_eq, watchIds_eq, horder]
  refine congrArg _ (filter_congr fun e he => ?_)
  by_cases hkind : e.2 = .conditionWatch
  · have hnot : e.1 ∉ dueIds tick s := by
      intro hdue
      obtain ⟨r, hr, rfl⟩ := List.mem_map.1 he
      obtain ⟨r', hr', hp⟩ := mem_ids.1 hdue
      rw [Table.find_key hr, some_inj] at hr'
      subst hr'
      simp only [isDueRow, Bool.and_eq_true, Bool.or_eq_true, decide_eq_true_eq] at hp
      rcases hp.1.2 with hk | hk
      · exact nomatch hk.symm.trans hkind
      · exact nomatch hk.symm.trans hkind
    have hpart : Agree view {.trigger e.1}
        ((forEach (dueIds tick s) (visit host tick s)).run s).2 s := by
      refine forEach_frame (within_visit host tick s) fun b hb => ?_
      rintro i rfl (h | h)
      · exact hnot (Index.trigger.inj h ▸ hb)
      · cases h
    have hrow : ((forEach (dueIds tick s) (visit host tick s)).run s).2.triggers.find e.1 =
        s.triggers.find e.1 := congrArg Part.row (part_of_agree hpart rfl)
    rw [hrow]
  · rw [decide_eq_false hkind, Bool.false_and, Bool.false_and]

/-- A tick visits the due triggers, one after another. -/
theorem run_runTick (host : Host) (tick : Tick) (s : State) :
    (runTick host tick).run s = (forEach (tickIds tick s) (visit host tick s)).run s := by
  have hdue : forEach (dueIds tick s) (visit host tick s) =
      forEach (dueIds tick s) (visitDue host tick) :=
    forEach_congr fun id h => if_neg (not_mem_watchIds h)
  have hwatch : forEach (watchIds s) (visit host tick s) =
      forEach (watchIds s) (visitWatch host tick) :=
    forEach_congr fun id h => if_pos h
  have hsame : watchIds ((forEach (dueIds tick s) (visit host tick s)).run s).2 = watchIds s :=
    watchIds_dueLoop
  rw [tickIds, forEach_append, run_bind]
  change (forEach (dueIds tick s) (visitDue host tick) >>= fun _ =>
    get >>= fun s' => forEach (watchIds s') (visitWatch host tick)).run s = _
  rw [run_bind, hdue]
  rw [hdue] at hsame
  cases hr : (forEach (dueIds tick s) (visitDue host tick)).run s with
  | mk r u =>
    cases r with
    | none => rfl
    | some a =>
      rw [hr] at hsame
      change (forEach (watchIds u) (visitWatch host tick)).run u = _
      rw [hsame, hwatch]

/-! ### The throwing triggers, and the others -/

/-- The triggers of a tick that throw. -/
def throwing (host : Host) (tick : Tick) (s : State) : List String :=
  (tickIds tick s).filter fun id => Throws host tick s id

/-- The state without the triggers that throw. -/
def absent (host : Host) (tick : Tick) (s : State) : State :=
  { s with triggers := s.triggers.deleteWhere fun t => t.id ∈ throwing host tick s }

theorem mem_throwing : id ∈ throwing host tick s ↔ id ∈ tickIds tick s ∧ Throws host tick s id := by
  simp [throwing]

theorem ids_absent (p : Trigger → Bool) :
    ids p (absent host tick s) = (ids p s).filter fun id => id ∉ throwing host tick s := by
  change ((s.triggers.rows.filter _).filter p).map Trigger.id = _
  unfold ids State.select
  rw [List.filter_map, List.filter_filter, List.filter_filter]
  refine congrArg _ (filter_congr fun r _ => ?_)
  simp only [Function.comp_apply]
  exact Bool.and_comm _ _

theorem agree_absent (h : id ∉ throwing host tick s) :
    Agree view (footprint id) (absent host tick s) s := by
  rintro i (rfl | rfl)
  · refine congrArg Shown.trigger (Part.ext ?_ rfl rfl rfl)
    change (s.triggers.deleteWhere _).find id = s.triggers.find id
    rw [Table.find_deleteWhere]
    cases hr : s.triggers.find id with
    | none => rfl
    | some r =>
      obtain rfl := Table.key_of_find hr
      rw [filter_some, decide_eq_true h]
      rfl
  · rfl

theorem visit_absent (h : id ∉ throwing host tick s) :
    visit host tick (absent host tick s) id = visit host tick s id := by
  have hmem : id ∈ watchIds (absent host tick s) ↔ id ∈ watchIds s := by
    unfold watchIds
    rw [ids_absent, mem_filter]
    exact and_iff_left (decide_eq_true h)
  unfold visit
  rw [if_congr hmem rfl rfl]

theorem tickIds_absent : tickIds tick (absent host tick s) =
    (tickIds tick s).filter fun id => id ∉ throwing host tick s := by
  unfold tickIds dueIds watchIds
  rw [ids_absent, ids_absent, filter_append]

/-- **Without the throwing triggers, each trigger of a tick ends as it would on its own.** -/
theorem runTick_absent (hmem : id ∈ tickIds tick s) (hid : ¬Throws host tick s id) :
    Agree view (footprint id) ((runTick host tick).run (absent host tick s)).2
      ((visit host tick s id).run s).2 := by
  have hnot : ∀ j, ¬Throws host tick s j → j ∉ throwing host tick s :=
    fun j hj h => hj (mem_throwing.1 h).2
  have hsucceed : ∀ j ∈ tickIds tick (absent host tick s),
      ¬Fails (visit host tick (absent host tick s)) (absent host tick s) j := by
    intro j hj hfails
    rw [tickIds_absent, mem_filter] at hj
    have hout : j ∉ throwing host tick s := of_decide_eq_true hj.2
    unfold Fails at hfails
    rw [visit_absent hout, ((within_visit host tick s j).own (agree_absent hout)).1] at hfails
    exact hout (mem_throwing.2 ⟨hj.1, hfails⟩)
  have hmem' : id ∈ tickIds tick (absent host tick s) := by
    rw [tickIds_absent, mem_filter]
    exact ⟨hmem, decide_eq_true (hnot id hid)⟩
  rw [run_runTick]
  refine (forEach_of_succeed (within_visit host tick _) (fun _ _ => footprint_subset)
    (nodup_tickIds tick _) hsucceed hmem').trans ?_
  rw [visit_absent (hnot id hid)]
  exact ((within_visit host tick s id).own (agree_absent (hnot id hid))).2

/-- Every trigger of a tick that does not throw is claimed and fires as if the throwing ones were
absent. -/
structure TickIsolated (host : Host) (tick : Tick) (s : State) : Prop where
  /-- It is claimed where no other process has a lease of it. -/
  claimed : ∀ id ∈ tickIds tick s, ¬Throws host tick s id → Claimable tick s id →
    claimsOf ((runTick host tick).run s).2 id = claimsOf s id ++ [id]
  /-- It ends as its own work does. -/
  fired : ∀ id ∈ tickIds tick s, ¬Throws host tick s id →
    Agree view (footprint id) ((runTick host tick).run s).2 ((visit host tick s id).run s).2
  /-- It ends as in the tick without the throwing triggers. -/
  absent : ∀ id ∈ tickIds tick s, ¬Throws host tick s id →
    Agree view (footprint id) ((runTick host tick).run s).2
      ((runTick host tick).run (absent host tick s)).2

/-- In the order of a tick, no throwing trigger stands before one that can be claimed and does not
throw. -/
def TickOrdered (host : Host) (tick : Tick) (s : State) : Prop :=
  (tickIds tick s).Pairwise fun i j =>
    Throws host tick s i → Claimable tick s j → Throws host tick s j

theorem tickIsolated_iff : TickIsolated host tick s ↔ TickOrdered host tick s := by
  have hiff := forEach_isolated_iff (s := s) (within_visit host tick s)
    (fun _ _ => footprint_subset) (nodup_tickIds tick s)
  have hordered : TickOrdered host tick s ↔ ∀ id ∈ tickIds tick s, ¬Throws host tick s id →
      Agree view (footprint id) ((runTick host tick).run s).2
        ((visit host tick s id).run s).2 := by
    rw [run_runTick]
    refine Iff.trans (List.Pairwise.iff fun i j => ?_) hiff.symm
    rw [agree_visit_iff, or_comm, ← imp_iff_not_or]
    rfl
  rw [hordered]
  refine ⟨fun h => h.fired, fun h => ⟨fun id hid hsucceeds hclaim => ?_, h, fun id hid hs => ?_⟩⟩
  · rw [← claimsOf_visit hclaim]
    exact Shown.claims.inj (h id hid hsucceeds (.claims id) (.inr rfl))
  · exact (h id hid hs).trans (runTick_absent hid hs).symm

end

/-! ### The work of an event -/

section

variable {host : Host} {tick : Tick} {event : Event} {s t : State} {id : String}

/-- The enabled event rules that match the event, in the order of the table. -/
def ruleIds (host : Host) (event : Event) (s : State) : List String :=
  ids (fun t => t.matchesEvent host event && t.isRuleRow) s

/-- The work on an event rule. -/
def visitRule (host : Host) (event : Event) (s : State) (id : String) : Script State Unit :=
  match s.triggers.find id with
  | some t => runAction host t event
  | none => .ret ()

/-- The action of the rule throws: the agent does. -/
def RuleThrows (host : Host) (event : Event) (s : State) (id : String) : Prop :=
  ∃ t, s.triggers.find id = some t ∧ ∃ m, host.perform t event (t.action.call t event) = .error m

theorem fails_runAction {t : Trigger} : ((runAction host t event).run s).1 = none ↔
    ∃ m, host.perform t event (t.action.call t event) = .error m := by
  unfold runAction
  dsimp only
  cases host.perform t event (t.action.call t event) with
  | error m => exact ⟨fun _ => ⟨m, rfl⟩, fun _ => rfl⟩
  | ok r =>
    refine ⟨fun h => ?_, fun ⟨_, h⟩ => nomatch h⟩
    have hret : some () = none := h
    cases hret

theorem fails_visitRule : Fails (visitRule host event s) s id ↔ RuleThrows host event s id := by
  unfold Fails visitRule RuleThrows
  cases hr : s.triggers.find id with
  | none =>
    refine ⟨fun h => ?_, fun ⟨_, ht, _⟩ => nomatch ht⟩
    have hret : some () = none := h
    cases hret
  | some t =>
    refine fails_runAction.trans ⟨fun h => ⟨t, rfl, h⟩, ?_⟩
    rintro ⟨t', ht, h⟩
    obtain rfl := some_inj.1 ht
    exact h

theorem within_visitRule (host : Host) (event : Event) (s : State) (id : String) :
    (visitRule host event s id).Within view {.trigger id} := by
  unfold visitRule
  cases hr : s.triggers.find id with
  | none => trivial
  | some t =>
    obtain rfl := Table.key_of_find hr
    exact within_runAction host t event

theorem calls_runAction {t : Trigger} : (part ((runAction host t event).run s).2 t.id).calls =
    (part s t.id).calls ++ [(t.id, t.action.call t event)] := by
  have hcalls : ((runAction host t event).run s).2.calls =
      s.calls ++ [(t.id, t.action.call t event)] := by
    unfold runAction
    dsimp only
    cases host.perform t event (t.action.call t event) <;> rfl
  change ((runAction host t event).run s).2.calls.filter _ = _
  rw [hcalls, filter_append]
  refine congrArg _ (filter_eq_self.2 fun c hc => ?_)
  rw [mem_singleton.1 hc]
  exact decide_eq_true rfl

theorem run_handleEventDriven (host : Host) (event : Event) (s : State) :
    (handleEventDriven host event).run s =
      (forEach (ruleIds host event s) (visitRule host event s)).run s := by
  change (forEach ((s.select isRuleRow).filter fun t => t.matchesEvent host event)
    fun t => runAction host t event).run s = _
  unfold ruleIds ids State.select
  rw [List.filter_filter, forEach_map]
  refine congrArg (fun q : Script State Unit => q.run s) (forEach_congr fun t ht => ?_)
  have hmem : t ∈ s.triggers := (mem_filter.1 ht).1
  rw [visitRule, Table.find_key hmem]

/-- Every rule that matches the event and does not throw runs its action. -/
structure EventIsolated (host : Host) (event : Event) (s : State) : Prop where
  /-- The agent is asked. -/
  asked : ∀ id ∈ ruleIds host event s, ¬RuleThrows host event s id →
    ∃ t, s.triggers.find id = some t ∧
      (part ((handleEventDriven host event).run s).2 id).calls =
        (part s id).calls ++ [(id, t.action.call t event)]
  /-- It ends as its own action does. -/
  fired : ∀ id ∈ ruleIds host event s, ¬RuleThrows host event s id →
    part ((handleEventDriven host event).run s).2 id =
      part ((visitRule host event s id).run s).2 id

/-- In the order of the table, no throwing rule stands before one that does not throw. -/
def EventOrdered (host : Host) (event : Event) (s : State) : Prop :=
  (ruleIds host event s).Pairwise fun i j => RuleThrows host event s i → RuleThrows host event s j

theorem calls_visitRule (h : id ∈ ruleIds host event s) : ∃ t, s.triggers.find id = some t ∧
    (part ((visitRule host event s id).run s).2 id).calls =
      (part s id).calls ++ [(id, t.action.call t event)] := by
  obtain ⟨t, hr, -⟩ := mem_ids.1 h
  refine ⟨t, hr, ?_⟩
  obtain rfl := Table.key_of_find hr
  rw [visitRule, hr]
  exact calls_runAction

/-- An event reaches each trigger alone just where none waits for another. -/
theorem eventIsolated_iff : EventIsolated host event s ↔ EventOrdered host event s := by
  have hnd : (ruleIds host event s).Nodup := nodup_ids _ s
  have hfoot : ∀ i j : String, i ≠ j → ({.trigger i} : Set Index) ⊆ {.trigger j}ᶜ := by
    rintro i j hij k rfl hk
    exact hij (Index.trigger.inj hk)
  have hiff := forEach_isolated_iff (s := s) (within_visitRule host event s) hfoot hnd
  have hchanges : ∀ id ∈ ruleIds host event s,
      ¬Agree view {.trigger id} ((visitRule host event s id).run s).2 s := by
    intro id hid h
    obtain ⟨t, -, hcalls⟩ := calls_visitRule hid
    rw [part_of_agree h rfl] at hcalls
    exact cons_ne_nil _ _ (append_right_eq_self.1 hcalls.symm)
  have hordered : EventOrdered host event s ↔
      ∀ id ∈ ruleIds host event s, ¬RuleThrows host event s id →
        part ((handleEventDriven host event).run s).2 id =
          part ((visitRule host event s id).run s).2 id := by
    rw [run_handleEventDriven]
    have hpair : EventOrdered host event s ↔ (ruleIds host event s).Pairwise fun i j =>
        Fails (visitRule host event s) s i → Fails (visitRule host event s) s j ∨
          Agree view {.trigger j} ((visitRule host event s j).run s).2 s :=
      List.Pairwise.iff_of_mem fun {i j} _ hj => by
        rw [fails_visitRule, fails_visitRule, or_iff_left (hchanges j hj)]
    rw [hpair, ← hiff]
    refine forall_congr' fun id => forall_congr' fun hid => ?_
    rw [fails_visitRule]
    refine imp_congr_right fun _ => ⟨fun h => part_of_agree h rfl, ?_⟩
    rintro h i rfl
    exact congrArg Shown.trigger h
  rw [hordered]
  refine ⟨fun h => h.fired, fun h => ⟨fun id hid hs => ?_, h⟩⟩
  rw [h id hid hs]
  exact calls_visitRule hid

/-- **When triggers are isolated from each other**: exactly where no throwing trigger stands before
one that it stops. -/
theorem triggers_isolated (host : Host) (tick : Tick) (event : Event) (s : State) :
    (TickIsolated host tick s ↔ TickOrdered host tick s) ∧
      (EventIsolated host event s ↔ EventOrdered host event s) :=
  ⟨tickIsolated_iff, eventIsolated_iff⟩

end

/-- A trigger that asks for nothing in particular. -/
def plainTrigger (id : String) (kind : Kind) (eventType : Option String) : Trigger where
  id := id
  name := id
  kind := kind
  enabled := true
  config := { eventType := eventType }
  lastFiredAt := none
  nextCheckAt := some 0
  leaseOwner := none
  leaseExpiresAt := none
  updatedAt := 0

/-- An agent that fails for two triggers. -/
def failingHost : Host where
  perform t _ _ := if t.id = "first timer" ∨ t.id = "first rule" then .error "failed" else .ok .null
  listEvents _ _ := .ok []
  openTasks := []
  birthdays _ := []
  plusMinutes _ time := .ok time
  nextDaily _ time := .ok time
  getPath _ _ := none
  regexTest _ _ := .ok false
  clock := 0

/-- Two due timers, and two rules for an event. -/
def twoOfEach : State where
  triggers :=
    { rows := [plainTrigger "first timer" .timer none, plainTrigger "second timer" .timer none,
        plainTrigger "first rule" .eventRule (some "task.created"),
        plainTrigger "second rule" .eventRule (some "task.created")]
      nodup := by decide }
  firedLog := []
  events := []
  calls := []
  claims := []

/-- The timer after the throwing one is not claimed, and the rule after the throwing one does not
run its action. -/
theorem second_trigger_missed : ¬TickIsolated failingHost ⟨0, "process", 60000⟩ twoOfEach ∧
    ¬EventIsolated failingHost ⟨"task.created", none, []⟩ twoOfEach := by
  constructor
  · intro h
    have hclaimed := h.claimed "second timer" (by decide) (by decide) (by decide)
    revert hclaimed
    decide
  · intro h
    obtain ⟨t, -, hasked⟩ := h.asked "second rule" (by decide) (by
      rintro ⟨t, ht, m, hm⟩
      obtain rfl := some_inj.1 ht
      cases hm)
    cases hasked

end U2os.Server.Triggers
