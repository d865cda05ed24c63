import U2os.Lib.Apart
import U2os.Server.Triggers.TriggerEngine

/-!
# What the work on a trigger touches

The work on a trigger reads and writes its own part of the state alone: its row, and what it fired,
published and asked.  A claim writes the row and the claims of the trigger.

## Main results

* `within_runAction`, `within_fireTimerOrSchedule`, `within_runConditionWatch` : the work on a
  trigger is confined to its part.
* `OnClaim.within_bind`, `.claims`, `.agree` : claims.
-/

namespace U2os.Server.Triggers

open Script List Option

/-- What belongs to a trigger. -/
@[ext] structure Part where
  row : Option Trigger
  fired : List (String × String)
  events : List Published
  calls : List (String × AgentCall)

/-- The part of a trigger. -/
def part (s : State) (id : String) : Part where
  row := s.triggers.find id
  fired := s.firedLog.filter fun e => e.1 = id
  events := s.events.filter fun e => e.trigger = id
  calls := s.calls.filter fun c => c.1 = id

/-- The claims of a trigger. -/
def claimsOf (s : State) (id : String) : List String := s.claims.filter fun c => c = id

/-- The order and the kinds of the triggers. -/
def kinds (s : State) : List (String × Kind) := s.triggers.rows.map fun t => (t.id, t.kind)

/-- An index of the state. -/
inductive Index where
  | order
  | claims (id : String)
  | trigger (id : String)
  deriving DecidableEq

/-- What an index shows. -/
inductive Shown where
  | order (kinds : List (String × Kind))
  | claims (claims : List String)
  | trigger (part : Part)

/-- The state by its indices. -/
def view : Index → State → Shown
  | .order, s => .order (kinds s)
  | .claims id, s => .claims (claimsOf s id)
  | .trigger id, s => .trigger (part s id)

section

variable {id : String}

/-- A change that concerns one trigger, and claims nothing. -/
structure Concerns (id : String) (f : State → State) : Prop where
  own : ∀ s t, part s id = part t id → part (f s) id = part (f t) id
  others : ∀ s j, j ≠ id → part (f s) j = part s j
  kinds : ∀ s, kinds (f s) = kinds s
  claims : ∀ s, (f s).claims = s.claims

theorem part_of_agree {I : Set Index} {s t : State} (h : Agree view I s t) (hi : .trigger id ∈ I) :
    part s id = part t id := Shown.trigger.inj (h _ hi)

/-- A change that concerns one trigger stays within it. -/
theorem Concerns.modify {f : State → State} (h : Concerns id f) :
    (Script.modify f).Within view {.trigger id} := by
  refine .modify (fun s t hst => ?_) fun s i hi => ?_
  · rintro i rfl
    exact congrArg Shown.trigger (h.own s t (part_of_agree hst rfl))
  · cases i with
    | order => exact congrArg Shown.order (h.kinds s)
    | claims j =>
      change Shown.claims ((f s).claims.filter _) = _
      rw [h.claims]
      rfl
    | trigger j => exact congrArg Shown.trigger (h.others s j fun he => hi (congrArg _ he))

theorem filter_append_of_ne {κ : Type} (key : κ → String) {l : List κ} {e : κ} {j : String}
    (h : key e ≠ j) : ((l ++ [e]).filter fun x => key x = j) = l.filter fun x => key x = j := by
  rw [filter_append, filter_singleton, decide_eq_false h]
  exact append_nil _

theorem find_update (s : State) (id : String) (p : Trigger → Bool) (f : Trigger → Trigger)
    (hf : ∀ t, (f t).id = t.id) (j : String) : (s.update id p f hf).triggers.find j =
      (s.triggers.find j).map fun r => if r.id = id ∧ p r = true then f r else r := by
  change (s.triggers.updateWhere _ f hf).find j = _
  rw [Table.find_updateWhere]

theorem concerns_update (id : String) (p : Trigger → Bool) (f : Trigger → Trigger)
    (hf : ∀ t, (f t).id = t.id) (hkind : ∀ t, (f t).kind = t.kind) :
    Concerns id fun s => s.update id p f hf where
  own s t h := by
    obtain ⟨hrow, hfired, hevents, hcalls⟩ := (Part.ext_iff).1 h
    refine Part.ext ?_ hfired hevents hcalls
    change (s.update id p f hf).triggers.find id = (t.update id p f hf).triggers.find id
    rw [find_update, find_update]
    exact congrArg _ hrow
  others s j hj := by
    refine Part.ext ?_ rfl rfl rfl
    refine (find_update s id p f hf j).trans ?_
    change _ = s.triggers.find j
    cases hrow : s.triggers.find j with
    | none => rfl
    | some r =>
      have hid : r.id ≠ id := fun he => hj ((Table.key_of_find hrow).symm.trans he)
      exact congrArg some (if_neg fun hr => hid hr.1)
  kinds s := by
    change (s.triggers.rows.map _).map _ = _
    rw [List.map_map]
    refine map_congr_left fun r _ => ?_
    simp only [Function.comp_apply]
    split_ifs
    · rw [hf, hkind]
    · rfl
  claims _ := rfl

theorem concerns_publish {e : Published} (h : e.trigger = id) :
    Concerns id fun s => s.publish e where
  own s t hp := by
    obtain ⟨hrow, hfired, hevents, hcalls⟩ := (Part.ext_iff).1 hp
    refine Part.ext hrow hfired ?_ hcalls
    change (s.events ++ [e]).filter _ = (t.events ++ [e]).filter _
    rw [filter_append, filter_append]
    exact congrArg (· ++ _) hevents
  others s j hj := Part.ext rfl rfl
    (filter_append_of_ne Published.trigger fun he => hj (he.symm.trans h)) rfl
  kinds _ := rfl
  claims _ := rfl

theorem concerns_calls (id : String) (call : AgentCall) :
    Concerns id fun s => { s with calls := s.calls ++ [(id, call)] } where
  own s t hp := by
    obtain ⟨hrow, hfired, hevents, hcalls⟩ := (Part.ext_iff).1 hp
    refine Part.ext hrow hfired hevents ?_
    change (s.calls ++ [(id, call)]).filter _ = (t.calls ++ [(id, call)]).filter _
    rw [filter_append, filter_append]
    exact congrArg (· ++ _) hcalls
  others s j hj := Part.ext rfl rfl rfl
    (filter_append_of_ne Prod.fst (Ne.symm hj))
  kinds _ := rfl
  claims _ := rfl

theorem alreadyFired_eq (s : State) (id objectId : String) :
    s.alreadyFired id objectId = (part s id).fired.any fun e => e.2 = objectId := by
  unfold State.alreadyFired part
  rw [List.any_filter]

theorem concerns_markFiredObject (id objectId : String) :
    Concerns id fun s => s.markFiredObject id objectId where
  own s t hp := by
    have hsame : s.alreadyFired id objectId = t.alreadyFired id objectId := by
      rw [alreadyFired_eq, alreadyFired_eq, hp]
    unfold State.markFiredObject
    rw [hsame]
    split_ifs
    · exact hp
    · obtain ⟨hrow, hfired, hevents, hcalls⟩ := (Part.ext_iff).1 hp
      refine Part.ext hrow ?_ hevents hcalls
      change (s.firedLog ++ [(id, objectId)]).filter _ = (t.firedLog ++ [(id, objectId)]).filter _
      rw [filter_append, filter_append]
      exact congrArg (· ++ _) hfired
  others s j hj := by
    unfold State.markFiredObject
    split_ifs
    · rfl
    · exact Part.ext rfl (filter_append_of_ne Prod.fst (Ne.symm hj))
        rfl rfl
  kinds s := by
    unfold State.markFiredObject
    split_ifs <;> rfl
  claims s := by
    unfold State.markFiredObject
    split_ifs <;> rfl

theorem within_update (id : String) (p : Trigger → Bool) (f : Trigger → Trigger)
    (hf : ∀ t, (f t).id = t.id) (hkind : ∀ t, (f t).kind = t.kind) :
    (Script.modify fun s : State => s.update id p f hf).Within view {.trigger id} :=
  (concerns_update id p f hf hkind).modify

theorem within_publish (id : String) (e : Published) (h : e.trigger = id) :
    (Script.modify fun s : State => s.publish e).Within view {.trigger id} :=
  (concerns_publish h).modify

end

section

variable (host : Host) (tick : Tick) (trigger : Trigger)

theorem within_runAction (event : Event) :
    (runAction host trigger event).Within view {.trigger trigger.id} := by
  refine (concerns_calls trigger.id _).modify.bind fun _ => ?_
  cases host.perform trigger event (trigger.action.call trigger event) with
  | error message =>
    refine (within_publish trigger.id _ rfl).bind fun _ => ?_
    exact trivial
  | ok result =>
    refine (within_publish trigger.id _ rfl).bind fun _ => ?_
    exact within_update _ _ _ _ fun _ => rfl

theorem within_fireEach (findings : List Finding) :
    (fireEach host trigger findings).Within view {.trigger trigger.id} := by
  refine .forEach fun f _ => .get_bind (fun s t h => ?_) fun s => ?_
  · rw [alreadyFired_eq, alreadyFired_eq, part_of_agree h rfl]
  · split_ifs
    · trivial
    · refine (within_publish trigger.id _ rfl).bind fun _ => ?_
      refine (concerns_markFiredObject trigger.id _).modify.bind fun _ => ?_
      exact within_runAction host trigger f.event

theorem within_runConditionWatch (now : ℤ) :
    (runConditionWatch host trigger now).Within view {.trigger trigger.id} := by
  unfold runConditionWatch
  split
  · dsimp only [checkCalendarApproaching]
    split
    · trivial
    · exact within_fireEach host trigger _
  · exact within_fireEach host trigger _
  · exact within_fireEach host trigger _
  · trivial

theorem within_fireTimerOrSchedule :
    (fireTimerOrSchedule host tick trigger).Within view {.trigger trigger.id} := by
  refine (within_runAction host trigger _).bind fun _ => ?_
  split
  · exact within_update _ _ _ _ fun _ => rfl
  · split
    · trivial
    · exact within_update _ _ _ _ fun _ => rfl
  · trivial
  · trivial

theorem within_withLeaseHeartbeat {work : Script State Unit}
    (h : work.Within view {.trigger trigger.id}) :
    (withLeaseHeartbeat tick trigger.id work).Within view {.trigger trigger.id} :=
  h.cleanup (within_update _ _ _ _ fun _ => rfl)

end

/-- What the work on a trigger reads and writes. -/
def footprint (id : String) : Set Index := {.trigger id, .claims id}

theorem footprint_subset {i j : String} (h : i ≠ j) : footprint i ⊆ (footprint j)ᶜ := by
  rintro k (rfl | rfl) (hk | hk)
  · exact h (Index.trigger.inj hk)
  · cases hk
  · cases hk
  · exact h (Index.claims.inj hk)

theorem trigger_subset_footprint {id : String} : {.trigger id} ⊆ footprint id :=
  fun _ h => .inl h

section

variable {tick : Tick} {id : String} {requireDue : Bool} {s t : State}

theorem claimRow_congr (h : part s id = part t id) :
    s.claimRow tick id requireDue = t.claimRow tick id requireDue := by
  unfold State.claimRow
  rw [show s.triggers.find id = t.triggers.find id from congrArg Part.row h]

theorem id_of_claimRow {r : Trigger} (h : s.claimRow tick id requireDue = some r) : r.id = id :=
  Table.key_of_find (Option.filter_eq_some_iff.1 h).1

theorem find_claim : (s.claim tick id requireDue).triggers.find id = (s.triggers.find id).map fun r =>
    if r.id = id ∧ r.claimable requireDue tick.now = true then r.leased tick else r :=
  find_update s id _ (fun r => r.leased tick) (fun _ => rfl) id

theorem claimsOf_claim : claimsOf (s.claim tick id requireDue) id =
    claimsOf s id ++ ((s.claimRow tick id requireDue).map Trigger.id).toList := by
  change (s.claims ++ _).filter _ = _
  rw [filter_append]
  refine congrArg _ (filter_eq_self.2 fun c hc => ?_)
  obtain ⟨r, hr, rfl⟩ := map_eq_some_iff.1 (mem_toList.1 hc)
  exact decide_eq_true (id_of_claimRow hr)

theorem claimsOf_claim_of_ne {j : String} (h : j ≠ id) :
    claimsOf (s.claim tick id requireDue) j = claimsOf s j := by
  change (s.claims ++ _).filter _ = _
  rw [filter_append]
  refine (congrArg _ (filter_eq_nil_iff.2 fun c hc => ?_)).trans (append_nil _)
  obtain ⟨r, hr, rfl⟩ := map_eq_some_iff.1 (mem_toList.1 hc)
  rw [id_of_claimRow hr]
  simpa using Ne.symm h

/-- What follows a claim is work on the trigger that was taken. -/
structure OnClaim (id : String) (k : Option Trigger → Script State Unit) : Prop where
  of_none : k none = .ret ()
  of_some : ∀ r, r.id = id → (k (some r)).Within view {.trigger id}

variable {k : Option Trigger → Script State Unit}

/-- A tick that works on its claim stays within the trigger. -/
theorem OnClaim.within (h : OnClaim id k) (s : State) :
    (k ((s.claimRow tick id requireDue).map fun r => r.leased tick)).Within view {.trigger id} := by
  cases hr : s.claimRow tick id requireDue with
  | none =>
    rw [map_none, h.of_none]
    trivial
  | some r =>
    have hid : r.id = id := id_of_claimRow hr
    exact h.of_some _ hid

theorem OnClaim.within_bind (h : OnClaim id k) :
    (claimTrigger tick id requireDue >>= k).Within view (footprint id) := by
  have hupdate := concerns_update id (fun r => r.claimable requireDue tick.now)
    (fun r => r.leased tick) (fun _ => rfl) fun _ => rfl
  refine ⟨fun s t hst => ?_, fun s i hi => ?_, fun s =>
    (h.within s).mono trigger_subset_footprint⟩
  · have hpart : part s id = part t id := part_of_agree hst (.inl rfl)
    have hclaims : claimsOf s id = claimsOf t id := Shown.claims.inj (hst (.claims id) (.inr rfl))
    refine ⟨?_, ?_⟩
    · rintro i (rfl | rfl)
      · exact congrArg Shown.trigger (hupdate.own s t hpart)
      · refine congrArg Shown.claims ?_
        rw [claimsOf_claim, claimsOf_claim, hclaims, claimRow_congr hpart]
    · dsimp only
      rw [claimRow_congr hpart]
  · cases i with
    | order => exact congrArg Shown.order (hupdate.kinds s)
    | claims j =>
      exact congrArg Shown.claims (claimsOf_claim_of_ne fun he => hi (.inr (congrArg _ he)))
    | trigger j =>
      exact congrArg Shown.trigger (hupdate.others s j fun he => hi (.inl (congrArg _ he)))

/-- A tick claims the row that it finds free. -/
theorem OnClaim.claims (h : OnClaim id k) :
    claimsOf ((claimTrigger tick id requireDue >>= k).run s).2 id =
      claimsOf s id ++ ((s.claimRow tick id requireDue).map Trigger.id).toList := by
  rw [← claimsOf_claim]
  exact Shown.claims.inj ((h.within s).frame (.claims id) nofun)

theorem OnClaim.agree (h : OnClaim id k) (hnone : s.claimRow tick id requireDue = none) :
    Agree view (footprint id) ((claimTrigger tick id requireDue >>= k).run s).2 s := by
  have hrun : ((claimTrigger tick id requireDue >>= k).run s).2 = s.claim tick id requireDue := by
    change ((k _).run _).2 = _
    rw [hnone, map_none, h.of_none]
    rfl
  rw [hrun]
  rintro i (rfl | rfl)
  · refine congrArg Shown.trigger (Part.ext ?_ rfl rfl rfl)
    have hno : ∀ r, s.triggers.find id = some r → ¬r.claimable requireDue tick.now = true :=
      fun r hr hc => absurd hnone (by simp [State.claimRow, hr, hc])
    refine find_claim.trans ?_
    change _ = s.triggers.find id
    cases hfind : s.triggers.find id with
    | none => rfl
    | some r => exact congrArg some (if_neg fun hr => hno r hfind hr.2)
  · refine congrArg Shown.claims ?_
    rw [claimsOf_claim, hnone]
    exact append_nil _

end

end U2os.Server.Triggers
