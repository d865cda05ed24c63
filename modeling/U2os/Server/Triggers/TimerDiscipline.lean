import Mathlib.Data.Rat.Floor
import U2os.Server.Triggers.TickRuns

/-!
# When timers and schedules fire

Due times are compared as texts.  What the engine writes is in order, but `fireAt` is kept as it was
given: with an offset it may be due hours before its instant.  An update leaves the next check as it
is, a time that cannot be computed is found out after the action only, and a lease that lapses lets
another tick in on the same due time.
-/

namespace U2os.Server.Triggers.Timing

open JsDate List Option

/-- What was completed before is not fired again: a timer at all, a schedule for the same time. -/
def NotAgain : Entry → Entry → Prop
  | .completed id t _, .fired id' t' _ =>
    id = id' → t.kind ≠ .timer ∧ t.nextCheckAt ≠ t'.nextCheckAt
  | _, _ => True

/-- The action of the trigger has completed, and the row is not yet written. -/
def Acting (s : State) (id : String) (t : Trigger) (now : ℤ) : Prop :=
  ∃ k w, s.works k = some w ∧ w.id = id ∧ w.phase = .acted t ∧ w.now = now

/-- The configuration of the trigger has a future occurrence. -/
def Upcoming (host : Host) (clock : ℤ) (t : Trigger) : Prop :=
  match t.kind with
  | .timer => ∃ i, fireInstant host t.config = some i ∧ clock < i
  | .schedule => (computeNextForSchedule host t.config clock).isSome
  | .eventRule | .conditionWatch => False

/-- Timers and schedules fire when they should. -/
structure Disciplined (host : Host) (s : State) : Prop where
  /-- No timer was fired before the instant of its configuration. -/
  early : ∀ id t now, .fired id t now ∈ s.log → t.kind = .timer →
    ∀ i, fireInstant host t.config = some i → i ≤ now
  again : s.log.Pairwise NotAgain
  /-- The next check of a schedule that completed is past the time of the tick. -/
  moved : ∀ id t now, .completed id t now ∈ s.log → t.kind = .schedule →
    Acting s id t now ∨
      ∃ r n, s.triggers id = some r ∧ r.nextCheckAt = some (toISOString n) ∧ now < n
  /-- From some time on, each tick that finds the trigger free claims it. -/
  armed : ∀ id t, s.triggers id = some t → t.enabled = true → Upcoming host s.clock t →
    ∃ n, InYears n ∧ ∀ now, InYears now → n ≤ now → t.isFree now = true → t.claimable now = true

/-- A timer is created and configured so that its text fits its instant, no tick claims what
another is still at work on, and a schedule that has completed recurs. -/
def Meets (host : Host) (s : State) : Label → Prop
  | .pass time => InYears time
  | .create _ .timer config _ => ∀ next,
    computeInitialNextCheckAt host .timer (bodyConfig host config) s.clock = some next →
      Fits host s.clock next (bodyConfig host config)
  | .patch id _ (some config) => ∀ t, s.triggers id = some t → t.kind = .timer →
    Fits host s.clock t.nextCheckAt config
  | .claim _ id owner _ _ => ∀ k w, s.works k = some w → w.id = id →
    w.phase = .settled ∧ w.owner ≠ owner
  | .settle k => ∀ w t, s.works k = some w → w.phase = .acted t → t.kind = .schedule →
    Recurs host t.config w.now
  | _ => True

/-- A row whose next check fits its configuration. -/
structure RowOk (host : Host) (clock : ℤ) (t : Trigger) : Prop where
  fits : t.kind = .timer → Fits host clock t.nextCheckAt t.config
  valid : validateIncomingConfig host t.kind t.config = true
  ever : t.kind = .schedule → ∃ text, t.nextCheckAt = some text ∧ EverDue text

/-- The row is what the work on it left. -/
structure Holds (host : Host) (w : Work) (t : Trigger) : Prop where
  polled : t.kind = .timer ∨ t.kind = .schedule
  owner : t.leaseOwner = some w.owner
  due : t.isDue w.now = true
  read : ∀ r, w.phase = .running r ∨ w.phase = .acted r → r.kind = t.kind ∧
    r.nextCheckAt = t.nextCheckAt ∧ validateIncomingConfig host r.kind r.config = true

/-- The next check is past the time. -/
structure Past (t : Trigger) (now : ℤ) : Prop where
  timer : t.kind = .timer → t.nextCheckAt = none
  schedule : t.kind = .schedule → ∃ n, t.nextCheckAt = some (toISOString n) ∧ now < n ∧ InYears n

/-- What holds along the runs. -/
structure Invariant (host : Host) (s : State) : Prop where
  clock : 0 ≤ s.clock ∧ InYears s.clock
  row : ∀ id t, s.triggers id = some t → RowOk host s.clock t
  time : ∀ k w, s.works k = some w → 0 ≤ w.now ∧ w.now ≤ s.clock
  holds : ∀ k w, s.works k = some w → w.phase ≠ .settled →
    ∃ t, s.triggers w.id = some t ∧ Holds host w t
  /-- Only one tick is at work on a trigger, and another one that is not yet through with it has
  another owner. -/
  single : ∀ k w k' w', s.works k = some w → s.works k' = some w' → k ≠ k' → w.id = w'.id →
    w.phase ≠ .settled → w'.phase = .settled ∧ w'.owner ≠ w.owner
  early : ∀ id t now, .fired id t now ∈ s.log → t.kind = .timer →
    ∀ i, fireInstant host t.config = some i → i ≤ now
  past : ∀ id t now, .completed id t now ∈ s.log → InYears now ∧ t.isDue now = true ∧
    ∃ r, s.triggers id = some r ∧ r.kind = t.kind ∧ (Acting s id t now ∨ Past r now)
  again : s.log.Pairwise NotAgain

variable {host : Host} {s s' : State} {k : ℕ} {w : Work} {id : String} {t r : Trigger}
  {phase : Phase} {f : Trigger → Trigger} {l : Label} {now : ℤ}

theorem Trigger.isDue_iff : t.isDue now = true ↔
    ∃ text, t.nextCheckAt = some text ∧ text ≤ toISOString now := by
  simp [isDue, Option.any_eq_true]

theorem Invariant.inYears (h : Invariant host s) (hw : s.works k = some w) : InYears w.now := by
  have htime := h.time k w hw
  have hclock := h.clock
  unfold InYears at *
  omega

theorem rewrite_eq_some {id' : String} (h : (s.rewrite id f).triggers id' = some r) :
    id' = id ∧ (∃ t, s.triggers id = some t ∧ f t = r) ∨ id' ≠ id ∧ s.triggers id' = some r := by
  by_cases hid : id' = id
  · subst hid
    rw [State.rewrite_self] at h
    exact .inl ⟨rfl, map_eq_some_iff.1 h⟩
  · rw [State.rewrite_of_ne hid] at h
    exact .inr ⟨hid, h⟩

theorem rewrite_of_eq_some {id' : String} (h : s.triggers id' = some t) :
    (s.rewrite id f).triggers id' = some (if id' = id then f t else t) := by
  by_cases hid : id' = id
  · subst hid
    rw [State.rewrite_self, h, if_pos rfl, map_some]
  · rw [State.rewrite_of_ne hid, h, if_neg hid]

theorem Invariant.rewrite (h : Invariant host s)
    (hrow : ∀ t, s.triggers id = some t → RowOk host s.clock (f t))
    (hkeep : ∀ t, (f t).kind = t.kind ∧ (f t).nextCheckAt = t.nextCheckAt)
    (howner : ∀ k w t, s.works k = some w → w.id = id → w.phase ≠ .settled →
      t.leaseOwner = some w.owner → (f t).leaseOwner = some w.owner) :
    Invariant host (s.rewrite id f) where
  clock := h.clock
  row id' t ht := by
    rcases rewrite_eq_some ht with ⟨-, u, hu, rfl⟩ | ⟨-, ht⟩
    · exact hrow u hu
    · exact h.row id' t ht
  time := h.time
  holds k w hw hactive := by
    obtain ⟨t, ht, hholds⟩ := h.holds k w hw hactive
    refine ⟨_, rewrite_of_eq_some ht, ?_⟩
    split_ifs with hid
    · obtain ⟨hkind, hnext⟩ := hkeep t
      refine ⟨?_, howner k w t hw hid hactive hholds.owner, ?_, fun r hr => ?_⟩
      · rw [hkind]
        exact hholds.polled
      · rw [Trigger.isDue, hnext]
        exact hholds.due
      · rw [hkind, hnext]
        exact hholds.read r hr
    · exact hholds
  single := h.single
  early := h.early
  past id' t now hmem := by
    obtain ⟨hyears, hdue, u, hu, hkind, hpast⟩ := h.past id' t now hmem
    refine ⟨hyears, hdue, _, rewrite_of_eq_some hu, ?_, hpast.imp_right fun hpast => ?_⟩
    · split_ifs
      · rw [(hkeep u).1, hkind]
      · exact hkind
    · split_ifs
      · obtain ⟨hkind', hnext⟩ := hkeep u
        exact ⟨fun hk => hnext ▸ hpast.timer (hkind' ▸ hk),
          fun hk => hnext ▸ hpast.schedule (hkind' ▸ hk)⟩
      · exact hpast
  again := h.again

theorem Invariant.advance (h : Invariant host s) (hw : s.works k = some w)
    (hactive : w.phase ≠ .settled) (hacted : ∀ t, w.phase ≠ .acted t)
    (hread : ∀ t, s.triggers w.id = some t → ∀ r, phase = .running r ∨ phase = .acted r →
      r.kind = t.kind ∧ r.nextCheckAt = t.nextCheckAt ∧
        validateIncomingConfig host r.kind r.config = true) :
    Invariant host (s.advance k w phase) where
  clock := h.clock
  row := h.row
  time k' w' hw' := by
    rcases of_update_some hw' with ⟨rfl, rfl⟩ | ⟨-, hw'⟩
    · exact h.time _ w hw
    · exact h.time k' w' hw'
  holds k' w' hw' hactive' := by
    rcases of_update_some hw' with ⟨rfl, rfl⟩ | ⟨-, hw'⟩
    · obtain ⟨t, ht, hholds⟩ := h.holds _ w hw hactive
      exact ⟨t, ht, hholds.polled, hholds.owner, hholds.due, hread t ht⟩
    · exact h.holds k' w' hw' hactive'
  single k₁ w₁ k₂ w₂ h₁ h₂ hne hid hactive₁ := by
    rcases of_update_some h₁ with ⟨rfl, rfl⟩ | ⟨-, h₁'⟩ <;>
      rcases of_update_some h₂ with ⟨rfl, rfl⟩ | ⟨-, h₂'⟩
    · exact absurd rfl hne
    · exact h.single _ w k₂ w₂ hw h₂' hne hid hactive
    · exact absurd (h.single k₁ w₁ _ w h₁' hw hne hid hactive₁).1 hactive
    · exact h.single k₁ w₁ k₂ w₂ h₁' h₂' hne hid hactive₁
  early := h.early
  past id t now hmem := by
    obtain ⟨hyears, hdue, u, hu, hkind, hpast⟩ := h.past id t now hmem
    refine ⟨hyears, hdue, u, hu, hkind, hpast.imp_left ?_⟩
    rintro ⟨k', w', hw', hid, hphase, hnow⟩
    refine ⟨k', w', ?_, hid, hphase, hnow⟩
    have hne : k' ≠ k := by
      rintro rfl
      obtain rfl := some_inj.1 (hw.symm.trans hw')
      exact hacted t hphase
    exact (Function.update_of_ne hne _ _).trans hw'
  again := h.again

/-- What is run is entered in the log. -/
theorem Invariant.logged {e : Entry} (h : Invariant host s)
    (hearly : ∀ id t now, .fired id t now = e → t.kind = .timer →
      ∀ i, fireInstant host t.config = some i → i ≤ now)
    (hpast : ∀ id t now, .completed id t now = e → InYears now ∧ t.isDue now = true ∧
      ∃ r, s.triggers id = some r ∧ r.kind = t.kind ∧ (Acting s id t now ∨ Past r now))
    (hagain : ∀ e' ∈ s.log, NotAgain e' e) :
    Invariant host { s with log := s.log ++ [e] } where
  clock := h.clock
  row := h.row
  time := h.time
  holds := h.holds
  single := h.single
  early id t now hmem := by
    rcases List.mem_append.1 hmem with hmem | hmem
    · exact h.early id t now hmem
    · exact hearly id t now (mem_singleton.1 hmem)
  past id t now hmem := by
    rcases List.mem_append.1 hmem with hmem | hmem
    · exact h.past id t now hmem
    · exact hpast id t now (mem_singleton.1 hmem)
  again := by
    refine pairwise_append.2 ⟨h.again, pairwise_singleton _ _, fun e' he e'' he' => ?_⟩
    cases mem_singleton.1 he'
    exact hagain e' he

/-! ### Steps -/

variable {owner : String}

theorem ifHeld_of_owner (h : t.leaseOwner = some owner) :
    t.ifHeld owner f = f t := if_pos h

theorem ifHeld_keeps {P : Trigger → Prop} (h : P t) (hf : P (f t)) :
    P (t.ifHeld owner f) := by
  unfold Trigger.ifHeld
  split_ifs
  · exact hf
  · exact h

theorem Invariant.pass {time : ℤ} (h : Invariant host s) (hle : s.clock ≤ time)
    (hyears : InYears time) : Invariant host { s with clock := time } where
  clock := ⟨h.clock.1.trans hle, hyears⟩
  row id t ht :=
    have hrow := h.row id t ht
    ⟨fun hk => (hrow.fits hk).mono hle, hrow.valid, hrow.ever⟩
  time k w hw := ⟨(h.time k w hw).1, (h.time k w hw).2.trans hle⟩
  holds := h.holds
  single := h.single
  early := h.early
  past := h.past
  again := h.again

theorem Invariant.insert (h : Invariant host s) (hnew : s.triggers id = none)
    (hrow : RowOk host s.clock t) : Invariant host (s.insert id t) where
  clock := h.clock
  row id' t' ht' := by
    by_cases hid : id' = id
    · rw [hid, State.insert_self] at ht'
      exact some_inj.1 ht' ▸ hrow
    · rw [State.insert_of_ne hid] at ht'
      exact h.row id' t' ht'
  time := h.time
  holds k w hw hactive := by
    obtain ⟨u, hu, hholds⟩ := h.holds k w hw hactive
    refine ⟨u, (State.insert_of_ne ?_ s t).trans hu, hholds⟩
    rintro rfl
    cases hnew.symm.trans hu
  single := h.single
  early := h.early
  past id' t' now hmem := by
    obtain ⟨hyears, hdue, u, hu, hkind, hpast⟩ := h.past id' t' now hmem
    refine ⟨hyears, hdue, u, (State.insert_of_ne ?_ s t).trans hu, hkind, hpast⟩
    rintro rfl
    cases hnew.symm.trans hu
  again := h.again

theorem Invariant.claim {leaseMs : ℤ} (h : Invariant host s)
    (ht : s.triggers id = some t) (hk : s.works k = none) (hnow : 0 ≤ now ∧ now ≤ s.clock)
    (hclaim : t.claimable now = true)
    (hfree : ∀ k w, s.works k = some w → w.id = id → w.phase = .settled ∧ w.owner ≠ owner) :
    Invariant host { s.rewrite id (fun t => t.leased owner (now + leaseMs)) with
      works := Function.update s.works k (some ⟨id, owner, now, leaseMs, .claimed⟩) } := by
  have hbase : Invariant host (s.rewrite id fun t => t.leased owner (now + leaseMs)) := by
    refine h.rewrite (fun u hu => ?_) (fun _ => ⟨rfl, rfl⟩) fun k w u hw hid hactive _ => ?_
    · have hrow := h.row id u hu
      exact ⟨hrow.fits, hrow.valid, hrow.ever⟩
    · exact absurd (hfree k w hw hid).1 hactive
  refine ⟨hbase.clock, hbase.row, ?_, ?_, ?_, hbase.early, ?_, hbase.again⟩
  · intro k' w' hw'
    rcases of_update_some hw' with ⟨rfl, rfl⟩ | ⟨-, hw'⟩
    · exact hnow
    · exact h.time k' w' hw'
  · intro k' w' hw' hactive
    rcases of_update_some hw' with ⟨rfl, rfl⟩ | ⟨-, hw'⟩
    · refine ⟨_, rewrite_of_eq_some ht, ?_⟩
      rw [if_pos rfl]
      simp only [Trigger.claimable, Bool.and_eq_true, Bool.or_eq_true, decide_eq_true_iff] at hclaim
      exact ⟨hclaim.1.1.2, rfl, hclaim.2, fun r hr => by rcases hr with hr | hr <;> cases hr⟩
    · exact hbase.holds k' w' hw' hactive
  · intro k₁ w₁ k₂ w₂ h₁ h₂ hne hid hactive
    rcases of_update_some h₁ with ⟨rfl, rfl⟩ | ⟨-, h₁'⟩ <;>
      rcases of_update_some h₂ with ⟨rfl, rfl⟩ | ⟨-, h₂'⟩
    · exact absurd rfl hne
    · exact hfree k₂ w₂ h₂' hid.symm
    · exact absurd (hfree k₁ w₁ h₁' hid).1 hactive
    · exact h.single k₁ w₁ k₂ w₂ h₁' h₂' hne hid hactive
  · intro id' t' now' hmem
    obtain ⟨hyears, hdue, u, hu, hkind, hpast⟩ := hbase.past id' t' now' hmem
    refine ⟨hyears, hdue, u, hu, hkind, hpast.imp_left ?_⟩
    rintro ⟨k', w', hw', hwork⟩
    refine ⟨k', w', ?_, hwork⟩
    have hne : k' ≠ k := by
      rintro rfl
      cases hk.symm.trans hw'
    exact (Function.update_of_ne hne _ _).trans hw'

/-- A trigger is fired by the one tick that claimed it. -/
theorem Invariant.fire (h : Invariant host s) (hw : s.works k = some w)
    (hphase : w.phase = .claimed) (ht : s.triggers w.id = some t) :
    Invariant host { s.advance k w (.running t) with log := s.log ++ [.fired w.id t w.now] } := by
  have hactive : w.phase ≠ .settled := by simp [hphase]
  obtain ⟨u, hu, hholds⟩ := h.holds k w hw hactive
  obtain rfl := some_inj.1 (ht.symm.trans hu)
  obtain ⟨text, htext, hdue⟩ := Trigger.isDue_iff.1 hholds.due
  have hmoved : Invariant host (s.advance k w (.running t)) := by
    refine h.advance hw hactive (fun r hr => ?_) fun u hu r hr => ?_
    · cases hphase.symm.trans hr
    · obtain rfl := some_inj.1 (ht.symm.trans hu)
      rcases hr with hr | hr <;> cases hr
      exact ⟨rfl, rfl, (h.row w.id t ht).valid⟩
  refine hmoved.logged ?_ nofun fun e he => ?_
  · rintro _ _ _ ⟨⟩ hkind i hi
    have hfits := (h.row w.id t ht).fits hkind i hi
    rw [htext] at hfits
    exact hfits.1 w.now (h.inYears hw) hdue
  · rcases e with _ | ⟨id, u, time⟩
    · trivial
    rintro rfl
    obtain ⟨hyears, hbefore, r, hr, hkind, hpast⟩ := h.past w.id u time he
    obtain rfl := some_inj.1 (ht.symm.trans hr)
    rcases hpast with ⟨k', w', hw', hid, hacted, -⟩ | hpast
    · -- the work that has completed would be another one that is active
      exfalso
      have hne : k' ≠ k := by
        rintro rfl
        obtain rfl := some_inj.1 (hw.symm.trans hw')
        cases hphase.symm.trans hacted
      have hsettled := (h.single k w k' w' hw hw' hne.symm hid.symm hactive).1
      cases hsettled.symm.trans hacted
    · constructor
      · intro htimer
        cases (hpast.timer (hkind.trans htimer)).symm.trans htext
      · intro heq
        obtain ⟨text', htext', hbefore⟩ := Trigger.isDue_iff.1 hbefore
        rcases hholds.polled with hk | hk
        · cases (hpast.timer hk).symm.trans htext
        · -- the text of a later time is another text
          obtain ⟨n, hn, hlt, hn'⟩ := hpast.schedule hk
          rw [htext', hn] at heq
          cases heq
          have := (toISOString_le_iff hn' hyears).1 hbefore
          omega

theorem Invariant.complete (h : Invariant host s) (hw : s.works k = some w)
    (hphase : w.phase = .running t) :
    Invariant host
      { s.advance k w (.acted t) with log := s.log ++ [.completed w.id t w.now] } := by
  have hactive : w.phase ≠ .settled := by simp [hphase]
  obtain ⟨u, hu, hholds⟩ := h.holds k w hw hactive
  obtain ⟨hkind, hnext, hvalid⟩ := hholds.read t (.inl hphase)
  have hmoved : Invariant host (s.advance k w (.acted t)) := by
    refine h.advance hw hactive (fun r hr => ?_) fun u' hu' r hr => ?_
    · cases hphase.symm.trans hr
    · obtain rfl := some_inj.1 (hu.symm.trans hu')
      rcases hr with hr | hr <;> cases hr
      exact ⟨hkind, hnext, hvalid⟩
  refine hmoved.logged nofun ?_ fun e he => by cases e <;> trivial
  rintro _ _ _ ⟨⟩
  refine ⟨h.inYears hw, ?_, u, hu, hkind.symm, .inl ?_⟩
  · rw [Trigger.isDue, hnext]
    exact hholds.due
  · exact ⟨k, _, Function.update_self k _ _, rfl, rfl, rfl⟩

/-- What is written after the action: the next check of a timer is none, that of a schedule is past
the time of the tick. -/
theorem written_of_recurs (hyears : InYears w.now) (hpolled : t.kind = .timer ∨ t.kind = .schedule)
    (hvalid : validateIncomingConfig host t.kind t.config = true)
    (hrecurs : t.kind = .schedule → Recurs host t.config w.now) (hkind : t.kind = r.kind) :
    ((written host w t).getD (fun r => r) r).kind = r.kind ∧
      ((written host w t).getD (fun r => r) r).config = r.config ∧
      Past ((written host w t).getD (fun r => r) r) w.now := by
  unfold written
  rcases hpolled with htimer | hschedule
  · rw [htimer]
    refine ⟨rfl, rfl, fun _ => rfl, fun hs => ?_⟩
    cases (htimer.symm.trans hkind).trans hs
  · obtain ⟨n, hn, hlt, hn'⟩ :=
      computeNextForSchedule_of_recurs hyears (hschedule ▸ hvalid) (hrecurs hschedule)
    rw [hschedule, hn]
    refine ⟨rfl, rfl, fun ht => ?_, fun _ => ⟨n, rfl, hlt, hn'⟩⟩
    cases (hschedule.symm.trans hkind).trans ht

theorem Past.trans {now' : ℤ} (h : Past t now) (hdue : t.isDue now' = true)
    (hyears : InYears now') (hkind : r.kind = t.kind) (hpast : Past r now') : Past r now := by
  obtain ⟨text, htext, hle⟩ := Trigger.isDue_iff.1 hdue
  refine ⟨hpast.timer, fun hs => ?_⟩
  obtain ⟨n, hn, hlt, hn'⟩ := hpast.schedule hs
  obtain ⟨m, hm, hlt', hm'⟩ := h.schedule (hkind.symm.trans hs)
  cases hm.symm.trans htext
  have := (toISOString_le_iff hm' hyears).1 hle
  exact ⟨n, hn, by omega, hn'⟩

/-- After its action a trigger is checked next past the time of the tick. -/
theorem Invariant.settle (h : Invariant host s) (hw : s.works k = some w)
    (hphase : w.phase = .acted t) (hrecurs : t.kind = .schedule → Recurs host t.config w.now) :
    Invariant host ((s.rewrite w.id fun r =>
      r.ifHeld w.owner ((written host w t).getD fun r => r)).advance k w .settled) := by
  have hactive : w.phase ≠ .settled := by simp [hphase]
  obtain ⟨u, hu, hholds⟩ := h.holds k w hw hactive
  obtain ⟨hkind, hnext, hvalid⟩ := hholds.read t (.inr hphase)
  have hyears := h.inYears hw
  obtain ⟨hkind', hconfig', hpast'⟩ :=
    written_of_recurs hyears (hkind ▸ hholds.polled) hvalid hrecurs hkind
  have hwritten : (s.rewrite w.id fun r => r.ifHeld w.owner ((written host w t).getD fun r => r)).triggers
      w.id = some ((written host w t).getD (fun r => r) u) := by
    rw [State.rewrite_self, hu, map_some, ifHeld_of_owner hholds.owner]
  generalize (written host w t).getD (fun r => r) u = u' at *
  -- no other work is active on the trigger
  have halone : ∀ k' w', s.works k' = some w' → k' ≠ k → w'.id = w.id → w'.phase = .settled :=
    fun k' w' hw' hne hid => (h.single k w k' w' hw hw' hne.symm hid.symm hactive).1
  refine ⟨h.clock, ?_, ?_, ?_, ?_, h.early, ?_, h.again⟩
  · intro id' t' ht'
    by_cases hid : id' = w.id
    · rw [hid] at ht'
      obtain rfl := some_inj.1 (hwritten.symm.trans ht')
      have hrow := h.row w.id u hu
      refine ⟨fun htimer i hi => ?_, ?_, fun hschedule => ?_⟩
      · -- a timer that was due is past its instant
        rw [hpast'.timer htimer]
        obtain ⟨text, htext, hle⟩ := Trigger.isDue_iff.1 hholds.due
        have hfits := hrow.fits (hkind'.symm.trans htimer) i (by rwa [← hconfig'])
        rw [htext] at hfits
        exact (hfits.1 w.now hyears hle).trans (h.time k w hw).2
      · rw [hkind', hconfig']
        exact hrow.valid
      · obtain ⟨n, hn, -, -⟩ := hpast'.schedule hschedule
        exact ⟨_, hn, everDue_toISOString n⟩
    · exact h.row id' t' ((State.rewrite_of_ne hid s _).symm.trans ht')
  · intro k' w' hw'
    rcases of_update_some hw' with ⟨rfl, rfl⟩ | ⟨-, hw'⟩
    · exact h.time _ w hw
    · exact h.time k' w' hw'
  · intro k' w' hw' hactive'
    rcases of_update_some hw' with ⟨rfl, rfl⟩ | ⟨hne, hw'⟩
    · exact absurd rfl hactive'
    · have hid : w'.id ≠ w.id := fun hid => hactive' (halone k' w' hw' hne hid)
      obtain ⟨v, hv, hholds'⟩ := h.holds k' w' hw' hactive'
      exact ⟨v, (State.rewrite_of_ne hid s _).trans hv, hholds'⟩
  · intro k₁ w₁ k₂ w₂ h₁ h₂ hne hid hactive₁
    rcases of_update_some h₁ with ⟨rfl, rfl⟩ | ⟨hne₁, h₁'⟩
    · exact absurd rfl hactive₁
    · rcases of_update_some h₂ with ⟨rfl, rfl⟩ | ⟨-, h₂'⟩
      · exact absurd (halone k₁ w₁ h₁' hne₁ hid) hactive₁
      · exact h.single k₁ w₁ k₂ w₂ h₁' h₂' hne hid hactive₁
  · intro id' t' now' hmem
    obtain ⟨hyears', hdue, v, hv, hkindv, hpast⟩ := h.past id' t' now' hmem
    by_cases hid : id' = w.id
    · subst hid
      obtain rfl := some_inj.1 (hu.symm.trans hv)
      refine ⟨hyears', hdue, u', hwritten, hkind'.trans hkindv, .inr ?_⟩
      rcases hpast with ⟨k', w', hw', hid', hacted, rfl⟩ | hpast
      · by_cases hne : k' = k
        · subst hne
          obtain rfl := some_inj.1 (hw.symm.trans hw')
          exact hpast'
        · cases (halone k' w' hw' hne hid').symm.trans hacted
      · exact hpast.trans hholds.due hyears hkind' hpast'
    · refine ⟨hyears', hdue, v, (State.rewrite_of_ne hid s _).trans hv, hkindv, hpast.imp_left ?_⟩
      rintro ⟨k', w', hw', hid', hwork⟩
      refine ⟨k', w', ?_, hid', hwork⟩
      have hne : k' ≠ k := by
        rintro rfl
        obtain rfl := some_inj.1 (hw.symm.trans hw')
        exact hid hid'.symm
      exact (Function.update_of_ne hne _ _).trans hw'

theorem Invariant.drop (h : Invariant host s) (hw : s.works k = some w)
    (hphase : w.phase = .settled) :
    Invariant host { s with works := Function.update s.works k none } where
  clock := h.clock
  row := h.row
  time k' w' hw' := h.time k' w' (of_update_none hw').2
  holds k' w' hw' := h.holds k' w' (of_update_none hw').2
  single k₁ w₁ k₂ w₂ h₁ h₂ := h.single k₁ w₁ k₂ w₂ (of_update_none h₁).2 (of_update_none h₂).2
  early := h.early
  past id' t' now' hmem := by
    obtain ⟨hyears, hdue, u, hu, hkind, hpast⟩ := h.past id' t' now' hmem
    refine ⟨hyears, hdue, u, hu, hkind, hpast.imp_left ?_⟩
    rintro ⟨k', w', hw', hid, hacted, hnow⟩
    refine ⟨k', w', ?_, hid, hacted, hnow⟩
    have hne : k' ≠ k := by
      rintro rfl
      obtain rfl := some_inj.1 (hw.symm.trans hw')
      cases hphase.symm.trans hacted
    exact (Function.update_of_ne hne _ _).trans hw'
  again := h.again

/-- Every step that meets the condition keeps the invariant. -/
theorem Invariant.step (h : Invariant host s) (hstep : Step host s l s') (hmeets : Meets host s l) :
    Invariant host s' := by
  cases hstep with
  | pass hle => exact h.pass hle hmeets
  | @create id kind config enabled next hnew hvalid hnext =>
    refine h.insert hnew ⟨fun hk => ?_, hvalid, fun hk => ?_⟩
    · cases hk
      exact hmeets next hnext
    · cases hk
      obtain ⟨n, -, rfl⟩ := map_eq_some_iff.1 hnext
      exact ⟨_, rfl, everDue_toISOString n⟩
  | @patch id enabled config t ht hvalid =>
    refine h.rewrite (fun u hu => ?_) (fun _ => ⟨rfl, rfl⟩) fun _ _ _ _ _ _ howner => howner
    obtain rfl := some_inj.1 (ht.symm.trans hu)
    have hrow := h.row id t ht
    cases config with
    | none => exact ⟨hrow.fits, hrow.valid, hrow.ever⟩
    | some config => exact ⟨hmeets t ht, hvalid, hrow.ever⟩
  | claim ht hk hnow hclaim => exact h.claim ht hk hnow hclaim hmeets
  | fire hw hphase ht => exact h.fire hw hphase ht
  | complete hw hphase => exact h.complete hw hphase
  | fail hw hphase =>
    refine h.advance hw ?_ (fun r hr => ?_) fun _ _ r hr => ?_
    · rw [hphase]
      exact Phase.noConfusion
    · cases hphase.symm.trans hr
    · rcases hr with hr | hr <;> cases hr
  | settle hw hphase => exact h.settle hw hphase (hmeets _ _ hw hphase)
  | renew hw =>
    refine h.rewrite (fun u hu => ?_) (fun u => ?_) fun _ _ u _ _ _ howner => ?_
    · have hrow := h.row _ u hu
      exact ifHeld_keeps hrow ⟨hrow.fits, hrow.valid, hrow.ever⟩
    · exact ifHeld_keeps (P := fun r => r.kind = u.kind ∧ r.nextCheckAt = u.nextCheckAt)
        ⟨rfl, rfl⟩ ⟨rfl, rfl⟩
    · exact ifHeld_keeps (P := fun r => r.leaseOwner = some _) howner howner
  | @release k w hw hphase =>
    have hbase : Invariant host (s.rewrite w.id fun r => r.ifHeld w.owner Trigger.unleased) := by
      refine h.rewrite (fun u hu => ?_) (fun u => ?_) fun k' w' u hw' hid hactive howner => ?_
      · have hrow := h.row _ u hu
        exact ifHeld_keeps hrow ⟨hrow.fits, hrow.valid, hrow.ever⟩
      · exact ifHeld_keeps (P := fun r => r.kind = u.kind ∧ r.nextCheckAt = u.nextCheckAt)
          ⟨rfl, rfl⟩ ⟨rfl, rfl⟩
      · -- a work that is active has another owner
        have hne : k' ≠ k := by
          rintro rfl
          obtain rfl := some_inj.1 (hw.symm.trans hw')
          exact hactive hphase
        have hother := (h.single k' w' k w hw' hw hne hid hactive).2
        rw [Trigger.ifHeld, if_neg]
        · exact howner
        · rw [howner]
          exact fun heq => hother (some_inj.1 heq).symm
    exact hbase.drop hw hphase

theorem invariant_init : Invariant host init where
  clock := ⟨le_rfl, by decide⟩
  row _ _ h := by cases h
  time _ _ h := by cases h
  holds _ _ h := by cases h
  single _ _ _ _ h := by cases h
  early _ _ _ h := by cases h
  past _ _ _ h := by cases h
  again := .nil

theorem Invariant.disciplined (h : Invariant host s) : Disciplined host s where
  early := h.early
  again := h.again
  moved id t now hmem hkind := by
    obtain ⟨-, -, r, hr, hkind', hpast⟩ := h.past id t now hmem
    refine hpast.imp_right fun hpast => ?_
    obtain ⟨n, hn, hlt, -⟩ := hpast.schedule (hkind'.trans hkind)
    exact ⟨r, n, hr, hn, hlt⟩
  armed id t ht henabled hupcoming := by
    have hrow := h.row id t ht
    have hever : (t.kind = .timer ∨ t.kind = .schedule) ∧
        ∃ text, t.nextCheckAt = some text ∧ EverDue text := by
      unfold Upcoming at hupcoming
      cases hkind : t.kind with
      | timer =>
        rw [hkind] at hupcoming
        obtain ⟨i, hi, hfuture⟩ := hupcoming
        have hfits := hrow.fits hkind i hi
        cases hnext : t.nextCheckAt with
        | none =>
          rw [hnext] at hfits
          exact absurd hfits (not_le.2 hfuture)
        | some text =>
          rw [hnext] at hfits
          exact ⟨.inl rfl, text, rfl, hfits.2.resolve_left (not_le.2 hfuture)⟩
      | schedule => exact ⟨.inr rfl, hrow.ever hkind⟩
      | eventRule | conditionWatch => rw [hkind] at hupcoming; exact hupcoming.elim
    obtain ⟨hpolled, text, htext, n, hn, hdue⟩ := hever
    refine ⟨n, hn, fun now hnow hle hfree => ?_⟩
    simp only [Trigger.claimable, Bool.and_eq_true, Bool.or_eq_true, decide_eq_true_iff]
    exact ⟨⟨⟨henabled, hpolled⟩, hfree⟩, Trigger.isDue_iff.2 ⟨text, htext, hdue now hnow hle⟩⟩

/-- **Timers and schedules fire when they should**, in every run whose steps meet the condition. -/
theorem timers_disciplined {h : List Label}
    (hrun : ((machine host).restrict fun s l _ => Meets host s l).Run h s) : Disciplined host s :=
  (hrun.invariant invariant_init fun _ _ _ hinv hstep =>
    hinv.step (step_of_perform hstep.1) hstep.2).disciplined

/-- The clock shows universal time, and two texts are known to be dates. -/
def plainHost : Host where
  zone :=
    { offset := fun _ => 0
      small := fun _ => by decide
      once := fun r => ⟨r, fun _ _ _ => by split_ifs <;> rfl⟩ }
  toNumber _ := .nan
  addMinutes t m := timeClip (t + ⌊m * 60000⌋)
  addMinutes_le t m t' hm h := by
    have hfloor : 60000 ≤ ⌊m * 60000⌋ := Int.le_floor.2 (by push_cast; linarith)
    rw [timeClip_eq_some h]
    omega
  bindText _ := none
  instant value :=
    if value = .str "2026-01-01T10:00:00-07:00" then some 1767286800000
    else if value = .str "1970-01-01T02:00:00.000Z" then some 7200000
    else none
  isSafePattern _ := true

theorem snoc_step {h : List Label} (hrun : (machine host).Run h s) (hstep : Step host s l s') :
    (machine host).Run (h ++ [l]) s' := hrun.snoc hstep.perform

theorem snoc_meets {h : List Label}
    (hrun : ((machine host).restrict fun s l _ => Meets host s l).Run h s)
    (hstep : Step host s l s') (hmeets : Meets host s l) :
    ((machine host).restrict fun s l _ => Meets host s l).Run (h ++ [l]) s' :=
  hrun.snoc ⟨hstep.perform, hmeets⟩

/-- The configuration of a timer for two o'clock. -/
def alarmConfig : Json := .obj [("fireAt", .str "1970-01-01T02:00:00.000Z")]

theorem fits_alarmConfig : Fits plainHost 0 (some "1970-01-01T02:00:00.000Z") alarmConfig := by
  intro i hi
  have htext : "1970-01-01T02:00:00.000Z" = toISOString 7200000 := by decide +kernel
  obtain rfl : 7200000 = i :=
    some.inj ((by decide +kernel : fireInstant plainHost alarmConfig = some 7200000).symm.trans hi)
  rw [htext]
  exact ⟨fun now hnow => (toISOString_le_iff (by decide) hnow).1, .inr (everDue_toISOString _)⟩

/-- A schedule without a recurrence fires after an hour, and a timer after two. -/
theorem timers_disciplined_alarm : ∃ h s,
    ((machine plainHost).restrict fun s l _ => Meets plainHost s l).Run h s ∧
      Disciplined plainHost s ∧ s.log.length = 4 ∧
      ∃ t, t.kind = .timer ∧ .completed "alarm" t 7200000 ∈ s.log := by
  let hourly : Trigger := ⟨.schedule, true, .obj [], some (toISOString 3600000), none, none⟩
  let alarm : Trigger :=
    ⟨.timer, true, alarmConfig, some "1970-01-01T02:00:00.000Z", none, none⟩
  have h₀ : ((machine plainHost).restrict fun s l _ => Meets plainHost s l).Run [] init := .nil
  have h₁ := snoc_meets h₀ (l := .create "hourly" .schedule none true)
    (.create rfl rfl rfl) trivial
  have hnext : computeInitialNextCheckAt plainHost .timer alarmConfig 0 =
      some (some "1970-01-01T02:00:00.000Z") := rfl
  have h₂ := snoc_meets h₁ (l := .create "alarm" .timer (some alarmConfig) true)
    (.create rfl rfl hnext) ?_
  have h₃ := snoc_meets h₂ (l := .pass 3600000) (.pass (by decide))
    (show InYears 3600000 by decide)
  have h₄ := snoc_meets h₃ (l := .claim 0 "hourly" "scheduler" 3600000 300000)
    (.claim (t := hourly) rfl rfl (by decide) (by decide +kernel)) fun _ _ h => nomatch h
  have h₅ := snoc_meets h₄ (l := .fire 0) (.fire rfl rfl rfl) trivial
  have h₆ := snoc_meets h₅ (l := .complete 0) (.complete rfl rfl) trivial
  have h₇ := snoc_meets h₆ (l := .settle 0) (.settle rfl rfl) ?_
  have h₈ := snoc_meets h₇ (l := .pass 7200000) (.pass (by decide))
    (show InYears 7200000 by decide)
  have h₉ := snoc_meets h₈ (l := .claim 1 "alarm" "scheduler" 7200000 300000)
    (.claim (t := alarm) rfl rfl (by decide) (by decide +kernel)) ?_
  have h₁₀ := snoc_meets h₉ (l := .fire 1) (.fire rfl rfl rfl) trivial
  have h₁₁ := snoc_meets h₁₀ (l := .complete 1) (.complete rfl rfl) trivial
  have h₁₂ := snoc_meets h₁₁ (l := .settle 1) (.settle rfl rfl) ?_
  · exact ⟨_, _, h₁₂, timers_disciplined h₁₂, rfl, alarm.leased "scheduler" 7500000, rfl,
      mem_append_right _ (mem_singleton.2 rfl)⟩
  · rintro w t ⟨⟩ ⟨⟩ ⟨⟩
  · -- the work on the schedule is not that on the timer
    rintro (_ | k) w hw hid
    · cases hw
      exact absurd hid (by decide)
    · cases hw
  · rintro w t ⟨⟩ ⟨⟩ -
    exact (by decide : InYears 7200000)
  · rintro next ⟨⟩
    exact fits_alarmConfig

/-- A timer for ten o'clock, seven hours behind, fires at ten o'clock universal time. -/
theorem timer_fires_early : ∃ h s, (machine plainHost).Run h s ∧ s.clock = 1767261600000 ∧
    ¬Disciplined plainHost s := by
  let config : Json := .obj [("fireAt", .str "2026-01-01T10:00:00-07:00")]
  let row : Trigger := ⟨.timer, true, config, some "2026-01-01T10:00:00-07:00", none, none⟩
  have h₀ : (machine plainHost).Run [] init := .nil
  have h₁ := snoc_step h₀ (l := .create "t" .timer config true)
    (.create rfl rfl rfl)
  have h₂ := snoc_step h₁ (l := .pass 1767261600000) (.pass (by decide))
  have h₃ := snoc_step h₂ (l := .claim 0 "t" "scheduler" 1767261600000 300000)
    (.claim (t := row) rfl rfl (by decide) (by decide +kernel))
  have h₄ := snoc_step h₃ (l := .fire 0) (.fire rfl rfl rfl)
  refine ⟨_, _, h₄, rfl, fun h => ?_⟩
  have hlate := h.early "t" _ _ (mem_singleton.2 rfl) rfl 1767286800000
    (by decide +kernel)
  exact absurd hlate (by decide)

end U2os.Server.Triggers.Timing
