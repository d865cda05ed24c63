import Mathlib.Algebra.Order.Group.Int
import U2os.Lib.Window
import U2os.Majordomo.Scheduler.Slots

/-!
# The hourly limit

A claim counts the runs whose stored time lies within an hour before its own clock reading, and
is throttled at thirty of them.  Manual runs count but are not throttled.  The clocks of the
instances need not agree nor go forwards: a window is one of stored times, and in it lies at most
one run more than the last of its runs to be claimed had counted.

The log tells the same: its routine events are, in order, those of the rows.
-/

namespace U2os.Majordomo.Scheduler

open List Option

/-- What the hourly limit is about. -/
structure Ticket where
  runId : String
  manual : Bool
  throttled : Bool
  createdAtMs : Int
  deriving DecidableEq, Repr

/-- The ticket of a row. -/
def ticket (x : SchedulerRun) : Ticket :=
  ⟨x.id, x.triggerKind = "manual", x.status = .throttled, x.createdAtMs⟩

/-- The tickets of the rows, in the order of the claims. -/
def tickets (runs : Runs) : List Ticket := runs.rows.map ticket

/-- The limit is about runs that are neither manual nor throttled. -/
def Ticket.limited (k : Ticket) : Bool := !k.manual && !k.throttled

/-- What the event of a claim says: its type, its run and its time. -/
def Ticket.report (k : Ticket) : String × Option String × Int :=
  (if k.throttled then "routine.failed" else "routine.fired", some k.runId, k.createdAtMs)

/-- An event of a claim. -/
def isReport (e : Event) : Bool := e.eventType = "routine.fired" || e.eventType = "routine.failed"

/-- What the events of claims say. -/
def reports (log : EventLog) : List (String × Option String × Int) :=
  (log.events.filter isReport).map fun e => (e.eventType, e.correlationId, e.tsMs)

/-- The invariant of the database. -/
structure Limited (d : Db) : Prop where
  /-- Every hour holds at most so many runs that are neither manual nor throttled. -/
  bounded : Window.Bounded Ticket.createdAtMs hourMs maxRunsPerHour
    ((tickets d.runs).filter Ticket.limited)
  /-- Manual runs are not throttled. -/
  manual : ∀ k ∈ tickets d.runs, k.manual = true → k.throttled = false
  /-- Each run has its event, in the same order. -/
  reported : reports d.events = (tickets d.runs).map Ticket.report

section

variable {d d' : Db} {q : Request} {now : Int} {s s' : Session}

theorem Limited.empty : Limited Db.empty where
  bounded := Window.bounded_nil
  manual := fun _ h => absurd h not_mem_nil
  reported := rfl

theorem Limited.congr (h : Limited d) (hruns : tickets d'.runs = tickets d.runs)
    (hlog : reports d'.events = reports d.events) : Limited d' := by
  refine ⟨?_, ?_, ?_⟩
  · rw [hruns]
    exact h.bounded
  · rw [hruns]
    exact h.manual
  · rw [hlog, hruns]
    exact h.reported

theorem ticket_claimedRow (runId : String) (throttled : Bool) :
    ticket (claimedRow q runId now throttled) =
      ⟨runId, q.triggerKind = "manual", throttled, now⟩ := by
  cases throttled <;> rfl

theorem length_recent_le_recentRuns {runs : Runs} {runId : String}
    (hid : ∀ y ∈ runs, y.id ≠ runId) :
    (Window.recent Ticket.createdAtMs hourMs now
      ((tickets runs).filter Ticket.limited)).length ≤ recentRuns runs runId now := by
  have hcounted : (tickets runs).countP (fun k => now < k.createdAtMs + hourMs ∧ k.limited) ≤
      runs.rows.countP fun x =>
        now - hourMs < x.createdAtMs ∧ x.status ≠ .throttled ∧ x.id ≠ runId := by
    rw [tickets, countP_map]
    refine countP_mono_left fun x hx hk => ?_
    simp only [Function.comp_apply, ticket, Ticket.limited, Bool.and_eq_true, Bool.not_eq_true',
      decide_eq_false_iff_not, decide_eq_true_eq] at hk ⊢
    exact ⟨by omega, hk.2.2, hid x hx⟩
  have hrecent : (Window.recent Ticket.createdAtMs hourMs now
      ((tickets runs).filter Ticket.limited)).length =
        (tickets runs).countP fun k => now < k.createdAtMs + hourMs ∧ k.limited := by
    rw [Window.recent, List.filter_filter, ← countP_eq_length_filter]
    simp only [Bool.decide_and, Bool.decide_eq_true]
  rw [hrecent]
  exact hcounted.trans (countP_eq_length_filter.le)

theorem reports_append {log log' : EventLog} {ev : Event}
    (h : log'.events = log.events ++ [ev]) : reports log' = reports log ++
      if isReport ev then [(ev.eventType, ev.correlationId, ev.tsMs)] else [] := by
  unfold reports
  rw [h, filter_append, map_append]
  cases hev : isReport ev with
  | true => rw [filter_cons_of_pos hev]; rfl
  | false => rw [filter_cons_of_neg (by simp [hev])]; rfl

/-- A claim does not exceed the limit of the hour. -/
theorem claim_limited {r : Option Claim} (hd : Limited s.db) (h : (claim q now).Ok s r s') :
    Limited s'.db := by
  rcases claim_spec h with ⟨-, hdb⟩ |
    ⟨runId, throttled, runs, ev, log, -, hthr, -, hfresh, hrows, hev, hts, hlog, hdb⟩
  · rw [hdb]
    exact hd
  · rw [hdb]
    have htickets : tickets runs = tickets s.db.runs ++
        [⟨runId, q.triggerKind = "manual", throttled, now⟩] := by
      rw [tickets, hrows, map_append, map_singleton, ticket_claimedRow]
      rfl
    refine ⟨?_, fun k hk hmanual => ?_, ?_⟩
    · rw [htickets, filter_append]
      by_cases hlimited : Ticket.limited ⟨runId, q.triggerKind = "manual", throttled, now⟩ = true
      · rw [filter_cons_of_pos hlimited]
        simp only [Ticket.limited, Bool.and_eq_true, Bool.not_eq_true',
          decide_eq_false_iff_not] at hlimited
        -- the claim was not throttled, so what it counted was below the limit
        refine hd.bounded.push (lt_of_le_of_lt (length_recent_le_recentRuns hfresh) ?_) le_rfl
        by_contra hfull
        rw [hthr.2 ⟨hlimited.1, not_lt.1 hfull⟩] at hlimited
        exact Bool.noConfusion hlimited.2
      · rw [filter_cons_of_neg hlimited, filter_nil, append_nil]
        exact hd.bounded
    · rw [htickets] at hk
      rcases List.mem_append.1 hk with hk | hk
      · exact hd.manual k hk hmanual
      · obtain rfl := mem_singleton.1 hk
        exact Bool.eq_false_iff.2 fun ht => (hthr.1 ht).1 (of_decide_eq_true hmanual)
    · show reports log = _
      rw [reports_append hlog, htickets, map_append, hd.reported]
      have hcause := congrArg NewEvent.correlationId hev
      have htype := congrArg NewEvent.eventType hev
      cases throttled with
      | true | false => rw [isReport, htype, hcause, hts]; rfl

/-- Neither a run nor an event of a claim is added. -/
def Quiet (d d' : Db) : Prop :=
  tickets d'.runs = tickets d.runs ∧ reports d'.events = reports d.events

theorem Quiet.refl (d : Db) : Quiet d d := ⟨rfl, rfl⟩

theorem Quiet.limited (h : Quiet d d') (hd : Limited d) : Limited d' := hd.congr h.1 h.2

theorem reports_transition {log log' : EventLog} {ev : Event} {a : Action} {f : Option Status}
    {trigger : String} {extra : List (String × Json)} (h : log'.events = log.events ++ [ev])
    (hev : ev.toNewEvent = transitionEvent a f trigger extra) : reports log' = reports log := by
  have htype : ev.eventType = eventType := congrArg NewEvent.eventType hev
  have hother : isReport ev = false := by
    rw [isReport, htype]
    rfl
  rw [reports_append h, hother]
  exact append_nil _

theorem change_quiet {ch : Change} (hst : DbStep d ch d') : Quiet d d' := by
  cases hst with
  | submitted hf hk hi hl he hx | moved ha hn hm hl he hx => exact ⟨rfl, reports_transition hl he⟩
  | renewed => exact ⟨rfl, rfl⟩

theorem changes_quiet {cs : List Change} (hst : changes.Steps d cs d') : Quiet d d' :=
  hst.invariant (I := Quiet d) (Quiet.refl d) fun _ _ _ hi hs =>
    ⟨(change_quiet hs).1.trans hi.1, (change_quiet hs).2.trans hi.2⟩

theorem tickets_markEnqueued (runs : Runs) (runId actionId : String) :
    tickets (markEnqueued runs runId actionId now) = tickets runs := by
  show (runs.rows.map _).map ticket = _
  rw [List.map_map]
  refine map_congr_left fun x _ => ?_
  rw [Function.comp_apply]
  split_ifs with hx
  · show Ticket.mk x.id _ (decide (RunStatus.enqueued = .throttled)) _ = Ticket.mk x.id _ _ _
    rw [hx.2]
    rfl
  · rfl

/-- A piece of a task is a claim, or it starts no run. -/
theorem Task.step_quiet {sha256 : String → String} {t : ℕ} {k : Task} {r : Label × Task × Session}
    (h : k.step sha256 t now s = some r) :
    (∃ q c, r.1 = .claimed t q c ∧ (claim q now).Ok s c r.2.2) ∨
      Quiet s.db r.2.2.db ∧ ∀ t q c, r.1 ≠ .claimed t q c := by
  have hfailed : ∀ {e e'} {α : Type} {x : SchedulerTx α} {s' : Session},
      x.atomically s = (.error e, s') → Quiet s.db s'.db ∧
        ∀ t' q c, Label.failed t e' ≠ .claimed t' q c := fun herr =>
    ⟨Tx.atomically_error herr ▸ Quiet.refl _, by simp⟩
  cases k with
  | idle => cases h
  | claiming q =>
    simp only [Task.step] at h
    split at h <;> obtain rfl := some_inj.1 h
    · next hc => exact .inl ⟨q, _, rfl, Tx.atomically_ok.1 hc⟩
    · next hc => exact .inr (hfailed hc)
  | firing q rest =>
    simp only [Task.step] at h
    split at h <;> obtain rfl := some_inj.1 h
    · next hc => exact .inl ⟨q, _, rfl, Tx.atomically_ok.1 hc⟩
    · next hc => exact .inl ⟨q, _, rfl, Tx.atomically_ok.1 hc⟩
    · next hc => exact .inr (hfailed hc)
  | recovering fires =>
    obtain rfl := some_inj.1 h
    exact .inr ⟨Quiet.refl _, by simp⟩
  | enqueueing c pending fires =>
    simp only [Task.step] at h
    split_ifs at h with hthr
    · obtain rfl := some_inj.1 h
      exact .inr ⟨Quiet.refl _, by simp⟩
    · split at h <;> obtain rfl := some_inj.1 h
      · next hsub =>
        obtain ⟨key, -, ⟨-, -, hdb⟩ | ⟨-, -, -, -, -, hstep⟩⟩ := submit_ok (Tx.atomically_ok.1 hsub)
        · exact .inr ⟨hdb ▸ Quiet.refl _, by simp⟩
        · exact .inr ⟨change_quiet hstep, by simp⟩
      · next hsub => exact .inr ⟨Tx.atomically_error hsub ▸ Quiet.refl _, by simp⟩
  | marking c i pending fires =>
    obtain rfl := some_inj.1 h
    exact .inr ⟨⟨tickets_markEnqueued _ _ _, rfl⟩, by simp⟩

/-- A request that starts claims nothing yet. -/
theorem Entry.start_quiet {e : Entry} {sc : Instance} {returned : List Claim} {t : ℕ}
    {r : Label × Task × Session} (h : e.start sc returned t now s = some r) :
    Quiet s.db r.2.2.db ∧ ∀ t q c, r.1 ≠ .claimed t q c := by
  cases e with
  | tick dueNow =>
    have hlease : ∀ b s', (acquireLease sc now).Ok s b s' → Quiet s.db s'.db := by
      intro b s' hok
      simp only [acquireLease, Tx.ok_bind, Tx.ok_get] at hok
      obtain ⟨_, _, ⟨rfl, rfl⟩, hok⟩ := hok
      split_ifs at hok
      · obtain ⟨-, rfl⟩ := Tx.ok_pure.1 hok
        exact Quiet.refl _
      · simp only [Tx.ok_bind, Tx.ok_set, Tx.ok_pure] at hok
        obtain ⟨_, _, rfl, -, rfl⟩ := hok
        exact ⟨rfl, rfl⟩
    simp only [Entry.start] at h
    split at h <;> obtain rfl := some_inj.1 h
    · next hok => exact ⟨hlease _ _ (Tx.atomically_ok.1 hok), by simp⟩
    · next hok => exact ⟨hlease _ _ (Tx.atomically_ok.1 hok), by simp⟩
    · next herr => exact ⟨Tx.atomically_error herr ▸ Quiet.refl _, by simp⟩
  | onEvent eventId event =>
    obtain rfl := some_inj.1 h
    exact ⟨Quiet.refl _, by simp⟩
  | runNow routine =>
    simp only [Entry.start] at h
    split_ifs at h
    · split at h <;> obtain rfl := some_inj.1 h
      · next hid =>
        have hdb := (newId_ok (Tx.atomically_ok.1 hid)).1
        exact ⟨hdb ▸ Quiet.refl _, by simp⟩
      · next herr => exact ⟨Tx.atomically_error herr ▸ Quiet.refl _, by simp⟩
    · obtain rfl := some_inj.1 h
      exact ⟨Quiet.refl _, by simp⟩
  | recover | fire q | claim q =>
    obtain rfl := some_inj.1 h
    exact ⟨Quiet.refl _, by simp⟩
  | enqueue c =>
    simp only [Entry.start] at h
    split_ifs at h
    obtain rfl := some_inj.1 h
    exact ⟨Quiet.refl _, by simp⟩
  | releaseLease =>
    obtain rfl := some_inj.1 h
    refine ⟨?_, by simp⟩
    show Quiet s.db (Scheduler.releaseLease sc s.db)
    unfold Scheduler.releaseLease
    split_ifs <;> exact ⟨rfl, rfl⟩

end

section

variable {sha256 : String → String} {sc : ℕ → Instance} {h : List Label} {s s' : Sched}

theorem step_claims {l : Label} (hst : (scheduler sha256 sc).step s l s') :
    (∃ t q c now random rest, l = .claimed t q c ∧
      (claim q now).Ok ⟨s.db, random⟩ c ⟨s'.db, rest⟩) ∨
      Quiet s.db s'.db ∧ ∀ t q c, l ≠ .claimed t q c := by
  obtain ⟨i, hstep⟩ := hst
  cases i with
  | start t e now random =>
    simp only [step?] at hstep
    split at hstep
    · obtain ⟨r, hr, heq⟩ := map_eq_some_iff.1 hstep
      cases heq
      exact .inr (Entry.start_quiet (s := ⟨s.db, random⟩) hr)
    · cases hstep
  | proceed t now random =>
    obtain ⟨r, hr, heq⟩ := map_eq_some_iff.1 hstep
    cases heq
    rcases Task.step_quiet (s := ⟨s.db, random⟩) hr with ⟨q, c, hl, hc⟩ | hquiet
    · exact .inl ⟨t, q, c, now, random, r.2.2.random, hl, hc⟩
    · exact .inr hquiet
  | crash t =>
    cases hstep
    exact .inr ⟨Quiet.refl _, by simp⟩
  | external op now random =>
    cases hstep
    obtain ⟨cs, hcs, -⟩ := Call.changes_of_step (step_exec sha256 s.db op now random)
    exact .inr ⟨changes_quiet hcs, by simp⟩

theorem scheduler_limited (hr : (scheduler sha256 sc).Run h s) : Limited s.db := by
  refine hr.invariant (I := fun s : Sched => Limited s.db) Limited.empty fun s l s' hi hst => ?_
  rcases step_claims hst with ⟨_, _, _, _, _, _, -, hc⟩ | ⟨hquiet, -⟩
  · exact claim_limited hi hc
  · exact hquiet.limited hi

/-- What a claim that takes its slot does to the database, at its reading of the clock. -/
structure Claims (d : Db) (q : Request) (c : Claim) (now : Int) (d' : Db) : Prop where
  /-- One run is added. -/
  run : ∃ x, d'.runs.rows = d.runs.rows ++ [x] ∧ x.id = c.runId ∧ x.triggerKind = q.triggerKind ∧
    x.createdAtMs = now ∧ (x.status = .throttled ↔ c.throttled = true)
  /-- One event is added. -/
  event : ∃ ev, d'.events.events = d.events.events ++ [ev] ∧ ev.tsMs = now ∧
    ev.correlationId = some c.runId ∧
    ev.eventType = if c.throttled then "routine.failed" else "routine.fired"
  /-- A manual run is not throttled. -/
  manual : q.triggerKind = "manual" → c.throttled = false

theorem claims_of_ok {q : Request} {c : Claim} {now : Int} {s s' : Session}
    (h : (claim q now).Ok s (some c) s') : Claims s.db q c now s'.db := by
  rcases claim_spec h with ⟨hnone, -⟩ |
    ⟨runId, throttled, runs, ev, log, hc, hthr, -, -, hrows, hev, hts, hlog, hdb⟩
  · cases hnone
  · cases hc
    rw [hdb]
    refine ⟨⟨_, hrows, ?_, ?_, ?_, ?_⟩, ⟨ev, hlog, hts, ?_, ?_⟩, fun hmanual => ?_⟩
    · cases throttled <;> rfl
    · cases throttled <;> rfl
    · cases throttled <;> rfl
    · cases throttled <;> simp [claimedRow, throttleRow, startedRow]
    · rw [hev]
      cases throttled <;> rfl
    · rw [hev]
      cases throttled <;> rfl
    · exact Bool.eq_false_iff.2 fun ht => (hthr.1 ht).1 hmanual

/-- **The hourly limit.**  In every run, at every clock readings, an hour holds at most thirty runs
that are neither manual nor throttled.  A claim that takes its slot adds its run and one event in one
step and throttles no manual run; the other steps add neither, so the routine events of the log are
those of the rows. -/
theorem hourly_limit (hr : (scheduler sha256 sc).Run h s) :
    (∀ start : Int, s.db.runs.count (fun x => (start < x.createdAtMs ∧
        x.createdAtMs ≤ start + hourMs) ∧ x.triggerKind ≠ "manual" ∧ x.status ≠ .throttled) ≤
          maxRunsPerHour) ∧
      (∀ t q c, Label.claimed t q (some c) ∈ h → ∃ now h₁ h₂ u v,
        h = h₁ ++ .claimed t q (some c) :: h₂ ∧ (scheduler sha256 sc).Run h₁ u ∧
          Claims u.db q c now v.db ∧ (scheduler sha256 sc).Steps v h₂ s) ∧
      reports s.db.events = (tickets s.db.runs).map Ticket.report := by
  have hlimited := scheduler_limited hr
  refine ⟨fun start => ?_, fun t q c hc => ?_, hlimited.reported⟩
  · have hbound := hlimited.bounded start
    rw [countP_filter, tickets, countP_map] at hbound
    refine le_trans (le_of_eq ?_) hbound
    rw [Table.count, ← countP_eq_length_filter]
    refine countP_congr fun x _ => ?_
    rw [decide_eq_true_iff, Function.comp_apply, Bool.and_eq_true, decide_eq_true_iff]
    refine and_congr Iff.rfl ?_
    simp [ticket, Ticket.limited]
  · obtain ⟨h₁, h₂, u, v, rfl, hu, hst, hv⟩ := Machine.Steps.exists_of_mem hr hc
    rcases step_claims hst with ⟨t', q', c', now, random, rest, hl, hok⟩ | ⟨-, hne⟩
    · cases hl
      exact ⟨now, h₁, h₂, u, v, rfl, hu, claims_of_ok hok, hv⟩
    · exact absurd rfl (hne t q (some c))

end

/-- Two claims, the second one manual. -/
theorem hourly_limit_twoRoutines : ∃ h s, (scheduler nullDigest sampleInstance).Run h s ∧
    (tickets s.db.runs).map Ticket.manual = [false, true] ∧
      s.db.runs.count (fun x => ((0 : Int) < x.createdAtMs ∧ x.createdAtMs ≤ 0 + hourMs) ∧
        x.triggerKind ≠ "manual" ∧ x.status ≠ .throttled) ≤ maxRunsPerHour := by
  have hany : (drive nullDigest sampleInstance (scheduler nullDigest sampleInstance).init
      (fireBoth ⟨"brief", "07:30", "daily", none⟩ ⟨"digest", "a", "manual", none⟩)).any
      (fun r => (tickets r.2.db.runs).map Ticket.manual = [false, true]) = true := by
    decide +kernel
  obtain ⟨⟨h, s⟩, hdrive, hmanual⟩ := (Option.any_eq_true _ _).1 hany
  have hr : (scheduler nullDigest sampleInstance).Run h s := steps_drive hdrive
  exact ⟨h, s, hr, of_decide_eq_true hmanual, (hourly_limit hr).1 0⟩

end U2os.Majordomo.Scheduler
