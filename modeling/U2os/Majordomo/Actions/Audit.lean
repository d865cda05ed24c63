import Mathlib.Data.List.Chain
import U2os.Majordomo.Actions.Machine

/-!
# The event log determines the state

The transition events of an action, read in `seq` order, are a chain that starts at its
submission, and replaying their triggers gives the stored status.
-/

namespace U2os.Majordomo

open Table

/-- The transition events of an action, in `seq` order. -/
def Db.trail (db : Db) (id : String) : List Event :=
  db.events.events.filter fun e => e.eventType = eventType ∧ e.subject = some ⟨"action", id⟩

/-- The status a request starts in. -/
def submitStatus (consequential : Bool) : Status :=
  if consequential then .awaitingApproval else .queued

/-- The status after an event. -/
def replayEvent (st : Status) (e : Event) : Option Status :=
  match e.data.get? "trigger" with
  | some (.str name) => (Trigger.parse name).bind fun g => (next st g).toOption
  | _ => none

/-- The status after a list of events. -/
def replay (st : Status) (events : List Event) : Option Status := events.foldlM replayEvent st

/-- One event follows another one of its action. -/
def Follows (e f : Event) : Prop :=
  f.data.get? "from" = e.data.get? "to" ∧ f.causationId = some e.id

/-- The trail of an action explains its row. -/
structure Chained (a : Action) (trail : List Event) : Prop where
  first : ∃ e rest, trail = e :: rest ∧ e.data.get? "from" = some .null ∧ e.causationId = none ∧
    e.data.get? "to" = some (.str (submitStatus a.consequential).asStr) ∧
    replay (submitStatus a.consequential) rest = some a.status
  linked : trail.IsChain Follows
  last : ∃ e, trail.getLast? = some e ∧ a.lastEventId = some e.id ∧
    e.data.get? "to" = some (.str a.status.asStr)

/-- Every action is explained by its trail, and every transition event is about an action. -/
structure Audited (db : Db) : Prop where
  chained : ∀ a ∈ db.actions, Chained a (db.trail a.id)
  about : ∀ id, db.trail id ≠ [] → ∃ a ∈ db.actions, a.id = id

theorem get?_transitionData (a : Action) (from_ : Option Status) (trigger : String)
    {extra : List (String × Json)} (hx : Harmless extra) :
    (transitionData a from_ trigger extra).get? "from" =
        some (Json.ofOptionStr (from_.map Status.asStr)) ∧
      (transitionData a from_ trigger extra).get? "to" = some (.str a.status.asStr) ∧
      (transitionData a from_ trigger extra).get? "trigger" = some (.str trigger) := by
  refine ⟨?_, ?_, ?_⟩ <;> simp only [transitionData, Json.get?]
  · rw [Json.lookup_extend_of_absent fun p hp => (hx p hp).1]
    rfl
  · rw [Json.lookup_extend_of_absent fun p hp => (hx p hp).2.1]
    rfl
  · rw [Json.lookup_extend_of_absent fun p hp => (hx p hp).2.2]
    rfl

theorem replayEvent_transition {st to_ : Status} {g : Trigger} {e : Event}
    (he : e.data.get? "trigger" = some (.str g.asStr)) (hn : next st g = .ok to_) :
    replayEvent st e = some to_ := by
  simp only [replayEvent, he, Trigger.parse_asStr, Option.bind_some, hn]
  rfl

theorem trail_append {s t : Db} {ev : Event} {a : Action} {from_ : Option Status}
    {trigger : String} {extra : List (String × Json)}
    (hl : t.events.events = s.events.events ++ [ev])
    (he : ev.toNewEvent = transitionEvent a from_ trigger extra) (id : String) :
    t.trail id = if id = a.id then s.trail id ++ [ev] else s.trail id := by
  have hty : ev.eventType = eventType := congrArg NewEvent.eventType he
  have hsub : ev.subject = some ⟨"action", a.id⟩ := congrArg NewEvent.subject he
  simp only [Db.trail, hl, List.filter_append]
  split_ifs with hid
  · simp [hty, hsub, hid]
  · have hne : ¬a.id = id := fun e => hid e.symm
    simp [hty, hsub, hne]

/-- A transition continues the trail of its action. -/
theorem Chained.snoc {a a' : Action} {trail : List Event} {ev : Event} {g : Trigger}
    {extra : List (String × Json)} (h : Chained a trail) (hn : next a.status g = .ok a'.status)
    (he : ev.toNewEvent = transitionEvent { a' with lastEventId := a.lastEventId }
      (some a.status) g.asStr extra)
    (hx : Harmless extra) (hcons : a'.consequential = a.consequential)
    (hlast : a'.lastEventId = some ev.id) : Chained a' (trail ++ [ev]) := by
  have hdata : ev.data = transitionData { a' with lastEventId := a.lastEventId } (some a.status)
    g.asStr extra := congrArg NewEvent.data he
  obtain ⟨hfrom, hto, htrig⟩ := get?_transitionData { a' with lastEventId := a.lastEventId }
    (some a.status) g.asStr hx
  rw [← hdata] at hfrom hto htrig
  have hcause : ev.causationId = a.lastEventId := congrArg NewEvent.causationId he
  obtain ⟨e, hel, heid, heto⟩ := h.last
  refine ⟨?_, ?_, ev, by simp, hlast, hto⟩
  · obtain ⟨f, rest, rfl, hf₁, hf₂, hf₃, hf₄⟩ := h.first
    refine ⟨f, rest ++ [ev], rfl, hf₁, hf₂, hcons ▸ hf₃, ?_⟩
    rw [hcons, replay, List.foldlM_append, ← replay, hf₄]
    simp [replayEvent_transition htrig hn]
  · refine List.isChain_append.2 ⟨h.linked, List.isChain_singleton _, ?_⟩
    intro x hx' y hy
    obtain rfl : e = x := Option.some_inj.1 (hel.symm.trans hx')
    obtain rfl : ev = y := by simpa using hy
    exact ⟨hfrom.trans heto.symm, hcause.trans heid⟩

namespace Audited

theorem empty : Audited Db.empty where
  chained a h := absurd h (not_mem_empty a)
  about _ h := absurd rfl h

/-- Every change of an action leaves its event. -/
theorem step {s t : Db} {c : Change} (h : Audited s) (hst : DbStep s c t) : Audited t := by
  cases hst with
  | @submitted a actions ev log extra hf hk hi hl he hx =>
    have hfresh : s.trail a.id = [] := by
      by_contra hne
      obtain ⟨b, hb, hba⟩ := h.about a.id hne
      exact (insert?_eq_some.1 hi).1 b hb hba
    have htrail := trail_append (s := s) (t := { s with events := log, actions := actions }) hl he
    refine ⟨fun b hb => ?_, fun id hid => ?_⟩
    · rw [htrail]
      rcases (mem_of_insert? hi).1 hb with hb | rfl
      · rw [if_neg ((insert?_eq_some.1 hi).1 b hb)]
        exact h.chained b hb
      · rw [if_pos rfl]
        simp only [hfresh, List.nil_append]
        obtain ⟨hfrom, hto, -⟩ := get?_transitionData a none "submit" hx
        have hdata : ev.data = transitionData a none "submit" extra := congrArg NewEvent.data he
        rw [← hdata] at hfrom hto
        have hcause : ev.causationId = none :=
          (congrArg NewEvent.causationId he).trans hf.lastEventId
        have hst : a.status = submitStatus a.consequential := hf.status
        exact ⟨⟨ev, [], rfl, hfrom, hcause, hst ▸ hto, by rw [← hst]; rfl⟩,
          List.isChain_singleton _, ev, rfl, rfl, hto⟩
    · rw [htrail] at hid
      by_cases hia : id = a.id
      · exact ⟨_, (mem_of_insert? hi).2 (.inr rfl), hia.symm⟩
      · rw [if_neg hia] at hid
        obtain ⟨b, hb, hbi⟩ := h.about id hid
        exact ⟨b, (mem_of_insert? hi).2 (.inl hb), hbi⟩
  | @moved g a a₁ to_ now attempts ev log extra ha hn hm hl he hx =>
    have hkey : a.id = (a₁.stamp to_ now ev.id).id := hm.id_eq.symm
    have htrail := trail_append (s := s) (t := { s with
      events := log, actions := s.actions.put (a₁.stamp to_ now ev.id), attempts := attempts })
      hl he
    have hid' : ({ a₁ with status := to_ } : Action).id = a.id := hm.id_eq
    refine ⟨fun b hb => ?_, fun id hid => ?_⟩
    · rw [htrail, hid']
      rcases (mem_put_of_mem ha hkey).1 hb with ⟨hb, hne⟩ | rfl
      · rw [if_neg fun e => hne (e.trans hkey)]
        exact h.chained b hb
      · rw [if_pos hkey.symm, ← hkey]
        refine (h.chained a ha).snoc hn ?_ hx hm.consequential rfl
        rw [he, ← hm.lastEventId]
        rfl
    · rw [htrail, hid'] at hid
      by_cases hia : id = a.id
      · exact ⟨_, (mem_put_of_mem ha hkey).2 (.inr rfl), hkey.symm.trans hia.symm⟩
      · rw [if_neg hia] at hid
        obtain ⟨b, hb, rfl⟩ := h.about id hid
        exact ⟨b, (mem_put_of_mem ha hkey).2 (.inl ⟨hb, fun e => hia (e.trans hkey.symm)⟩),
          rfl⟩
  | @renewed a leaseMs now ha hs hx =>
    have hkey : a.id = (renewRow leaseMs now a).id := rfl
    refine ⟨fun b hb => ?_, fun id hid => ?_⟩
    · rcases (mem_put_of_mem ha hkey).1 hb with ⟨hb, -⟩ | rfl
      · exact h.chained b hb
      · exact ⟨(h.chained a ha).first, (h.chained a ha).linked, (h.chained a ha).last⟩
    · obtain ⟨b, hb, rfl⟩ := h.about id hid
      by_cases hba : b.id = a.id
      · exact ⟨_, (mem_put_of_mem ha hkey).2 (.inr rfl), hba.symm⟩
      · exact ⟨b, (mem_put_of_mem ha hkey).2 (.inl ⟨hb, hba⟩), rfl⟩

end Audited

def Call.Failed (c : Call) : Prop := ∃ e, c.result = .error e

/-- The operation is a lease. -/
def Op.IsLease : Op → Prop
  | .lease _ _ _ => True
  | _ => False

theorem failed_call {sha256 : String → String} {s t : Db} {c : Call}
    (hst : (actionStore sha256).step s c t) (hf : c.Failed) :
    t = s ∨ (c.op.IsLease ∧
      ∃ report s', (recover c.now).Ok ⟨s, c.random⟩ report s' ∧ t = s'.db) := by
  obtain ⟨op, now, random, result⟩ := c
  obtain ⟨e, he⟩ := hf
  obtain ⟨rest, hexec⟩ := hst
  simp only at he hexec
  subst he
  have hsimple : ∀ {α : Type} {f : α → Reply} {x : ActionTx α},
      wrap f (x.atomically ⟨s, random⟩) = (.error e, ⟨t, rest⟩) → t = s := by
    intro α f x h
    rcases wrap_eq h with ⟨a, ha, -⟩ | ⟨e', -, hs⟩
    · cases ha
    · exact congrArg Session.db hs
  cases op with
  | lease id owner leaseMs =>
    obtain ⟨q, hq, herr⟩ := wrap_prod hexec
    rcases lease_cases hq with ⟨e', -, hs⟩ | ⟨report, u, hrec, hbody⟩
    · exact .inl (congrArg Session.db hs)
    · cases q with
      | ok r => cases herr
      | error e' =>
        have hu := Tx.atomically_error hbody
        exact .inr ⟨trivial, report, u, leaseRecover_ok hrec, congrArg Session.db hu⟩
  | _ => exact .inl (hsimple hexec)

/-- **The event log determines the state.**  In every run the trail of an action is a chain from
its submission whose triggers replay to the stored status and whose last event is the one the
row names.  A failed call leaves every table as it was, except that a failed lease may leave
them as its preliminary recovery, a transaction of its own, committed them. -/
theorem log_determines_state {sha256 : String → String} {h : List Call} {s : Db}
    (hr : (actionStore sha256).Run h s) :
    (∀ a ∈ s.actions, Chained a (s.trail a.id)) ∧
    ∀ c t, (actionStore sha256).step s c t → c.Failed →
      (¬c.op.IsLease → t = s) ∧
      (c.op.IsLease → t = s ∨
        ∃ report s', (recover c.now).Ok ⟨s, c.random⟩ report s' ∧ t = s'.db) := by
  obtain ⟨cs, hcs⟩ := reachable_changes hr
  have haud : Audited s := hcs.invariant Audited.empty fun _ _ _ hi hs => hi.step hs
  refine ⟨haud.chained, fun c t hst hf => ⟨fun hop => ?_, fun _ => ?_⟩⟩
  · exact (failed_call hst hf).resolve_right fun hl => hop hl.1
  · exact (failed_call hst hf).imp_right And.right

/-- An action is submitted and leased. -/
def leasedMail : List (Op × Int × List Word) :=
  [(.submit { tool := "mail", arguments := .null, actionId := some "a" }, 0, words [1]),
    (.lease none "w" 10, 1, words [2])]

theorem log_determines_state_leasedMail :
    ∃ a ∈ (script nullDigest Db.empty leasedMail).2.actions, a.status = .leased ∧
      Chained a ((script nullDigest Db.empty leasedMail).2.trail a.id) := by
  have hex : ∃ a ∈ (script nullDigest Db.empty leasedMail).2.actions.rows, a.status = .leased := by
    decide +kernel
  obtain ⟨a, ha, hst⟩ := hex
  exact ⟨a, ha, hst,
    (log_determines_state (steps_script nullDigest Db.empty leasedMail)).1 a ha⟩

/-- The lease of `leasedMail` runs out, and a second worker leases the action while the operating
system has one random word left: the recovery commits its event, the lease has none for its own
and fails, and the action is queued again all the same. -/
theorem failed_lease_changes_state : ∃ (h : List Call) (s : Db) (c : Call) (t : Db),
    (actionStore nullDigest).Run h s ∧ (actionStore nullDigest).step s c t ∧ c.Failed ∧
      t.actions.rows.map Action.status ≠ s.actions.rows.map Action.status ∧
      t.events.events.length ≠ s.events.events.length := by
  refine ⟨_, _, _, _, steps_script nullDigest Db.empty leasedMail,
    step_exec nullDigest _ (.lease none "v" 10) 20 (words [3]), ?_, ?_, ?_⟩
  · have hfail : ((Op.lease none "v" 10).exec nullDigest 20
        ⟨(script nullDigest Db.empty leasedMail).2, words [3]⟩).1.toBool = false := by
      decide +kernel
    unfold Call.Failed
    cases hres : ((Op.lease none "v" 10).exec nullDigest 20
        ⟨(script nullDigest Db.empty leasedMail).2, words [3]⟩).1 with
    | error e => exact ⟨e, rfl⟩
    | ok r => rw [hres] at hfail; cases hfail
  · decide +kernel
  · decide +kernel

end U2os.Majordomo
