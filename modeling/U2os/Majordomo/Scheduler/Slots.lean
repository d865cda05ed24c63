import U2os.Majordomo.Scheduler.Claim

/-!
# One action for a claimed slot

That a slot is claimed once rests on the uniqueness of its pair, and that a claim gets one action
on the uniqueness of its idempotency key.  Both are invariants of the database that every step
keeps, whoever takes it.  The key of a pair is made by concatenation, so pairs with a colon in
them may have one key: then their claims share one action.
-/

namespace U2os.Majordomo.Scheduler

open List Option Table

/-- An action with this id and this key is stored. -/
def Keyed (d : Db) (i k : String) : Prop := ∃ a ∈ d.actions, a.id = i ∧ a.idempotencyKey = k

/-- The invariant of the database. -/
structure Sound (d : Db) : Prop where
  /-- A pair has one row. -/
  pairs : ∀ x ∈ d.runs, ∀ y ∈ d.runs, x.routine = y.routine → x.slot = y.slot → x = y
  /-- An action id stands in an enqueued row and belongs to the action with the row's key. -/
  enqueued : ∀ x ∈ d.runs, ∀ i, x.actionId = some i →
    x.status = .enqueued ∧ Keyed d i (actionKey x.routine x.slot)
  /-- A key has one action. -/
  keys : ∀ a ∈ d.actions, ∀ b ∈ d.actions, a.idempotencyKey = b.idempotencyKey → a = b
  ids : ∀ a ∈ d.actions, a.id ≠ ""

/-- Rows stay, with their pair, their cap and their action; actions stay, with their key. -/
structure Grows (d d' : Db) : Prop where
  runs : ∀ x ∈ d.runs, ∃ y ∈ d'.runs, y.id = x.id ∧ y.routine = x.routine ∧ y.slot = x.slot ∧
    (y.status = .throttled ↔ x.status = .throttled) ∧ ∀ i, x.actionId = some i → y.actionId = some i
  actions : ∀ a ∈ d.actions, ∃ b ∈ d'.actions, b.id = a.id ∧ b.idempotencyKey = a.idempotencyKey

/-- The row of a claim is stored, throttled if the claim is. -/
def Known (d : Db) (c : Claim) : Prop :=
  ∃ x ∈ d.runs, x.id = c.runId ∧ x.routine = c.routine ∧ x.slot = c.slot ∧
    (x.status = .throttled ↔ c.throttled = true)

section

variable {d d' : Db} {c : Claim} {i k : String}

theorem Grows.refl (d : Db) : Grows d d :=
  ⟨fun x hx => ⟨x, hx, rfl, rfl, rfl, Iff.rfl, fun _ h => h⟩, fun a ha => ⟨a, ha, rfl, rfl⟩⟩

theorem Grows.trans {d'' : Db} (h : Grows d d') (h' : Grows d' d'') : Grows d d'' := by
  refine ⟨fun x hx => ?_, fun a ha => ?_⟩
  · obtain ⟨y, hy, h₁, h₂, h₃, h₄, h₅⟩ := h.runs x hx
    obtain ⟨z, hz, g₁, g₂, g₃, g₄, g₅⟩ := h'.runs y hy
    exact ⟨z, hz, g₁.trans h₁, g₂.trans h₂, g₃.trans h₃, g₄.trans h₄, fun i hi => g₅ i (h₅ i hi)⟩
  · obtain ⟨b, hb, h₁, h₂⟩ := h.actions a ha
    obtain ⟨e, he, g₁, g₂⟩ := h'.actions b hb
    exact ⟨e, he, g₁.trans h₁, g₂.trans h₂⟩

theorem Keyed.grows (hk : Keyed d i k) (h : Grows d d') : Keyed d' i k := by
  obtain ⟨a, ha, hid, hkey⟩ := hk
  obtain ⟨b, hb, hbid, hbkey⟩ := h.actions a ha
  exact ⟨b, hb, hbid.trans hid, hbkey.trans hkey⟩

theorem Known.grows (hc : Known d c) (h : Grows d d') : Known d' c := by
  obtain ⟨x, hx, h₁, h₂, h₃, h₄⟩ := hc
  obtain ⟨y, hy, g₁, g₂, g₃, g₄, -⟩ := h.runs x hx
  exact ⟨y, hy, g₁.trans h₁, g₂.trans h₂, g₃.trans h₃, g₄.trans h₄⟩

theorem Sound.keyed_inj (hd : Sound d) {j : String} (hi : Keyed d i k) (hj : Keyed d j k) :
    i = j := by
  obtain ⟨a, ha, rfl, hak⟩ := hi
  obtain ⟨b, hb, rfl, hbk⟩ := hj
  rw [hd.keys a ha b hb (hak.trans hbk.symm)]

theorem Keyed.key_inj {k' : String} (hk : Keyed d i k) (hk' : Keyed d i k') : k = k' := by
  obtain ⟨a, ha, hid, rfl⟩ := hk
  obtain ⟨b, hb, hbid, rfl⟩ := hk'
  rw [eq_of_key ha hb (hid.trans hbid.symm)]

/-! ### The action store -/

/-- A rewritten action keeps its key, so that the runs still agree with the actions. -/
theorem Sound.put (hd : Sound d) {a a' : Action} (ha : a ∈ d.actions) (hid : a'.id = a.id)
    (hkey : a'.idempotencyKey = a.idempotencyKey) (hruns : d'.runs = d.runs)
    (hact : d'.actions = d.actions.put a') : Sound d' ∧ Grows d d' := by
  have hold : ∀ b ∈ d'.actions, ∃ e ∈ d.actions, b.id = e.id ∧
      b.idempotencyKey = e.idempotencyKey := by
    intro b hb
    rw [hact, mem_put_of_mem ha hid.symm] at hb
    rcases hb with ⟨hb, -⟩ | rfl
    · exact ⟨b, hb, rfl, rfl⟩
    · exact ⟨a, ha, hid, hkey⟩
  have hgrows : Grows d d' := by
    refine ⟨fun x hx => ⟨x, by rwa [hruns], rfl, rfl, rfl, Iff.rfl, fun _ h => h⟩, fun b hb => ?_⟩
    by_cases hba : b.id = a'.id
    · obtain rfl := eq_of_key hb ha (hba.trans hid)
      exact ⟨a', hact ▸ (mem_put_of_mem ha hid.symm).2 (.inr rfl), hid, hkey⟩
    · exact ⟨b, hact ▸ (mem_put_of_mem ha hid.symm).2 (.inl ⟨hb, hba⟩), rfl, rfl⟩
  refine ⟨⟨?_, fun x hx i hi => ?_, fun b hb e he hbe => ?_, fun b hb => ?_⟩, hgrows⟩
  · rw [hruns]
    exact hd.pairs
  · rw [hruns] at hx
    exact ⟨(hd.enqueued x hx i hi).1, (hd.enqueued x hx i hi).2.grows hgrows⟩
  · obtain ⟨b₀, hb₀, hbid, hbkey⟩ := hold b hb
    obtain ⟨e₀, he₀, heid, hekey⟩ := hold e he
    have heq := hd.keys b₀ hb₀ e₀ he₀ (hbkey.symm.trans (hbe.trans hekey))
    exact eq_of_key hb he (by rw [hbid, heid, heq])
  · obtain ⟨e, he, hbid, -⟩ := hold b hb
    rw [hbid]
    exact hd.ids e he

theorem change_sound {ch : Change} (hd : Sound d) (hst : DbStep d ch d') :
    Sound d' ∧ Grows d d' := by
  cases hst with
  | @submitted a actions ev log extra hf hk hi hl he hx =>
    have hmem := fun b => mem_of_insert? (x := b) hi
    have hgrows : Grows d { d with events := log, actions := actions } :=
      ⟨fun x hx => ⟨x, hx, rfl, rfl, rfl, Iff.rfl, fun _ h => h⟩,
        fun b hb => ⟨b, (hmem b).2 (.inl hb), rfl, rfl⟩⟩
    refine ⟨⟨hd.pairs, fun x hx i hi => ?_, fun b hb e he hbe => ?_, fun b hb => ?_⟩, hgrows⟩
    · exact ⟨(hd.enqueued x hx i hi).1, (hd.enqueued x hx i hi).2.grows hgrows⟩
    · rcases (hmem b).1 hb with hb | rfl <;> rcases (hmem e).1 he with he | rfl
      · exact hd.keys b hb e he hbe
      · exact absurd hbe (hk b hb)
      · exact absurd hbe.symm (hk e he)
      · rfl
    · rcases (hmem b).1 hb with hb | rfl
      · exact hd.ids b hb
      · exact hf.id
  | @moved g a a₁ to_ now attempts ev log extra ha hn hm hl he hx =>
    exact hd.put ha (show (a₁.stamp to_ now ev.id).id = a.id from hm.id_eq) hm.idempotencyKey rfl
      rfl
  | @renewed a leaseMs now ha hs hx =>
    exact hd.put ha (show (renewRow leaseMs now a).id = a.id from rfl) rfl rfl rfl

theorem changes_sound {cs : List Change} (hd : Sound d) (hst : changes.Steps d cs d') :
    Sound d' ∧ Grows d d' :=
  hst.invariant (I := fun e => Sound e ∧ Grows d e) ⟨hd, Grows.refl d⟩ fun _ _ _ hi hs =>
    ⟨(change_sound hi.1 hs).1, hi.2.trans (change_sound hi.1 hs).2⟩

theorem changes_runs {cs : List Change} (hst : changes.Steps d cs d') : d'.runs = d.runs :=
  hst.invariant (I := fun e => e.runs = d.runs) rfl fun _ _ _ hi hs => by cases hs <;> exact hi

theorem submit_keyed {sha256 : String → String} {now : Int} {r : Submission} {s s' : Session}
    (hd : Sound s.db) (h : (submit sha256 c.action now).Ok s r s') :
    (Sound s'.db ∧ Grows s.db s'.db) ∧ Keyed s'.db r.action.id (actionKey c.routine c.slot) := by
  obtain ⟨key, hkey, hcase⟩ := submit_ok h
  obtain rfl : key = actionKey c.routine c.slot := by
    simp only [submitKey, Claim.action] at hkey
    cases hn : checkName "idempotency key" (actionKey c.routine c.slot) with
    | error e => rw [hn] at hkey; cases hkey
    | ok u => rw [hn] at hkey; exact (Except.ok.inj hkey).symm
  rcases hcase with ⟨-, hex, hdb⟩ | ⟨-, -, hk, -, -, hstep⟩
  · rw [hdb]
    refine ⟨⟨hd, Grows.refl _⟩, ?_⟩
    unfold existing at hex
    cases hbykey : s.db.actions.rows.find? fun x =>
        decide (x.idempotencyKey = actionKey c.routine c.slot) with
    | some a =>
      rw [hbykey] at hex
      obtain rfl : a = r.action := some_inj.1 hex
      exact ⟨_, mem_of_find?_eq_some hbykey, rfl, by simpa using find?_some hbykey⟩
    | none =>
      -- The empty id of the query belongs to no action.
      rw [hbykey] at hex
      have hbyid : s.db.actions.rows.find? (fun x => decide (x.id = "")) = some r.action := hex
      have hid : r.action.id = "" := by simpa using find?_some hbyid
      exact absurd hid (hd.ids _ (mem_of_find?_eq_some hbyid))
  · exact ⟨change_sound hd hstep, _, hstep.mem_submitted, rfl, hk⟩

theorem submit_runs {sha256 : String → String} {new : NewAction} {now : Int} {r : Submission}
    {s s' : Session} (h : (submit sha256 new now).Ok s r s') : s'.db.runs = s.db.runs := by
  obtain ⟨key, -, ⟨-, -, hdb⟩ | ⟨-, -, -, -, -, hstep⟩⟩ := submit_ok h
  · rw [hdb]
  · exact changes_runs (Machine.Steps.single hstep)

/-- **A claim adds the row of a pair that had none, or changes nothing.** -/
theorem claim_ok {q : Request} {now : Int} {r : Option Claim} {s s' : Session}
    (h : (claim q now).Ok s r s') : (r = none ∧ s'.db = s.db) ∨
      ∃ (c : Claim) (x : SchedulerRun), r = some c ∧ c.routine = q.routine ∧ c.slot = q.slot ∧
        x.id = c.runId ∧ x.routine = q.routine ∧ x.slot = q.slot ∧ x.actionId = none ∧
        (x.status = .throttled ↔ c.throttled = true) ∧
        (∀ y ∈ s.db.runs, ¬(y.routine = q.routine ∧ y.slot = q.slot)) ∧
        (∀ y, y ∈ s'.db.runs ↔ y ∈ s.db.runs ∨ y = x) ∧ s'.db.actions = s.db.actions := by
  rcases claim_spec h with ⟨rfl, hdb⟩ |
    ⟨runId, throttled, runs, ev, log, rfl, -, hfree, -, hrows, -, -, -, hdb⟩
  · exact .inl ⟨rfl, hdb⟩
  · have hmem : ∀ y, y ∈ s'.db.runs ↔
        y ∈ s.db.runs ∨ y = claimedRow q runId now throttled := by
      intro y
      rw [← mem_rows, hdb, hrows, mem_append, mem_singleton, mem_rows]
    refine .inr ⟨_, claimedRow q runId now throttled, rfl, rfl, rfl, ?_, ?_, ?_, ?_, ?_, hfree,
      hmem, by rw [hdb]⟩
    all_goals cases throttled <;> simp [claimedRow, throttleRow, startedRow]

theorem Sound.insert (hd : Sound d) {x : SchedulerRun} (hx : x.actionId = none)
    (hfree : ∀ y ∈ d.runs, ¬(y.routine = x.routine ∧ y.slot = x.slot))
    (hruns : ∀ y, y ∈ d'.runs ↔ y ∈ d.runs ∨ y = x) (hact : d'.actions = d.actions) :
    Sound d' ∧ Grows d d' := by
  have hgrows : Grows d d' :=
    ⟨fun y hy => ⟨y, (hruns y).2 (.inl hy), rfl, rfl, rfl, Iff.rfl, fun _ h => h⟩,
      fun a ha => ⟨a, by rwa [hact], rfl, rfl⟩⟩
  refine ⟨⟨fun y hy z hz hr hs => ?_, fun y hy i hi => ?_, ?_, ?_⟩, hgrows⟩
  · rcases (hruns y).1 hy with hy | rfl <;> rcases (hruns z).1 hz with hz | rfl
    · exact hd.pairs y hy z hz hr hs
    · exact absurd ⟨hr, hs⟩ (hfree y hy)
    · exact absurd ⟨hr.symm, hs.symm⟩ (hfree z hz)
    · rfl
  · rcases (hruns y).1 hy with hy | rfl
    · exact ⟨(hd.enqueued y hy i hi).1, (hd.enqueued y hy i hi).2.grows hgrows⟩
    · rw [hx] at hi
      cases hi
  · rw [hact]
    exact hd.keys
  · rw [hact]
    exact hd.ids

theorem mark_sound (hd : Sound d) (hc : Known d c) (hk : Keyed d i (actionKey c.routine c.slot))
    (now : Int) : Sound { d with runs := markEnqueued d.runs c.runId i now } ∧
      Grows d { d with runs := markEnqueued d.runs c.runId i now } := by
  obtain ⟨x, hx, hxid, hxr, hxs, -⟩ := hc
  have hold : ∀ y ∈ markEnqueued d.runs c.runId i now, y ∈ d.runs ∨
      x.status = .started ∧ y = enqueueRow i now x := by
    intro y hy
    obtain ⟨z, hz, rfl⟩ := mem_markEnqueued.1 hy
    by_cases hp : z.id = c.runId ∧ z.status = .started
    · obtain rfl := eq_of_key hz hx (hp.1.trans hxid.symm)
      rw [if_pos hp]
      exact .inr ⟨hp.2, rfl⟩
    · rw [if_neg hp]
      exact .inl hz
  have hgrows : Grows d { d with runs := markEnqueued d.runs c.runId i now } := by
    refine ⟨fun z hz => ⟨_, mem_markEnqueued.2 ⟨z, hz, rfl⟩, ?_⟩, fun a ha => ⟨a, ha, rfl, rfl⟩⟩
    by_cases hp : z.id = c.runId ∧ z.status = .started
    · rw [if_pos hp]
      refine ⟨rfl, rfl, rfl, by simp [enqueueRow, hp.2], fun j hj => ?_⟩
      have hst := (hd.enqueued z hz j hj).1
      rw [hp.2] at hst
      cases hst
    · rw [if_neg hp]
      exact ⟨rfl, rfl, rfl, Iff.rfl, fun _ h => h⟩
  refine ⟨⟨fun y hy z hz hr hs => ?_, fun y hy j hj => ?_, hd.keys, hd.ids⟩, hgrows⟩
  · -- The pairs are those of the table before.
    have hpair : ∀ y ∈ markEnqueued d.runs c.runId i now,
        ∃ w ∈ d.runs, w.id = y.id ∧ w.routine = y.routine ∧ w.slot = y.slot := by
      intro y hy
      rcases hold y hy with hy | ⟨-, rfl⟩
      · exact ⟨y, hy, rfl, rfl, rfl⟩
      · exact ⟨x, hx, rfl, rfl, rfl⟩
    obtain ⟨v, hv, hvid, hvr, hvs⟩ := hpair y hy
    obtain ⟨w, hw, hwid, hwr, hws⟩ := hpair z hz
    have hvw := hd.pairs v hv w hw (hvr.trans (hr.trans hwr.symm)) (hvs.trans (hs.trans hws.symm))
    exact eq_of_key hy hz (by rw [← hvid, ← hwid, hvw])
  · rcases hold y hy with hy | ⟨-, rfl⟩
    · exact hd.enqueued y hy j hj
    · obtain rfl := some_inj.1 hj
      refine ⟨rfl, ?_⟩
      show Keyed d i (actionKey x.routine x.slot)
      rwa [hxr, hxs]

end

/-! ### Threads -/

/-- What a thread in the middle of a task knows of the database. -/
def Task.Ok (d : Db) : Task → Prop
  | .enqueueing c pending _ => Known d c ∧ ∀ e ∈ pending, Known d e
  | .marking c i pending _ => Known d c ∧ c.throttled = false ∧
      Keyed d i (actionKey c.routine c.slot) ∧ ∀ e ∈ pending, Known d e
  | _ => True

/-- What a label says about the database from then on. -/
def Label.Ok (d : Db) : Label → Prop
  | .claimed _ q (some c) => Known d c ∧ c.routine = q.routine ∧ c.slot = q.slot
  | .enqueued _ c o => Known d c ∧ (c.throttled = true ∧ o = c.outcome none ∨
      c.throttled = false ∧ ∃ i, o = c.outcome (some i) ∧ Keyed d i (actionKey c.routine c.slot))
  | _ => True

/-- The pair a label claimed. -/
def Label.pair : Label → Option (String × String)
  | .claimed _ _ c => c.map fun c => (c.routine, c.slot)
  | _ => none

/-- A step of a thread: what it keeps, that a claimed pair had no row, and that only a claimed
pair gets one. -/
structure Effect (d : Db) (r : Label × Task × Session) : Prop where
  sound : Sound r.2.2.db
  grows : Grows d r.2.2.db
  task : r.2.1.Ok r.2.2.db
  label : r.1.Ok r.2.2.db
  fresh : ∀ p, r.1.pair = some p → ∀ x ∈ d.runs, (x.routine, x.slot) ≠ p
  rows : ∀ x ∈ r.2.2.db.runs, r.1.pair = some (x.routine, x.slot) ∨
    ∃ y ∈ d.runs, (y.routine, y.slot) = (x.routine, x.slot)

section

variable {d d' : Db} {sha256 : String → String} {t : ℕ} {now : Int} {s : Session}
  {r : Label × Task × Session}

theorem Task.Ok.grows {k : Task} (hk : k.Ok d) (h : Grows d d') : k.Ok d' := by
  cases k with
  | enqueueing => exact ⟨hk.1.grows h, fun e he => (hk.2 e he).grows h⟩
  | marking => exact ⟨hk.1.grows h, hk.2.1, hk.2.2.1.grows h, fun e he => (hk.2.2.2 e he).grows h⟩
  | _ => trivial

theorem Label.Ok.grows {l : Label} (hl : l.Ok d) (h : Grows d d') : l.Ok d' := by
  cases l with
  | claimed _ q c =>
    cases c with
    | none => trivial
    | some c => exact ⟨hl.1.grows h, hl.2⟩
  | enqueued =>
    refine ⟨hl.1.grows h, hl.2.imp_right ?_⟩
    rintro ⟨hc, i, ho, hi⟩
    exact ⟨hc, i, ho, hi.grows h⟩
  | _ => trivial

theorem Task.next_ok {pending : List Claim} (hp : ∀ c ∈ pending, Known d c)
    (fires : List Request) : (Task.next pending fires).Ok d := by
  cases pending with
  | cons c pending => exact ⟨hp c mem_cons_self, fun e he => hp e (mem_cons_of_mem _ he)⟩
  | nil => cases fires <;> trivial

theorem startedClaims_known {c : Claim} (hc : c ∈ startedClaims d.runs) : Known d c := by
  obtain ⟨x, hx, rfl⟩ := List.mem_map.1 hc
  obtain ⟨hx, hs⟩ := mem_filter.1 ((mem_insertionSort _).1 hx)
  exact ⟨x, hx, rfl, rfl, rfl, by simp [of_decide_eq_true hs]⟩

theorem Effect.quiet (hd : Sound s.db) {l : Label} {k : Task} {s' : Session}
    (hruns : s'.db.runs = s.db.runs) (hact : s'.db.actions = s.db.actions) (hk : k.Ok s.db)
    (hl : l.Ok s.db) (hp : l.pair = none) : Effect s.db (l, k, s') := by
  have hgrows : Grows s.db s'.db :=
    ⟨fun x hx => ⟨x, by rwa [hruns], rfl, rfl, rfl, Iff.rfl, fun _ h => h⟩,
      fun a ha => ⟨a, by rwa [hact], rfl, rfl⟩⟩
  refine ⟨⟨?_, fun x hx i hi => ?_, ?_, ?_⟩, hgrows, hk.grows hgrows, hl.grows hgrows, ?_,
    fun x hx => .inr ⟨x, hruns ▸ hx, rfl⟩⟩
  · rw [hruns]
    exact hd.pairs
  · rw [hruns] at hx
    exact ⟨(hd.enqueued x hx i hi).1, (hd.enqueued x hx i hi).2.grows hgrows⟩
  · rw [hact]
    exact hd.keys
  · rw [hact]
    exact hd.ids
  · intro p h
    rw [hp] at h
    cases h

theorem claim_effect {q : Request} {c : Option Claim} {s' : Session} (hd : Sound s.db)
    (h : (claim q now).atomically s = (.ok c, s')) {k : Task}
    (hk : ∀ d', (∀ e, c = some e → Known d' e) → k.Ok d') :
    Effect s.db (.claimed t q c, k, s') := by
  rcases claim_ok (Tx.atomically_ok.1 h) with
    ⟨rfl, hdb⟩ | ⟨e, x, rfl, her, hes, hxid, hxr, hxs, hxa, hxt, hfree, hruns, hact⟩
  · exact .quiet hd (by rw [hdb]) (by rw [hdb]) (hk _ fun e he => by cases he) trivial rfl
  · obtain ⟨hsound, hgrows⟩ := hd.insert hxa (by rwa [hxr, hxs]) hruns hact
    have hknown : Known s'.db e :=
      ⟨x, (hruns x).2 (.inr rfl), hxid, hxr.trans her.symm, hxs.trans hes.symm, hxt⟩
    refine ⟨hsound, hgrows, hk _ fun e' he => by cases he; exact hknown, ⟨hknown, her, hes⟩, ?_,
      fun y hy => ?_⟩
    · rintro _ ⟨⟩ y hy he
      exact hfree y hy ⟨(Prod.mk.inj he).1.trans her, (Prod.mk.inj he).2.trans hes⟩
    · rcases (hruns y).1 hy with hy | rfl
      · exact .inr ⟨y, hy, rfl⟩
      · exact .inl (by rw [hxr, hxs, ← her, ← hes]; rfl)

theorem failed_effect {ε α : Type} {x : Tx Session ε α} {e : ε} {e' : SchedulerError}
    {s' : Session} (hd : Sound s.db) (h : x.atomically s = (.error e, s')) :
    Effect s.db (.failed t e', .idle, s') := by
  obtain rfl := Tx.atomically_error h
  exact .quiet hd rfl rfl trivial trivial rfl

/-- What a piece of a task does to runs and actions. -/
theorem Task.step_effect {k : Task} (hd : Sound s.db) (hk : k.Ok s.db)
    (h : k.step sha256 t now s = some r) : Effect s.db r := by
  cases k with
  | idle => cases h
  | claiming q =>
    simp only [Task.step] at h
    split at h <;> obtain rfl := some_inj.1 h
    · next hc => exact claim_effect hd hc fun _ _ => trivial
    · next hc => exact failed_effect hd hc
  | firing q rest =>
    simp only [Task.step] at h
    split at h <;> obtain rfl := some_inj.1 h
    · next hc =>
      exact claim_effect hd hc fun _ _ => Task.next_ok (by simp) rest
    · next hc =>
      exact claim_effect hd hc fun _ hall => ⟨hall _ rfl, by simp⟩
    · next hc => exact failed_effect hd hc
  | recovering fires =>
    obtain rfl := some_inj.1 h
    exact .quiet hd rfl rfl (Task.next_ok (fun _ => startedClaims_known) fires) trivial rfl
  | enqueueing c pending fires =>
    obtain ⟨hc, hp⟩ := hk
    simp only [Task.step] at h
    split_ifs at h with hthr
    · obtain rfl := some_inj.1 h
      exact .quiet hd rfl rfl (Task.next_ok hp fires) ⟨hc, .inl ⟨hthr, rfl⟩⟩ rfl
    · split at h <;> obtain rfl := some_inj.1 h
      · next hsub =>
        obtain ⟨⟨hsound, hgrows⟩, hkey⟩ := submit_keyed hd (Tx.atomically_ok.1 hsub)
        have hruns := submit_runs (Tx.atomically_ok.1 hsub)
        exact ⟨hsound, hgrows, ⟨hc.grows hgrows, Bool.not_eq_true _ ▸ hthr, hkey,
          fun e he => (hp e he).grows hgrows⟩, trivial, fun _ h => (nomatch h),
          fun x hx => .inr ⟨x, hruns ▸ hx, rfl⟩⟩
      · next hsub => exact failed_effect hd hsub
  | marking c i pending fires =>
    obtain ⟨hc, hthr, hkey, hp⟩ := hk
    obtain rfl := some_inj.1 h
    obtain ⟨hsound, hgrows⟩ := mark_sound hd hc hkey now
    refine ⟨hsound, hgrows, Task.next_ok (fun e he => (hp e he).grows hgrows) fires,
      ⟨hc.grows hgrows, .inr ⟨hthr, i, rfl, hkey.grows hgrows⟩⟩, fun _ h => (nomatch h),
      fun x hx => .inr ?_⟩
    obtain ⟨y, hy, rfl⟩ := mem_markEnqueued.1 hx
    refine ⟨y, hy, ?_⟩
    split_ifs <;> rfl

/-- What the start of a request does to runs and actions. -/
theorem Entry.start_effect {e : Entry} {sc : Instance} {returned : List Claim} (hd : Sound s.db)
    (hr : ∀ c ∈ returned, Known s.db c) (h : e.start sc returned t now s = some r) :
    Effect s.db r := by
  cases e with
  | tick dueNow =>
    have hlease : ∀ b s', (acquireLease sc now).Ok s b s' →
        s'.db.runs = s.db.runs ∧ s'.db.actions = s.db.actions := by
      intro b s' hok
      simp only [acquireLease, Tx.ok_bind, Tx.ok_get] at hok
      obtain ⟨_, _, ⟨rfl, rfl⟩, hok⟩ := hok
      split_ifs at hok
      · obtain ⟨-, rfl⟩ := Tx.ok_pure.1 hok
        exact ⟨rfl, rfl⟩
      · simp only [Tx.ok_bind, Tx.ok_set, Tx.ok_pure] at hok
        obtain ⟨_, _, rfl, -, rfl⟩ := hok
        exact ⟨rfl, rfl⟩
    simp only [Entry.start] at h
    split at h <;> obtain rfl := some_inj.1 h
    · next hok =>
      obtain ⟨hruns, hact⟩ := hlease _ _ (Tx.atomically_ok.1 hok)
      exact .quiet hd hruns hact trivial trivial rfl
    · next hok =>
      obtain ⟨hruns, hact⟩ := hlease _ _ (Tx.atomically_ok.1 hok)
      exact .quiet hd hruns hact trivial trivial rfl
    · next herr => exact failed_effect hd herr
  | recover =>
    obtain rfl := some_inj.1 h
    exact .quiet hd rfl rfl trivial trivial rfl
  | onEvent eventId event =>
    obtain rfl := some_inj.1 h
    exact .quiet hd rfl rfl (Task.next_ok (by simp) _) trivial rfl
  | runNow routine =>
    simp only [Entry.start] at h
    split_ifs at h
    · split at h <;> obtain rfl := some_inj.1 h
      · next hid =>
        have hdb := (newId_ok (Tx.atomically_ok.1 hid)).1
        exact .quiet hd (by rw [hdb]) (by rw [hdb]) trivial trivial rfl
      · next herr => exact failed_effect hd herr
    · obtain rfl := some_inj.1 h
      exact .quiet hd rfl rfl trivial trivial rfl
  | fire q | claim q =>
    obtain rfl := some_inj.1 h
    exact .quiet hd rfl rfl trivial trivial rfl
  | enqueue c =>
    simp only [Entry.start] at h
    split_ifs at h with hc
    obtain rfl := some_inj.1 h
    exact .quiet hd rfl rfl ⟨hr c hc, by simp⟩ trivial rfl
  | releaseLease =>
    obtain rfl := some_inj.1 h
    have hlease : (Scheduler.releaseLease sc s.db).runs = s.db.runs ∧
        (Scheduler.releaseLease sc s.db).actions = s.db.actions := by
      unfold Scheduler.releaseLease
      split_ifs <;> exact ⟨rfl, rfl⟩
    exact .quiet hd hlease.1 hlease.2 trivial trivial rfl

end

/-! ### Runs -/

/-- The pairs claimed in a run, in order. -/
def claimedPairs (h : List Label) : List (String × String) := h.filterMap Label.pair

/-- The outcome a label reports. -/
def Label.outcome : Label → Option FireOutcome
  | .enqueued _ _ o => some o
  | _ => none

/-- The outcomes reported in a run. -/
def outcomes (h : List Label) : List FireOutcome := h.filterMap Label.outcome

/-- The invariant of the machine. -/
structure Inv (h : List Label) (s : Sched) : Prop where
  sound : Sound s.db
  tasks : ∀ t, (s.task t).Ok s.db
  returned : ∀ c ∈ s.returned, Known s.db c
  labels : ∀ l ∈ h, l.Ok s.db
  claimed : (claimedPairs h).Nodup
  rows : ∀ x ∈ s.db.runs, (x.routine, x.slot) ∈ claimedPairs h

section

variable {sha256 : String → String} {sc : ℕ → Instance} {h : List Label} {s s' : Sched}

theorem Inv.claimed_row (hi : Inv h s) {p : String × String} (hp : p ∈ claimedPairs h) :
    ∃ x ∈ s.db.runs, (x.routine, x.slot) = p := by
  obtain ⟨l, hl, hlp⟩ := mem_filterMap.1 hp
  have hok := hi.labels l hl
  cases l with
  | claimed t q c =>
    cases c with
    | none => cases hlp
    | some c =>
      obtain ⟨⟨x, hx, -, hr, hs, -⟩, -⟩ := hok
      exact ⟨x, hx, by rw [hr, hs]; exact some_inj.1 hlp⟩
  | _ => cases hlp

theorem Inv.extend (hi : Inv h s) {l : Label} (hsound : Sound s'.db) (hgrows : Grows s.db s'.db)
    (htasks : ∀ t, (s'.task t).Ok s'.db) (hret : ∀ c ∈ s'.returned, Known s'.db c)
    (hl : l.Ok s'.db) (hfresh : ∀ p, l.pair = some p → ∀ x ∈ s.db.runs, (x.routine, x.slot) ≠ p)
    (hrows : ∀ x ∈ s'.db.runs, l.pair = some (x.routine, x.slot) ∨
      ∃ y ∈ s.db.runs, (y.routine, y.slot) = (x.routine, x.slot)) : Inv (h ++ [l]) s' := by
  have happend : claimedPairs (h ++ [l]) = claimedPairs h ++ l.pair.toList := by
    rw [claimedPairs, filterMap_append]
    cases hp : l.pair <;> simp [hp, claimedPairs]
  refine ⟨hsound, htasks, hret, fun k hk => ?_, ?_, fun x hx => ?_⟩
  · rcases mem_append.1 hk with hk | hk
    · exact (hi.labels k hk).grows hgrows
    · exact mem_singleton.1 hk ▸ hl
  · rw [happend]
    cases hp : l.pair with
    | none => simpa using hi.claimed
    | some p =>
      refine nodup_append.2 ⟨hi.claimed, nodup_singleton p, fun q hq r hr heq => ?_⟩
      obtain ⟨x, hx, hxq⟩ := hi.claimed_row hq
      exact hfresh p hp x hx (hxq.trans (heq.trans (mem_singleton.1 hr)))
  · rw [happend]
    rcases hrows x hx with hp | ⟨y, hy, hyx⟩
    · exact mem_append_right _ (by simp [hp])
    · exact mem_append_left _ (hyx ▸ hi.rows y hy)

theorem Inv.goto (hi : Inv h s) (t : ℕ) {r : Label × Task × Session} (he : Effect s.db r) :
    Inv (h ++ [r.1]) (s.goto t r).2 := by
  refine hi.extend he.sound he.grows (fun u => ?_) (fun c hc => ?_) he.label he.fresh he.rows
  · show (Function.update s.task t r.2.1 u).Ok r.2.2.db
    rw [Function.update_apply]
    split_ifs
    · exact he.task
    · exact (hi.tasks u).grows he.grows
  · rcases mem_append.1 hc with hc | hc
    · -- The claim was returned by this very step.
      have hlab := he.label
      cases hl : r.1 with
      | claimed t q e =>
        rw [hl] at hc hlab
        cases e with
        | none => cases hc
        | some e => exact mem_singleton.1 hc ▸ hlab.1
      | _ =>
        rw [hl] at hc
        cases hc
    · exact (hi.returned c hc).grows he.grows

/-- Every step of the scheduler keeps the link of slots and actions. -/
theorem Inv.step (hi : Inv h s) {l : Label} (hst : (scheduler sha256 sc).step s l s') :
    Inv (h ++ [l]) s' := by
  obtain ⟨i, hstep⟩ := hst
  cases i with
  | start t e now random =>
    simp only [step?] at hstep
    split at hstep
    · obtain ⟨r, hr, heq⟩ := map_eq_some_iff.1 hstep
      cases heq
      exact hi.goto t (Entry.start_effect (s := ⟨s.db, random⟩) hi.sound hi.returned hr)
    · cases hstep
  | proceed t now random =>
    obtain ⟨r, hr, heq⟩ := map_eq_some_iff.1 hstep
    cases heq
    exact hi.goto t (Task.step_effect (s := ⟨s.db, random⟩) hi.sound (hi.tasks t) hr)
  | crash t =>
    cases hstep
    exact hi.goto t (.quiet (s := ⟨s.db, []⟩) hi.sound rfl rfl trivial trivial rfl)
  | external op now random =>
    cases hstep
    obtain ⟨cs, hcs, -⟩ := Call.changes_of_step (step_exec sha256 s.db op now random)
    obtain ⟨hsound, hgrows⟩ := changes_sound hi.sound hcs
    exact hi.extend hsound hgrows (fun t => (hi.tasks t).grows hgrows)
      (fun c hc => (hi.returned c hc).grows hgrows) trivial (fun _ h => nomatch h)
      fun x hx => .inr ⟨x, changes_runs hcs ▸ hx, rfl⟩

theorem scheduler_inv (hr : (scheduler sha256 sc).Run h s) : Inv h s :=
  have hinit : Inv [] (scheduler sha256 sc).init :=
    ⟨⟨by simp [scheduler, Db.empty], by simp [scheduler, Db.empty], by simp [scheduler, Db.empty],
      by simp [scheduler, Db.empty]⟩, fun _ => trivial, by simp [scheduler], by simp,
      nodup_nil, by simp [scheduler, Db.empty]⟩
  hr.history hinit fun _ _ _ _ _ hi hst => hi.step hst

end

/-! ### One action for a claim -/

/-- What holds of the claims of every run. -/
structure OneAction (h : List Label) (s : Sched) : Prop where
  /-- A pair is claimed at most once. -/
  claimed_once : (claimedPairs h).Nodup
  /-- A pair has at most one row. -/
  pair_once : ∀ x ∈ s.db.runs, ∀ y ∈ s.db.runs, x.routine = y.routine → x.slot = y.slot → x = y
  /-- All enqueues of a claim report one action. -/
  same_action : ∀ o ∈ outcomes h, ∀ o' ∈ outcomes h, o.runId = o'.runId → o.actionId = o'.actionId
  /-- It is the action of the row, once the row has one. -/
  row_action : ∀ o ∈ outcomes h, ∀ x ∈ s.db.runs, x.id = o.runId → ∀ i, x.actionId = some i →
    o.actionId = some i
  /-- A throttled claim has none. -/
  throttled : ∀ x ∈ s.db.runs, x.status = .throttled → x.actionId = none ∧
    ∀ o ∈ outcomes h, o.runId = x.id → o.actionId = none

/-- Rows with different pairs do not carry the same action. -/
def Own (d : Db) : Prop := ∀ x ∈ d.runs, ∀ y ∈ d.runs, (x.routine, x.slot) ≠ (y.routine, y.slot) →
  ∀ i, x.actionId = some i → y.actionId ≠ some i

/-- The rows that carry an action have different keys. -/
def KeysDiffer (d : Db) : Prop := ∀ x ∈ d.runs, ∀ y ∈ d.runs, x.actionId ≠ none →
  y.actionId ≠ none → actionKey x.routine x.slot = actionKey y.routine y.slot →
    (x.routine, x.slot) = (y.routine, y.slot)

/-- The pairs claimed in a run have different keys. -/
def Separated (h : List Label) : Prop := ∀ p ∈ claimedPairs h, ∀ q ∈ claimedPairs h,
  actionKey p.1 p.2 = actionKey q.1 q.2 → p = q

section

variable {sha256 : String → String} {sc : ℕ → Instance} {h : List Label} {s : Sched}

theorem Inv.outcome (hi : Inv h s) {o : FireOutcome} (ho : o ∈ outcomes h) :
    ∃ x ∈ s.db.runs, x.id = o.runId ∧ (x.status = .throttled ∧ o.actionId = none ∨
      x.status ≠ .throttled ∧ ∃ i, o.actionId = some i ∧
        Keyed s.db i (actionKey x.routine x.slot)) := by
  obtain ⟨l, hl, hlo⟩ := mem_filterMap.1 ho
  have hok := hi.labels l hl
  cases l with
  | enqueued t c o' =>
    obtain rfl := some_inj.1 hlo
    obtain ⟨⟨x, hx, hid, hr, hs, ht⟩, ⟨hthr, rfl⟩ | ⟨hthr, i, rfl, hkey⟩⟩ := hok
    · exact ⟨x, hx, hid, .inl ⟨ht.2 hthr, rfl⟩⟩
    · refine ⟨x, hx, hid, .inr ⟨fun h => ?_, i, rfl, by rwa [hr, hs]⟩⟩
      rw [ht.1 h] at hthr
      cases hthr
  | _ => cases hlo

theorem Inv.oneAction (hi : Inv h s) : OneAction h s where
  claimed_once := hi.claimed
  pair_once := hi.sound.pairs
  same_action o ho o' ho' hid := by
    obtain ⟨x, hx, hxid, hcase⟩ := hi.outcome ho
    obtain ⟨y, hy, hyid, hcase'⟩ := hi.outcome ho'
    obtain rfl := eq_of_key hx hy (hxid.trans (hid.trans hyid.symm))
    rcases hcase with ⟨ht, hnone⟩ | ⟨ht, i, hact, hkey⟩ <;>
      rcases hcase' with ⟨ht', hnone'⟩ | ⟨ht', j, hact', hkey'⟩
    · rw [hnone, hnone']
    · exact absurd ht ht'
    · exact absurd ht' ht
    · rw [hact, hact', hi.sound.keyed_inj hkey hkey']
  row_action o ho x hx hxid i hxi := by
    obtain ⟨y, hy, hyid, hcase⟩ := hi.outcome ho
    obtain rfl := eq_of_key hx hy (hxid.trans hyid.symm)
    obtain ⟨hst, hkey⟩ := hi.sound.enqueued x hx i hxi
    rcases hcase with ⟨ht, -⟩ | ⟨-, j, hact, hkey'⟩
    · rw [hst] at ht
      cases ht
    · rw [hact, hi.sound.keyed_inj hkey hkey']
  throttled x hx ht := by
    refine ⟨?_, fun o ho hid => ?_⟩
    · cases hxi : x.actionId with
      | none => rfl
      | some i =>
        have hst := (hi.sound.enqueued x hx i hxi).1
        rw [ht] at hst
        cases hst
    · obtain ⟨y, hy, hyid, hcase⟩ := hi.outcome ho
      obtain rfl := eq_of_key hx hy (hid.symm.trans hyid.symm)
      rcases hcase with ⟨-, hnone⟩ | ⟨hne, -⟩
      · exact hnone
      · exact absurd ht hne

theorem Sound.own_iff {d : Db} (hd : Sound d) : Own d ↔ KeysDiffer d := by
  refine ⟨fun hown x hx y hy hxa hya hkey => ?_, fun hkeys x hx y hy hne i hxi hyi => ?_⟩
  · by_contra hne
    obtain ⟨i, hxi⟩ := ne_none_iff_exists'.1 hxa
    obtain ⟨j, hyj⟩ := ne_none_iff_exists'.1 hya
    have hk := (hd.enqueued x hx i hxi).2
    rw [hkey] at hk
    obtain rfl := hd.keyed_inj hk (hd.enqueued y hy j hyj).2
    exact hown x hx y hy hne i hxi hyj
  · have hkey := (hd.enqueued x hx i hxi).2.key_inj (hd.enqueued y hy i hyi).2
    exact hne (hkeys x hx y hy (by simp [hxi]) (by simp [hyi]) hkey)

/-- **One action for a claimed slot.**  In every run a pair is claimed at most once, all enqueues
of a claim report one action, the one its row carries, and a throttled claim has none.  Two rows
with different pairs carry different actions exactly when the keys of the pairs that carry one
differ, so always in a run that claims no two pairs with one key. -/
theorem one_action_per_slot (hr : (scheduler sha256 sc).Run h s) :
    OneAction h s ∧ (Own s.db ↔ KeysDiffer s.db) ∧ (Separated h → Own s.db) := by
  have hi := scheduler_inv hr
  refine ⟨hi.oneAction, hi.sound.own_iff, fun hsep => hi.sound.own_iff.2 ?_⟩
  exact fun x hx y hy _ _ hkey => hsep _ (hi.rows x hx) _ (hi.rows y hy) hkey

end

/-- Instances without routines, which fire on demand only. -/
def sampleInstance (_ : ℕ) : Instance := ⟨"scheduler", 1000, [], fun _ _ => none, fun _ _ => false⟩

/-- One thread fires two requests, one after the other. -/
def fireBoth (q q' : Request) : List Input :=
  [.start 0 (.fire q) 0 [], .proceed 0 1 (words [1, 2]), .proceed 0 2 (words [3, 4]),
    .proceed 0 3 [], .start 0 (.fire q') 4 [], .proceed 0 5 (words [5, 6]),
    .proceed 0 6 (words [7, 8]), .proceed 0 7 []]

/-- Two rows with different pairs carry one action. -/
def sharing (runs : List SchedulerRun) : Bool :=
  runs.any fun x => runs.any fun y =>
    (x.routine, x.slot) ≠ (y.routine, y.slot) && x.actionId.isSome && x.actionId = y.actionId

/-- The routine `a:b` in the slot `c` and the routine `a` in the slot `b:c` get one action. -/
theorem shared_action : ∃ h s, (scheduler nullDigest sampleInstance).Run h s ∧ ¬Own s.db := by
  have hany : (drive nullDigest sampleInstance (scheduler nullDigest sampleInstance).init
      (fireBoth ⟨"a:b", "c", "daily", none⟩ ⟨"a", "b:c", "daily", none⟩)).any
      (fun r => sharing r.2.db.runs.rows) = true := by
    decide +kernel
  obtain ⟨⟨h, s⟩, hdrive, hsharing⟩ := (Option.any_eq_true _ _).1 hany
  refine ⟨h, s, steps_drive hdrive, fun hown => ?_⟩
  obtain ⟨x, hx, hxy⟩ := List.any_eq_true.1 hsharing
  obtain ⟨y, hy, hxy⟩ := List.any_eq_true.1 hxy
  simp only [Bool.and_eq_true, decide_eq_true_eq] at hxy
  obtain ⟨⟨hne, hsome⟩, heq⟩ := hxy
  obtain ⟨i, hi⟩ := isSome_iff_exists.1 hsome
  exact hown x hx y hy hne i hi (heq ▸ hi)

/-- Two claims with different keys: their enqueues report two actions, each its own. -/
theorem one_action_per_slot_twoRoutines : ∃ h s,
    (scheduler nullDigest sampleInstance).Run h s ∧ (outcomes h).length = 2 ∧ OneAction h s ∧
      (Own s.db ↔ KeysDiffer s.db) := by
  have hany : (drive nullDigest sampleInstance (scheduler nullDigest sampleInstance).init
      (fireBoth ⟨"brief", "07:30", "daily", none⟩ ⟨"digest", "07:30", "daily", none⟩)).any
      (fun r => (outcomes r.1).length = 2) = true := by
    decide +kernel
  obtain ⟨⟨h, s⟩, hdrive, hlen⟩ := (Option.any_eq_true _ _).1 hany
  have hr : (scheduler nullDigest sampleInstance).Run h s := steps_drive hdrive
  exact ⟨h, s, hr, of_decide_eq_true hlen, (one_action_per_slot hr).1,
    (one_action_per_slot hr).2.1⟩

end U2os.Majordomo.Scheduler
