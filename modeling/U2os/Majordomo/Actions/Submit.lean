import U2os.Majordomo.Actions.Machine

/-!
# What a submission accepts

`submit` checks the names of a request, and the event log checks them again with a smaller limit:
an id of the request is the subject of the event of the new action, and the correlation id is one of
its fields.  A request that is stored already is not recorded again.

A request is found by its key or by its id.  So a row may answer one request by its id and another
one by its key.
-/

namespace U2os

open List Tx

namespace Json

theorem utf8ByteSize_singleton_le (c : Char) : (String.ofList [c]).utf8ByteSize ≤ 4 := by
  rw [← String.singleton_eq_ofList, String.utf8ByteSize_singleton]
  exact c.utf8Size_le_four

theorem utf8ByteSize_escapeChar_le (c : Char) : (escapeChar c).utf8ByteSize ≤ 6 := by
  have hhex (n : ℕ) (h : n < 16) : (hexDigit n).utf8Size = 1 := by
    revert n
    decide
  unfold escapeChar
  split_ifs with _ _ _ _ _ _ _ hc
  all_goals try decide
  · have hlist : String.ofList [hexDigit (c.toNat / 16), hexDigit (c.toNat % 16)] =
        String.ofList [hexDigit (c.toNat / 16)] ++ String.ofList [hexDigit (c.toNat % 16)] := by
      rw [← String.ofList_append]
      rfl
    rw [String.utf8ByteSize_append, hlist, String.utf8ByteSize_append,
      ← String.singleton_eq_ofList, ← String.singleton_eq_ofList, String.utf8ByteSize_singleton,
      String.utf8ByteSize_singleton, hhex _ (by omega), hhex _ (by omega)]
    decide
  · exact (utf8ByteSize_singleton_le c).trans (by decide)

theorem utf8ByteSize_intercalate_le {b : ℕ} {l : List String} (h : ∀ x ∈ l, x.utf8ByteSize ≤ b) :
    ("".intercalate l).utf8ByteSize ≤ b * l.length := by
  induction l with
  | nil => rw [String.intercalate_nil]; exact Nat.zero_le _
  | cons x l ih =>
    have hx := h x mem_cons_self
    have hl := ih fun y hy => h y (mem_cons_of_mem _ hy)
    cases l with
    | nil => rwa [String.intercalate_singleton, length_singleton, Nat.mul_one]
    | cons y l =>
      rw [String.intercalate_cons_cons, String.utf8ByteSize_append, String.utf8ByteSize_append,
        length_cons, Nat.mul_succ]
      have hempty : "".utf8ByteSize = 0 := rfl
      omega

theorem utf8ByteSize_quote_le (s : String) : (quote s).utf8ByteSize ≤ 6 * s.length + 2 := by
  have hchars : ("".intercalate (s.toList.map escapeChar)).utf8ByteSize ≤
      6 * (s.toList.map escapeChar).length :=
    utf8ByteSize_intercalate_le
      (forall_mem_map.2 fun c _ => utf8ByteSize_escapeChar_le c)
  rw [length_map, String.length_toList] at hchars
  have hquote : "\"".utf8ByteSize = 1 := rfl
  rw [quote, String.utf8ByteSize_append, String.utf8ByteSize_append, hquote]
  omega

theorem utf8ByteSize_renderFields_le {b : ℕ} {fields : List (String × Json)}
    (h : ∀ p ∈ fields, (renderField p).utf8ByteSize ≤ b) :
    (",".intercalate (renderFields fields)).utf8ByteSize ≤ (b + 1) * fields.length := by
  induction fields with
  | nil => rw [renderFields, String.intercalate_nil]; exact Nat.zero_le _
  | cons p ps ih =>
    have hp := h p mem_cons_self
    have hps := ih fun q hq => h q (mem_cons_of_mem _ hq)
    rw [renderFields]
    cases ps with
    | nil =>
      rw [renderFields, String.intercalate_singleton, length_singleton, Nat.mul_one]
      exact hp.trans (Nat.le_succ b)
    | cons q qs =>
      rw [renderFields] at hps ⊢
      rw [String.intercalate_cons_cons, String.utf8ByteSize_append, String.utf8ByteSize_append,
        length_cons, Nat.mul_succ]
      have hcomma : ",".utf8ByteSize = 1 := rfl
      omega

theorem utf8ByteSize_obj_le {b : ℕ} {fields : List (String × Json)}
    (h : ∀ p ∈ fields, (renderField p).utf8ByteSize ≤ b) :
    (obj fields).render.utf8ByteSize ≤ (b + 1) * fields.length + 2 := by
  have hfields := utf8ByteSize_renderFields_le h
  have hopen : "\x7b".utf8ByteSize = 1 := rfl
  have hclose : "\x7d".utf8ByteSize = 1 := rfl
  rw [render, String.utf8ByteSize_append, String.utf8ByteSize_append, hopen, hclose]
  omega

end Json

namespace Majordomo

variable {a : Action} {ws : List Word}

/-- What `submit` checks of a request. -/
structure Acceptable (new : NewAction) : Prop where
  tool : Printable maxNameChars new.tool
  actionId : ∀ id ∈ new.actionId, Printable maxNameChars id
  key : ∀ k ∈ new.idempotencyKey, Printable maxNameChars k
  arguments : new.arguments.render.utf8ByteSize ≤ maxArgumentBytes
  named : new.actionId ≠ none ∨ new.idempotencyKey ≠ none

/-- What is asked of it when it is stored. -/
structure Recordable (new : NewAction) : Prop where
  actionId : ∀ id ∈ new.actionId, id.length ≤ maxFieldChars
  correlation : ∀ c ∈ new.correlationId, Printable maxFieldChars c
  arguments : new.arguments.depth ≤ maxJsonDepth
  actor : ∀ v ∈ new.actor, v.depth ≤ maxJsonDepth

/-- The id that a random word gives. -/
def mintedId (start : String) (w : Word) : String := start ++ "_" ++ w.hex

/-- No event has the id that the word gives. -/
def FreshEvent (db : Db) (w : Word) : Prop := ∀ e ∈ db.events.events, e.id ≠ mintedId "evt" w

/-- The random words give ids that are not taken. -/
def FreshWords (s : Session) (actionId : Option String) : Prop :=
  match actionId, s.random with
  | some _, w :: _ => FreshEvent s.db w
  | none, v :: w :: _ => (∀ a ∈ s.db.actions, a.id ≠ mintedId "act" v) ∧ FreshEvent s.db w
  | _, _ => False

variable {new : NewAction} {s : Session} {id key : String} {now : Int}
  {sha256 : String → String}

theorem submitKey_isOk (h : Acceptable new) : ∃ key, submitKey new = .ok key := by
  unfold submitKey
  cases hkey : new.idempotencyKey with
  | some k =>
    have hname : checkName "idempotency key" k = .ok () := checkName_eq_ok.2 (h.key k hkey)
    dsimp only
    rw [hname]
    exact ⟨k, rfl⟩
  | none =>
    cases hid : new.actionId with
    | none => exact absurd h.named (by rw [hid, hkey]; exact fun hn => hn.elim (· rfl) (· rfl))
    | some i =>
      dsimp only
      unfold idempotencyKey
      rw [if_neg fun hempty => hempty.elim h.tool.1 (h.actionId i hid).1]
      exact ⟨_, rfl⟩

theorem printable_mintedId (w : Word) : Printable maxFieldChars (mintedId "act" w) := by
  have hdigit (n : ℕ) (h : n < 16) : isControl (Json.hexDigit n) = false := by
    revert n
    decide
  have hchars : (mintedId "act" w).toList =
      "act_".toList ++ (range 16).map fun i =>
        Json.hexDigit (w.val >>> (4 * (15 - i)) % 16) := by
    rw [mintedId, String.toList_append]
    exact congrArg _ String.toList_ofList
  refine ⟨fun h => ?_, ?_, ?_⟩
  · rw [h] at hchars
    exact absurd hchars (by simp)
  · rw [← String.length_toList, hchars, length_append, length_map, length_range]
    decide
  · rw [hchars, any_append, any_map, Bool.or_eq_false_iff]
    refine ⟨by decide, any_eq_false.2 fun i _ => ?_⟩
    rw [Function.comp_apply, hdigit _ (Nat.mod_lt _ (by decide))]
    exact Bool.false_ne_true

/-- The entries of the event of a submission. -/
def submitData (a : Action) : List (String × Json) :=
  [("tool", .str a.tool), ("consequential", .bool a.consequential)]

/-- The event of a submission is small enough to be stored. -/
theorem size_transitionData (hattempts : a.attemptCount = 0)
    (hclass : a.errorClass = none) (htool : a.tool.length ≤ maxNameChars) :
    (transitionData a none "submit" (submitData a)).render.utf8ByteSize ≤ maxPayloadBytes := by
  have hdata : transitionData a none "submit" (submitData a) =
      .obj [("from", .null), ("to", .str a.status.asStr), ("trigger", .str "submit"),
        ("attemptCount", .num "0"), ("errorClass", .null), ("tool", .str a.tool),
        ("consequential", .bool a.consequential)] := by
    unfold transitionData
    rw [hattempts, hclass]
    rfl
  have hstatus : (Json.renderField ("to", .str a.status.asStr)).utf8ByteSize ≤ 2000 := by
    cases a.status <;> decide +kernel
  have hconsequential :
      (Json.renderField ("consequential", .bool a.consequential)).utf8ByteSize ≤ 2000 := by
    cases a.consequential <;> decide +kernel
  have hname : (Json.renderField ("tool", .str a.tool)).utf8ByteSize ≤ 2000 := by
    have hquote := Json.utf8ByteSize_quote_le a.tool
    have hkey : (Json.quote "tool" ++ ":").utf8ByteSize = 7 := by decide +kernel
    rw [Json.renderField, String.utf8ByteSize_append, hkey, Json.render]
    unfold maxNameChars at htool
    omega
  rw [hdata]
  refine (Json.utf8ByteSize_obj_le (b := 2000) ?_).trans
    (show (2000 + 1) * 7 + 2 ≤ maxPayloadBytes by decide)
  simp only [forall_mem_cons]
  exact ⟨by decide +kernel, hstatus, by decide +kernel, by decide +kernel, by decide +kernel,
    hname, hconsequential, forall_mem_nil _⟩

theorem validate_submitted (hid : Printable maxFieldChars a.id)
    (hcorrelation : ∀ c ∈ a.correlationId, Printable maxFieldChars c)
    (hattempts : a.attemptCount = 0) (hclass : a.errorClass = none)
    (hcause : a.lastEventId = none) (htool : a.tool.length ≤ maxNameChars) :
    ∃ data, validate (transitionEvent a none "submit" (submitData a)) = .ok data := by
  have hsubject : checkParty (some ⟨"action", a.id⟩) = .ok () := by
    have hkind : checkField "party kind" "action" = .ok () := rfl
    have hparty : checkField "party id" a.id = .ok () := checkField_eq_ok.2 hid
    unfold checkParty
    dsimp only
    rw [hkind, hparty]
    rfl
  have hfield : checkOptional "correlation_id" a.correlationId = .ok () := by
    cases hc : a.correlationId with
    | none => rfl
    | some c => exact checkField_eq_ok.2 (hcorrelation c hc)
  have htype : checkField "type" eventType = .ok () := rfl
  have hsource : checkField "source" eventSource = .ok () := rfl
  have hchars : eventType.toList.all isTypeChar = true := by decide
  have hsize := size_transitionData hattempts hclass htool
  refine ⟨(transitionData a none "submit" (submitData a)).render, ?_⟩
  unfold validate transitionEvent
  dsimp only
  rw [htype, if_pos hchars, hsource, hsubject, hfield, hcause, if_neg (not_lt.2 hsize)]
  rfl

/-! ### Success -/

theorem newId_isOk {start : String} {w : Word} (h : s.random = w :: ws) :
    (newId start).Ok s (mintedId start w) { s with random := ws } := by
  unfold newId
  rw [ok_bind]
  refine ⟨s, s, ok_get.2 ⟨rfl, rfl⟩, ?_⟩
  rw [h]
  rfl

theorem append_isOk {e : NewEvent} {data : String} {w : Word}
    (hvalid : validate e = .ok data) (hrandom : s.random = w :: ws) (hfresh : FreshEvent s.db w) :
    ∃ ev s', (append e now).Ok s ev s' := by
  obtain ⟨log, hlog⟩ : ∃ log, s.db.events.insert?
      { e with seq := 0, id := mintedId "evt" w, tsMs := now } = some log := by
    unfold EventLog.insert?
    exact ⟨_, dif_pos hfresh⟩
  refine exists_ok_bind (ok_ofExcept.2 ⟨hvalid, rfl⟩)
    (exists_ok_bind (ok_mapError.2 (newId_isOk hrandom))
      (exists_ok_bind (ok_get.2 ⟨rfl, rfl⟩) ?_))
  dsimp only
  rw [hlog]
  exact ⟨_, _, rfl⟩

theorem count_inserted {T T' : Table Action Action.id} (h : T.insert? a = some T') :
    T'.count (fun r => r.id = a.id ∧ r.status = a.status) = 1 := by
  obtain ⟨hne, hrows⟩ := Table.insert?_eq_some.1 h
  have hold : T.rows.filter (fun r => decide (r.id = a.id ∧ r.status = a.status)) = [] :=
    filter_eq_nil_iff.2 fun r hr hkey => hne r hr (of_decide_eq_true hkey).1
  unfold Table.count
  have hnew : [a].filter (fun r => decide (r.id = a.id ∧ r.status = a.status)) = [a] :=
    filter_cons_of_pos (decide_eq_true ⟨rfl, rfl⟩)
  dsimp only
  rw [hrows, filter_append, hold, hnew]
  rfl

/-- A valid submission is stored. -/
theorem stored_isOk {T : Table Action Action.id} {w : Word}
    (hkey : ∀ x ∈ s.db.actions, x.idempotencyKey ≠ a.idempotencyKey)
    (hinsert : s.db.actions.insert? a = some T) (hread : rowToAction a = .ok a)
    (hvalid : ∃ data, validate (transitionEvent a none "submit" (submitData a)) = .ok data)
    (hrandom : s.random = w :: ws) (hfresh : FreshEvent s.db w) :
    ∃ r s', (do
      insertAction a
      let action ← load a.id
      let recorded ← recordEvent action none "submit"
        [("tool", .str action.tool), ("consequential", .bool action.consequential)] now
      persist recorded action.status
      pure (⟨recorded, true⟩ : Submission) : ActionTx Submission).Ok s r s' := by
  have hins : (insertAction a).Ok s () { s with db := { s.db with actions := T } } := by
    simp only [insertAction, ok_bind, ok_get, ok_ensure, ok_ofOption, ok_set]
    exact ⟨s, s, ⟨rfl, rfl⟩, (), s, ⟨hkey, rfl⟩, T, s, ⟨hinsert, rfl⟩, rfl⟩
  have hload : (load a.id).Ok { s with db := { s.db with actions := T } } a
      { s with db := { s.db with actions := T } } := by
    simp only [load, ok_bind, ok_get, ok_ofOption, ok_mapError, ok_ofExcept]
    refine ⟨_, _, ⟨rfl, rfl⟩, a, _, ⟨?_, rfl⟩, hread, rfl⟩
    exact Table.find_key ((Table.mem_of_insert? hinsert).2 (.inr rfl))
  refine exists_ok_bind hins (exists_ok_bind hload ?_)
  obtain ⟨data, hdata⟩ := hvalid
  obtain ⟨ev, t, hev⟩ : ∃ ev t, (append (transitionEvent a none "submit" (submitData a)) now).Ok
      { s with db := { s.db with actions := T } } ev t := append_isOk hdata hrandom hfresh
  have hrecord : (recordEvent a none "submit" (submitData a) now).Ok
      { s with db := { s.db with actions := T } } { a with lastEventId := some ev.id } t :=
    ok_bind.2 ⟨ev, t, ok_mapError.2 hev, ok_pure.2 ⟨rfl, rfl⟩⟩
  refine exists_ok_bind hrecord ?_
  obtain ⟨-, -, log, -, ht⟩ := append_ok hev
  have htable : t.db.actions = T := by rw [ht]
  obtain ⟨u, hpersist⟩ :
      ∃ u, (persist { a with lastEventId := some ev.id } a.status).Ok t () u := by
    refine ⟨_, ok_bind.2 ⟨t, t, ok_get.2 ⟨rfl, rfl⟩,
      ok_bind.2 ⟨⟨⟩, _, ok_set.2 rfl, ok_ensure.2 ⟨?_, rfl⟩⟩⟩⟩
    have hcount := count_inserted hinsert
    rw [htable]
    exact hcount
  exact exists_ok_bind hpersist ⟨_, _, rfl⟩

theorem submitId_isOk (h : FreshWords s new.actionId) (hnone : ∀ i ∈ new.actionId,
    ∀ a ∈ s.db.actions, a.id ≠ i) (hsome : ∀ i ∈ new.actionId, Printable maxFieldChars i) :
    ∃ id t w ws, (submitId new.actionId).Ok s id t ∧ t.db = s.db ∧ t.random = w :: ws ∧
      FreshEvent s.db w ∧ Printable maxFieldChars id ∧ ∀ a ∈ s.db.actions, a.id ≠ id := by
  obtain ⟨db, random⟩ := s
  unfold FreshWords at h
  cases hid : new.actionId with
  | some i =>
    rw [hid] at h
    cases random with
    | nil => exact h.elim
    | cons w ws => exact ⟨i, _, w, ws, rfl, rfl, rfl, h, hsome i hid, hnone i hid⟩
  | none =>
    rw [hid] at h
    match random, h with
    | v :: w :: ws, ⟨hv, hw⟩ =>
      exact ⟨mintedId "act" v, ⟨db, w :: ws⟩, w, ws, ok_mapError.2 (newId_isOk rfl), rfl, rfl,
        hw, printable_mintedId v, hv⟩

theorem existing_eq_none {db : Db} (h : existing db key id = none) :
    (∀ a ∈ db.actions, a.idempotencyKey ≠ key) ∧ ∀ a ∈ db.actions, a.id ≠ id := by
  unfold existing at h
  cases hkey : db.actions.rows.find? (fun r => r.idempotencyKey = key) with
  | some a => rw [hkey] at h; cases h
  | none =>
    rw [hkey] at h
    exact ⟨fun a ha he => find?_eq_none.1 hkey a ha (decide_eq_true he),
      fun a ha he => find?_eq_none.1 h a ha (decide_eq_true he)⟩

theorem existing_eq_some {db : Db} (h : existing db key id = some a) :
    a ∈ db.actions ∧ (a.idempotencyKey = key ∨ a.id = id) := by
  unfold existing at h
  cases hkey : db.actions.rows.find? (fun r => r.idempotencyKey = key) with
  | some b =>
    rw [hkey] at h
    cases h
    exact ⟨mem_of_find?_eq_some hkey, .inl (of_decide_eq_true (find?_some hkey :))⟩
  | none =>
    rw [hkey] at h
    exact ⟨mem_of_find?_eq_some h, .inr (of_decide_eq_true (find?_some h :))⟩

theorem create_isOk (hnew : Acceptable new) (hrec : Recordable new)
    (hwords : FreshWords s new.actionId)
    (hnone : existing s.db key (new.actionId.getD "") = none) :
    ∃ r s', (create sha256 new key now).Ok s r s' := by
  obtain ⟨hkey, hid⟩ := existing_eq_none hnone
  obtain ⟨id, t, w, ws, hsub, hdb, hrandom, hfresh, hprint, hunused⟩ :=
    submitId_isOk hwords (fun i hi a ha => by rw [Option.mem_def.1 hi] at hid; exact hid a ha)
      fun i hi => ⟨(hnew.actionId i hi).1, hrec.actionId i hi, (hnew.actionId i hi).2.2⟩
  refine exists_ok_bind hsub ?_
  obtain ⟨T, hT⟩ : ∃ T, t.db.actions.insert? (newRow sha256 new id key now) = some T := by
    rw [hdb]
    exact ⟨_, dif_pos hunused⟩
  have hread : rowToAction (newRow sha256 new id key now) = .ok (newRow sha256 new id key now) :=
    rowToAction_eq_ok.2 ⟨⟨hrec.arguments, hrec.actor⟩, rfl⟩
  refine stored_isOk (a := newRow sha256 new id key now) ?_ hT hread ?_ hrandom ?_
  · rw [hdb]
    exact hkey
  · exact validate_submitted hprint hrec.correlation rfl rfl rfl hnew.tool.2.1
  · rw [hdb]
    exact hfresh

theorem submit_of_acceptable (hnew : Acceptable new) (hkey : submitKey new = .ok key)
    (h : ∃ r s', (match existing s.db key (new.actionId.getD "") with
      | some action => pure ⟨action, false⟩
      | none => create sha256 new key now : ActionTx Submission).Ok s r s') :
    ∃ r s', (submit sha256 new now).Ok s r s' := by
  have hid : new.actionId.elim (.ok ()) (checkName "action id") = .ok () := by
    cases hi : new.actionId with
    | none => rfl
    | some i => exact checkName_eq_ok.2 (hnew.actionId i hi)
  refine exists_ok_bind (a := ()) (ok_ofExcept.2 ⟨checkName_eq_ok.2 hnew.tool, rfl⟩) ?_
  refine exists_ok_bind (a := ()) (ok_ensure.2 ⟨hnew.arguments, rfl⟩) ?_
  refine exists_ok_bind (a := ()) (ok_ofExcept.2 ⟨hid, rfl⟩) ?_
  refine exists_ok_bind (ok_ofExcept.2 ⟨hkey, rfl⟩) ?_
  exact exists_ok_bind (ok_get.2 ⟨rfl, rfl⟩) h

theorem submit_isOk (hnew : Acceptable new) (hkey : submitKey new = .ok key)
    (h : existing s.db key (new.actionId.getD "") = none →
      Recordable new ∧ FreshWords s new.actionId) :
    ∃ r s', (submit sha256 new now).Ok s r s' := by
  refine submit_of_acceptable hnew hkey ?_
  cases hex : existing s.db key (new.actionId.getD "") with
  | some a => exact ⟨_, _, rfl⟩
  | none => exact create_isOk hnew (h hex).1 (h hex).2 hex

/-! ### What a submission returns -/

/-- The changes of the database by a submission that stores an action: one row and one event. -/
structure Stores (db : Db) (key : String) (new : NewAction) (r : Submission) (db' : Db) : Prop where
  created : r.created = true
  key : r.action.idempotencyKey = key
  id : ∀ i ∈ new.actionId, r.action.id = i
  actions : db'.actions.rows = db.actions.rows ++ [r.action]
  event : ∃ ev extra, db'.events.events = db.events.events ++ [ev] ∧
    r.action.lastEventId = some ev.id ∧
    ev.toNewEvent = transitionEvent { r.action with lastEventId := none } none "submit" extra
  rest : db'.attempts = db.attempts ∧ db'.runs = db.runs ∧ db'.tickLease = db.tickLease

theorem stores_of_submitted {db db' : Db} {r : Submission} (hcreated : r.created = true)
    (hkey : r.action.idempotencyKey = key) (hid : ∀ i ∈ new.actionId, r.action.id = i)
    (hstep : DbStep db (.submitted r.action) db') : Stores db key new r db' := by
  generalize hc : Change.submitted r.action = c at hstep
  cases hstep with
  | @submitted a actions ev log extra hf hk hi hl he hx =>
    have hr : r.action = { a with lastEventId := some ev.id } := Change.submitted.inj hc
    have ha : { r.action with lastEventId := none } = a := by
      rw [hr, ← hf.lastEventId]
    refine ⟨hcreated, hkey, hid, ?_, ⟨ev, extra, hl, ?_, ?_⟩, rfl, rfl, rfl⟩
    · rw [hr]
      exact (Table.insert?_eq_some.1 hi).2
    · rw [hr]
    · rw [ha]
      exact he
  | moved => cases hc
  | renewed => cases hc

theorem key_persists {db db' : Db} {calls : List Call}
    (h : (actionStore sha256).Steps db calls db') (ha : a ∈ db.actions) :
    ∃ a' ∈ db'.actions, a'.id = a.id ∧ a'.idempotencyKey = a.idempotencyKey := by
  refine h.invariant (I := fun d : Db => ∃ a' ∈ d.actions, a'.id = a.id ∧
    a'.idempotencyKey = a.idempotencyKey) ⟨a, ha, rfl, rfl⟩ ?_
  rintro d c d' hd hst
  obtain ⟨cs, hcs, -⟩ := Call.changes_of_step hst
  refine hcs.invariant (I := fun d : Db => ∃ a' ∈ d.actions, a'.id = a.id ∧
    a'.idempotencyKey = a.idempotencyKey) hd ?_
  rintro d x d' ⟨b, hb, hid, hkey⟩ hst
  obtain ⟨b', hb', hid', hkey', -⟩ := hst.persists hb
  exact ⟨b', hb', hid'.trans hid, hkey'.trans hkey⟩

/-- What is returned for a request with an id and a key: a stored action with one of them, or a new
one with both. -/
theorem submit_returns {r : Submission} {s' : Session} {i k : String}
    (h : (submit sha256 new now).Ok s r s') (hid : new.actionId = some i)
    (hkey : new.idempotencyKey = some k) :
    r.action ∈ s'.db.actions ∧
      ((r.action ∈ s.db.actions ∧ (r.action.idempotencyKey = k ∨ r.action.id = i)) ∨
        ((∀ a ∈ s.db.actions, a.id ≠ i) ∧ r.action.idempotencyKey = k ∧ r.action.id = i)) := by
  obtain ⟨key, hsub, h⟩ := submit_ok h
  have hk : key = k := by
    unfold submitKey at hsub
    rw [hkey] at hsub
    dsimp only at hsub
    cases hname : checkName "idempotency key" k with
    | error e => rw [hname] at hsub; cases hsub
    | ok u => rw [hname] at hsub; cases hsub; rfl
  rw [hk, hid, Option.getD_some] at h
  rcases h with ⟨-, hex, hdb⟩ | ⟨-, hnone, hrkey, -, hrid, hstep⟩
  · obtain ⟨hmem, hor⟩ := existing_eq_some hex
    exact ⟨hdb ▸ hmem, .inl ⟨hmem, hor⟩⟩
  · exact ⟨hstep.mem_submitted, .inr ⟨(existing_eq_none hnone).2, hrkey, hrid i rfl⟩⟩

/-- **A submission finds the stored action of its key or id, or stores one action and one event;
submissions with different ids and different keys get different actions, unless one action was
stored that has the id of one and the key of the other.** -/
theorem submit_accepts (sha256 : String → String) :
    (∀ (new : NewAction) (now : Int) (s : Session), Acceptable new →
      ∃ key, submitKey new = .ok key ∧
        (∀ a, existing s.db key (new.actionId.getD "") = some a →
          ∃ s', (submit sha256 new now).Ok s ⟨a, false⟩ s' ∧ s'.db = s.db) ∧
        (existing s.db key (new.actionId.getD "") = none → Recordable new →
          FreshWords s new.actionId →
          ∃ r s', (submit sha256 new now).Ok s r s' ∧ Stores s.db key new r s'.db)) ∧
      ∀ (new₁ new₂ : NewAction) (now₁ now₂ : Int) (s₁ s₁' s₂ s₂' : Session) (r₁ r₂ : Submission)
        (calls : List Call) (i₁ i₂ k₁ k₂ : String),
        (submit sha256 new₁ now₁).Ok s₁ r₁ s₁' → (actionStore sha256).Steps s₁'.db calls s₂.db →
        (submit sha256 new₂ now₂).Ok s₂ r₂ s₂' →
        new₁.actionId = some i₁ → new₂.actionId = some i₂ → i₁ ≠ i₂ →
        new₁.idempotencyKey = some k₁ → new₂.idempotencyKey = some k₂ → k₁ ≠ k₂ →
        (∀ a ∈ s₁.db.actions, ¬(a.id = i₁ ∧ a.idempotencyKey = k₂) ∧
          ¬(a.id = i₂ ∧ a.idempotencyKey = k₁)) →
        r₁.action.id ≠ r₂.action.id := by
  constructor
  · intro new now s hnew
    obtain ⟨key, hkey⟩ := submitKey_isOk hnew
    refine ⟨key, hkey, fun a ha => ?_, fun hnone hrec hwords => ?_⟩
    · obtain ⟨r, s', h⟩ : ∃ r s', (submit sha256 new now).Ok s r s' :=
        submit_isOk hnew hkey fun hnone => absurd (ha.symm.trans hnone) nofun
      obtain ⟨key', hkey', ⟨hfound, hex, hdb⟩ | ⟨-, hnone, -⟩⟩ := submit_ok h
      · cases hkey.symm.trans hkey'
        obtain ⟨action, created⟩ := r
        cases ha.symm.trans hex
        cases hfound
        exact ⟨s', h, hdb⟩
      · cases hkey.symm.trans hkey'
        cases ha.symm.trans hnone
    · obtain ⟨r, s', h⟩ : ∃ r s', (submit sha256 new now).Ok s r s' :=
        submit_isOk hnew hkey fun _ => ⟨hrec, hwords⟩
      obtain ⟨key', hkey', ⟨-, hex, -⟩ | ⟨hcreated, -, hrkey, -, hrid, hstep⟩⟩ := submit_ok h
      · cases hkey.symm.trans hkey'
        cases hnone.symm.trans hex
      · cases hkey.symm.trans hkey'
        exact ⟨r, s', h, stores_of_submitted hcreated hrkey hrid hstep⟩
  · intro new₁ new₂ now₁ now₂ s₁ s₁' s₂ s₂' r₁ r₂ calls i₁ i₂ k₁ k₂ h₁ hsteps h₂ hi₁ hi₂ hi hk₁ hk₂
      hk hcross heq
    obtain ⟨hmem, h₁⟩ := submit_returns h₁ hi₁ hk₁
    obtain ⟨-, h₂⟩ := submit_returns h₂ hi₂ hk₂
    -- the row of the first answer, when the second request comes
    obtain ⟨a, ha, haid, hakey⟩ := key_persists hsteps hmem
    have hsecond : r₂.action.idempotencyKey = r₁.action.idempotencyKey ∧
        (r₂.action.idempotencyKey = k₂ ∨ r₂.action.id = i₂) := by
      rcases h₂ with ⟨hmem₂, hor⟩ | ⟨hnew, -, hid₂⟩
      · obtain rfl := Table.eq_of_key hmem₂ ha (heq.symm.trans haid.symm)
        exact ⟨hakey, hor⟩
      · exact absurd (haid.trans (heq.trans hid₂)) (hnew a ha)
    rcases h₁ with ⟨hmem₁, hor⟩ | ⟨-, hkey₁, hid₁⟩
    · rcases hor with hor | hor <;> rcases hsecond.2 with h | h
      · exact hk (hor.symm.trans (hsecond.1.symm.trans h))
      · exact (hcross _ hmem₁).2 ⟨heq.trans h, hor⟩
      · exact (hcross _ hmem₁).1 ⟨hor, hsecond.1.symm.trans h⟩
      · exact hi (hor.symm.trans (heq.trans h))
    · rcases hsecond.2 with h | h
      · exact hk (hkey₁.symm.trans (hsecond.1.symm.trans h))
      · exact hi (hid₁.symm.trans (heq.trans h))

theorem ok_pair {x y : ActionTx Submission} {p : Submission × Submission → Bool}
    (h : (((do let r ← x; let q ← y; pure (r, q) : ActionTx (Submission × Submission)).run
      s).toOption.any fun out => p out.1) = true) :
    ∃ r t q u, x.Ok s r t ∧ y.Ok t q u ∧ p (r, q) = true := by
  obtain ⟨out, hout, hp⟩ := (Option.any_eq_true _ _).1 h
  have hok : (do let r ← x; let q ← y; pure (r, q) : ActionTx (Submission × Submission)).Ok s out.1
      out.2 := by
    unfold Tx.Ok
    cases hrun : (do let r ← x; let q ← y; pure (r, q) :
        ActionTx (Submission × Submission)).run s with
    | error e => rw [hrun] at hout; cases hout
    | ok v => rw [hrun] at hout; cases hout; rfl
  simp only [ok_bind, ok_pure] at hok
  obtain ⟨r, t, hr, q, u, hq, heq, -⟩ := hok
  exact ⟨r, t, q, u, hr, hq, heq ▸ hp⟩

/-- A request of the tool `mail`. -/
def mail (id key : String) : NewAction :=
  { tool := "mail", arguments := .null, actionId := some id, idempotencyKey := some key }

theorem acceptable_mail (hid : Printable maxNameChars id) (hkey : Printable maxNameChars key) :
    Acceptable (mail id key) where
  tool := show Printable maxNameChars "mail" by decide
  actionId := by
    rintro _ ⟨⟩
    exact hid
  key := by
    rintro _ ⟨⟩
    exact hkey
  arguments := show Json.null.render.utf8ByteSize ≤ maxArgumentBytes by decide +kernel
  named := .inl nofun

theorem submit_accepts_mail :
    (∃ r s', (submit nullDigest (mail "a" "first") 0).Ok ⟨Db.empty, words [1]⟩ r s' ∧
      Stores Db.empty "first" (mail "a" "first") r s'.db) ∧
    ∃ r₁ r₂ s₁ s₂, (submit nullDigest (mail "a" "first") 0).Ok ⟨Db.empty, words [1, 2]⟩ r₁ s₁ ∧
      (submit nullDigest (mail "b" "second") 1).Ok s₁ r₂ s₂ ∧ r₁.action.id ≠ r₂.action.id := by
  constructor
  · obtain ⟨key, hkey, -, hnew⟩ := (submit_accepts nullDigest).1 (mail "a" "first") 0
      ⟨Db.empty, words [1]⟩ (acceptable_mail (by decide) (by decide))
    have hfirst : submitKey (mail "a" "first") = .ok "first" := by rfl
    cases hfirst.symm.trans hkey
    refine hnew rfl ⟨?_, nofun, by decide, nofun⟩ fun e he => absurd he not_mem_nil
    rintro _ ⟨⟩
    decide
  · have hrun : (((do
        let r ← submit nullDigest (mail "a" "first") 0
        let q ← submit nullDigest (mail "b" "second") 1
        pure (r, q) : ActionTx (Submission × Submission)).run
          ⟨Db.empty, words [1, 2]⟩).toOption.any fun _ => true) = true := by decide +kernel
    obtain ⟨r₁, s₁, r₂, s₂, h₁, h₂, -⟩ := ok_pair (p := fun _ => true) hrun
    refine ⟨r₁, r₂, s₁, s₂, h₁, h₂, ?_⟩
    exact (submit_accepts nullDigest).2 _ _ 0 1 _ s₁ s₁ s₂ r₁ r₂ [] "a" "b" "first" "second" h₁
      Machine.Steps.nil h₂ rfl rfl (by decide) rfl rfl (by decide)
      fun a ha => absurd ha (Table.not_mem_empty a)

/-- The stored action has the id of one request and the key of the other one. -/
theorem crossed_submissions_same_action :
    ∃ (calls : List Call) (s s₁ s₂ : Session) (r₁ r₂ : Submission),
      (actionStore nullDigest).Run calls s.db ∧
      Acceptable (mail "a" "first") ∧ Acceptable (mail "b" "second") ∧
      (submit nullDigest (mail "a" "first") 1).Ok s r₁ s₁ ∧
      (submit nullDigest (mail "b" "second") 2).Ok s₁ r₂ s₂ ∧ r₁.action.id = r₂.action.id := by
  have hrun : (((do
      let r ← submit nullDigest (mail "a" "first") 1
      let q ← submit nullDigest (mail "b" "second") 2
      pure (r, q) : ActionTx (Submission × Submission)).run
        ⟨(script nullDigest Db.empty [(.submit (mail "a" "second"), 0, words [1])]).2,
          []⟩).toOption.any fun out => out.1.1.action.id = out.1.2.action.id) = true := by
    decide +kernel
  obtain ⟨r₁, s₁, r₂, s₂, h₁, h₂, hid⟩ :=
    ok_pair (p := fun out => out.1.action.id = out.2.action.id) hrun
  have hstored : (actionStore nullDigest).Run _
      (script nullDigest Db.empty [(.submit (mail "a" "second"), 0, words [1])]).2 :=
    steps_script nullDigest Db.empty _
  generalize (script nullDigest Db.empty [(.submit (mail "a" "second"), 0, words [1])]).2 = db
    at h₁ hstored
  exact ⟨_, ⟨db, []⟩, s₁, s₂, r₁, r₂, hstored, acceptable_mail (by decide) (by decide),
    acceptable_mail (by decide) (by decide), h₁, h₂, of_decide_eq_true hid⟩

/-! ### A key has one action -/

/-- The key is taken, and by this action alone. -/
def TakenBy (key i : String) (db : Db) : Prop :=
  (∃ a ∈ db.actions, a.idempotencyKey = key) ∧ ∀ a ∈ db.actions, a.idempotencyKey = key → a.id = i

/-- A key that is taken stays with its action. -/
theorem TakenBy.step {d d' : Db} {c : Change} {i : String} (h : TakenBy key i d)
    (hst : DbStep d c d') : TakenBy key i d' := by
  obtain ⟨⟨a, ha, hakey⟩, hall⟩ := h
  obtain ⟨a', ha', -, hakey', -⟩ := hst.persists ha
  refine ⟨⟨a', ha', hakey'.trans hakey⟩, fun b hb hbkey => ?_⟩
  cases hst with
  | submitted hf hk hi hl he hx =>
    rcases (Table.mem_of_insert? hi).1 hb with hb | rfl
    · exact hall b hb hbkey
    · exact absurd (hakey.trans hbkey.symm) (hk a ha)
  | @moved g x x₁ to_ now attempts ev log extra hx hn hm hl he hextra =>
    have hid : x.id = (x₁.stamp to_ now ev.id).id := hm.id_eq.symm
    rcases (Table.mem_put_of_mem hx hid).1 hb with ⟨hb, -⟩ | rfl
    · exact hall b hb hbkey
    · exact hid.symm.trans (hall x hx (hm.idempotencyKey.symm.trans hbkey))
  | @renewed x leaseMs now hx hs he =>
    rcases (Table.mem_put_of_mem (r := renewRow leaseMs now x) hx rfl).1 hb with ⟨hb, -⟩ | rfl
    · exact hall b hb hbkey
    · exact hall x hx hbkey

/-- Once a submission has stored an action, and whatever is called in between, another one with its
key returns this action and stores nothing. -/
theorem submit_once {new₁ new₂ : NewAction} {now₁ now₂ : Int} {s₁ s₁' s₂ s₂' : Session}
    {r₁ r₂ : Submission} {calls : List Call} (h₁ : (submit sha256 new₁ now₁).Ok s₁ r₁ s₁')
    (hcreated : r₁.created = true) (hst : (actionStore sha256).Steps s₁'.db calls s₂.db)
    (h₂ : (submit sha256 new₂ now₂).Ok s₂ r₂ s₂') (hkey : submitKey new₂ = submitKey new₁) :
    r₂.action.id = r₁.action.id ∧ r₂.created = false ∧ s₂'.db = s₂.db := by
  obtain ⟨k, hk, ⟨hfound, -⟩ | ⟨-, hnone, hrkey, -, hrid, hstored⟩⟩ := submit_ok h₁
  · exact absurd (hfound.symm.trans hcreated) (by decide)
  have htaken : TakenBy k r₁.action.id s₁'.db := by
    refine ⟨⟨_, hstored.mem_submitted, hrkey⟩, fun a ha hakey => ?_⟩
    have hrows := (stores_of_submitted hcreated hrkey hrid hstored).actions
    rcases mem_append.1 (hrows ▸ ha : a ∈ s₁.db.actions.rows ++ [r₁.action]) with ha | ha
    · exact absurd hakey ((existing_eq_none hnone).1 a ha)
    · rw [mem_singleton.1 ha]
  obtain ⟨cs, hcs⟩ := actionStore_refines.steps hst
  have hlater : TakenBy k r₁.action.id s₂.db :=
    hcs.invariant (I := TakenBy k r₁.action.id) htaken fun _ _ _ h hs => h.step hs
  obtain ⟨a, ha, hakey⟩ := hlater.1
  obtain ⟨k', hk', hcase⟩ := submit_ok h₂
  obtain rfl : k = k' := Except.ok.inj (hk.symm.trans (hkey.symm.trans hk'))
  rcases hcase with ⟨hfound, hex, hdb⟩ | ⟨-, hex, -⟩
  · refine ⟨?_, hfound, hdb⟩
    cases hfind : s₂.db.actions.rows.find? fun x => decide (x.idempotencyKey = k) with
    | none => exact absurd hakey (by simpa using find?_eq_none.1 hfind a ha)
    | some b =>
      rw [existing, hfind] at hex
      obtain rfl : b = r₂.action := Option.some.inj hex
      exact hlater.2 _ (mem_of_find?_eq_some hfind) (by simpa using find?_some hfind)
  · exact absurd hakey ((existing_eq_none hex).1 a ha)

theorem submit_once_mail : ∃ r₁ r₂ s₁ s₂,
    (submit nullDigest (mail "a" "first") 0).Ok ⟨Db.empty, words [1, 2]⟩ r₁ s₁ ∧
      (submit nullDigest (mail "b" "first") 1).Ok s₁ r₂ s₂ ∧ r₂.action.id = r₁.action.id ∧
      r₂.created = false ∧ s₂.db = s₁.db := by
  have hrun : (((do
      let r ← submit nullDigest (mail "a" "first") 0
      let q ← submit nullDigest (mail "b" "first") 1
      pure (r, q) : ActionTx (Submission × Submission)).run
        ⟨Db.empty, words [1, 2]⟩).toOption.any fun out => out.1.1.created) = true := by
    decide +kernel
  obtain ⟨r₁, s₁, r₂, s₂, h₁, h₂, hcreated⟩ := ok_pair (p := fun out => out.1.created) hrun
  exact ⟨r₁, r₂, s₁, s₂, h₁, h₂, submit_once h₁ hcreated Machine.Steps.nil h₂ rfl⟩

end Majordomo

end U2os
