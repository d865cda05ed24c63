import U2os.Lib.Run
import U2os.Mcp.Jobs.Submit

/-!
# One submit for one job

The applications, the plannings that wait for a form, the drivers at work and the clicks they
made.  A driver fills a form for a long time between the check of its application and its click,
and others may plan, submit or retry meanwhile: the lock of a job is not taken by all of them, and
it gets old.
-/

namespace U2os.Mcp.Jobs

open List Option Function HuntStore Machine

/-- A submit click: a driver came past `beforeSubmit`. -/
structure Click where
  jobId : String
  applicationId : ℕ
  /-- It was reported failed, or the owner verified that nothing was clicked. -/
  excused : Bool
deriving DecidableEq

/-- The click needs no account any more. -/
def Click.excuse (a : Click) : Click := { a with excused := true }

/-- The applications, the plannings, the drivers, the locks and the clicks. -/
structure FormState where
  store : HuntStore
  /-- When the lock file of a job was written. -/
  locks : String → Option ℕ
  /-- The plannings, each with the number of clicks there were when it began. -/
  plannings : ℕ → Option (Planning × ℕ)
  runs : ℕ → Option DriverRun
  clicks : List Click

/-- What can happen. -/
inductive FormLabel where
  /-- `planApplication`, up to the reading of the form. -/
  | plan (c : ℕ) (job : Job) (candidate : String) (target : Option String)
      (verifiedNoClick : Bool)
  | planned (c : ℕ) (plan : Plan) (now : ℕ)
  /-- The form cannot be read, or the process stops. -/
  | stopPlanning (c : ℕ)
  /-- `submitApplication`, up to its driver. -/
  | submit (c : ℕ) (request : SubmitRequest) (now : ℕ)
  | beforeSubmit (c : ℕ) (now : ℕ)
  | result (c : ℕ) (status : String) (now : ℕ)
  /-- The driver throws. -/
  | throws (c : ℕ)
  /-- The process of a driver stops; its lock stays. -/
  | crash (c : ℕ)
  | recover (now : ℕ)
  /-- Everything else that writes the jobs and the emails. -/
  | others (jobs : Table Job Job.id) (emails : Numbered EmailRow EmailRow.id)

/-- The clicks, when one is excused. -/
def excuseAt (clicks : List Click) (i : Option ℕ) : List Click :=
  i.elim clicks fun i => clicks.modify i Click.excuse

/-- The clicks, when the owner has verified an attempt; later ones are not meant. -/
def excuseRetried (clicks : List Click) (retryFrom : Option ℕ) (seen : ℕ) : List Click :=
  clicks.mapIdx fun i a => if i < seen ∧ retryFrom = some a.applicationId then a.excuse else a

/-- A step of the machine. -/
def performForm (N : Normalizer) (s : FormState) : FormLabel → Option FormState
  | .plan c job candidate target verifiedNoClick =>
    match s.plannings c, beginPlan N s.store job candidate target verifiedNoClick with
    | none, .ok p =>
      some { s with plannings := update s.plannings c (some (p, s.clicks.length)) }
    | _, _ => none
  | .planned c plan now =>
    match s.plannings c with
    | none => none
    | some (p, seen) =>
      let plannings := update s.plannings c none
      match finishPlan s.store p plan now with
      | none => some { s with plannings := plannings }
      | some store =>
        some { s with
          store := store
          plannings := plannings
          clicks := excuseRetried s.clicks p.retryFrom seen }
  | .stopPlanning c => some { s with plannings := update s.plannings c none }
  | .submit c request now =>
    match s.runs c with
    | some _ => none
    | none =>
      if request.lock.all (lockFree s.locks now) then
        match beginSubmit N s.store request now with
        | (store, .ok r) =>
          some { s with
            store := store
            locks := setLock s.locks request.lock (some now)
            runs := update s.runs c (some r) }
        | (store, .error _) =>
          some { s with store := store, locks := setLock s.locks request.lock none }
      else none
  | .beforeSubmit c now =>
    match s.runs c with
    | none => none
    | some r =>
      if r.submit = true ∧ r.click = none then
        some { s with
          store := Jobs.beforeSubmit s.store r now
          runs := update s.runs c (some { r with click := some s.clicks.length })
          clicks := s.clicks ++ [⟨r.jobId, r.applicationId, false⟩] }
      else none
  | .result c status now =>
    match s.runs c with
    | none => none
    | some r =>
      some { s with
        store := finishSubmit s.store r status now
        locks := setLock s.locks r.lock none
        runs := update s.runs c none
        clicks :=
          if r.prefill = false ∧ status = "failed" then excuseAt s.clicks r.click else s.clicks }
  | .throws c =>
    match s.runs c with
    | none => none
    | some r =>
      some { s with
        locks := setLock s.locks r.lock none
        runs := update s.runs c none }
  | .crash c => some { s with runs := update s.runs c none }
  | .recover now => some { s with store := recoverInterrupted s.store now }
  | .others jobs emails => some { s with store := { s.store with jobs := jobs, emails := emails } }

/-- The applications of one vault. -/
def formMachine (N : Normalizer) : Machine FormState FormLabel :=
  .ofPerform
    { store := .empty
      locks := fun _ => none
      plannings := fun _ => none
      runs := fun _ => none
      clicks := [] } (performForm N)

/-- Of two clicks for one job the earlier was reported failed, or the owner verified that there was
none. -/
def FormState.ClickedOnce (s : FormState) : Prop :=
  ∀ (i j : ℕ) (a b : Click), s.clicks[i]? = some a → s.clicks[j]? = some b → a.jobId = b.jobId →
    i < j → a.excused = true

namespace HuntStore

/-- The job has the application. -/
def HasRow (s : HuntStore) (id : ℕ) (jobId : String) : Prop :=
  ∃ q ∈ s.applications, q.id = id ∧ q.jobId = jobId

/-- The application blocks. -/
def Blocked (s : HuntStore) (id : ℕ) : Prop :=
  ∃ q ∈ s.applications, q.id = id ∧ q.status ∈ blockingForms

/-- The application was retried, after the owner verified that nothing was clicked. -/
def Retried (s : HuntStore) (id : ℕ) : Prop :=
  ∃ q ∈ s.applications, q.idempotencyKey.retryOf = some id

end HuntStore

/-- The application of a run may be clicked: it is still planned, no retry stands in its place, and
the other attempts of its job that block were retried. -/
structure StillFree (s : FormState) (r : DriverRun) : Prop where
  planned : ∃ q ∈ s.store.applications, q.id = r.applicationId ∧ q.status = .planned
  notRetried : ¬ s.store.Retried r.applicationId
  others : ∀ q ∈ s.store.listApplications r.jobId, q.status ∈ blockingForms → s.store.Retried q.id

/-- The condition on a step: a driver comes to its click while its application may be clicked;
nothing planned or run without a click frees an application that blocks; what the owner verified was
not clicked since; and of the outcomes that free an application, only a failure is reported after a
click. -/
def Orderly (s : FormState) : FormLabel → Prop
  | .planned c _ _ => ∀ p n, s.plannings c = some (p, n) →
      (∀ id, p.existing = some id → ¬ s.store.Blocked id) ∧
        ∀ a ∈ s.clicks.drop n, p.retryFrom ≠ some a.applicationId
  | .beforeSubmit c _ => ∀ r, s.runs c = some r → StillFree s r
  | .result c status _ => ∀ r, s.runs c = some r → r.prefill = false →
      resultStatus status ∉ blockingForms →
      match r.click with
      | none => ¬ s.store.Blocked r.applicationId
      | some _ => status = "failed"
  | _ => True

namespace HuntStore

variable {s s' : HuntStore} {id id' now : ℕ} {st : ApplicationStatus} {plan : Option Plan}
  {jobId : String}

theorem hasRow_updateApplication (h : s.HasRow id jobId) :
    (s.updateApplication id' st plan now).HasRow id jobId := by
  obtain ⟨q, hq, hid, hj⟩ := h
  refine ⟨_, mem_updateApplication.2 ⟨q, hq, rfl⟩, ?_⟩
  by_cases hk : q.id = id'
  · rw [if_pos hk]
    exact ⟨hid, hj⟩
  · rw [if_neg hk]
    exact ⟨hid, hj⟩

theorem retried_updateApplication (h : (s.updateApplication id' st plan now).Retried id) :
    s.Retried id := by
  obtain ⟨q, hq, hk⟩ := h
  obtain ⟨q, hq', rfl⟩ := mem_updateApplication.1 hq
  refine ⟨q, hq', ?_⟩
  by_cases hid : q.id = id'
  · rwa [if_pos hid] at hk
  · rwa [if_neg hid] at hk

theorem blocked_updateApplication (h : s.Blocked id) (hst : st ∈ blockingForms ∨ id ≠ id') :
    (s.updateApplication id' st plan now).Blocked id := by
  obtain ⟨q, hq, hid, hs⟩ := h
  refine ⟨_, mem_updateApplication.2 ⟨q, hq, rfl⟩, ?_⟩
  by_cases hk : q.id = id'
  · rw [if_pos hk]
    exact ⟨hid, hst.resolve_right (not_not.2 (hid.symm.trans hk))⟩
  · rw [if_neg hk]
    exact ⟨hid, hs⟩

/-- The applications of two stores are the same, but for statuses that block. -/
structure Settled (s s' : HuntStore) : Prop where
  rows : ∀ id jobId, s.HasRow id jobId → s'.HasRow id jobId
  blocked : ∀ id, s.Blocked id → s'.Blocked id
  retried : ∀ id, s'.Retried id → s.Retried id

theorem Settled.refl (s : HuntStore) : Settled s s := ⟨fun _ _ => id, fun _ => id, fun _ => id⟩

theorem Settled.trans {s'' : HuntStore} (h : Settled s s') (h' : Settled s' s'') : Settled s s'' :=
  ⟨fun id j => h'.rows id j ∘ h.rows id j, fun id => h'.blocked id ∘ h.blocked id,
    fun id => h.retried id ∘ h'.retried id⟩

theorem settled_updateApplication (s : HuntStore) (id now : ℕ) (plan : Option Plan)
    (hst : st ∈ blockingForms) : Settled s (s.updateApplication id st plan now) :=
  ⟨fun _ _ => hasRow_updateApplication, fun _ h => blocked_updateApplication h (.inl hst),
    fun _ => retried_updateApplication⟩

theorem Settled.of_eq {t : HuntStore} (h : Settled s t) (ha : s'.applications = t.applications) :
    Settled s s' where
  rows id j hr := by
    have := h.rows id j hr
    rwa [HasRow, ← ha] at this
  blocked id hb := by
    have := h.blocked id hb
    rwa [Blocked, ← ha] at this
  retried id hr := by
    refine h.retried id ?_
    rwa [Retried, ← ha]

theorem settled_recoverInterrupted (s : HuntStore) (now : ℕ) :
    Settled s (recoverInterrupted s now) := by
  unfold recoverInterrupted
  generalize s.applications.rows.filter _ = l
  induction l generalizing s with
  | nil => exact .refl s
  | cons r l ih =>
    refine Settled.trans ?_ (ih (recoverRow now s r))
    refine (settled_updateApplication s r.id now none (by decide : .uncertain ∈ _)).of_eq ?_
    unfold recoverRow
    simp only
    split
    · split_ifs <;> rfl
    · rfl

end HuntStore

/-- Clicks keep what they are, and those that are excused stay excused. -/
def Excuses (l l' : List Click) : Prop :=
  ∀ (i : ℕ) (b : Click), l'[i]? = some b → ∃ a, l[i]? = some a ∧ b.jobId = a.jobId ∧
    b.applicationId = a.applicationId ∧ (a.excused = true → b.excused = true)

namespace Excuses

theorem refl (l : List Click) : Excuses l l := fun _ b h => ⟨b, h, rfl, rfl, id⟩

theorem excuseAt (l : List Click) (i : Option ℕ) : Excuses l (excuseAt l i) := by
  cases i with
  | none => exact refl l
  | some i =>
    intro j b hj
    have hj : (l.modify i Click.excuse)[j]? = some b := hj
    rw [getElem?_modify] at hj
    obtain ⟨a, ha, rfl⟩ := map_eq_some_iff.1 hj
    refine ⟨a, ha, ?_⟩
    split_ifs
    · exact ⟨rfl, rfl, fun _ => rfl⟩
    · exact ⟨rfl, rfl, id⟩

theorem excuseRetried (l : List Click) (retryFrom : Option ℕ) (seen : ℕ) :
    Excuses l (excuseRetried l retryFrom seen) := by
  intro j b hj
  rw [Jobs.excuseRetried, getElem?_mapIdx] at hj
  obtain ⟨a, ha, rfl⟩ := map_eq_some_iff.1 hj
  refine ⟨a, ha, ?_⟩
  split_ifs
  · exact ⟨rfl, rfl, fun _ => rfl⟩
  · exact ⟨rfl, rfl, id⟩

end Excuses

/-! ### The invariant -/

/-- The applications, the drivers and the clicks. -/
structure FormState.Sound (s : FormState) : Prop where
  rows : ∀ a ∈ s.clicks, s.store.HasRow a.applicationId a.jobId
  runRows : ∀ c r, s.runs c = some r → s.store.HasRow r.applicationId r.jobId
  /-- A click to account for keeps its application blocked. -/
  held : ∀ a ∈ s.clicks, a.excused = false →
    s.store.Blocked a.applicationId ∧ ¬ s.store.Retried a.applicationId
  once : s.ClickedOnce
  /-- While a driver waits for the outcome of its click, its application blocks, and no other
  click on it is to account for. -/
  running : ∀ c r k, s.runs c = some r → r.click = some k → s.store.Blocked r.applicationId ∧
    ∀ (j : ℕ) (b : Click), s.clicks[j]? = some b → b.applicationId = r.applicationId → j ≠ k →
      b.excused = true
  one : ∀ c c' r r', s.runs c = some r → s.runs c' = some r' → r.click.isSome = true →
    r'.click.isSome = true → r.applicationId = r'.applicationId → c = c'
  keyed : ∀ c p n, s.plannings c = some (p, n) → p.key.retryOf = p.retryFrom

/-- No click on the application is to account for. -/
def FormState.Free (s : FormState) (id : ℕ) : Prop :=
  (∀ a ∈ s.clicks, a.applicationId = id → a.excused = true) ∧
    ∀ c r, s.runs c = some r → r.click.isSome = true → r.applicationId ≠ id

namespace FormState.Sound

variable {N : Normalizer} {s t : FormState}

theorem init : (formMachine N).init.Sound where
  rows := by simp [formMachine, ofPerform]
  runRows := by simp [formMachine, ofPerform]
  held := by simp [formMachine, ofPerform]
  once := by simp [formMachine, ofPerform, ClickedOnce]
  running := by simp [formMachine, ofPerform]
  one := by simp [formMachine, ofPerform]
  keyed := by simp [formMachine, ofPerform]

theorem keep (h : s.Sound)
    (hrow : ∀ id j, s.store.HasRow id j → t.store.HasRow id j)
    (hblocked : ∀ id, s.store.Blocked id → t.store.Blocked id ∨ t.Free id)
    (hretried : ∀ id, t.store.Retried id → s.store.Retried id ∨
      ∀ a ∈ t.clicks, a.applicationId = id → a.excused = true)
    (hclicks : Excuses s.clicks t.clicks)
    (hruns : ∀ c r, t.runs c = some r → s.runs c = some r)
    (hplannings : ∀ c p, t.plannings c = some p → s.plannings c = some p) : t.Sound := by
  refine ⟨?_, ?_, ?_, ?_, ?_, ?_, ?_⟩
  · intro b hb
    obtain ⟨i, hi⟩ := mem_iff_getElem?.1 hb
    obtain ⟨a, ha, hj, hid, _⟩ := hclicks i b hi
    rw [hj, hid]
    exact hrow _ _ (h.rows a (mem_of_getElem? ha))
  · exact fun c r hr => hrow _ _ (h.runRows c r (hruns c r hr))
  · intro b hb hex
    obtain ⟨i, hi⟩ := mem_iff_getElem?.1 hb
    obtain ⟨a, ha, _, hid, hmono⟩ := hclicks i b hi
    have hexa : a.excused = false := by
      by_contra hne
      rw [hmono (by simpa using hne)] at hex
      cases hex
    obtain ⟨hbl, hre⟩ := h.held a (mem_of_getElem? ha) hexa
    constructor
    · rw [hid]
      refine (hblocked _ hbl).resolve_right fun hfree => ?_
      rw [hfree.1 b hb hid] at hex
      cases hex
    · rw [hid]
      intro hr
      rcases hretried _ hr with hr | hr
      · exact hre hr
      · rw [hr b hb hid] at hex
        cases hex
  · intro i j b b' hi hj hjob hlt
    obtain ⟨a, ha, haj, _, hmono⟩ := hclicks i b hi
    obtain ⟨a', ha', haj', _, _⟩ := hclicks j b' hj
    exact hmono (h.once i j a a' ha ha' (by rw [← haj, ← haj', hjob]) hlt)
  · intro c r k hr hk
    obtain ⟨hbl, hothers⟩ := h.running c r k (hruns c r hr) hk
    constructor
    · exact (hblocked _ hbl).resolve_right fun hfree => hfree.2 c r hr (by simp [hk]) rfl
    · intro j b hj hid hne
      obtain ⟨a, ha, _, hida, hmono⟩ := hclicks j b hj
      exact hmono (hothers j a ha (hida.symm.trans hid) hne)
  · exact fun c c' r r' hr hr' => h.one c c' r r' (hruns c r hr) (hruns c' r' hr')
  · exact fun c p n hp => h.keyed c p n (hplannings c _ hp)

theorem settled (h : s.Sound) (hs : HuntStore.Settled s.store t.store)
    (hclicks : Excuses s.clicks t.clicks)
    (hruns : ∀ c r, t.runs c = some r → s.runs c = some r)
    (hplannings : ∀ c p, t.plannings c = some p → s.plannings c = some p) : t.Sound :=
  h.keep hs.rows (fun id hb => .inl (hs.blocked id hb)) (fun id hr => .inl (hs.retried id hr))
    hclicks hruns hplannings

theorem start (h : s.Sound) {c : ℕ} {r : DriverRun} (hclick : r.click = none)
    (hrow : s.store.HasRow r.applicationId r.jobId) :
    Sound { s with runs := update s.runs c (some r) } := by
  have hold : ∀ c' r', update s.runs c (some r) c' = some r' → r'.click.isSome = true →
      s.runs c' = some r' := by
    intro c' r' hr hk
    rcases of_update_some hr with ⟨_, rfl⟩ | ⟨_, hr⟩
    · rw [hclick] at hk
      cases hk
    · exact hr
  refine ⟨h.rows, ?_, h.held, h.once, ?_, ?_, h.keyed⟩
  · intro c' r' hr
    rcases of_update_some hr with ⟨_, rfl⟩ | ⟨_, hr⟩
    · exact hrow
    · exact h.runRows c' r' hr
  · exact fun c' r' k hr hk => h.running c' r' k (hold c' r' hr (by simp [hk])) hk
  · exact fun c₁ c₂ r₁ r₂ h₁ h₂ k₁ k₂ =>
      h.one c₁ c₂ r₁ r₂ (hold c₁ r₁ h₁ k₁) (hold c₂ r₂ h₂ k₂) k₁ k₂

theorem startPlan (h : s.Sound) {c : ℕ} {p : Planning} (hp : p.key.retryOf = p.retryFrom) :
    Sound { s with plannings := update s.plannings c (some (p, s.clicks.length)) } := by
  refine ⟨h.rows, h.runRows, h.held, h.once, h.running, h.one, ?_⟩
  intro c' q n hq
  rcases of_update_some hq with ⟨_, hq⟩ | ⟨_, hq⟩
  · obtain ⟨rfl, rfl⟩ := Prod.mk.inj hq
    exact hp
  · exact h.keyed c' q n hq

/-- A run may click whose row is still free. -/
theorem click (h : s.Sound) {c : ℕ} {r : DriverRun} (hr : s.runs c = some r) (hf : StillFree s r)
    (now : ℕ) :
    Sound { s with
      store := Jobs.beforeSubmit s.store r now
      runs := update s.runs c (some { r with click := some s.clicks.length })
      clicks := s.clicks ++ [⟨r.jobId, r.applicationId, false⟩] } := by
  have hs : HuntStore.Settled s.store (Jobs.beforeSubmit s.store r now) :=
    settled_updateApplication _ _ _ _ (by decide)
  have hfree : ¬ s.store.Blocked r.applicationId := by
    rintro ⟨q, hq, hid, hst⟩
    obtain ⟨q', hq', hid', hst'⟩ := hf.planned
    obtain rfl := Numbered.eq_of_key hq hq' (hid.trans hid'.symm)
    rw [hst'] at hst
    revert hst
    decide
  -- What is still to account for blocks, so it was retried, but then it is accounted for.
  have hexcused : ∀ a ∈ s.clicks, a.jobId = r.jobId → a.excused = true := by
    intro a ha hj
    by_contra hex
    obtain ⟨⟨q, hq, hid, hst⟩, hre⟩ := h.held a ha (by simpa using hex)
    obtain ⟨q', hq', hid', hj'⟩ := h.rows a ha
    obtain rfl := Numbered.eq_of_key hq hq' (hid.trans hid'.symm)
    have := hf.others q (mem_listApplications.2 ⟨hq, hj'.trans hj⟩) hst
    rw [hid] at this
    exact hre this
  have hget : ∀ (i : ℕ) (b : Click),
      (s.clicks ++ [(⟨r.jobId, r.applicationId, false⟩ : Click)])[i]? = some b →
      s.clicks[i]? = some b ∨ i = s.clicks.length ∧ b = ⟨r.jobId, r.applicationId, false⟩ := by
    intro i b hi
    rcases lt_or_ge i s.clicks.length with hlt | hge
    · rw [getElem?_append_left hlt] at hi
      exact .inl hi
    · rw [getElem?_append_right hge, getElem?_singleton] at hi
      simp only [ite_none_right_eq_some, some.injEq] at hi
      exact .inr ⟨by omega, hi.2.symm⟩
  have hsame : ∀ a ∈ s.clicks, a.applicationId = r.applicationId → a.jobId = r.jobId := by
    intro a ha hid
    obtain ⟨q, hq, hqid, hqj⟩ := h.rows a ha
    obtain ⟨q', hq', hqid', hqj'⟩ := h.runRows c r hr
    obtain rfl := Numbered.eq_of_key hq hq' (hqid.trans (hid.trans hqid'.symm))
    exact hqj.symm.trans hqj'
  have hblocks : (Jobs.beforeSubmit s.store r now).Blocked r.applicationId := by
    obtain ⟨q, hq, hid, _⟩ := hf.planned
    refine ⟨_, mem_updateApplication.2 ⟨q, hq, rfl⟩, ?_⟩
    rw [if_pos hid]
    exact ⟨hid, (by decide : ApplicationStatus.submitting ∈ blockingForms)⟩
  refine ⟨?_, ?_, ?_, ?_, ?_, ?_, h.keyed⟩
  · intro a ha
    rcases mem_append.1 ha with ha | ha
    · exact hs.rows _ _ (h.rows a ha)
    · obtain rfl := mem_singleton.1 ha
      exact hs.rows _ _ (h.runRows c r hr)
  · intro c' r' hr'
    rcases of_update_some hr' with ⟨_, rfl⟩ | ⟨_, hr'⟩
    · exact hs.rows _ _ (h.runRows c r hr)
    · exact hs.rows _ _ (h.runRows c' r' hr')
  · intro a ha hex
    rcases mem_append.1 ha with ha | ha
    · obtain ⟨hbl, hre⟩ := h.held a ha hex
      exact ⟨hs.blocked _ hbl, mt (hs.retried _) hre⟩
    · obtain rfl := mem_singleton.1 ha
      exact ⟨hblocks, mt (hs.retried _) hf.notRetried⟩
  · intro i j a b hi hj hjob hlt
    rcases hget j b hj with hj | ⟨rfl, rfl⟩
    · rcases hget i a hi with hi | ⟨rfl, _⟩
      · exact h.once i j a b hi hj hjob hlt
      · have := (List.getElem?_eq_some_iff.1 hj).1
        omega
    · rcases hget i a hi with hi | ⟨rfl, _⟩
      · exact hexcused a (mem_of_getElem? hi) hjob
      · omega
  · intro c' r' k hr' hk
    rcases of_update_some hr' with ⟨_, rfl⟩ | ⟨_, hr'⟩
    · refine ⟨hblocks, fun j b hj hid hne => ?_⟩
      rcases hget j b hj with hj | ⟨rfl, _⟩
      · have hb := mem_of_getElem? hj
        exact hexcused b hb (hsame b hb hid)
      · exact absurd (some.inj hk) hne
    · obtain ⟨hbl, hothers⟩ := h.running c' r' k hr' hk
      refine ⟨hs.blocked _ hbl, fun j b hj hid hne => ?_⟩
      rcases hget j b hj with hj | ⟨_, rfl⟩
      · exact hothers j b hj hid hne
      · rw [← hid] at hbl
        exact absurd hbl hfree
  · intro c₁ c₂ r₁ r₂ h₁ h₂ k₁ k₂ hid
    rcases of_update_some h₁ with ⟨rfl, rfl⟩ | ⟨_, h₁'⟩
    · rcases of_update_some h₂ with ⟨rfl, _⟩ | ⟨_, h₂'⟩
      · rfl
      · obtain ⟨k, hk⟩ := isSome_iff_exists.1 k₂
        have hbl := (h.running c₂ r₂ k h₂' hk).1
        rw [← hid] at hbl
        exact absurd hbl hfree
    · rcases of_update_some h₂ with ⟨rfl, rfl⟩ | ⟨_, h₂'⟩
      · obtain ⟨k, hk⟩ := isSome_iff_exists.1 k₁
        have hbl := (h.running c₁ r₁ k h₁' hk).1
        rw [hid] at hbl
        exact absurd hbl hfree
      · exact h.one c₁ c₂ r₁ r₂ h₁' h₂' k₁ k₂ hid

/-- What a driver reports frees its row only where nothing was submitted. -/
theorem report (h : s.Sound) {c : ℕ} {r : DriverRun} (hr : s.runs c = some r) {status : String}
    {now : ℕ} {locks : String → Option ℕ}
    (ho : r.prefill = false → resultStatus status ∉ blockingForms →
      match r.click with
      | none => ¬ s.store.Blocked r.applicationId
      | some _ => status = "failed") :
    Sound { s with
      store := finishSubmit s.store r status now
      locks := locks
      runs := update s.runs c none
      clicks :=
        if r.prefill = false ∧ status = "failed" then excuseAt s.clicks r.click else s.clicks } := by
  set clicks := if r.prefill = false ∧ status = "failed" then excuseAt s.clicks r.click
    else s.clicks with hclicks
  have hex : Excuses s.clicks clicks := by
    rw [hclicks]
    split_ifs
    · exact Excuses.excuseAt s.clicks r.click
    · exact Excuses.refl s.clicks
  have happ := finishSubmit_applications s.store r status now
  by_cases hp : r.prefill = true
  · rw [if_pos hp] at happ
    exact h.settled ((HuntStore.Settled.refl _).of_eq happ) hex
      (fun _ _ hr' => (of_update_none hr').2) fun _ _ => id
  rw [if_neg hp] at happ
  simp only [Bool.not_eq_true] at hp
  by_cases hst : resultStatus status ∈ blockingForms
  · exact h.settled ((settled_updateApplication _ _ _ _ hst).of_eq happ) hex
      (fun _ _ hr' => (of_update_none hr').2) fun _ _ => id
  · refine h.keep ?_ ?_ ?_ hex (fun _ _ hr' => (of_update_none hr').2) fun _ _ => id
    · intro id j hrow
      have hkept : (s.store.updateApplication r.applicationId (resultStatus status) none now).HasRow
          id j := hasRow_updateApplication hrow
      rwa [HuntStore.HasRow, ← happ] at hkept
    · intro id hbl
      by_cases hid : id = r.applicationId
      · subst hid
        refine .inr ?_
        cases hk : r.click with
        | none =>
          have := ho hp hst
          rw [hk] at this
          exact absurd hbl this
        | some k =>
          -- Its own click failed, and there is no other one to account for.
          have hfailed := ho hp hst
          rw [hk] at hfailed
          obtain ⟨_, hothers⟩ := h.running c r k hr hk
          constructor
          · intro b hb hid
            obtain ⟨j, hj⟩ := mem_iff_getElem?.1 hb
            by_cases hjk : j = k
            · have hj : clicks[j]? = some b := hj
              rw [hclicks, if_pos ⟨hp, hfailed⟩, hk, hjk] at hj
              have hj : (s.clicks.modify k Click.excuse)[k]? = some b := hj
              rw [getElem?_modify] at hj
              obtain ⟨a, _, rfl⟩ := map_eq_some_iff.1 hj
              rw [if_pos rfl]
              rfl
            · obtain ⟨a, ha, _, hida, hmono⟩ := hex j b hj
              exact hmono (hothers j a ha (hida.symm.trans hid) hjk)
          · intro c' r' hr' hk' hid'
            obtain ⟨hne, hr'⟩ := of_update_none hr'
            exact hne (h.one c' c r' r hr' hr hk' (by simp [hk]) hid')
      · refine .inl ?_
        have hkept : (s.store.updateApplication r.applicationId (resultStatus status) none now).Blocked
            id := blocked_updateApplication hbl (.inr hid)
        rwa [HuntStore.Blocked, ← happ] at hkept
    · intro id hre
      have hwas : (s.store.updateApplication r.applicationId (resultStatus status) none now).Retried
          id := by rwa [HuntStore.Retried, ← happ]
      exact .inl (retried_updateApplication hwas)

theorem commit (h : s.Sound) {c : ℕ} {p : Planning} {seen now : ℕ} {plan : Plan} {store : HuntStore}
    (hp : s.plannings c = some (p, seen)) (hf : finishPlan s.store p plan now = some store)
    (ho : ∀ id, p.existing = some id → ¬ s.store.Blocked id)
    (hsince : ∀ a ∈ s.clicks.drop seen, p.retryFrom ≠ some a.applicationId) :
    Sound { s with
      store := store
      plannings := update s.plannings c none
      clicks := excuseRetried s.clicks p.retryFrom seen } := by
  have hkey := h.keyed c p seen hp
  have hplannings := fun c' q (hq : update s.plannings c none c' = some q) =>
    (of_update_none hq).2
  have hex := Excuses.excuseRetried s.clicks p.retryFrom seen
  unfold finishPlan at hf
  cases he : p.existing with
  | some id =>
    simp only [he, some.injEq] at hf
    subst hf
    refine h.keep (fun _ _ => hasRow_updateApplication) (fun id' hb => ?_)
      (fun _ hr => .inl (retried_updateApplication hr)) hex (fun _ _ hr => hr) hplannings
    refine .inl (blocked_updateApplication hb (.inr ?_))
    rintro rfl
    exact ho _ he hb
  | none =>
    simp only [he, map_eq_some_iff, Prod.exists] at hf
    obtain ⟨id, store', hadd, rfl⟩ := hf
    have hold := fun q (hq : q ∈ s.store.applications) =>
      (mem_addApplication hadd).2 (.inl hq)
    refine h.keep ?_ ?_ ?_ hex (fun _ _ hr => hr) hplannings
    · rintro id j ⟨q, hq, hrest⟩
      exact ⟨q, hold q hq, hrest⟩
    · rintro id ⟨q, hq, hrest⟩
      exact .inl ⟨q, hold q hq, hrest⟩
    · rintro x ⟨q, hq, hk⟩
      rcases (mem_addApplication hadd).1 hq with hq | rfl
      · exact .inl ⟨q, hq, hk⟩
      · -- The new application retries `x`: the owner verified every click on it.
        have hx : p.retryFrom = some x := hkey.symm.trans hk
        refine .inr fun b hb hid => ?_
        obtain ⟨j, hj⟩ := mem_iff_getElem?.1 hb
        have hj : (excuseRetried s.clicks p.retryFrom seen)[j]? = some b := hj
        rw [excuseRetried, getElem?_mapIdx] at hj
        obtain ⟨a, ha, rfl⟩ := map_eq_some_iff.1 hj
        by_cases hj : j < seen
        · by_cases hid' : p.retryFrom = some a.applicationId
          · rw [if_pos ⟨hj, hid'⟩]
            rfl
          · rw [if_neg fun h => hid' h.2] at hid
            exact absurd (hx.trans (congrArg some hid.symm)) hid'
        · rw [if_neg fun h => hj h.1] at hid
          have hdrop : (s.clicks.drop seen)[j - seen]? = some a := by
            rw [getElem?_drop, Nat.add_sub_cancel' (not_lt.1 hj), ha]
          exact absurd (hx.trans (congrArg some hid.symm)) (hsince a (mem_of_getElem? hdrop))

/-- Every orderly step keeps the rows and the clicks in line. -/
theorem step (h : s.Sound) {l : FormLabel} (ho : Orderly s l) (hst : performForm N s l = some t) :
    t.Sound := by
  cases l with
  | plan c job candidate target verifiedNoClick =>
    simp only [performForm] at hst
    split at hst
    · rename_i p _ hp
      cases hst
      exact h.startPlan (beginPlan_eq_ok hp)
    · cases hst
  | planned c plan now =>
    simp only [performForm] at hst
    split at hst
    · cases hst
    · rename_i p seen hp
      split at hst
      · cases hst
        exact h.settled (.refl _) (.refl _) (fun _ _ => id) fun _ _ hq => (of_update_none hq).2
      · rename_i store hf
        cases hst
        exact h.commit hp hf (ho p seen hp).1 (ho p seen hp).2
  | stopPlanning c =>
    cases hst
    exact h.settled (.refl _) (.refl _) (fun _ _ => id) fun _ _ hq => (of_update_none hq).2
  | submit c request now =>
    simp only [performForm] at hst
    split at hst
    · cases hst
    · split_ifs at hst
      split at hst
      · rename_i store r hb
        cases hst
        obtain ⟨rfl, hclick, q, hq, hid, hj, _⟩ := beginSubmit_eq_ok hb
        have hrec : Sound { s with
            store := recoverInterrupted s.store now
            locks := setLock s.locks request.lock (some now) } :=
          h.settled (settled_recoverInterrupted s.store now) (.refl _) (fun _ _ => id)
            fun _ _ => id
        exact hrec.start hclick ⟨q, hq, hid, hj⟩
      · rename_i store e hb
        cases hst
        refine h.settled ?_ (.refl _) (fun _ _ => id) fun _ _ => id
        rcases beginSubmit_fst N s.store request now with hs | hs
        · rw [hb] at hs
          obtain rfl : store = s.store := hs
          exact .refl _
        · rw [hb] at hs
          obtain rfl : store = recoverInterrupted s.store now := hs
          exact settled_recoverInterrupted s.store now
  | beforeSubmit c now =>
    simp only [performForm] at hst
    split at hst
    · cases hst
    · rename_i r hr
      split_ifs at hst with hclick
      cases hst
      exact h.click hr (ho r hr) now
  | result c status now =>
    simp only [performForm] at hst
    split at hst
    · cases hst
    · rename_i r hr
      cases hst
      exact h.report hr (ho r hr)
  | throws c =>
    simp only [performForm] at hst
    split at hst
    · cases hst
    · cases hst
      exact h.settled (.refl _) (.refl _) (fun _ _ hr => (of_update_none hr).2) fun _ _ => id
  | crash c =>
    cases hst
    exact h.settled (.refl _) (.refl _) (fun _ _ hr => (of_update_none hr).2) fun _ _ => id
  | recover now =>
    cases hst
    exact h.settled (settled_recoverInterrupted s.store now) (.refl _) (fun _ _ => id)
      fun _ _ => id
  | others jobs emails =>
    cases hst
    exact h.settled ((HuntStore.Settled.refl s.store).of_eq rfl) (.refl _) (fun _ _ => id)
      fun _ _ => id

end FormState.Sound

/-! ### Runs -/

def formJob : Job where
  id := "job-1"
  company := "Acme"
  role := none
  contactEmails := []
  applicationUrls := ["https://acme.test/apply"]
  status := .materialsGenerated
  firstSeenAt := 0
  updatedAt := 0

def formPlan : Plan where
  url := "https://acme.test/apply"
  fields := [⟨"name", "Name", "Ada", none⟩]
  files := []
  ready := true
  needs := []
  blockers := []
  schemaHash := "schema"
  planHash := "plan"

def planForm : List FormLabel :=
  [.plan 0 formJob "me@home.test" (some "https://acme.test/apply") false, .planned 0 formPlan 1]

/-- `job submit` is started in two terminals. -/
def twoTerminalsRun : List FormLabel :=
  planForm ++ [.submit 0 (.direct formJob true false none) 2,
    .submit 1 (.direct formJob true false none) 3, .beforeSubmit 0 4, .beforeSubmit 1 5]

/-- Both drivers click, and neither click has an outcome. -/
theorem two_terminals_click_twice : ∃ s, (formMachine asWritten).Run twoTerminalsRun s ∧
    ¬ s.ClickedOnce := by
  have hview : (drive (performForm asWritten) (fun _ _ => true) (formMachine asWritten).init
      twoTerminalsRun).map FormState.clicks =
      some [⟨"job-1", 1, false⟩, ⟨"job-1", 1, false⟩] := by decide +kernel
  obtain ⟨s, hs, hv⟩ := map_eq_some_iff.1 hview
  refine ⟨s, run_drive hs, fun honce => ?_⟩
  have := honce 0 1 ⟨"job-1", 1, false⟩ ⟨"job-1", 1, false⟩ (by rw [hv]; rfl) (by rw [hv]; rfl) rfl
    Nat.zero_lt_one
  cases this

/-- Along orderly runs, of two clicks for one job the earlier was reported failed, or the owner
verified that there was none. -/
theorem submitted_at_most_once {N : Normalizer} {h : List FormLabel} {s : FormState}
    (hr : ((formMachine N).restrict fun s l _ => Orderly s l).Run h s) : s.ClickedOnce := by
  have hs : s.Sound := hr.invariant (FormState.Sound.init (N := N)) fun _ _ _ hs hst =>
    hs.step hst.2 hst.1
  exact hs.once

/-- A check for `Orderly`; it lets no application be clicked beside one that blocks. -/
def isOrderly (s : FormState) : FormLabel → Bool
  | .planned c _ _ => (s.plannings c).all fun x =>
      (x.1.existing.all fun id => s.store.applications.rows.all fun q =>
        q.id ≠ id || q.status ∉ blockingForms) &&
      (s.clicks.drop x.2).all fun a => x.1.retryFrom ≠ some a.applicationId
  | .beforeSubmit c _ => (s.runs c).all fun r =>
      (s.store.applications.rows.any fun q => q.id = r.applicationId && q.status = .planned) &&
      s.store.applications.rows.all fun q =>
        q.idempotencyKey.retryOf ≠ some r.applicationId && q.status ∉ blockingForms
  | .result c status _ => (s.runs c).all fun r =>
      r.click.isNone && (s.store.applications.rows.all fun q =>
        q.id ≠ r.applicationId || q.status ∉ blockingForms) ||
      r.click.isSome && (status = "failed" || resultStatus status ∈ blockingForms)
  | _ => true

theorem orderly_of_isOrderly (s : FormState) (l : FormLabel) (h : isOrderly s l = true) :
    Orderly s l := by
  have hfree : ∀ id, (s.store.applications.rows.all fun q =>
      q.id ≠ id || q.status ∉ blockingForms) = true → ¬ s.store.Blocked id := by
    rintro id hall ⟨q, hq, hid, hst⟩
    simpa [hid, hst] using List.all_eq_true.1 hall q hq
  cases l with
  | planned c plan now =>
    intro p n hp
    simp only [isOrderly, hp, all_some, Bool.and_eq_true] at h
    obtain ⟨he, hs⟩ := h
    refine ⟨fun id hid => hfree id ?_, fun a ha => by simpa using List.all_eq_true.1 hs a ha⟩
    rwa [hid] at he
  | beforeSubmit c now =>
    intro r hr
    simp only [isOrderly, hr, all_some, Bool.and_eq_true] at h
    obtain ⟨hplanned, hall⟩ := h
    have hq := fun q (hq : q ∈ s.store.applications) => List.all_eq_true.1 hall q hq
    simp only [Bool.and_eq_true, decide_eq_true_eq] at hq
    refine ⟨?_, ?_, ?_⟩
    · obtain ⟨q, hq, hst⟩ := List.any_eq_true.1 hplanned
      exact ⟨q, hq, by simpa using hst⟩
    · rintro ⟨q, hmem, hk⟩
      exact (hq q hmem).1 hk
    · intro q hmem hst
      exact absurd hst (hq q (mem_listApplications.1 hmem).1).2
  | result c status now =>
    intro r hr _ hst
    simp only [isOrderly, hr, all_some] at h
    cases hk : r.click with
    | none => exact hfree _ (by simpa [hk] using h)
    | some k => simpa [hk, hst] using h
  | _ => trivial

/-- The site reports errors in the form, and the owner has it filled and submitted once more. -/
def failedThenSubmittedRun : List FormLabel :=
  planForm ++ [.submit 0 (.direct formJob false false none) 2, .result 0 "dry_run" 3,
    .submit 0 (.direct formJob true false none) 4, .beforeSubmit 0 5, .result 0 "failed" 6,
    .plan 1 formJob "me@home.test" (some "https://acme.test/apply") false, .planned 1 formPlan 7,
    .submit 1 (.direct formJob true false none) 8, .beforeSubmit 1 9, .crash 1, .recover 700000]

theorem submitted_at_most_once_failedThenSubmittedRun : ∃ s,
    (formMachine asWritten).Run failedThenSubmittedRun s ∧ s.ClickedOnce ∧
      s.clicks = [⟨"job-1", 1, true⟩, ⟨"job-1", 1, false⟩] := by
  have hview : (drive (performForm asWritten) isOrderly (formMachine asWritten).init
      failedThenSubmittedRun).map FormState.clicks =
      some [⟨"job-1", 1, true⟩, ⟨"job-1", 1, false⟩] := by decide +kernel
  obtain ⟨s, hs, hv⟩ := map_eq_some_iff.1 hview
  have hr : ((formMachine asWritten).restrict fun s l _ => Orderly s l).Run
      failedThenSubmittedRun s := steps_drive orderly_of_isOrderly hs
  exact ⟨s, hr.of_restrict, submitted_at_most_once hr, hv⟩

end U2os.Mcp.Jobs
