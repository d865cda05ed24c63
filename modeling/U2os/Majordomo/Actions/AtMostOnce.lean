import U2os.Majordomo.Actions.Invariant
import U2os.Majordomo.Actions.Runtime

/-!
# At most one execution

Between two attempts of an action somebody let go of it: the owner queued it again, the owner
said that its effect did not happen, or the earlier attempt failed in a way that is known to be
safe.  A capability is called at most once for an attempt, after the attempt began.
-/

namespace U2os.Majordomo

open Function Label Table

/-- The action `i` has a status in `S` and its last attempt is number `n`. -/
def Within (S : Status → Prop) (i : String) (n : ℕ) (db : Db) : Prop :=
  ∃ a ∈ db.actions, a.id = i ∧ S a.status ∧ a.attemptCount = n

variable {S : Status → Prop} {i : String}

theorem Within.break_ {n : ℕ} {s t : Db} {c : Change}
    (hS : ¬S .leased) (h : Within S i n s) (hst : DbStep s c t) (ht : ¬Within S i n t) :
    ∃ g a a', c = .moved g a a' ∧ a ∈ s.actions ∧ a.id = i ∧ S a.status ∧ a.attemptCount = n ∧
      next a.status g = .ok a'.status ∧ ¬S a'.status := by
  obtain ⟨b, hb, rfl, hbS, rfl⟩ := h
  cases hst with
  | submitted hf hk hi hl he hx =>
    exact absurd ⟨b, (mem_of_insert? hi).2 (.inl hb), rfl, hbS, rfl⟩ ht
  | @renewed a leaseMs now ha hs hx =>
    have hkey : a.id = (renewRow leaseMs now a).id := rfl
    by_cases hab : b.id = a.id
    · obtain rfl := eq_of_key hb ha hab
      exact absurd ⟨_, (mem_put_of_mem ha hkey).2 (.inr rfl), rfl, hbS, rfl⟩ ht
    · exact absurd ⟨b, (mem_put_of_mem ha hkey).2 (.inl ⟨hb, hab⟩), rfl, hbS, rfl⟩ ht
  | @moved g a a₁ to_ now attempts ev log extra ha hn hm hl he hx =>
    have hkey : a.id = (a₁.stamp to_ now ev.id).id := hm.id_eq.symm
    by_cases hab : b.id = a.id
    · obtain rfl := eq_of_key hb ha hab
      refine ⟨g, b, _, rfl, hb, rfl, hbS, rfl, hn, fun hto => ht ?_⟩
      have hg : g ≠ .beginAttempt := by
        rintro rfl
        have hfrom := next_table (P := fun f g _ => g = .beginAttempt → f = .leased) hn
          (by decide) rfl
        exact hS (hfrom ▸ hbS)
      exact ⟨_, (mem_put_of_mem ha hkey).2 (.inr rfl), hkey.symm, hto, hm.attemptCount hg⟩
    · exact absurd ⟨b, (mem_put_of_mem ha hkey).2
        (.inl ⟨hb, fun e => hab (e.trans hkey.symm)⟩), rfl, hbS, rfl⟩ ht

theorem not_within_of_leased {n : ℕ} {s : Db} {a : Action}
    (hS : ¬S .leased) (ha : a ∈ s.actions) (hid : a.id = i) (hs : a.status = .leased) :
    ¬Within S i n s := by
  rintro ⟨b, hb, hbid, hbS, -⟩
  obtain rfl := eq_of_key hb ha (hbid.trans hid.symm)
  exact hS (hs ▸ hbS)

/-- The statuses an action can have once an attempt of it began and nobody let go of it. -/
def Busy (st : Status) : Prop :=
  st = .executing ∨ st = .completed ∨ st = .failed ∨ st = .deadLetter ∨ st = .outcomeUncertain

/-- The statuses an action can have while the outcome of an attempt is not known. -/
def Unsettled (st : Status) : Prop :=
  st = .executing ∨ st = .outcomeUncertain ∨ st = .completed

instance : DecidablePred Busy := fun _ => inferInstanceAs (Decidable (_ ∨ _))

instance : DecidablePred Unsettled := fun _ => inferInstanceAs (Decidable (_ ∨ _))

/-! ### Attempts of workers -/

/-- The attempt is in the table, with its action and its number. -/
def Stored (db : Db) (t : Attempt) : Prop :=
  ∃ x ∈ db.attempts, x.id = t.id ∧ x.actionId = t.actionId ∧ x.attemptNumber = t.attemptNumber

variable {x : Attempt}

theorem Stored.step {s t : Db} {c : Change} (h : Stored s x) (hst : DbStep s c t) :
    Stored t x := by
  obtain ⟨y, hy, hid, hact, hnum⟩ := h
  cases hst with
  | submitted => exact ⟨y, hy, hid, hact, hnum⟩
  | renewed => exact ⟨y, hy, hid, hact, hnum⟩
  | moved ha hn hm hl he hx =>
    obtain ⟨z, hz, h₁, h₂, h₃⟩ := hm.attempt_persists hy
    exact ⟨z, hz, h₁.trans hid, h₂.trans hact, h₃.trans hnum⟩

theorem DbStep.closed_persists {s t : Db} {c : Change} (hst : DbStep s c t) {x : Attempt}
    (hx : x ∈ s.attempts) (hs : x.status ≠ .executing) : x ∈ t.attempts := by
  cases hst with
  | submitted => exact hx
  | renewed => exact hx
  | moved ha hn hm hl he hx' => exact hm.closed_persists hx hs

theorem DbStep.failed_attempt {s t : Db} {g : Trigger} {a a' : Action}
    (hst : DbStep s (.moved g a a') t) (hcons : Consistent s)
    (hg : g = .failRetry ∨ g = .failDeadLetter ∨ g = .failTerminal) (hx : Stored s x)
    (hs : Within S x.actionId x.attemptNumber s) (hid : a.id = x.actionId) :
    ∃ z ∈ t.attempts, z.id = x.id ∧ z.status = .failed := by
  obtain ⟨b, hb, hbid, -, hbn⟩ := hs
  obtain ⟨y, hy, hyid, hyact, hynum⟩ := hx
  generalize hch : Change.moved g a a' = ch at hst
  cases hst with
  | @moved g' a₀ a₁ to_ now attempts ev log extra ha hn hm hl he hx =>
    cases hch
    obtain rfl := eq_of_key hb ha (hbid.trans hid.symm)
    obtain ⟨u, hu, hua, hus, z, hz, hzid, hzs⟩ := hm.of_failed hg
    have huy : u = y := by
      refine hcons.distinct u hu y hy (hua.trans (hbid.trans hyact.symm)) ?_
      rw [((hcons.actions b hb).executing u hu hua hus).2.1, hbn, hynum]
    exact ⟨z, hz, hzid.trans ((congrArg Attempt.id huy).trans hyid), hzs⟩
  | _ => cases hch

variable {c : Call} {sha256 : String → String}

theorem Stored.call {s t : Db}
    (h : Stored s x) (hst : (actionStore sha256).step s c t) : Stored t x := by
  obtain ⟨cs, hcs, -⟩ := Call.changes_of_step hst
  exact hcs.invariant (I := fun d => Stored d x) h fun _ _ _ hi hs => hi.step hs

theorem begin_call {s db : Db} {id owner : String} {t : Attempt}
    (hst : (actionStore sha256).step s c db) (hop : c.op = .beginAttempt id owner)
    (hres : c.result = .ok (.attempt t)) : ∃ a a', a ∈ s.actions ∧ a.id = id ∧
      DbStep s (.moved .beginAttempt a a') db ∧ t ∈ db.attempts ∧ t.actionId = id ∧
      t.attemptNumber = a'.attemptCount ∧ t.status = .executing ∧
      ∀ x ∈ s.attempts, x.id ≠ t.id := by
  obtain ⟨op, now, random, result⟩ := c
  simp only at hop hres
  subst hop hres
  obtain ⟨rest, hexec⟩ := hst
  rcases wrap_eq hexec with ⟨r, hr, hok⟩ | ⟨e, he, -⟩
  · cases hr
    obtain ⟨a, a', ha, hid, hstep, ht, hact, hnum, -, hex, hfresh⟩ := beginAttempt_ok hok
    exact ⟨a, a', ha, hid, hstep, ht, hact, hnum, hex, hfresh⟩
  · cases he

/-- The history contains the step in which the worker began the attempt. -/
def BeganIn (h : List Label) (w : ℕ) (t : Attempt) : Prop :=
  ∃ c, begin_ w c ∈ h ∧ c.result = .ok (.attempt t)

/-- A worker holds no attempt. -/
def Worker.Free : Worker → Prop
  | .idle | .leased _ => True
  | _ => False

/-- What the history says about the attempts the workers hold. -/
structure Tracked (h : List Label) (s : Workers) : Prop where
  begun : ∀ w a t k, s.worker w = .begun a t k → Stored s.db t ∧ BeganIn h w t ∧
    ∀ w' t' r, invoke w' t' r ∈ h → t'.id ≠ t.id
  distinct : ∀ w w' a a' t t' k k', s.worker w = .begun a t k → s.worker w' = .begun a' t' k' →
    t.id = t'.id → w = w'
  returned : ∀ w a t k r, s.worker w = .returned a t k r → invoke w t r ∈ h
  stored : ∀ w t r, invoke w t r ∈ h → Stored s.db t
  unique : ∀ w t r w' t' r', invoke w t r ∈ h → invoke w' t' r' ∈ h →
    t.id = t'.id → invoke w t r = invoke w' t' r'

namespace Tracked

variable {h : List Label} {s t : Workers} {l : Label}

theorem mono (ht : Tracked h s) (hdb : ∀ x, Stored s.db x → Stored t.db x)
    (hl : ∀ w x r, l ≠ .invoke w x r)
    (hw : ∀ w, t.worker w = s.worker w ∨ (t.worker w).Free) : Tracked (h ++ [l]) t := by
  have hmem : ∀ w x r, invoke w x r ∈ h ++ [l] → invoke w x r ∈ h := by
    intro w x r hx
    rcases List.mem_append.1 hx with hx | hx
    · exact hx
    · exact absurd (List.mem_singleton.1 hx).symm (hl w x r)
  have hheld : ∀ w q, t.worker w = q → ¬q.Free → s.worker w = q := by
    intro w q hq hfree
    rcases hw w with h' | h'
    · exact h'.symm.trans hq
    · exact absurd (hq ▸ h') hfree
  refine ⟨?_, ?_, ?_, ?_, ?_⟩
  · intro w a x k hx
    obtain ⟨h₁, ⟨c, hc, hres⟩, h₃⟩ := ht.begun w a x k (hheld w _ hx id)
    exact ⟨hdb x h₁, ⟨c, List.mem_append_left _ hc, hres⟩, fun w' y r hy =>
      h₃ w' y r (hmem w' y r hy)⟩
  · intro w w' a a' x y k k' hx hy
    exact ht.distinct w w' a a' x y k k' (hheld w _ hx id) (hheld w' _ hy id)
  · intro w a x k r hx
    exact List.mem_append_left _ (ht.returned w a x k r (hheld w _ hx id))
  · intro w x r hx
    exact hdb x (ht.stored w x r (hmem w x r hx))
  · intro w x r w' y r' hx hy
    exact ht.unique w x r w' y r' (hmem w x r hx) (hmem w' y r' hy)

/-- An attempt that a worker begins is a new one, and is known as the worker's. -/
theorem begin_ (ht : Tracked h s) {w : ℕ} {a : Action} {x : Attempt} {k : Capability} {c : Call}
    {db : Db} (hdb : ∀ y, Stored s.db y → Stored db y) (hx : x ∈ db.attempts)
    (hfresh : ∀ y ∈ s.db.attempts, y.id ≠ x.id) (hres : c.result = .ok (.attempt x)) :
    Tracked (h ++ [.begin_ w c]) ⟨db, update s.worker w (.begun a x k)⟩ := by
  have hmem : ∀ w' y r, invoke w' y r ∈ h ++ [.begin_ w c] → invoke w' y r ∈ h := by
    intro w' y r hy
    simpa using hy
  have hnew : ∀ y, Stored s.db y → y.id ≠ x.id := by
    rintro y ⟨z, hz, hid, -⟩
    exact hid ▸ hfresh z hz
  have hold : ∀ w' q, w' ≠ w → update s.worker w (.begun a x k) w' = q →
      s.worker w' = q := by
    intro w' q hne hq
    rwa [update_of_ne hne] at hq
  refine ⟨?_, ?_, ?_, ?_, ?_⟩
  · intro w' b y k' hy
    by_cases hw : w' = w
    · subst hw
      simp only [update_self, Worker.begun.injEq] at hy
      obtain ⟨rfl, rfl, rfl⟩ := hy
      exact ⟨⟨x, hx, rfl, rfl, rfl⟩, ⟨c, by simp, hres⟩, fun w'' z r hz =>
        hnew z (ht.stored w'' z r (hmem w'' z r hz))⟩
    · obtain ⟨h₁, ⟨c', hc', hres'⟩, h₃⟩ := ht.begun w' b y k' (hold w' _ hw hy)
      exact ⟨hdb y h₁, ⟨c', List.mem_append_left _ hc', hres'⟩, fun w'' z r hz =>
        h₃ w'' z r (hmem w'' z r hz)⟩
  · intro w₁ w₂ a₁ a₂ y z k₁ k₂ hy hz hyz
    by_cases h₁ : w₁ = w <;> by_cases h₂ : w₂ = w
    · rw [h₁, h₂]
    · subst h₁
      simp only [update_self, Worker.begun.injEq] at hy
      obtain ⟨-, rfl, -⟩ := hy
      exact absurd hyz.symm (hnew z (ht.begun w₂ a₂ z k₂ (hold w₂ _ h₂ hz)).1)
    · subst h₂
      simp only [update_self, Worker.begun.injEq] at hz
      obtain ⟨-, rfl, -⟩ := hz
      exact absurd hyz (hnew y (ht.begun w₁ a₁ y k₁ (hold w₁ _ h₁ hy)).1)
    · exact ht.distinct w₁ w₂ a₁ a₂ y z k₁ k₂ (hold w₁ _ h₁ hy) (hold w₂ _ h₂ hz) hyz
  · intro w' b y k' r hy
    by_cases hw : w' = w
    · subst hw
      simp at hy
    · exact List.mem_append_left _ (ht.returned w' b y k' r (hold w' _ hw hy))
  · intro w' y r hy
    exact hdb y (ht.stored w' y r (hmem w' y r hy))
  · intro w₁ y r w₂ z r' hy hz
    exact ht.unique w₁ y r w₂ z r' (hmem w₁ y r hy) (hmem w₂ z r' hz)

/-- A call of the capability is the first for its attempt. -/
theorem invoke (ht : Tracked h s) {w : ℕ} {a : Action} {x : Attempt} {k : Capability}
    {r : ExecResult} (hw : s.worker w = .begun a x k) :
    Tracked (h ++ [.invoke w x r])
      ⟨s.db, Function.update s.worker w (.returned a x k r)⟩ := by
  obtain ⟨hxs, -, hxn⟩ := ht.begun w a x k hw
  have hmem : ∀ w' y r', Label.invoke w' y r' ∈ h ++ [.invoke w x r] →
      Label.invoke w' y r' ∈ h ∨ Label.invoke w' y r' = .invoke w x r := by
    intro w' y r' hy
    rcases List.mem_append.1 hy with hy | hy
    · exact .inl hy
    · exact .inr (List.mem_singleton.1 hy)
  have hold : ∀ w' q, w' ≠ w → Function.update s.worker w (.returned a x k r) w' = q →
      s.worker w' = q := by
    intro w' q hne hq
    rwa [Function.update_of_ne hne] at hq
  refine ⟨?_, ?_, ?_, ?_, ?_⟩
  · intro w' b y k' hy
    by_cases hww : w' = w
    · subst hww
      simp at hy
    · have hy' := hold w' _ hww hy
      obtain ⟨h₁, ⟨c', hc', hres'⟩, h₃⟩ := ht.begun w' b y k' hy'
      refine ⟨h₁, ⟨c', List.mem_append_left _ hc', hres'⟩, fun w'' z r' hz => ?_⟩
      rcases hmem w'' z r' hz with hz | hz
      · exact h₃ w'' z r' hz
      · cases hz
        exact fun e => hww (ht.distinct w' w b a y x k' k hy' hw e.symm)
  · intro w₁ w₂ a₁ a₂ y z k₁ k₂ hy hz hyz
    by_cases h₁ : w₁ = w <;> by_cases h₂ : w₂ = w
    · rw [h₁, h₂]
    · subst h₁; simp at hy
    · subst h₂; simp at hz
    · exact ht.distinct w₁ w₂ a₁ a₂ y z k₁ k₂ (hold w₁ _ h₁ hy) (hold w₂ _ h₂ hz) hyz
  · intro w' b y k' r' hy
    by_cases hww : w' = w
    · subst hww
      simp only [Function.update_self, Worker.returned.injEq] at hy
      obtain ⟨rfl, rfl, rfl, rfl⟩ := hy
      simp
    · exact List.mem_append_left _ (ht.returned w' b y k' r' (hold w' _ hww hy))
  · intro w' y r' hy
    rcases hmem w' y r' hy with hy | hy
    · exact ht.stored w' y r' hy
    · cases hy; exact hxs
  · intro w₁ y r₁ w₂ z r₂ hy hz hyz
    rcases hmem w₁ y r₁ hy with hy | hy <;> rcases hmem w₂ z r₂ hz with hz | hz
    · exact ht.unique w₁ y r₁ w₂ z r₂ hy hz hyz
    · cases hz
      exact absurd hyz (hxn w₁ y r₁ hy)
    · cases hy
      exact absurd hyz.symm (hxn w₂ z r₂ hz)
    · rw [hy, hz]

end Tracked

section

variable {env : Env} {rt : ℕ → Runtime}

theorem free_afterLease (r : Except ActionError Reply) : (afterLease r).Free := by
  unfold afterLease
  split <;> trivial

theorem runtime_tracked {h : List Label} {s : Workers} (hr : (runtime env rt).Run h s) :
    Tracked h s := by
  refine hr.history (I := Tracked) ⟨?_, ?_, ?_, ?_, ?_⟩ ?_
  · intro w a t k hw; cases hw
  · intro w w' a a' t t' k k' hw; cases hw
  · intro w a t k r hw; cases hw
  · intro w t r hm; cases hm
  · intro w t r w' t' r' hm; cases hm
  intro h s l t _ hi hst
  have hfree : ∀ (w : ℕ) (q : Worker), q.Free → ∀ w',
      update s.worker w q w' = s.worker w' ∨
      (update s.worker w q w').Free := by
    intro w q hq w'
    by_cases hw : w' = w
    · subst hw
      exact .inr (by rwa [update_self])
    · exact .inl (update_of_ne hw _ _)
  cases runtime_cases hst with
  | external hop hcall =>
    exact hi.mono (fun x hx => hx.call hcall) (by simp) fun w => .inl rfl
  | lease hw hop hcall =>
    exact hi.mono (fun x hx => hx.call hcall) (by simp) (hfree _ _ (free_afterLease _))
  | stop hw hop hcall =>
    exact hi.mono (fun x hx => hx.call hcall) (by simp) (hfree _ _ trivial)
  | settle hw hop hcall =>
    exact hi.mono (fun x hx => hx.call hcall) (by simp) (hfree _ _ trivial)
  | invoke hw => exact hi.invoke hw
  | @begin_ w a k c db hw hop hcall =>
    by_cases hres : ∃ t, c.result = .ok (.attempt t)
    · obtain ⟨t, hres⟩ := hres
      obtain ⟨_, _, -, -, -, ht, -, -, -, hfresh⟩ := begin_call hcall hop hres
      rw [hres]
      exact hi.begin_ (fun x hx => hx.call hcall) ht hfresh hres
    · have hidle : afterBegin a k c.result = .idle := by
        unfold afterBegin
        split
        · next t ht => exact absurd ⟨t, ht⟩ hres
        · rfl
      rw [hidle]
      exact hi.mono (fun x hx => hx.call hcall) (by simp) (hfree _ _ trivial)

theorem runtime_consistent {h : List Label} {s : Workers} (hr : (runtime env rt).Run h s) :
    Consistent s.db :=
  let ⟨_, hs⟩ := runtime_refines.steps hr
  actionStore_consistent hs

end

/-! ### Letting go of an attempt -/

/-- The step began the attempt `t`. -/
def Label.Began (t : Attempt) : Label → Prop
  | .begin_ _ c => c.result = .ok (.attempt t)
  | _ => False

/-- The owner queued the action again. -/
def Requeued (i : String) (l : Label) : Prop :=
  ∃ c, l = .external c ∧ c.op = .requeue i ∧ c.Succeeded

/-- The owner said that the effect of the action did not happen. -/
def NotDone (i : String) (l : Label) : Prop :=
  ∃ c by_, l = .external c ∧ c.op = .resolveUncertain i .confirmedNotDone by_ ∧ c.Succeeded

/-- The call for the attempt `t` returned the error `e`, which was settled as a retry, and
repeating it is known to be safe. -/
def Retried (t : Attempt) (e : CapabilityError) (l : Label) : Prop :=
  ∃ w x k c a', l = .settle w x k (.err e) c ∧ x.id = t.id ∧ c.result = .ok (.action a') ∧
    a'.status = .retryWait ∧ (k.supportsIdempotency = true ∨ e.safeToRetry = true)

/-- A step that lets go of the attempt. -/
def Releases (t : Attempt) (l : Label) : Prop :=
  Requeued t.actionId l ∨ NotDone t.actionId l ∨ ∃ e, Retried t e l

theorem call_break {n : ℕ} {s t : Db} (hS : ¬S .leased) (hst : (actionStore sha256).step s c t)
    (hs : Within S i n s) (ht : ¬Within S i n t) : ∃ g a a', c.Emits (.moved g a a') ∧
      a.id = i ∧ S a.status ∧ next a.status g = .ok a'.status ∧ ¬S a'.status := by
  obtain ⟨cs, hcs, hemit⟩ := Call.changes_of_step hst
  obtain ⟨h₁, x, h₂, u, v, rfl, -, hu, hx, hv, -⟩ := hcs.exists_break hs ht
  obtain ⟨g, a, a', rfl, -, hid, hSa, -, hn, hSa'⟩ := hu.break_ hS hx hv
  exact ⟨g, a, a', hemit _ (by simp), hid, hSa, hn, hSa'⟩

theorem fail_call {s db : Db} {attemptId owner error : String} {class_ : ErrorClass}
    {policy : RetryPolicy}
    (hS : ¬S .leased) (hcons : Consistent s) (hst : (actionStore sha256).step s c db)
    (hop : c.op = .failAttempt attemptId owner error class_ policy) (hx : Stored s x)
    (hs : Within S x.actionId x.attemptNumber s)
    (ht : ¬Within S x.actionId x.attemptNumber db) : attemptId = x.id ∧ ∃ g a a',
      DbStep s (.moved g a a') db ∧ a.id = x.actionId ∧ next a.status g = .ok a'.status ∧
        c.result = .ok (.action a') ∧ S a.status ∧ ¬S a'.status ∧
        g ∈ [Trigger.failRetry, .failDeadLetter, .failTerminal, .markUncertain] := by
  obtain ⟨op, now, random, result⟩ := c
  obtain ⟨rest, hexec⟩ := hst
  simp only at hop hexec
  subst hop
  rcases wrap_eq hexec with ⟨r, rfl, hok⟩ | ⟨e, -, heq⟩
  · obtain ⟨a, t, ha, htm, htid, hta, hts, -, hstep⟩ := failAttempt_ok hok
    obtain ⟨g, b, b', hch, hb, hbid, hSb, hbn, hn, hSb'⟩ := hs.break_ hS hstep ht
    cases hch
    obtain ⟨y, hy, hyid, hyact, hynum⟩ := hx
    have hty : t = y := by
      refine hcons.distinct t htm y hy ?_ ?_
      · rw [hta, hbid, hyact]
      · rw [((hcons.actions a ha).executing t htm hta hts).2.1, hbn, hynum]
    exact ⟨htid.symm.trans ((congrArg Attempt.id hty).trans hyid), _, a, r, hstep, hbid, hn, rfl,
      hSb, hSb', failSettlement_trigger error class_ policy now t⟩
  · have hdb : db = s := congrArg Session.db heq
    exact absurd (hdb ▸ hs) ht

section

variable {env : Env} {rt : ℕ → Runtime}

/-- What takes an action out of some statuses of an attempt: the word of the owner, or an error that
the capability returned for that attempt. -/
theorem step_break {s t : Workers} {l : Label} (hS : ¬S .leased)
    (hleave : ∀ r ∈ transitions, S r.1 → ¬S r.2.2 → (r.2.1 = .failRetry ∨ r.2.1 = .failDeadLetter ∨
      r.2.1 = .failTerminal) ∨ r.2.1 = .requeue ∨ r.2.1 = .resolveNotDone)
    (hcons : Consistent s.db) (hst : (runtime env rt).step s l t) (hx : Stored s.db x)
    (hs : Within S x.actionId x.attemptNumber s.db)
    (ht : ¬Within S x.actionId x.attemptNumber t.db) :
    ∃ g f f', next f g = .ok f' ∧ S f ∧ ¬S f' ∧
      (g = .requeue ∧ Requeued x.actionId l ∨ g = .resolveNotDone ∧ NotDone x.actionId l ∨
        (g = .failRetry ∨ g = .failDeadLetter ∨ g = .failTerminal) ∧
          ∃ w y k e c, l = .settle w y k (.err e) c ∧ y.id = x.id ∧
            (g = .failRetry → failClass env k e = .retryable) ∧
            ∃ g b b', DbStep s.db (.moved g b b') t.db ∧ b.id = x.actionId ∧
              next b.status g = .ok b'.status ∧ c.result = .ok (.action b') ∧ S b.status ∧
              ¬S b'.status ∧
              g ∈ [Trigger.failRetry, .failDeadLetter, .failTerminal, .markUncertain]) := by
  -- The operation of the call, by the trigger it emitted.
  have hops : ∀ {c : Call} {db : Db}, (actionStore env.sha256).step s.db c db → t.db = db →
      ∃ g f f', next f g = .ok f' ∧ S f ∧ ¬S f' ∧
        (g = .requeue ∧ c.op = .requeue x.actionId ∧ c.Succeeded ∨
          (g = .resolveNotDone ∧
            ∃ by_, c.op = .resolveUncertain x.actionId .confirmedNotDone by_ ∧ c.Succeeded) ∨
          (g = .failRetry ∨ g = .failDeadLetter ∨ g = .failTerminal) ∧
            ∃ attemptId owner error class_ policy,
              c.op = .failAttempt attemptId owner error class_ policy ∧
                class_ ≠ .outcomeUncertain ∧ (g = .failRetry → class_ = .retryable)) := by
    rintro c db hcall rfl
    obtain ⟨g, a, a', he, hid, hSa, hn, hSa'⟩ := call_break hS hcall hs ht
    refine ⟨g, _, _, hn, hSa, hSa', ?_⟩
    obtain hg | rfl | rfl := next_table (P := fun f g t => S f → ¬S t →
      (g = .failRetry ∨ g = .failDeadLetter ∨ g = .failTerminal) ∨ g = .requeue ∨
        g = .resolveNotDone) hn hleave hSa hSa'
    · exact .inr (.inr ⟨hg, he.failed hg⟩)
    · exact .inl ⟨rfl, hid ▸ he.requeue⟩
    · obtain ⟨r, by_, hop, hr, hok⟩ := he.resolve (.inr rfl)
      cases r with
      | confirmedDone => simp [Resolution.trigger] at hr
      | confirmedNotDone => exact .inr (.inl ⟨rfl, by_, hid ▸ hop, hok⟩)
  cases runtime_cases hst with
  | invoke hw => exact absurd hs ht
  | @external c db hext hcall =>
    obtain ⟨g, f, f', hn, hSf, hSf', ⟨hg, hop, hok⟩ | ⟨hg, by_, hop, hok⟩ |
      ⟨-, _, _, _, _, _, hop, -⟩⟩ := hops hcall rfl
    · exact ⟨g, f, f', hn, hSf, hSf', .inl ⟨hg, c, rfl, hop, hok⟩⟩
    · exact ⟨g, f, f', hn, hSf, hSf', .inr (.inl ⟨hg, c, by_, rfl, hop, hok⟩)⟩
    · rw [hop] at hext
      exact hext.elim
  | lease hw hop hcall | stop hw hop hcall | begin_ hw hop hcall =>
    obtain ⟨_, _, _, -, -, -, ⟨-, hop', -⟩ | ⟨-, _, hop', -⟩ | ⟨-, _, _, _, _, _, hop', -⟩⟩ :=
      hops hcall rfl <;> exact absurd (hop.symm.trans hop') (by simp)
  | @settle w a y k r c db hw hop hcall =>
    obtain ⟨g, f, f', hn, hSf, hSf', ⟨-, hop', -⟩ | ⟨-, _, hop', -⟩ |
      ⟨hg, attemptId, owner, error, class_, policy, hop', hcls, hclass⟩⟩ := hops hcall rfl
    · cases r <;> exact absurd (hop.symm.trans hop') (by simp [settleOp])
    · cases r <;> exact absurd (hop.symm.trans hop') (by simp [settleOp])
    · obtain ⟨hid, hfail⟩ := fail_call hS hcons hcall hop' hx hs ht
      have hsame := hop.symm.trans hop'
      cases r with
      | ok => cases hsame
      | panic =>
        -- a panic is settled as uncertain
        simp only [settleOp, Op.failAttempt.injEq] at hsame
        exact absurd hsame.2.2.2.1.symm hcls
      | err e =>
        simp only [settleOp, Op.failAttempt.injEq] at hsame
        obtain ⟨hyid, -, -, rfl, -⟩ := hsame
        exact ⟨g, f, f', hn, hSf, hSf', .inr (.inr ⟨hg, w, y, k, e, c, rfl, hyid.trans hid, hclass,
          hfail⟩)⟩

/-- An attempt under way ends by a step that releases it. -/
theorem busy_break {s t : Workers} {l : Label} (hcons : Consistent s.db)
    (hst : (runtime env rt).step s l t) (hx : Stored s.db x)
    (hs : Within Busy x.actionId x.attemptNumber s.db)
    (ht : ¬Within Busy x.actionId x.attemptNumber t.db) : Releases x l := by
  obtain ⟨g, f, f', hn, hf, hf', ⟨-, hq⟩ | ⟨-, hq⟩ | ⟨hg, w, y, k, e, c, rfl, hid, hclass, g', b, b',
    -, -, hn', hres, -, hb', hg'⟩⟩ := step_break (by decide) (by decide) hcons hst hx hs ht
  · exact .inl hq
  · exact .inr (.inl hq)
  · -- only a retry lets go of an attempt that failed
    have hkind : g = .failRetry := next_table (P := fun f g t => Busy f → ¬Busy t →
      (g = .failRetry ∨ g = .failDeadLetter ∨ g = .failTerminal) → g = .failRetry) hn (by decide)
      hf hf' hg
    have hsafe : k.supportsIdempotency = true ∨ e.safeToRetry = true := by
      have hcls := hclass hkind
      by_contra hno
      simp only [not_or, Bool.not_eq_true] at hno
      simp only [failClass, hno, and_self, and_true] at hcls
      split_ifs at hcls with hc
      exact hc hcls
    have hretry := next_table (P := fun _ g t => g ∈ [Trigger.failRetry, .failDeadLetter,
      .failTerminal, .markUncertain] → ¬Busy t → t = .retryWait) hn' (by decide) hg' hb'
    exact .inr (.inr ⟨e, w, y, k, c, b', rfl, hid, hres, hretry, hsafe⟩)

/-- What takes an action out of the statuses of an attempt with an unknown outcome: the owner's
word that the effect did not happen, or an error the capability returned for that attempt. -/
theorem unsettled_break {s t : Workers} {l : Label} (hcons : Consistent s.db)
    (hst : (runtime env rt).step s l t) (hx : Stored s.db x)
    (hs : Within Unsettled x.actionId x.attemptNumber s.db)
    (ht : ¬Within Unsettled x.actionId x.attemptNumber t.db) : NotDone x.actionId l ∨
      ∃ w y k e c, l = .settle w y k (.err e) c ∧ y.id = x.id ∧
        ∃ z ∈ t.db.attempts, z.id = x.id ∧ z.status = .failed := by
  obtain ⟨g, f, f', hn, hf, hf', ⟨rfl, -⟩ | ⟨-, hq⟩ | ⟨-, w, y, k, e, c, rfl, hid, -, g', b, b', hstep,
    hbid, hn', -, -, hb', hg'⟩⟩ := step_break (by decide) (by decide) hcons hst hx hs ht
  · -- the owner queues no action whose outcome is unknown
    exact absurd rfl (next_table (P := fun f g _ => Unsettled f → g ≠ .requeue) hn (by decide) hf)
  · exact .inl hq
  · have hfailed := next_table (P := fun _ g t => g ∈ [Trigger.failRetry, .failDeadLetter,
      .failTerminal, .markUncertain] → ¬Unsettled t →
        g = .failRetry ∨ g = .failDeadLetter ∨ g = .failTerminal) hn' (by decide) hg' hb'
    exact .inr ⟨w, y, k, e, c, rfl, hid, hstep.failed_attempt hcons hfailed hx hs hbid⟩

theorem began_within {s t : Workers} {l : Label}
    (hst : (runtime env rt).step s l t) (hl : l.Began x) : Stored t.db x ∧
      Within (· = .executing) x.actionId x.attemptNumber t.db := by
  cases runtime_cases hst with
  | begin_ hw hop hcall =>
    obtain ⟨a, a', -, hid, hstep, hx, hact, hnum, -⟩ := begin_call hcall hop hl
    obtain ⟨-, ha', hid', hn⟩ := hstep.mem_moved
    have hto := next_table (P := fun _ g t => g = .beginAttempt → t = .executing) hn (by decide) rfl
    exact ⟨⟨x, hx, rfl, rfl, rfl⟩, a', ha', by rw [hid', hid, hact], hto, hnum.symm⟩
  | _ => exact hl.elim

theorem began_leased {s t : Workers} {l : Label}
    (hst : (runtime env rt).step s l t) (hl : l.Began x) :
    ∃ a ∈ s.db.actions, a.id = x.actionId ∧ a.status = .leased := by
  cases runtime_cases hst with
  | begin_ hw hop hcall =>
    obtain ⟨a, a', ha, hid, hstep, -, hact, -⟩ := begin_call hcall hop hl
    obtain ⟨-, -, -, hn⟩ := hstep.mem_moved
    exact ⟨a, ha, hid.trans hact.symm,
      next_table (P := fun f g _ => g = .beginAttempt → f = .leased) hn (by decide) rfl⟩
  | _ => exact hl.elim

theorem Stored.steps {s t : Workers} {h : List Label} (hx : Stored s.db x)
    (hst : (runtime env rt).Steps s h t) : Stored t.db x := by
  obtain ⟨cs, hcs⟩ := runtime_refines.steps hst
  exact hcs.invariant (I := fun d => Stored d x) hx fun _ _ _ hi hs => hi.call hs

theorem closed_steps {s t : Workers} {h : List Label}
    (hst : (runtime env rt).Steps s h t) (hx : x ∈ s.db.attempts)
    (hs : x.status ≠ .executing) : x ∈ t.db.attempts := by
  obtain ⟨cs, hcs⟩ := runtime_refines.steps hst
  refine hcs.invariant (I := fun d : Db => x ∈ d.attempts) hx fun _ _ _ hi hc => ?_
  obtain ⟨ds, hds, -⟩ := Call.changes_of_step hc
  exact hds.invariant (I := fun d : Db => x ∈ d.attempts) hi fun _ _ _ hd hs' =>
    hs'.closed_persists hd hs

theorem within_break {h k : List Label} {s t : Workers}
    (hr : (runtime env rt).Run h s) (hst : (runtime env rt).Steps s k t) (hx : Stored s.db x)
    (hs : Within S x.actionId x.attemptNumber s.db)
    (ht : ¬Within S x.actionId x.attemptNumber t.db) : ∃ k₁ l k₂ u v, k = k₁ ++ l :: k₂ ∧
      (runtime env rt).Run (h ++ k₁) u ∧ Stored u.db x ∧
      Within S x.actionId x.attemptNumber u.db ∧ (runtime env rt).step u l v ∧
      ¬Within S x.actionId x.attemptNumber v.db ∧ (runtime env rt).Steps v k₂ t := by
  obtain ⟨k₁, l, k₂, u, v, rfl, h₁, hu, hl, hv, h₂⟩ := hst.exists_break
    (I := fun d => Within S x.actionId x.attemptNumber d.db) hs ht
  exact ⟨k₁, l, k₂, u, v, rfl, hr.append h₁, hx.steps h₁, hu, hl, hv, h₂⟩

theorem Within.mono {T : Status → Prop} {n : ℕ} {db : Db}
    (hS : ∀ st, S st → T st) (h : Within S i n db) : Within T i n db :=
  let ⟨a, ha, hid, hst, hn⟩ := h
  ⟨a, ha, hid, hS _ hst, hn⟩

theorem settle_invoked {h : List Label} {s t : Workers} {w : ℕ} {k : Capability} {r : ExecResult}
    (hr : (runtime env rt).Run h s)
    (hst : (runtime env rt).step s (.settle w x k r c) t) : invoke w x r ∈ h := by
  generalize hl : Label.settle w x k r c = l at hst
  cases runtime_cases hst with
  | settle hw hop hcall =>
    cases hl
    exact (runtime_tracked hr).returned w _ x k r hw
  | _ => cases hl

/-- The row of the attempt is executing. -/
def Live (db : Db) (t : Attempt) : Prop := ∃ x ∈ db.attempts, x.id = t.id ∧ x.status = .executing

theorem Live.within {db : Db} {t : Attempt} (hcons : Consistent db) (hl : Live db t)
    (hs : Stored db t) : Within (· = .executing) t.actionId t.attemptNumber db := by
  obtain ⟨x, hx, hid, hex⟩ := hl
  obtain ⟨y, hy, hyid, hact, hnum⟩ := hs
  obtain rfl := eq_of_key hx hy (hid.trans hyid.symm)
  obtain ⟨a, ha, haid⟩ := hcons.referenced x hx
  obtain ⟨hst, hn, -⟩ := (hcons.actions a ha).executing x hx haid.symm hex
  exact ⟨a, ha, haid.trans hact, hst, hn.symm.trans hnum⟩

/-- **At most one execution.**

1. A capability is called for an attempt that its worker began, and at most once for it.
2. Between the beginnings of two attempts of an action the earlier one was let go of: the owner
   queued the action again, or said that its effect did not happen, or the call for the earlier
   attempt returned an error that was settled as a retry, by a capability that supports
   idempotency or with an error that is safe to retry.  If the earlier attempt was closed as
   uncertain (its lease ran out while it was executing, or it panicked), or if its call
   panicked, it was the owner who said that the effect did not happen.
3. The same stands between two calls for an action, each made while its attempt was still
   executing. -/
theorem at_most_once (env : Env) (rt : ℕ → Runtime) :
    (∀ h s w t r s', (runtime env rt).Run h s → (runtime env rt).step s (.invoke w t r) s' →
      BeganIn h w t ∧ ∀ w' t' r', invoke w' t' r' ∈ h → t'.id ≠ t.id) ∧
    (∀ h s₀ b₁ s₁ k s₂ b₂ s₃ t₁ t₂, (runtime env rt).Run h s₀ →
      (runtime env rt).step s₀ b₁ s₁ → (runtime env rt).Steps s₁ k s₂ →
      (runtime env rt).step s₂ b₂ s₃ → b₁.Began t₁ → b₂.Began t₂ → t₁.actionId = t₂.actionId →
      (∃ l ∈ k, Releases t₁ l) ∧
        ((∃ x ∈ s₂.db.attempts, x.id = t₁.id ∧ x.status = .uncertain) ∨
            (∃ w t, invoke w t .panic ∈ k ∧ t.id = t₁.id) →
          ∃ l ∈ k, NotDone t₁.actionId l)) ∧
    (∀ h s₀ w₁ t₁ r₁ s₁ k s₂ w₂ t₂ r₂ s₃, (runtime env rt).Run h s₀ →
      (runtime env rt).step s₀ (.invoke w₁ t₁ r₁) s₁ → (runtime env rt).Steps s₁ k s₂ →
      (runtime env rt).step s₂ (.invoke w₂ t₂ r₂) s₃ → t₁.actionId = t₂.actionId →
      Live s₀.db t₁ → Live s₂.db t₂ →
      ∃ l ∈ k, Requeued t₁.actionId l ∨ NotDone t₁.actionId l ∨
        ∃ e, r₁ = .err e ∧ Retried t₁ e l) := by
  refine ⟨?_, ?_, ?_⟩
  · intro h s w t r s' hr hst
    generalize hl : invoke w t r = l at hst
    cases runtime_cases hst with
    | invoke hw =>
      cases hl
      exact ((runtime_tracked hr).begun w _ t _ hw).2
    | _ => cases hl
  · intro h s₀ b₁ s₁ k s₂ b₂ s₃ t₁ t₂ hr h₁ hk h₂ hb₁ hb₂ hid
    obtain ⟨hx, hw⟩ := began_within h₁ hb₁
    obtain ⟨a, ha, haid, has⟩ := began_leased h₂ hb₂
    have hr₁ := hr.snoc h₁
    refine ⟨?_, fun hun => ?_⟩
    · obtain ⟨k₁, l, k₂, u, v, rfl, hru, hxu, hu, hst, hv, -⟩ := within_break hr₁ hk hx
        (hw.mono (T := Busy) fun st hs => .inl hs)
        (not_within_of_leased (by decide) ha (haid.trans hid.symm) has)
      exact ⟨l, by simp, busy_break (runtime_consistent hru) hst hxu hu hv⟩
    · obtain ⟨k₁, l, k₂, u, v, rfl, hru, hxu, hu, hst, hv, hrest⟩ := within_break hr₁ hk hx
        (hw.mono (T := Unsettled) fun st hs => .inl hs)
        (not_within_of_leased (by decide) ha (haid.trans hid.symm) has)
      refine ⟨l, by simp, ?_⟩
      refine (unsettled_break (runtime_consistent hru) hst hxu hu hv).resolve_right ?_
      rintro ⟨w, y, q, e, c, rfl, hy, z, hz, hzid, hzs⟩
      rcases hun with ⟨x, hx₂, hxid, hxs⟩ | ⟨w', t, hp, htid⟩
      · have hz₂ := closed_steps hrest hz (by rw [hzs]; decide)
        obtain rfl := eq_of_key hz₂ hx₂ (hzid.trans hxid.symm)
        rw [hzs] at hxs
        cases hxs
      · have hinv := List.mem_append_left ([.settle w y q (.err e) c] ++ k₂)
          (settle_invoked hru hst)
        have hpan : invoke w' t .panic ∈
            (h ++ [b₁] ++ k₁) ++ ([.settle w y q (.err e) c] ++ k₂) := by
          simp only [List.mem_append, List.mem_cons] at hp ⊢
          tauto
        have hall : (runtime env rt).Run
            ((h ++ [b₁] ++ k₁) ++ ([.settle w y q (.err e) c] ++ k₂)) s₂ :=
          hru.append (Machine.Steps.cons hst hrest)
        cases (runtime_tracked hall).unique _ _ _ _ _ _ hinv hpan (hy.trans htid.symm)
  · intro h s₀ w₁ t₁ r₁ s₁ k s₂ w₂ t₂ r₂ s₃ hr h₁ hk h₂ hid hl₁ hl₂
    have hr₁ := hr.snoc h₁
    have hr₂ := hr₁.append hk
    have hx₁ : Stored s₁.db t₁ := (runtime_tracked hr₁).stored w₁ t₁ r₁ (by simp)
    have hdb : s₁.db = s₀.db := by
      generalize hl : invoke w₁ t₁ r₁ = l at h₁
      cases runtime_cases h₁ with
      | invoke hw => rfl
      | _ => cases hl
    have hw₁ := (hdb ▸ hl₁ : Live s₁.db t₁).within (runtime_consistent hr₁) hx₁
    have hx₂ : Stored s₂.db t₂ := by
      have := (runtime_tracked (hr₂.snoc h₂)).stored w₂ t₂ r₂ (by simp)
      generalize hl : invoke w₂ t₂ r₂ = l at h₂
      cases runtime_cases h₂ with
      | invoke hw => exact this
      | _ => cases hl
    have hw₂ := hl₂.within (runtime_consistent hr₂) hx₂
    -- The second attempt is another one, so the action has left the first.
    have hne : t₁.id ≠ t₂.id := by
      intro he
      generalize hl : invoke w₂ t₂ r₂ = l at h₂
      cases runtime_cases h₂ with
      | invoke hw =>
        cases hl
        exact ((runtime_tracked hr₂).begun w₂ _ t₂ _ hw).2.2 w₁ t₁ r₁ (by simp) he
      | _ => cases hl
    have hleft : ¬Within Busy t₁.actionId t₁.attemptNumber s₂.db := by
      rintro ⟨a, ha, haid, -, hn⟩
      obtain ⟨b, hb, hbid, -, hbn⟩ := hw₂
      obtain rfl := eq_of_key ha hb (haid.trans (hid.trans hbid.symm))
      obtain ⟨x, hx, hxid, hxact, hxnum⟩ := hx₁.steps hk
      obtain ⟨y, hy, hyid, hyact, hynum⟩ := hx₂
      have hxy := (runtime_consistent hr₂).distinct x hx y hy
        (hxact.trans (hid.trans hyact.symm)) (by omega)
      exact hne (hxid.symm.trans ((congrArg Attempt.id hxy).trans hyid))
    obtain ⟨k₁, l, k₂, u, v, rfl, hru, hxu, hu, hst, hv, -⟩ := within_break hr₁ hk hx₁
      (hw₁.mono (T := Busy) fun st hs => .inl hs) hleft
    refine ⟨l, by simp, ?_⟩
    rcases busy_break (runtime_consistent hru) hst hxu hu hv with hq | hq | ⟨e, hret⟩
    · exact .inl hq
    · exact .inr (.inl hq)
    · refine .inr (.inr ⟨e, ?_, hret⟩)
      obtain ⟨w, x, q, c, a', rfl, hxid, -⟩ := hret
      have hinv := settle_invoked hru hst
      have hfirst : invoke w₁ t₁ r₁ ∈ h ++ [invoke w₁ t₁ r₁] ++ k₁ := by simp
      cases (runtime_tracked hru).unique _ _ _ _ _ _ hinv hfirst hxid
      rfl

end

/-- The environment of the examples: the text `null` is the only one hashed, and no error is
classified. -/
def sampleEnv : Env := ⟨nullDigest, id⟩

/-- Workers with leases of ten milliseconds and a capability without idempotency. -/
def sampleRuntime (w : ℕ) : Runtime where
  workerId := if w = 0 then "v" else "w"
  leaseMs := 10
  retry := {}
  capabilities _ := some ⟨false⟩

/-- The first worker begins an attempt and pauses.  Its lease runs out, the owner says that the
effect did not happen, and the second worker begins another attempt. -/
def pausedWorker : List Input :=
  [.external (.submit { tool := "mail", arguments := .null, actionId := some "a" }) 0 (words [1]),
    .lease 0 none 1 (words [2]), .proceed 0 .allow 2 (words [3, 4]),
    .external .recover 20 (words [5]),
    .external (.resolveUncertain "a" .confirmedNotDone "owner") 21 (words [6]),
    .lease 1 none 22 (words [7]), .proceed 1 .allow 23 (words [8, 9])]

/-- The worker is about to call the capability for the action. -/
def Worker.begunFor (i : String) : Worker → Bool
  | .begun _ t _ => t.actionId = i
  | _ => false

theorem Worker.begunFor_eq_true {q : Worker} (h : q.begunFor i = true) :
    ∃ a t k, q = .begun a t k ∧ t.actionId = i := by
  cases q with
  | begun a t k => exact ⟨a, t, k, rfl, of_decide_eq_true h⟩
  | _ => cases h

theorem pausedWorker_begun : ∃ ls s, (runtime sampleEnv sampleRuntime).Run ls s ∧
    (s.worker 0).begunFor "a" = true ∧ (s.worker 1).begunFor "a" = true := by
  have hany : (drive sampleEnv sampleRuntime ⟨Db.empty, fun _ => .idle⟩ pausedWorker).any
      (fun r => (r.2.worker 0).begunFor "a" && (r.2.worker 1).begunFor "a") = true := by
    decide +kernel
  obtain ⟨⟨ls, s⟩, hdrive, hboth⟩ := (Option.any_eq_true _ _).1 hany
  exact ⟨ls, s, steps_drive hdrive, Bool.and_eq_true_iff.1 hboth⟩

/-- Both workers call the capability, one right after the other: between the two calls nobody
queued the action again, resolved it or settled anything. -/
theorem calls_in_a_row : ∃ h s t₁ t₂, (runtime sampleEnv sampleRuntime).Run
    (h ++ [.invoke 1 t₁ .ok, .invoke 0 t₂ .ok]) s ∧ t₁.actionId = t₂.actionId := by
  obtain ⟨ls, s, hr, h₀, h₁⟩ := pausedWorker_begun
  obtain ⟨a₀, t₀, k₀, hw₀, hid₀⟩ := Worker.begunFor_eq_true h₀
  obtain ⟨a₁, t₁, k₁, hw₁, hid₁⟩ := Worker.begunFor_eq_true h₁
  have hstep₁ : (runtime sampleEnv sampleRuntime).step s (.invoke 1 t₁ .ok)
      ⟨s.db, update s.worker 1 (.returned a₁ t₁ k₁ .ok)⟩ :=
    ⟨.invoke 1 .ok, by simp only [step?, hw₁]⟩
  have hstep₀ : (runtime sampleEnv sampleRuntime).step
      ⟨s.db, update s.worker 1 (.returned a₁ t₁ k₁ .ok)⟩ (.invoke 0 t₀ .ok)
      ⟨s.db, update (update s.worker 1 (.returned a₁ t₁ k₁ .ok)) 0
        (.returned a₀ t₀ k₀ .ok)⟩ :=
    ⟨.invoke 0 .ok, by simp [step?, hw₀]⟩
  exact ⟨ls, _, t₁, t₀, hr.append (Machine.Steps.cons hstep₁ (Machine.Steps.single hstep₀)),
    hid₁.trans hid₀.symm⟩

/-- A worker that is about to call the capability for an attempt has begun it. -/
theorem began_of_begun {env : Env} {rt : ℕ → Runtime} {s t : Workers} {l : Label} {w : ℕ}
    {auth : Authorization} {now : Int} {random : List Word} {a : Action} {k : Capability}
    (h : step? env rt s (.proceed w auth now random) = some (l, t))
    (hw : t.worker w = .begun a x k) : l.Began x := by
  simp only [step?] at h
  split at h
  · split at h
    · cases h
      simp at hw
    · cases h
      simp only [update_self, afterBegin] at hw
      split at hw
      · next hresult =>
        cases hw
        exact hresult
      · cases hw
  · cases h

/-- The worker is about to call the capability for the action, and its attempt is executing. -/
def Workers.begunLive (s : Workers) (w : ℕ) (i : String) : Bool :=
  match s.worker w with
  | .begun _ t _ =>
    t.actionId = i && s.db.attempts.rows.any fun x => x.id = t.id && x.status = .executing
  | _ => false

theorem Workers.begunLive_eq_true {s : Workers} {w : ℕ} (h : s.begunLive w i = true) :
    ∃ a t k, s.worker w = .begun a t k ∧ t.actionId = i ∧ Live s.db t := by
  unfold begunLive at h
  split at h
  · next a t k hw =>
    obtain ⟨hid, hany⟩ := Bool.and_eq_true_iff.1 h
    obtain ⟨x, hx, hlive⟩ := List.any_eq_true.1 hany
    obtain ⟨hxid, hxs⟩ := Bool.and_eq_true_iff.1 hlive
    exact ⟨a, t, k, hw, of_decide_eq_true hid, x, hx, of_decide_eq_true hxid, of_decide_eq_true hxs⟩
  · cases h

/-- A connection that was not made in time. -/
def timedOut : CapabilityError where
  message := "timed out"
  info := { code := some "ETIMEDOUT" }
  safeToRetry := true

/-- A call that fails, and the call of another worker after it: the attempt of the second call was
begun, and that of the first was let go of before, as a retry. -/
theorem at_most_once_retriedCall : ∃ h b₁ t₁ k b₂ t₂ s,
    (runtime sampleEnv sampleRuntime).Run
      (h ++ [b₁] ++ [.invoke 0 t₁ (.err timedOut)] ++ k ++ [b₂] ++ [.invoke 1 t₂ .ok]) s ∧
    BeganIn (h ++ [b₁] ++ [.invoke 0 t₁ (.err timedOut)] ++ k ++ [b₂]) 1 t₂ ∧
    (∃ l ∈ [.invoke 0 t₁ (.err timedOut)] ++ k, Releases t₁ l) ∧
    ∃ l ∈ k ++ [b₂], Requeued t₁.actionId l ∨ NotDone t₁.actionId l ∨
      ∃ e, ExecResult.err timedOut = .err e ∧ Retried t₁ e l := by
  have hrun : (drive sampleEnv sampleRuntime ⟨Db.empty, fun _ => .idle⟩ (pausedWorker.take 2)).any
      (fun leased => (step? sampleEnv sampleRuntime leased.2 (.proceed 0 .allow 2 (words [3, 4]))).any
        fun begun => begun.2.begunLive 0 "a" &&
          (step? sampleEnv sampleRuntime begun.2 (.invoke 0 (.err timedOut))).any fun failed =>
            (drive sampleEnv sampleRuntime failed.2
              [.settle 0 3 (words [5]), .lease 1 none 5000 (words [6])]).any fun leased =>
                (step? sampleEnv sampleRuntime leased.2
                  (.proceed 1 .allow 5001 (words [7, 8]))).any fun begun =>
                    begun.2.begunLive 1 "a") = true := by
    decide +kernel
  simp only [Option.any_eq_true, Bool.and_eq_true, Prod.exists] at hrun
  obtain ⟨h, s₀, hleased, b₁, s₁, hb₁, hfirst, f, s₂, hfailed, k, s₃, hk, b₂, s₄, hb₂, hsecond⟩ :=
    hrun
  obtain ⟨a₁, t₁, k₁, hw₁, hid₁, hlive₁⟩ := Workers.begunLive_eq_true hfirst
  obtain ⟨a₂, t₂, k₂, hw₂, hid₂, hlive₂⟩ := Workers.begunLive_eq_true hsecond
  obtain ⟨hbegun, hretry, hcalls⟩ := at_most_once sampleEnv sampleRuntime
  obtain rfl : .invoke 0 t₁ (.err timedOut) = f := by
    simp only [step?, hw₁] at hfailed
    cases hfailed
    rfl
  have hsent : (runtime sampleEnv sampleRuntime).step s₄ (.invoke 1 t₂ .ok)
      ⟨s₄.db, update s₄.worker 1 (.returned a₂ t₂ k₂ .ok)⟩ :=
    ⟨.invoke 1 .ok, by simp only [step?, hw₂]⟩
  have hr₀ : (runtime sampleEnv sampleRuntime).Run h s₀ := steps_drive hleased
  have hst₁ : (runtime sampleEnv sampleRuntime).step s₀ b₁ s₁ := ⟨_, hb₁⟩
  have hst₂ : (runtime sampleEnv sampleRuntime).step s₁ (.invoke 0 t₁ (.err timedOut)) s₂ :=
    ⟨_, hfailed⟩
  have hst₃ : (runtime sampleEnv sampleRuntime).step s₃ b₂ s₄ := ⟨_, hb₂⟩
  have hr₄ := (((hr₀.snoc hst₁).snoc hst₂).append (steps_drive hk)).snoc hst₃
  have hsame := hid₁.trans hid₂.symm
  refine ⟨h, b₁, t₁, k, b₂, t₂, _, hr₄.snoc hsent, (hbegun _ _ _ _ _ _ hr₄ hsent).1, ?_, ?_⟩
  · exact (hretry _ _ _ _ _ _ _ _ _ _ hr₀ hst₁ (.cons hst₂ (steps_drive hk)) hst₃
      (began_of_begun hb₁ hw₁) (began_of_begun hb₂ hw₂) hsame).1
  · exact hcalls _ _ _ _ _ _ _ _ _ _ _ _ (hr₀.snoc hst₁) hst₂ ((steps_drive hk).snoc hst₃) hsent
      hsame hlive₁ hlive₂

end U2os.Majordomo
