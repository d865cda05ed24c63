import U2os.Majordomo.Actions.Machine

/-!
# The representation invariant of the action store

How the lease columns, the attempt counter and the attempt rows of an action follow its status.
The invariant is proved for one change and carried to every run of the store.

## Main results

* `Move.frame`, `Move.closes` : what a trigger does to the attempts.
-/

namespace U2os.Majordomo

open Table

/-- What an action and the attempts must satisfy. -/
structure ActionOk (a : Action) (T : Attempts) : Prop where
  owner : a.leaseOwner.isSome ↔ a.status.Held
  expires : a.leaseExpiresAtMs.isSome ↔ a.status.Held
  numbered : ∀ n, (∃ t ∈ T, t.actionId = a.id ∧ t.attemptNumber = n) ↔
    1 ≤ n ∧ n ≤ a.attemptCount
  executing : ∀ t ∈ T, t.actionId = a.id → t.status = .executing →
    a.status = .executing ∧ t.attemptNumber = a.attemptCount ∧ a.leaseOwner = some t.leaseOwner
  attempted : a.status = .executing → ∃ t ∈ T, t.actionId = a.id ∧ t.status = .executing

/-- The invariant of the database. -/
structure Consistent (db : Db) : Prop where
  actions : ∀ a ∈ db.actions, ActionOk a db.attempts
  /-- The foreign key of the attempts. -/
  referenced : ∀ t ∈ db.attempts, ∃ a ∈ db.actions, a.id = t.actionId
  /-- `UNIQUE(action_id, attempt_number)`. -/
  distinct : ∀ t ∈ db.attempts, ∀ u ∈ db.attempts, t.actionId = u.actionId →
    t.attemptNumber = u.attemptNumber → t = u

/-- The attempts rewritten by a function that keeps the action and the number of every attempt,
the attempts of other actions, and leaves no attempt of `i` executing. -/
def Closes (i : String) (T T' : Attempts) : Prop :=
  ∃ g : Attempt → Attempt, (∀ x, x ∈ T' ↔ ∃ y ∈ T, g y = x) ∧
    (∀ y ∈ T, (g y).actionId = y.actionId ∧ (g y).attemptNumber = y.attemptNumber) ∧
    (∀ y ∈ T, y.actionId ≠ i → g y = y) ∧
    ∀ y ∈ T, y.actionId = i → (g y).status ≠ .executing

theorem closes_expire (i : String) (now : Int) (T : Attempts) :
    Closes i T (T.updateWhere (fun t => t.actionId = i ∧ t.status = .executing)
      (closeUncertain now) (closeUncertain_id now)) := by
  refine ⟨fun y => if y.actionId = i ∧ y.status = .executing then closeUncertain now y else y,
    ?_, ?_, ?_, ?_⟩
  · intro x
    simp only [mem_updateWhere, eq_comm]
  · intro y _
    simp only
    split_ifs <;> exact ⟨rfl, rfl⟩
  · intro y _ hy
    exact if_neg fun h => hy h.1
  · intro y _ hy
    simp only
    split_ifs with h
    · simp [closeUncertain]
    · exact fun he => h ⟨hy, he⟩

variable {now : Int}

theorem closes_settle {T : Attempts} {t : Attempt} {c : Settlement} (ht : t ∈ T)
    (hc : c.Legal) (honly : ∀ u ∈ T, u.actionId = t.actionId → u.status = .executing → u = t) :
    Closes t.actionId T (T.put (closeAttempt now c t)) := by
  refine ⟨fun y => if y.id = t.id then closeAttempt now c t else y, ?_, ?_, ?_, ?_⟩
  · intro x
    simp only [← mem_rows, put, List.mem_map, closeAttempt_id]
    exact Iff.rfl
  · intro y hy
    simp only
    split_ifs with h
    · obtain rfl := eq_of_key hy ht h
      exact ⟨rfl, rfl⟩
    · exact ⟨rfl, rfl⟩
  · intro y hy hne
    refine if_neg fun h => hne ?_
    rw [eq_of_key hy ht h]
  · intro y hy hid
    simp only
    split_ifs with h
    · rcases hc with ⟨-, hc⟩ | ⟨-, hc, -⟩ | ⟨-, hc⟩ | ⟨-, hc⟩ | ⟨-, hc⟩ <;>
        simp [closeAttempt, hc]
    · exact fun he => h (by rw [honly y hy hid he])

namespace Closes

variable {i : String} {T T' : Attempts}

theorem mem_of_ne (h : Closes i T T') {t : Attempt} (ht : t.actionId ≠ i) :
    t ∈ T' ↔ t ∈ T := by
  obtain ⟨g, hmem, hkeep, hother, -⟩ := h
  rw [hmem]
  constructor
  · rintro ⟨y, hy, rfl⟩
    have hne : y.actionId ≠ i := fun e => ht ((hkeep y hy).1.trans e)
    rwa [hother y hy hne]
  · exact fun hm => ⟨t, hm, hother t hm ht⟩

theorem numbers (h : Closes i T T') (j : String) (n : ℕ) :
    (∃ t ∈ T', t.actionId = j ∧ t.attemptNumber = n) ↔
      ∃ t ∈ T, t.actionId = j ∧ t.attemptNumber = n := by
  obtain ⟨g, hmem, hkeep, -⟩ := h
  constructor
  · rintro ⟨t, ht, rfl, rfl⟩
    obtain ⟨y, hy, rfl⟩ := (hmem t).1 ht
    exact ⟨y, hy, (hkeep y hy).1.symm, (hkeep y hy).2.symm⟩
  · rintro ⟨y, hy, rfl, rfl⟩
    exact ⟨g y, (hmem _).2 ⟨y, hy, rfl⟩, hkeep y hy⟩

theorem not_executing (h : Closes i T T') {t : Attempt} (ht : t ∈ T') (hi : t.actionId = i) :
    t.status ≠ .executing := by
  obtain ⟨g, hmem, hkeep, -, hclosed⟩ := h
  obtain ⟨y, hy, rfl⟩ := (hmem t).1 ht
  exact hclosed y hy ((hkeep y hy).1.symm.trans hi)

theorem referenced (h : Closes i T T') {t : Attempt} (ht : t ∈ T') :
    ∃ u ∈ T, u.actionId = t.actionId := by
  obtain ⟨y, hy, hya, -⟩ := (h.numbers t.actionId t.attemptNumber).1 ⟨t, ht, rfl, rfl⟩
  exact ⟨y, hy, hya⟩

theorem distinct (h : Closes i T T')
    (hd : ∀ t ∈ T, ∀ u ∈ T, t.actionId = u.actionId → t.attemptNumber = u.attemptNumber → t = u) :
    ∀ t ∈ T', ∀ u ∈ T', t.actionId = u.actionId → t.attemptNumber = u.attemptNumber → t = u := by
  obtain ⟨g, hmem, hkeep, -⟩ := h
  intro t ht u hu hid hn
  obtain ⟨y, hy, rfl⟩ := (hmem t).1 ht
  obtain ⟨z, hz, rfl⟩ := (hmem u).1 hu
  rw [(hkeep y hy).1, (hkeep z hz).1] at hid
  rw [(hkeep y hy).2, (hkeep z hz).2] at hn
  rw [hd y hy z hz hid hn]

end Closes

namespace ActionOk

variable {a a' : Action} {T T' : Attempts}

theorem congr (h : ActionOk a T) (hT : ∀ t : Attempt, t.actionId = a.id → (t ∈ T' ↔ t ∈ T)) :
    ActionOk a T' where
  owner := h.owner
  expires := h.expires
  numbered n := by
    rw [← h.numbered n]
    exact exists_congr fun t => and_congr_left fun ht => hT t ht.1
  executing t ht hid := h.executing t ((hT t hid).1 ht) hid
  attempted hs := by
    obtain ⟨t, ht, hid, hex⟩ := h.attempted hs
    exact ⟨t, (hT t hid).2 ht, hid, hex⟩

theorem not_executing (h : ActionOk a T) (hs : a.status ≠ .executing) {t : Attempt} (ht : t ∈ T)
    (hid : t.actionId = a.id) : t.status ≠ .executing :=
  fun he => hs (h.executing t ht hid he).1

theorem keep (h : ActionOk a T) (hid : a'.id = a.id) (hc : a'.attemptCount = a.attemptCount)
    (hs : a.status ≠ .executing) (hs' : a'.status ≠ .executing)
    (ho : a'.leaseOwner.isSome ↔ a'.status.Held)
    (hx : a'.leaseExpiresAtMs.isSome ↔ a'.status.Held) : ActionOk a' T where
  owner := ho
  expires := hx
  numbered n := by rw [hid, hc]; exact h.numbered n
  executing t ht hti he := absurd he (h.not_executing hs ht (hti.trans hid))
  attempted he := absurd he hs'

theorem close (h : ActionOk a T) (hid : a'.id = a.id) (hc : a'.attemptCount = a.attemptCount)
    (hT : Closes a.id T T') (hs' : ¬a'.status.Held) (ho : a'.leaseOwner = none)
    (hx : a'.leaseExpiresAtMs = none) : ActionOk a' T' where
  owner := by simp [ho, hs']
  expires := by simp [hx, hs']
  numbered n := by rw [hid, hT.numbers, hc]; exact h.numbered n
  executing t ht hti he := absurd he (hT.not_executing ht (hti.trans hid))
  attempted he := absurd (.inr he) hs'

theorem begin_ (h : ActionOk a T) {t : Attempt} (hT : T.insert? t = some T')
    (hti : t.actionId = a.id) (hn : t.attemptNumber = a.attemptCount + 1)
    (hts : t.status = .executing) (hto : a.leaseOwner = some t.leaseOwner)
    (hid : a'.id = a.id) (hc : a'.attemptCount = a.attemptCount + 1) (hs : a.status = .leased)
    (hs' : a'.status = .executing) (ho : a'.leaseOwner = a.leaseOwner)
    (hx : a'.leaseExpiresAtMs = a.leaseExpiresAtMs) : ActionOk a' T' where
  owner := by rw [ho, h.owner, hs, hs']; simp
  expires := by rw [hx, h.expires, hs, hs']; simp
  numbered n := by
    have hold := h.numbered n
    constructor
    · rintro ⟨u, hu, hui, rfl⟩
      rcases (mem_of_insert? hT).1 hu with hu | rfl
      · have := hold.1 ⟨u, hu, hui.trans hid, rfl⟩
        omega
      · omega
    · rintro ⟨h₁, h₂⟩
      by_cases hlast : n = a.attemptCount + 1
      · exact ⟨t, (mem_of_insert? hT).2 (.inr rfl), hti.trans hid.symm, by omega⟩
      · obtain ⟨u, hu, hui, hun⟩ := hold.2 ⟨h₁, by omega⟩
        exact ⟨u, (mem_of_insert? hT).2 (.inl hu), hui.trans hid.symm, hun⟩
  executing u hu hui he := by
    rcases (mem_of_insert? hT).1 hu with hu | rfl
    · exact absurd he (h.not_executing (by simp [hs]) hu (hui.trans hid))
    · exact ⟨hs', hn.trans hc.symm, ho.trans hto⟩
  attempted _ := ⟨t, (mem_of_insert? hT).2 (.inr rfl), hti.trans hid.symm, hts⟩

end ActionOk

/-! ### One change -/

theorem expireRow_leaseOwner (now : Int) (a : Action) : (expireRow now a).leaseOwner = none := by
  unfold expireRow
  split_ifs <;> rfl

theorem expireRow_leaseExpiresAtMs (now : Int) (a : Action) :
    (expireRow now a).leaseExpiresAtMs = none := by
  unfold expireRow
  split_ifs <;> rfl

theorem Move.frame {g : Trigger} {a a₁ : Action} {T T' : Attempts}
    (hm : Move now g a T a₁ T') {t : Attempt} (ht : t.actionId ≠ a.id) : t ∈ T' ↔ t ∈ T := by
  cases hm with
  | expireExecuting _ => exact (closes_expire a.id now T).mem_of_ne ht
  | begin_ _ _ _ _ hT _ =>
    rw [mem_of_insert? hT]
    exact or_iff_left fun e => ht (e ▸ rfl)
  | settle c _ t' ht' _ hid _ =>
    have hne : t.id ≠ t'.id ∨ t ∉ T := by
      by_contra hcon
      rw [not_or, not_not, not_not] at hcon
      exact ht ((congrArg Attempt.actionId (eq_of_key hcon.2 ht' hcon.1)).trans hid)
    rw [mem_put_of_mem ht' (closeAttempt_id now c t').symm]
    constructor
    · rintro (⟨h, -⟩ | rfl)
      · exact h
      · exact absurd hid ht
    · intro h
      exact .inl ⟨h, hne.resolve_right (not_not.2 h)⟩
  | _ => exact Iff.rfl

/-- A transition keeps what a row and its attempts have to agree on. -/
theorem ActionOk.moved {g : Trigger} {a a₁ : Action} {T T' : Attempts} {to_ : Status} {e : String}
    (h : ActionOk a T) (hn : next a.status g = .ok to_) (hm : Move now g a T a₁ T')
    (hd : ∀ t ∈ T, ∀ u ∈ T, t.actionId = u.actionId → t.attemptNumber = u.attemptNumber → t = u) :
    ActionOk (a₁.stamp to_ now e) T' := by
  -- The statuses before and after come from the table, the columns and attempts from `Move`.
  cases hm with
  | approve by_ =>
    have hst := next_table (P := fun f g t => g = .approve → ¬f.Held ∧ ¬t.Held) hn (by decide) rfl
    exact h.keep rfl rfl (fun e => hst.1 (.inr e)) (fun e => hst.2 (.inr e))
      (iff_of_false (mt h.owner.1 hst.1) hst.2) (iff_of_false (mt h.expires.1 hst.1) hst.2)
  | reject =>
    have hst := next_table (P := fun f g t => g = .reject → ¬f.Held ∧ ¬t.Held) hn (by decide) rfl
    exact h.keep rfl rfl (fun e => hst.1 (.inr e)) (fun e => hst.2 (.inr e))
      (iff_of_false (mt h.owner.1 hst.1) hst.2) (iff_of_false (mt h.expires.1 hst.1) hst.2)
  | cancel =>
    have hst := next_table (P := fun f g t => g = .cancel → ¬f.Held ∧ ¬t.Held) hn (by decide) rfl
    exact h.keep rfl rfl (fun e => hst.1 (.inr e)) (fun e => hst.2 (.inr e))
      (iff_of_false (mt h.owner.1 hst.1) hst.2) (iff_of_false (mt h.expires.1 hst.1) hst.2)
  | requeue =>
    have hst := next_table (P := fun f g t => g = .requeue → ¬f.Held ∧ ¬t.Held) hn (by decide) rfl
    exact h.keep rfl rfl (fun e => hst.1 (.inr e)) (fun e => hst.2 (.inr e))
      (iff_of_false (by simp [clearLease, Action.stamp]) hst.2)
      (iff_of_false (by simp [clearLease, Action.stamp]) hst.2)
  | resolve r =>
    have hst := next_table (P := fun f g t => g = r.trigger.1 → ¬f.Held ∧ ¬t.Held) hn
      (by cases r <;> decide) rfl
    exact h.keep rfl rfl (fun e => hst.1 (.inr e)) (fun e => hst.2 (.inr e))
      (iff_of_false (mt h.owner.1 hst.1) hst.2) (iff_of_false (mt h.expires.1 hst.1) hst.2)
  | lease owner leaseMs _ _ =>
    have hst := next_table (P := fun f g t => g = .lease → f ≠ .executing ∧ t = .leased) hn
      (by decide) rfl
    obtain ⟨hs, rfl⟩ := hst
    exact h.keep rfl rfl hs (by simp [Action.stamp]) (by simp [Action.stamp])
      (by simp [Action.stamp])
  | expireIdle hs =>
    have hst := next_table (P := fun f g t => g = .expireLease → f = .leased → ¬t.Held) hn
      (by decide) rfl hs
    exact h.keep (expireRow_id now a) (expireRow_attemptCount now a) (by simp [hs])
      (fun e => hst (.inr e))
      (iff_of_false (by simp [Action.stamp, expireRow_leaseOwner]) hst)
      (iff_of_false (by simp [Action.stamp, expireRow_leaseExpiresAtMs]) hst)
  | expireExecuting hs =>
    have hst := next_table (P := fun f g t => g = .expireLease → f = .executing → ¬t.Held) hn
      (by decide) rfl hs
    exact h.close (expireRow_id now a) (expireRow_attemptCount now a)
      (closes_expire a.id now T) hst (expireRow_leaseOwner now a)
      (expireRow_leaseExpiresAtMs now a)
  | begin_ owner attemptId ho _ hT _ =>
    have hst := next_table (P := fun f g t => g = .beginAttempt → f = .leased ∧ t = .executing)
      hn (by decide) rfl
    exact h.begin_ hT rfl rfl rfl ho rfl rfl hst.1 hst.2 rfl rfl
  | settle c hc t ht hs hid ho =>
    have hst : ¬to_.Held := by
      rcases hc with ⟨hc, -⟩ | ⟨hc, -⟩ | ⟨hc, -⟩ | ⟨hc, -⟩ | ⟨hc, -⟩ <;>
        exact next_table (P := fun f g t => g = c.trigger → ¬t.Held) hn (by rw [hc]; decide) rfl
    have honly : ∀ u ∈ T, u.actionId = t.actionId → u.status = .executing → u = t := by
      intro u hu hui hue
      refine hd u hu t ht hui ?_
      rw [(h.executing u hu (hui.trans hid) hue).2.1, (h.executing t ht hid hs).2.1]
    exact h.close rfl rfl (hid ▸ closes_settle ht hc honly) hst rfl rfl
  | stop status owner error class_ _ =>
    have hst := next_table (P := fun f g t => g = status.trigger → f = .leased ∧ ¬t.Held) hn
      (by cases status <;> decide) rfl
    exact h.keep rfl rfl (by simp [hst.1]) (fun e => hst.2 (.inr e))
      (iff_of_false (by simp [clearLease, Action.stamp]) hst.2)
      (iff_of_false (by simp [clearLease, Action.stamp]) hst.2)

theorem Move.keys {g : Trigger} {a a₁ : Action} {T T' : Attempts}
    (hm : Move now g a T a₁ T') (h : ActionOk a T)
    (hd : ∀ t ∈ T, ∀ u ∈ T, t.actionId = u.actionId → t.attemptNumber = u.attemptNumber → t = u) :
    (∀ t ∈ T', t.actionId = a.id ∨ ∃ u ∈ T, u.actionId = t.actionId) ∧
      ∀ t ∈ T', ∀ u ∈ T', t.actionId = u.actionId → t.attemptNumber = u.attemptNumber → t = u := by
  cases hm with
  | begin_ owner attemptId _ _ hT hfresh =>
    refine ⟨fun t ht => ?_, fun t ht u hu hid hn => ?_⟩
    · rcases (mem_of_insert? hT).1 ht with ht | rfl
      · exact .inr ⟨t, ht, rfl⟩
      · exact .inl rfl
    · rcases (mem_of_insert? hT).1 ht with ht | rfl <;>
        rcases (mem_of_insert? hT).1 hu with hu | rfl
      · exact hd t ht u hu hid hn
      · exact absurd ⟨hid, hn⟩ (hfresh t ht)
      · exact absurd ⟨hid.symm, hn.symm⟩ (hfresh u hu)
      · rfl
  | expireExecuting _ =>
    have hT := closes_expire a.id now T
    exact ⟨fun t ht => .inr (hT.referenced ht), hT.distinct hd⟩
  | settle c hc t ht hs hid _ =>
    have hT : Closes t.actionId T (T.put (closeAttempt now c t)) := by
      refine closes_settle ht hc fun u hu hui hue => hd u hu t ht hui ?_
      rw [(h.executing u hu (hui.trans hid) hue).2.1, (h.executing t ht hid hs).2.1]
    exact ⟨fun t ht => .inr (hT.referenced ht), hT.distinct hd⟩
  | _ => exact ⟨fun t ht => .inr ⟨t, ht, rfl⟩, hd⟩

variable {s t : Db}

namespace Consistent

theorem empty : Consistent Db.empty where
  actions a h := absurd h (not_mem_empty a)
  referenced t h := absurd h (not_mem_empty t)
  distinct t h := absurd h (not_mem_empty t)

/-- Every change of the database keeps it consistent. -/
theorem step {c : Change} (h : Consistent s) (hst : DbStep s c t) : Consistent t := by
  cases hst with
  | @submitted a actions ev log extra hf hk hi hl he hx =>
    have hnew : ∀ u ∈ s.attempts, u.actionId ≠ a.id := by
      intro u hu hua
      obtain ⟨b, hb, hbu⟩ := h.referenced u hu
      exact (insert?_eq_some.1 hi).1 b hb (hbu.trans hua)
    refine ⟨fun b hb => ?_, fun u hu => ?_, h.distinct⟩
    · rcases (mem_of_insert? hi).1 hb with hb | rfl
      · exact h.actions b hb
      · have hs : ¬a.status.Held := by
          rw [hf.status]
          split_ifs <;> decide
        refine ⟨iff_of_false (by simp [hf.leaseOwner]) hs,
          iff_of_false (by simp [hf.leaseExpiresAtMs]) hs, fun n => ?_,
          fun u hu hid _ => absurd hid (hnew u hu), fun he => absurd (.inr he) hs⟩
        refine iff_of_false (fun ⟨u, hu, hid, _⟩ => hnew u hu hid) ?_
        simp only [hf.attemptCount]
        omega
    · obtain ⟨b, hb, hbu⟩ := h.referenced u hu
      exact ⟨b, (mem_of_insert? hi).2 (.inl hb), hbu⟩
  | @moved g a a₁ to_ now attempts ev log extra ha hn hm hl he hx =>
    have hok := h.actions a ha
    have hkey : a.id = (a₁.stamp to_ now ev.id).id := hm.id_eq.symm
    obtain ⟨href, hdist⟩ := hm.keys hok h.distinct
    refine ⟨fun b hb => ?_, fun u hu => ?_, hdist⟩
    · rcases (mem_put_of_mem ha hkey).1 hb with ⟨hb, hne⟩ | rfl
      · refine (h.actions b hb).congr fun u hu => hm.frame ?_
        exact fun e => hne ((hu.symm.trans e).trans hkey)
      · exact hok.moved hn hm h.distinct
    · have hold : ∃ b ∈ s.actions, b.id = u.actionId := by
        rcases href u hu with hua | ⟨v, hv, hvu⟩
        · exact ⟨a, ha, hua.symm⟩
        · obtain ⟨b, hb, hbv⟩ := h.referenced v hv
          exact ⟨b, hb, hbv.trans hvu⟩
      obtain ⟨b, hb, hbu⟩ := hold
      by_cases hba : b.id = a.id
      · exact ⟨_, (mem_put_of_mem ha hkey).2 (.inr rfl), hkey.symm.trans (hba ▸ hbu)⟩
      · exact ⟨b, (mem_put_of_mem ha hkey).2 (.inl ⟨hb, fun e => hba (e.trans hkey.symm)⟩),
          hbu⟩
  | @renewed a leaseMs now ha hs hx =>
    have hok := h.actions a ha
    have hkey : a.id = (renewRow leaseMs now a).id := rfl
    refine ⟨fun b hb => ?_, fun u hu => ?_, h.distinct⟩
    · rcases (mem_put_of_mem ha hkey).1 hb with ⟨hb, -⟩ | rfl
      · exact h.actions b hb
      · exact ⟨hok.owner, iff_of_true rfl hs, hok.numbered, hok.executing, hok.attempted⟩
    · obtain ⟨b, hb, hbu⟩ := h.referenced u hu
      by_cases hba : b.id = a.id
      · exact ⟨_, (mem_put_of_mem ha hkey).2 (.inr rfl), hba ▸ hbu⟩
      · exact ⟨b, (mem_put_of_mem ha hkey).2 (.inl ⟨hb, hba⟩), hbu⟩

theorem steps {cs : List Change} (h : Consistent s) (hst : changes.Steps s cs t) :
    Consistent t :=
  hst.invariant h fun _ _ _ hi hs => hi.step hs

end Consistent

theorem actionStore_consistent {sha256 : String → String} {h : List Call}
    (hr : (actionStore sha256).Run h s) : Consistent s :=
  let ⟨_, hcs⟩ := reachable_changes hr
  Consistent.empty.steps hcs

/-! ### Uncertain attempts -/

/-- While the attempt `tid` of the action `aid` is uncertain and the last one, the action waits
for the owner. -/
def Pending (tid aid : String) (db : Db) : Prop :=
  ∀ t ∈ db.attempts, t.id = tid → t.actionId = aid → t.status = .uncertain →
    ∀ a ∈ db.actions, a.id = aid → t.attemptNumber = a.attemptCount →
      a.status = .outcomeUncertain

/-- An attempt whose outcome is open stays so until the owner resolves it. -/
theorem Pending.step {tid aid : String} {c : Change} (h : Pending tid aid s)
    (hs : Consistent s) (hst : DbStep s c t)
    (hc : ∀ a a', c ≠ .moved .resolveDone a a' ∧ c ≠ .moved .resolveNotDone a a' ∨ a.id ≠ aid) :
    Pending tid aid t := by
  have ht := hs.step hst
  intro u hu huid hua hun b hb hba hlast
  cases hst with
  | @submitted a actions ev log extra hf hk hi hl he hx =>
    rcases (mem_of_insert? hi).1 hb with hb | rfl
    · exact h u hu huid hua hun b hb hba hlast
    · have hn := ((ht.actions _ hb).numbered u.attemptNumber).1 ⟨u, hu, hua.trans hba.symm, rfl⟩
      simp only [hf.attemptCount] at hn
      omega
  | @renewed a leaseMs now ha _ hx =>
    have hkey : a.id = (renewRow leaseMs now a).id := rfl
    rcases (mem_put_of_mem ha hkey).1 hb with ⟨hb, -⟩ | rfl
    · exact h u hu huid hua hun b hb hba hlast
    · exact h u hu huid hua hun a ha hba hlast
  | @moved g a a₁ to_ now attempts ev log extra ha hn hm hl he hx =>
    have hkey : a.id = (a₁.stamp to_ now ev.id).id := hm.id_eq.symm
    rcases (mem_put_of_mem ha hkey).1 hb with ⟨hb, hne⟩ | rfl
    · have hu' : u ∈ s.attempts :=
        (hm.frame fun e => hne ((hba.trans (hua.symm.trans e)).trans hkey)).1 hu
      exact h u hu' huid hua hun b hb hba hlast
    · have haid : a.id = aid := hkey.trans hba
      have hok := hs.actions a ha
      -- Unless the trigger touched the attempts, the action was uncertain before, and only the
      -- owner's resolution leaves that status.
      have hstay : u ∈ s.attempts → a₁.attemptCount = a.attemptCount → to_ = .outcomeUncertain := by
        intro hu' hcount
        have hold := h u hu' huid hua hun a ha haid (hlast.trans hcount)
        have hg := next_table (P := fun f g _ => f = .outcomeUncertain →
          g = .resolveDone ∨ g = .resolveNotDone) hn (by decide) hold
        rcases hc a (a₁.stamp to_ now ev.id) with ⟨h₁, h₂⟩ | hne
        · rcases hg with rfl | rfl
          · exact absurd rfl h₁
          · exact absurd rfl h₂
        · exact absurd haid hne
      cases hm with
      | begin_ owner attemptId _ _ hT _ =>
        rcases (mem_of_insert? hT).1 hu with hu' | rfl
        · have hle := (hok.numbered u.attemptNumber).1 ⟨u, hu', hua.trans haid.symm, rfl⟩
          simp only [Action.stamp] at hlast
          omega
        · simp at hun
      | expireExecuting hex =>
        exact next_table (P := fun f g t => g = .expireLease → f = .executing →
          t = .outcomeUncertain) hn (by decide) rfl hex
      | settle c hleg v hv hvs hvid _ =>
        rcases (mem_put_of_mem hv (closeAttempt_id now c v).symm).1 hu with ⟨hu', hne⟩ | rfl
        · have hex := hok.executing v hv hvid hvs
          exact absurd (congrArg Attempt.id (hs.distinct u hu' v hv
            (hua.trans (haid.symm.trans hvid.symm)) (hlast.trans hex.2.1.symm))) hne
        · rcases hleg with ⟨-, hl⟩ | ⟨-, hl, -⟩ | ⟨-, hl⟩ | ⟨-, hl⟩ | ⟨hl, -⟩
          · simp [closeAttempt, hl] at hun
          · simp [closeAttempt, hl] at hun
          · simp [closeAttempt, hl] at hun
          · simp [closeAttempt, hl] at hun
          · exact next_table (P := fun _ g t => g = c.trigger → t = .outcomeUncertain) hn
              (by rw [hl]; decide) rfl
      | expireIdle hidle => exact hstay hu (expireRow_attemptCount now a)
      | _ => exact hstay hu rfl

theorem Pending.call {sha256 : String → String} {tid aid : String} {c : Call}
    (h : Pending tid aid s) (hs : Consistent s) (hst : (actionStore sha256).step s c t)
    (hc : ∀ r by_, c.op = .resolveUncertain aid r by_ → ¬c.Succeeded) : Pending tid aid t := by
  obtain ⟨cs, hcs, hemit⟩ := Call.changes_of_step hst
  have hboth : Consistent t ∧ Pending tid aid t := by
    refine hcs.invariantOn (I := fun d => Consistent d ∧ Pending tid aid d) hemit ⟨hs, h⟩ ?_
    rintro u x v hx ⟨hu, hp⟩ hst
    refine ⟨hu.step hst, hp.step hu hst fun a a' => ?_⟩
    by_cases haid : a.id = aid
    · left
      constructor
      · rintro rfl
        obtain ⟨r, by_, hop, -, hok⟩ := hx.resolve (.inl rfl)
        exact hc r by_ (haid ▸ hop) hok
      · rintro rfl
        obtain ⟨r, by_, hop, -, hok⟩ := hx.resolve (.inr rfl)
        exact hc r by_ (haid ▸ hop) hok
    · exact .inr haid
  exact hboth.2

/-- **The representation invariant of the action store.**  In every run: both lease columns are
set exactly in the statuses that hold a lease; the attempts of an action are numbered from 1 to
its counter; an attempt is executing exactly when the action is, it is then the only one, the
last one and its owner's; and an action whose last attempt became uncertain waits for the owner
as long as nobody resolved it. -/
theorem actionStore_representation {sha256 : String → String} {h : List Call} {s : Db}
    (hr : (actionStore sha256).Run h s) (a : Action) (ha : a ∈ s.actions) :
    (a.leaseOwner.isSome ↔ a.status.Held) ∧ (a.leaseExpiresAtMs.isSome ↔ a.status.Held) ∧
    ((∀ n, 1 ≤ n → n ≤ a.attemptCount →
        ∃! t, t ∈ s.attempts ∧ t.actionId = a.id ∧ t.attemptNumber = n) ∧
      ∀ t ∈ s.attempts, t.actionId = a.id →
        1 ≤ t.attemptNumber ∧ t.attemptNumber ≤ a.attemptCount) ∧
    ((a.status = .executing ↔ ∃ t ∈ s.attempts, t.actionId = a.id ∧ t.status = .executing) ∧
      ∀ t ∈ s.attempts, t.actionId = a.id → t.status = .executing →
        t.attemptNumber = a.attemptCount ∧ a.leaseOwner = some t.leaseOwner ∧
          ∀ u ∈ s.attempts, u.actionId = a.id → u.status = .executing → u = t) ∧
    ∀ h₁ h₂ s₁, h = h₁ ++ h₂ → (actionStore sha256).Run h₁ s₁ →
      (actionStore sha256).Steps s₁ h₂ s →
      ∀ t ∈ s.attempts, t.actionId = a.id → t.attemptNumber = a.attemptCount →
        t.status = .uncertain → (∀ u ∈ s₁.attempts, u.id = t.id → u.status ≠ .uncertain) →
        (∀ c ∈ h₂, ∀ r by_, c.op = .resolveUncertain a.id r by_ → ¬c.Succeeded) →
        a.status = .outcomeUncertain := by
  have hcons := actionStore_consistent hr
  have hok := hcons.actions a ha
  refine ⟨hok.owner, hok.expires, ⟨fun n h₁ h₂ => ?_, fun t ht hid => ?_⟩,
    ⟨⟨hok.attempted, fun ⟨t, ht, hid, hex⟩ => (hok.executing t ht hid hex).1⟩,
      fun t ht hid hex => ?_⟩, ?_⟩
  · obtain ⟨t, ht, hid, hn⟩ := (hok.numbered n).2 ⟨h₁, h₂⟩
    exact ⟨t, ⟨ht, hid, hn⟩, fun u hu =>
      hcons.distinct u hu.1 t ht (hu.2.1.trans hid.symm) (hu.2.2.trans hn.symm)⟩
  · exact (hok.numbered t.attemptNumber).1 ⟨t, ht, hid, rfl⟩
  · obtain ⟨-, hn, ho⟩ := hok.executing t ht hid hex
    refine ⟨hn, ho, fun u hu huid huex => hcons.distinct u hu t ht (huid.trans hid.symm) ?_⟩
    rw [hn, (hok.executing u hu huid huex).2.1]
  · intro h₁ h₂ s₁ _ hr₁ hs₂ t ht hid hn hun hbefore hnone
    have hpend : Consistent s ∧ Pending t.id a.id s := by
      refine hs₂.invariantOn (I := fun d => Consistent d ∧ Pending t.id a.id d) hnone
        ⟨actionStore_consistent hr₁, fun u hu huid _ hu' => absurd hu' (hbefore u hu huid)⟩ ?_
      rintro u c v hc ⟨hu, hp⟩ hst
      obtain ⟨cs, hcs, -⟩ := Call.changes_of_step hst
      exact ⟨hu.steps hcs, hp.call hu hst hc⟩
    exact hpend.2 t ht rfl hid hun a ha rfl hn

/-- A worker leases an action, begins an attempt and is never heard of again. -/
def lostWorker : List (Op × Int × List Word) :=
  [(.submit { tool := "mail", arguments := .null, actionId := some "a" }, 0, words [1]),
    (.lease none "w" 10, 1, words [2]), (.beginAttempt "a" "w", 2, words [3, 4]),
    (.recover, 20, words [5])]

theorem actionStore_representation_lostWorker :
    ∃ a ∈ (script nullDigest Db.empty lostWorker).2.actions, a.status = .outcomeUncertain ∧
      (a.leaseOwner.isSome ↔ a.status.Held) := by
  have hne : (script nullDigest Db.empty lostWorker).2.actions.rows ≠ [] := by decide +kernel
  have hst : ∀ a ∈ (script nullDigest Db.empty lostWorker).2.actions.rows,
      a.status = .outcomeUncertain := by decide +kernel
  obtain ⟨a, ha⟩ := List.exists_mem_of_ne_nil _ hne
  exact ⟨a, ha, hst a ha,
    (actionStore_representation (steps_script nullDigest Db.empty lostWorker) a ha).1⟩

/-! ### What is recorded for good -/

/-- What a state keeps of an earlier one: the log, what attempts ended with, and the actions that
are completed or dead letters, with all their attempts. -/
structure Preserves (s t : Db) : Prop where
  log : s.events.events <+: t.events.events
  closed : ∀ u ∈ s.attempts, u.status ≠ .executing → u ∈ t.attempts
  final : ∀ a ∈ s.actions, a.status = .completed ∨ a.status = .deadLetter → a ∈ t.actions ∧
    ∀ u : Attempt, u.actionId = a.id → (u ∈ t.attempts ↔ u ∈ s.attempts)

theorem Preserves.trans {r : Db} (h : Preserves r s) (h' : Preserves s t) : Preserves r t where
  log := h.log.trans h'.log
  closed u hu hs := h'.closed u (h.closed u hu hs) hs
  final a ha hs := by
    obtain ⟨ha', hattempts⟩ := h.final a ha hs
    obtain ⟨ha'', hattempts'⟩ := h'.final a ha' hs
    exact ⟨ha'', fun u hu => (hattempts' u hu).trans (hattempts u hu)⟩

theorem DbStep.preserves {c : Change} (hst : DbStep s c t) : Preserves s t := by
  cases hst with
  | submitted hf hk hi hl he hx =>
    exact ⟨hl ▸ List.prefix_append _ _, fun u hu _ => hu, fun a ha _ =>
      ⟨(mem_of_insert? hi).2 (.inl ha), fun _ _ => Iff.rfl⟩⟩
  | @moved g b b₁ to_ now attempts ev log extra hb hn hm hl he hx =>
    refine ⟨hl ▸ List.prefix_append _ _, fun u hu hs => hm.closed_persists hu hs, fun a ha hs => ?_⟩
    have hleft : b.status ≠ .completed ∧ b.status ≠ .deadLetter :=
      next_table (P := fun f _ _ => f ≠ .completed ∧ f ≠ .deadLetter) hn (by decide)
    have hne : a.id ≠ b.id := fun hid => by
      obtain rfl := eq_of_key ha hb hid
      exact hs.elim hleft.1 hleft.2
    have hkey : b.id = (b₁.stamp to_ now ev.id).id := hm.id_eq.symm
    exact ⟨(mem_put_of_mem hb hkey).2 (.inl ⟨ha, hkey ▸ hne⟩), fun u hu =>
      hm.frame (hu ▸ hne)⟩
  | @renewed b leaseMs now hb hs hx =>
    refine ⟨List.prefix_rfl, fun u hu _ => hu, fun a ha hfinal => ⟨?_, fun _ _ => Iff.rfl⟩⟩
    have hne : a.id ≠ b.id := fun hid => by
      obtain rfl := eq_of_key ha hb hid
      rcases hs with hs | hs <;> simp [hs] at hfinal
    exact (mem_put_of_mem (r := renewRow leaseMs now b) hb rfl).2 (.inl ⟨ha, hne⟩)

/-- Whatever is called, nothing that is recorded for good is rewritten. -/
theorem calls_preserve {sha256 : String → String} {calls : List Call}
    (hst : (actionStore sha256).Steps s calls t) : Preserves s t := by
  obtain ⟨cs, hcs⟩ := actionStore_refines.steps hst
  exact hcs.invariant (I := Preserves s)
    ⟨List.prefix_rfl, fun _ hu _ => hu, fun _ ha _ => ⟨ha, fun _ _ => Iff.rfl⟩⟩
    fun _ _ _ hp hs => hp.trans hs.preserves

/-- The owner says that the mail was sent, and queues it again in vain. -/
theorem calls_preserve_lostWorker :
    Preserves (script nullDigest Db.empty lostWorker).2
      (script nullDigest (script nullDigest Db.empty lostWorker).2
        [(.resolveUncertain "a" .confirmedDone "owner", 30, words [6]), (.requeue "a", 40, words [7])]).2 :=
  calls_preserve (steps_script nullDigest _ _)

end U2os.Majordomo
