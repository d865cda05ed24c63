import U2os.Majordomo.Actions.Machine

/-!
# The approval gate

A consequential action holds a lease only after the owner approved it.  Three places check the
approval: the lease query, `requeue` and the state table; the column `approved_at_ms` ties them
together.
-/

namespace U2os.Majordomo

open Table

/-- The history contains the request that created the action, with `consequential = true`. -/
def SubmittedConsequential (h : List Call) (id : String) : Prop :=
  ∃ c ∈ h, ∃ new r, c.op = .submit new ∧ new.consequential = true ∧
    c.result = .ok (.submission r) ∧ r.created = true ∧ r.action.id = id

/-- The history contains an approval of the action. -/
def ApprovedIn (h : List Call) (id : String) : Prop :=
  ∃ c ∈ h, (∃ by_, c.op = .approve id by_) ∧ c.Succeeded

theorem ApprovedIn.mono {h h' : List Call} {id : String} (ha : ApprovedIn h id) :
    ApprovedIn (h ++ h') id :=
  let ⟨c, hc, hop⟩ := ha
  ⟨c, List.mem_append_left _ hc, hop⟩

/-- A consequential action without an approval waits for it or is cancelled. -/
def Gated (db : Db) : Prop :=
  ∀ a ∈ db.actions, a.consequential = true → a.approvedAtMs = none →
    a.status = .awaitingApproval ∨ a.status = .cancelled

theorem expireRow_approvedAtMs (now : Int) (a : Action) :
    (expireRow now a).approvedAtMs = a.approvedAtMs := by
  unfold expireRow
  split_ifs <;> rfl

theorem Move.approvedAtMs {now : Int} {g : Trigger} {a a₁ : Action} {T T' : Attempts}
    (hm : Move now g a T a₁ T') (hg : g ≠ .approve) : a₁.approvedAtMs = a.approvedAtMs := by
  cases hm <;> first | rfl | exact expireRow_approvedAtMs now a | exact absurd rfl hg

theorem Gated.empty : Gated Db.empty := fun a h => absurd h (not_mem_empty a)

variable {s t : Db}

/-- No change lets an action past its approval. -/
theorem Gated.step {c : Change} (h : Gated s) (hst : DbStep s c t) : Gated t := by
  intro b hb hbc hba
  cases hst with
  | @submitted a actions ev log extra hf hk hi hl he hx =>
    rcases (mem_of_insert? hi).1 hb with hb | rfl
    · exact h b hb hbc hba
    · left
      exact hf.status.trans (if_pos hbc)
  | @moved g a a₁ to_ now attempts ev log extra ha hn hm hl he hx =>
    have hkey : a.id = (a₁.stamp to_ now ev.id).id := hm.id_eq.symm
    rcases (mem_put_of_mem ha hkey).1 hb with ⟨hb, -⟩ | rfl
    · exact h b hb hbc hba
    · have hac : a.consequential = true := hm.consequential.symm.trans hbc
      by_cases hg : g = .approve
      · subst hg
        exact absurd (hm.of_approve.symm.trans hba) (by simp)
      · have haa : a.approvedAtMs = none := (hm.approvedAtMs hg).symm.trans hba
        have hto := next_table (P := fun f g t => f = .awaitingApproval ∨ f = .cancelled →
          g = .approve ∨ g = .requeue ∨ t = .cancelled) hn (by decide) (h a ha hac haa)
        rcases hto with hto | rfl | hto
        · exact absurd hto hg
        · exact absurd ⟨hac, haa⟩ hm.of_requeue.2.2
        · exact .inr hto
  | @renewed a leaseMs now ha hs hx =>
    have hkey : a.id = (renewRow leaseMs now a).id := rfl
    rcases (mem_put_of_mem ha hkey).1 hb with ⟨hb, -⟩ | rfl
    · exact h b hb hbc hba
    · exact h a ha hbc hba

theorem Gated.steps {cs : List Change} (h : Gated s) (hst : changes.Steps s cs t) :
    Gated t :=
  hst.invariant h fun _ _ _ hi hs => hi.step hs

theorem DbStep.approved {c : Change} (hst : DbStep s c t) {b : Action}
    (hb : b ∈ t.actions) (hba : b.approvedAtMs ≠ none) :
    (∃ a ∈ s.actions, a.id = b.id ∧ a.approvedAtMs ≠ none) ∨
      ∃ a, c = .moved .approve a b ∧ a.id = b.id := by
  cases hst with
  | @submitted a actions ev log extra hf hk hi hl he hx =>
    rcases (mem_of_insert? hi).1 hb with hb | rfl
    · exact .inl ⟨b, hb, rfl, hba⟩
    · exact absurd hf.approvedAtMs hba
  | @moved g a a₁ to_ now attempts ev log extra ha hn hm hl he hx =>
    have hkey : a.id = (a₁.stamp to_ now ev.id).id := hm.id_eq.symm
    rcases (mem_put_of_mem ha hkey).1 hb with ⟨hb, -⟩ | rfl
    · exact .inl ⟨b, hb, rfl, hba⟩
    · by_cases hg : g = .approve
      · subst hg
        exact .inr ⟨a, rfl, hkey⟩
      · exact .inl ⟨a, ha, hkey, fun e => hba ((hm.approvedAtMs hg).trans e)⟩
  | @renewed a leaseMs now ha hs hx =>
    have hkey : a.id = (renewRow leaseMs now a).id := rfl
    rcases (mem_put_of_mem ha hkey).1 hb with ⟨hb, -⟩ | rfl
    · exact .inl ⟨b, hb, rfl, hba⟩
    · exact .inl ⟨a, ha, rfl, hba⟩

/-- An unapproved consequential action that is cancelled. -/
def Dead (id : String) (db : Db) : Prop :=
  ∃ a ∈ db.actions, a.id = id ∧ a.consequential = true ∧ a.approvedAtMs = none ∧
    a.status = .cancelled

/-- What is dead stays so. -/
theorem Dead.step {id : String} {c : Change} (h : Dead id s) (hst : DbStep s c t) :
    Dead id t := by
  obtain ⟨b, hb, rfl, hbc, hba, hbs⟩ := h
  cases hst with
  | submitted hf hk hi hl he hx =>
    exact ⟨b, (mem_of_insert? hi).2 (.inl hb), rfl, hbc, hba, hbs⟩
  | @moved g a a₁ to_ now attempts ev log extra ha hn hm hl he hx =>
    have hkey : a.id = (a₁.stamp to_ now ev.id).id := hm.id_eq.symm
    by_cases hab : b.id = a.id
    · obtain rfl := eq_of_key hb ha hab
      have hg := next_table (P := fun f g _ => f = .cancelled → g = .requeue) hn (by decide) hbs
      subst hg
      exact absurd ⟨hbc, hba⟩ hm.of_requeue.2.2
    · exact ⟨b, (mem_put_of_mem ha hkey).2 (.inl ⟨hb, fun e => hab (e.trans hkey.symm)⟩),
        rfl, hbc, hba, hbs⟩
  | @renewed a leaseMs now ha hs hx =>
    have hkey : a.id = (renewRow leaseMs now a).id := rfl
    by_cases hab : b.id = a.id
    · obtain rfl := eq_of_key hb ha hab
      rw [hbs] at hs
      exact absurd hs (by decide)
    · exact ⟨b, (mem_put_of_mem ha hkey).2 (.inl ⟨hb, hab⟩), rfl, hbc, hba, hbs⟩

section

variable {sha256 : String → String}

theorem submitted_persists {h : List Call} (hr : (actionStore sha256).Run h s)
    {id : String} (hsub : SubmittedConsequential h id) :
    ∃ a ∈ s.actions, a.id = id ∧ a.consequential = true := by
  obtain ⟨c, hc, new, r, hop, hcons, hres, hcreated, rfl⟩ := hsub
  obtain ⟨h₁, h₂, u, v, rfl, -, hst, hrest⟩ := Machine.Steps.exists_of_mem hr hc
  obtain ⟨op, now, random, result⟩ := c
  subst hop
  obtain ⟨rest, hexec⟩ := hst
  have hv : ∃ a ∈ v.actions, a.id = r.action.id ∧ a.consequential = true := by
    rcases wrap_eq hexec with ⟨r', hr', hok⟩ | ⟨e, he, -⟩
    · simp only at hres
      rw [hres] at hr'
      cases hr'
      obtain ⟨key, -, ⟨hfalse, -⟩ | ⟨-, -, -, hkind, -, hstep⟩⟩ := submit_ok hok
      · rw [hcreated] at hfalse
        cases hfalse
      · exact ⟨r.action, hstep.mem_submitted, rfl, hkind.trans hcons⟩
    · simp only at hres
      rw [hres] at he
      cases he
  refine Machine.Steps.invariant (I := fun d : Db => ∃ a ∈ d.actions, a.id = r.action.id ∧
    a.consequential = true) hrest hv ?_
  rintro d x d' hd hst
  obtain ⟨cs, hcs, -⟩ := Call.changes_of_step hst
  refine hcs.invariant (I := fun d : Db => ∃ a ∈ d.actions, a.id = r.action.id ∧
    a.consequential = true) hd ?_
  rintro d x d' ⟨a, ha, hid, hac⟩ hst
  obtain ⟨a', ha', hid', -, hac'⟩ := hst.persists ha
  exact ⟨a', ha', hid'.trans hid, hac'.trans hac⟩

theorem approved_history {h : List Call} (hr : (actionStore sha256).Run h s) :
    ∀ a ∈ s.actions, a.approvedAtMs ≠ none → ApprovedIn h a.id := by
  refine hr.history (I := fun h s => ∀ a ∈ s.actions, a.approvedAtMs ≠ none → ApprovedIn h a.id)
    (fun a ha => absurd ha (not_mem_empty a)) ?_
  intro h s c t _ hi hst
  obtain ⟨cs, hcs, hemit⟩ := Call.changes_of_step hst
  refine hcs.invariantOn (I := fun d : Db => ∀ a ∈ d.actions, a.approvedAtMs ≠ none →
    ApprovedIn (h ++ [c]) a.id) hemit (fun a ha haa => (hi a ha haa).mono) ?_
  intro d x d' hx hd hst b hb hba
  rcases hst.approved hb hba with ⟨a, ha, hid, haa⟩ | ⟨a, rfl, hid⟩
  · exact hid ▸ hd a ha haa
  · obtain ⟨by_, hop, hok⟩ := hx.approve
    exact ⟨c, by simp, ⟨by_, hid ▸ hop⟩, hok⟩

theorem dead_of_refused {c : Call} {id : String} (hst : (actionStore sha256).step s c t)
    (hop : (∃ by_, c.op = .reject id by_) ∨ c.op = .cancel id) (hok : c.Succeeded)
    (ha : ∃ a ∈ s.actions, a.id = id ∧ a.consequential = true ∧ a.approvedAtMs = none) :
    Dead id t := by
  have hmove : ∃ g a a', (g = .reject ∨ g = .cancel) ∧ a ∈ s.actions ∧ a.id = id ∧
      DbStep s (.moved g a a') t := by
    obtain ⟨op, now, random, result⟩ := c
    obtain ⟨r, hres⟩ := hok
    obtain ⟨rest, hexec⟩ := hst
    simp only at hres hop
    subst hres
    rcases hop with ⟨by_, rfl⟩ | rfl
    · rcases wrap_eq hexec with ⟨r', -, hok⟩ | ⟨e, he, -⟩
      · obtain ⟨a, ha, haid, hstep⟩ := reject_ok hok
        exact ⟨.reject, a, r', .inl rfl, ha, haid, hstep⟩
      · cases he
    · rcases wrap_eq hexec with ⟨r', -, hok⟩ | ⟨e, he, -⟩
      · obtain ⟨a, ha, haid, hstep⟩ := cancel_ok hok
        exact ⟨.cancel, a, r', .inr rfl, ha, haid, hstep⟩
      · cases he
  obtain ⟨g, a, a', hg, ha', hid, hstep⟩ := hmove
  obtain ⟨b, hb, hbid, hbc, hba⟩ := ha
  obtain rfl := eq_of_key ha' hb (hid.trans hbid.symm)
  generalize hch : Change.moved g a a' = ch at hstep
  cases hstep with
  | @moved g' a₀ a₁ to_ now attempts ev log extra ha hn hm hl he hx =>
    cases hch
    have hkey : a.id = (a₁.stamp to_ now ev.id).id := hm.id_eq.symm
    refine ⟨_, (mem_put_of_mem ha hkey).2 (.inr rfl), hkey.symm.trans hid,
      hm.consequential.trans hbc, ?_, ?_⟩
    · exact (hm.approvedAtMs (by rcases hg with rfl | rfl <;> simp)).trans hba
    · exact next_table (P := fun _ g t => g = .reject ∨ g = .cancel → t = .cancelled) hn
        (by decide) hg
  | _ => cases hch

/-- **The approval gate.**  Whenever an action submitted as consequential is leased or
executing, an approval of it happened earlier; and one that was rejected or cancelled before any
approval is never leased or executing again, whatever calls follow. -/
theorem approval_gate {h : List Call} {s : Db} (hr : (actionStore sha256).Run h s) :
    (∀ a ∈ s.actions, SubmittedConsequential h a.id → a.status.Held → ApprovedIn h a.id) ∧
    ∀ h₁ c h₂ id, h = h₁ ++ c :: h₂ → SubmittedConsequential h₁ id → ¬ApprovedIn h₁ id →
      ((∃ by_, c.op = .reject id by_) ∨ c.op = .cancel id) → c.Succeeded →
      ∀ a ∈ s.actions, a.id = id → ¬a.status.Held := by
  constructor
  · intro a ha hsub hheld
    refine approved_history hr a ha fun hnone => ?_
    obtain ⟨b, hb, hid, hbc⟩ := submitted_persists hr hsub
    obtain rfl := eq_of_key hb ha hid
    obtain ⟨cs, hcs⟩ := reachable_changes hr
    rcases Gated.empty.steps hcs b ha hbc hnone with hst | hst <;> rw [hst] at hheld <;>
      exact absurd hheld (by decide)
  · rintro h₁ c h₂ id rfl hsub hnot hop hok a ha rfl
    obtain ⟨u, hru, hrest⟩ := Machine.Steps.split hr
    obtain ⟨v, hst, hrest⟩ := hrest.uncons
    obtain ⟨b, hb, hid, hbc⟩ := submitted_persists hru hsub
    have hba : b.approvedAtMs = none := by
      by_contra hne
      exact hnot (hid ▸ approved_history hru b hb hne)
    have hdead : Dead a.id s := by
      refine hrest.invariant (dead_of_refused hst hop hok ⟨b, hb, hid, hbc, hba⟩) ?_
      intro d x d' hd hst
      obtain ⟨cs, hcs, -⟩ := Call.changes_of_step hst
      exact hcs.invariant hd fun _ _ _ hd hs => hd.step hs
    obtain ⟨a', ha', hid', -, -, hst'⟩ := hdead
    obtain rfl := eq_of_key ha' ha hid'
    rw [hst']
    decide

end

/-- A consequential action is submitted, approved and leased. -/
def approvedMail : List (Op × Int × List Word) :=
  [(.submit { tool := "mail", arguments := .null, actionId := some "a", consequential := true },
      0, words [1]),
    (.lease none "w" 10, 1, []), (.approve "a" "owner", 2, words [2]), (.lease none "w" 10, 3, words [3])]

theorem approval_gate_approvedMail :
    (∃ a ∈ (script nullDigest Db.empty approvedMail).2.actions, a.status = .leased) ∧
      ∀ a ∈ (script nullDigest Db.empty approvedMail).2.actions,
        SubmittedConsequential (script nullDigest Db.empty approvedMail).1 a.id → a.status.Held →
          ApprovedIn (script nullDigest Db.empty approvedMail).1 a.id := by
  refine ⟨?_, (approval_gate (steps_script nullDigest Db.empty approvedMail)).1⟩
  have hleased : ∃ a ∈ (script nullDigest Db.empty approvedMail).2.actions.rows,
      a.status = .leased := by
    decide +kernel
  exact hleased

end U2os.Majordomo
