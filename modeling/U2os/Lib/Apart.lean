import Mathlib.Data.List.Nodup
import Mathlib.Data.Set.Basic
import U2os.Lib.Script

/-!
# Loops over scripts that do not meet

The state has parts.  A script that reads and writes some of them only leaves the others as they
are, and ends by what these are.  In a loop over scripts with different parts each one ends as it
would on its own, if the loop comes to it: a script that refuses ends the loop, and the ones after
it are missed.

## Main results

* `Script.Within.bind`, `.cleanup`, `.forEach`, … : its rules.
-/

namespace U2os.Script

open List

variable {σ ι τ α β γ : Type} {view : ι → σ → γ} {I J : Set ι} {s t u : σ}

/-- The states agree on some parts. -/
def Agree (view : ι → σ → γ) (I : Set ι) (s t : σ) : Prop := ∀ i ∈ I, view i s = view i t

namespace Agree

theorem refl (s : σ) : Agree view I s s := fun _ _ => rfl

theorem symm (h : Agree view I s t) : Agree view I t s := fun i hi => (h i hi).symm

theorem trans (h : Agree view I s t) (h' : Agree view I t u) : Agree view I s u :=
  fun i hi => (h i hi).trans (h' i hi)

theorem mono (h : Agree view J s t) (hI : I ⊆ J) : Agree view I s t := fun i hi => h i (hI hi)

end Agree

/-- The script reads and writes some parts of the state only. -/
def Within (view : ι → σ → γ) (I : Set ι) : Script σ α → Prop
  | ret _ => True
  | refuse => True
  | act f k => (∀ s t, Agree view I s t → Agree view I (f s) (f t) ∧ k s = k t) ∧
      (∀ s, Agree view Iᶜ (f s) s) ∧ ∀ s, Within view I (k s)

namespace Within

theorem modify {f : σ → σ} (hown : ∀ s t, Agree view I s t → Agree view I (f s) (f t))
    (hframe : ∀ s, Agree view Iᶜ (f s) s) : (modify f).Within view I :=
  ⟨fun s t h => ⟨hown s t h, rfl⟩, hframe, fun _ => trivial⟩

theorem get_bind {k : σ → Script σ α} (hown : ∀ s t, Agree view I s t → k s = k t)
    (hk : ∀ s, (k s).Within view I) : (get >>= k).Within view I :=
  ⟨fun s t h => ⟨h, hown s t h⟩, fun s => .refl s, hk⟩

/-- One after the other stays within what each keeps to. -/
theorem bind {p : Script σ α} {k : α → Script σ β} (hp : p.Within view I)
    (hk : ∀ a, (k a).Within view I) : (p >>= k).Within view I := by
  change (p.bind k).Within view I
  induction p with
  | ret a => exact hk a
  | refuse => exact trivial
  | act f g ih =>
    obtain ⟨hown, hframe, hrest⟩ := hp
    exact ⟨fun s t h => ⟨(hown s t h).1, congrArg (fun q => q.bind k) (hown s t h).2⟩, hframe,
      fun s => ih s (hrest s)⟩

theorem attempt {p : Script σ α} (hp : p.Within view I) : p.attempt.Within view I := by
  induction p with
  | ret a | refuse => exact trivial
  | act f g ih =>
    obtain ⟨hown, hframe, hrest⟩ := hp
    exact ⟨fun s t h => ⟨(hown s t h).1, congrArg Script.attempt (hown s t h).2⟩, hframe,
      fun s => ih s (hrest s)⟩

theorem ofOption {a : Option α} : (ofOption a : Script σ α).Within view I := by
  cases a <;> exact trivial

theorem cleanup {p : Script σ α} {q : Script σ Unit} (hp : p.Within view I)
    (hq : q.Within view I) : (p.cleanup q).Within view I :=
  hp.attempt.bind fun _ => hq.bind fun _ => ofOption

theorem forEach {l : List β} {p : β → Script σ Unit} (hp : ∀ b ∈ l, (p b).Within view I) :
    (forEach l p).Within view I := by
  induction l with
  | nil => exact trivial
  | cons b l ih =>
    exact (hp b mem_cons_self).bind fun _ => ih fun c hc => hp c (mem_cons_of_mem _ hc)

/-- What a script may touch can be enlarged. -/
theorem mono {p : Script σ α} (hp : p.Within view I) (hI : I ⊆ J) : p.Within view J := by
  induction p with
  | ret a | refuse => exact trivial
  | act f g ih =>
    obtain ⟨hown, hframe, hrest⟩ := hp
    refine ⟨fun s t h => ⟨fun j hj => ?_, (hown s t (h.mono hI)).2⟩,
      fun s => (hframe s).mono fun j hj hi => hj (hI hi), fun s => ih s (hrest s)⟩
    by_cases hmem : j ∈ I
    · exact (hown s t (h.mono hI)).1 j hmem
    · rw [hframe s j hmem, hframe t j hmem]
      exact h j hj

theorem frame {p : Script σ α} (hp : p.Within view I) : Agree view Iᶜ (p.run s).2 s := by
  induction p generalizing s with
  | ret a | refuse => exact .refl s
  | act f g ih => exact (ih s (hp.2.2 s)).trans (hp.2.1 s)

/-- Two runs that agree on what the script may touch agree on its result, and still agree after it.
-/
theorem own {p : Script σ α} (hp : p.Within view I) (h : Agree view I s t) :
    (p.run s).1 = (p.run t).1 ∧ Agree view I (p.run s).2 (p.run t).2 := by
  induction p generalizing s t with
  | ret a | refuse => exact ⟨rfl, h⟩
  | act f g ih =>
    obtain ⟨hown, -, hrest⟩ := hp
    obtain ⟨hnext, hsame⟩ := hown s t h
    have hrun := ih s (hrest s) hnext
    rw [hsame] at hrun
    rw [run, run, hsame]
    exact hrun

end Within

theorem run_bind (p : Script σ α) (k : α → Script σ β) (s : σ) : (p >>= k).run s =
    match p.run s with
    | (some a, t) => (k a).run t
    | (none, t) => (none, t) := by
  change (p.bind k).run s = _
  induction p generalizing s with
  | ret a | refuse => rfl
  | act f g ih => exact ih s (f s)

/-- On its own, the script of the task refuses. -/
def Fails (p : τ → Script σ Unit) (s : σ) (b : τ) : Prop := ((p b).run s).1 = none

instance (p : τ → Script σ Unit) (s : σ) (b : τ) : Decidable (Fails p s b) :=
  inferInstanceAs (Decidable (_ = none))

section

variable {p q : τ → Script σ Unit} {l l₁ l₂ : List τ} {b c : τ}

theorem forEach_append : (forEach (l₁ ++ l₂) p) = forEach l₁ p >>= fun _ => forEach l₂ p := by
  have hassoc : ∀ (x : Script σ Unit) (f g : Unit → Script σ Unit),
      x.bind (fun a => (f a).bind g) = (x.bind f).bind g := fun x f g => by
    induction x with
    | ret a | refuse => rfl
    | act h k ih => exact congrArg (act h) (funext ih)
  induction l₁ with
  | nil => rfl
  | cons b l₁ ih =>
    change (p b).bind (fun _ => forEach (l₁ ++ l₂) p) = ((p b).bind fun _ => forEach l₁ p).bind _
    rw [ih]
    exact hassoc _ _ _

theorem forEach_map {f : β → τ} {l : List β} :
    forEach (l.map f) p = forEach l fun b => p (f b) := by
  induction l with
  | nil => rfl
  | cons b l ih => rw [map_cons, forEach, forEach, ih]

theorem forEach_congr (h : ∀ b ∈ l, p b = q b) : forEach l p = forEach l q := by
  induction l with
  | nil => rfl
  | cons b l ih =>
    rw [forEach, forEach, h b mem_cons_self, ih fun c hc => h c (mem_cons_of_mem _ hc)]

theorem run_forEach_cons (h : ¬Fails p s b) :
    (forEach (b :: l) p).run s = (forEach l p).run ((p b).run s).2 := by
  rw [forEach, run_bind]
  unfold Fails at h
  cases hr : (p b).run s with
  | mk r u =>
    cases r with
    | none => exact absurd (congrArg Prod.fst hr) h
    | some a => rfl

theorem run_forEach_cons_of_fails (h : Fails p s b) :
    (forEach (b :: l) p).run s = (none, ((p b).run s).2) := by
  rw [forEach, run_bind]
  unfold Fails at h
  cases hr : (p b).run s with
  | mk r u =>
    rw [hr] at h
    subst h
    rfl

variable {foot : τ → Set ι} (hp : ∀ b, (p b).Within view (foot b))
  (hfoot : ∀ b c, b ≠ c → foot b ⊆ (foot c)ᶜ)

include hp

theorem fails_congr (h : Agree view (foot b) s t) : Fails p s b ↔ Fails p t b := by
  unfold Fails
  rw [((hp b).own h).1]

theorem forEach_frame (h : ∀ b ∈ l, I ⊆ (foot b)ᶜ) : Agree view I ((forEach l p).run s).2 s := by
  induction l generalizing s with
  | nil => exact .refl s
  | cons b l ih =>
    have hb : Agree view I ((p b).run s).2 s := (hp b).frame.mono (h b mem_cons_self)
    by_cases hfails : Fails p s b
    · rw [run_forEach_cons_of_fails hfails]
      exact hb
    · rw [run_forEach_cons hfails]
      exact (ih fun c hc => h c (mem_cons_of_mem _ hc)).trans hb

include hfoot

theorem fails_run_iff (h : b ≠ c) : Fails p ((p c).run s).2 b ↔ Fails p s b :=
  fails_congr hp ((hp c).frame.mono (hfoot b c h))

theorem forEach_reached (hnd : (l₁ ++ b :: l₂).Nodup) (h : ∀ c ∈ l₁, ¬Fails p s c) :
    Agree view (foot b) ((forEach (l₁ ++ b :: l₂) p).run s).2 ((p b).run s).2 := by
  induction l₁ generalizing s with
  | nil =>
    have hb : b ∉ l₂ := (nodup_cons.1 hnd).1
    by_cases hfails : Fails p s b
    · rw [nil_append, run_forEach_cons_of_fails hfails]
      exact .refl _
    · rw [nil_append, run_forEach_cons hfails]
      exact forEach_frame hp fun c hc => hfoot b c fun he => hb (he ▸ hc)
  | cons c l₁ ih =>
    rw [cons_append, nodup_cons] at hnd
    have hbc : b ≠ c := fun he => hnd.1 (he ▸ mem_append_right _ mem_cons_self)
    rw [cons_append, run_forEach_cons (h c mem_cons_self)]
    refine (ih hnd.2 fun d hd => ?_).trans ((hp b).own ((hp c).frame.mono (hfoot b c hbc))).2
    have hdc : d ≠ c := fun he => hnd.1 (he ▸ mem_append_left _ hd)
    rw [fails_run_iff hp hfoot hdc]
    exact h d (mem_cons_of_mem _ hd)

theorem forEach_missed (hnd : (l₁ ++ b :: l₂).Nodup) (h : ∃ c ∈ l₁, Fails p s c) :
    Agree view (foot b) ((forEach (l₁ ++ b :: l₂) p).run s).2 s := by
  induction l₁ generalizing s with
  | nil =>
    obtain ⟨c, hc, -⟩ := h
    cases hc
  | cons c l₁ ih =>
    rw [cons_append, nodup_cons] at hnd
    have hbc : b ≠ c := fun he => hnd.1 (he ▸ mem_append_right _ mem_cons_self)
    have hframe : Agree view (foot b) ((p c).run s).2 s := (hp c).frame.mono (hfoot b c hbc)
    by_cases hfails : Fails p s c
    · rw [cons_append, run_forEach_cons_of_fails hfails]
      exact hframe
    · rw [cons_append, run_forEach_cons hfails]
      refine (ih hnd.2 ?_).trans hframe
      obtain ⟨d, hd, hdf⟩ := h
      rcases mem_cons.1 hd with rfl | hd
      · exact absurd hdf hfails
      · have hdc : d ≠ c := fun he => hnd.1 (he ▸ mem_append_left _ hd)
        exact ⟨d, hd, (fails_run_iff hp hfoot hdc).2 hdf⟩

theorem forEach_of_succeed (hnd : l.Nodup) (h : ∀ c ∈ l, ¬Fails p s c) (hb : b ∈ l) :
    Agree view (foot b) ((forEach l p).run s).2 ((p b).run s).2 := by
  obtain ⟨l₁, l₂, rfl⟩ := append_of_mem hb
  exact forEach_reached hp hfoot hnd fun c hc => h c (mem_append_left _ hc)

/-- **No task is missed where no failing one stands before one that succeeds and changes
something.** -/
theorem forEach_isolated_iff (hnd : l.Nodup) :
    (∀ b ∈ l, ¬Fails p s b → Agree view (foot b) ((forEach l p).run s).2 ((p b).run s).2) ↔
      l.Pairwise fun c b => Fails p s c →
        Fails p s b ∨ Agree view (foot b) ((p b).run s).2 s := by
  rw [pairwise_iff_forall_sublist]
  constructor
  · intro h c b hsub hc
    by_contra hno
    obtain ⟨hb, hchanges⟩ := not_or.1 hno
    obtain ⟨l₁, l', rfl, hmem, hrest⟩ := cons_sublist_iff.1 hsub
    obtain ⟨m₁, m₂, rfl⟩ := append_of_mem (singleton_sublist.1 hrest)
    have hend := h b (mem_append_right _ (mem_append_right _ mem_cons_self)) hb
    rw [← append_assoc] at hend hnd
    have hmissed := forEach_missed hp hfoot hnd ⟨c, mem_append_left _ hmem, hc⟩
    exact hchanges (hend.symm.trans hmissed)
  · intro h b hb hsucceeds
    obtain ⟨l₁, l₂, rfl⟩ := append_of_mem hb
    by_cases hall : ∀ c ∈ l₁, ¬Fails p s c
    · exact forEach_reached hp hfoot hnd hall
    · push Not at hall
      obtain ⟨c, hc, hfails⟩ := hall
      have hsub : [c, b].Sublist (l₁ ++ b :: l₂) :=
        (singleton_sublist.2 hc).append (singleton_sublist.2 mem_cons_self)
      rcases h hsub hfails with hb' | hsame
      · exact absurd hb' hsucceeds
      · exact (forEach_missed hp hfoot hnd ⟨c, hc, hfails⟩).trans hsame.symm

end

end U2os.Script
