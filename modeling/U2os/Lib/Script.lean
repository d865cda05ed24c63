import U2os.Lib.Run

/-!
# Scripts that may be stopped

A script is a program over durable state: a sequence of atomic steps, each of which may depend on
what was there before it, that returns or refuses.  The process that performs it may stop before or
after every step, and then only the state is left.

## Main results

* `Script.wp_iff` : what the condition says of stops and of the end.
-/

namespace U2os

/-- A program of atomic steps over the state `σ`: `act f k` performs `f`, and goes on with what it
found before. -/
inductive Script (σ α : Type) where
  | ret (a : α)
  | refuse
  | act (f : σ → σ) (k : σ → Script σ α)

namespace Script

variable {σ α β : Type}

/-- One script after another. -/
def bind : Script σ α → (α → Script σ β) → Script σ β
  | ret a, k => k a
  | refuse, _ => refuse
  | act f g, k => act f fun s => (g s).bind k

instance : Monad (Script σ) where
  pure := ret
  bind := bind

/-- What is there. -/
def get : Script σ σ := act (fun s => s) ret

/-- One atomic step. -/
def modify (f : σ → σ) : Script σ Unit := act f fun _ => ret ()

/-- Go on only if `p` holds. -/
def ensure (p : Prop) [Decidable p] : Script σ Unit := if p then ret () else refuse

/-- The script, only if `p` holds. -/
def when (p : Prop) [Decidable p] (q : Script σ Unit) : Script σ Unit := if p then q else ret ()

/-- The value of an option; refuse where there is none. -/
def ofOption : Option α → Script σ α
  | some a => ret a
  | none => refuse

/-- The script, with its refusal as a value. -/
def attempt : Script σ α → Script σ (Option α)
  | ret a => ret (some a)
  | refuse => ret none
  | act f k => act f fun s => (k s).attempt

/-- `try { p } finally { q }`. -/
def cleanup (p : Script σ α) (q : Script σ Unit) : Script σ α := do
  let r ← p.attempt
  q
  ofOption r

/-- A loop over a list. -/
def forEach (l : List β) (p : β → Script σ Unit) : Script σ Unit :=
  match l with
  | [] => pure ()
  | b :: l => do
    p b
    forEach l p

/-- The script is not stopped. -/
def run : Script σ α → σ → Option α × σ
  | ret a, s => (some a, s)
  | refuse, s => (none, s)
  | act f k, s => (k s).run (f s)

/-- The script is stopped somewhere, and leaves `t`. -/
def Stops : Script σ α → σ → σ → Prop
  | ret _, s, t => t = s
  | refuse, s, t => t = s
  | act f k, s, t => t = s ∨ (k s).Stops (f s) t

/-- The script is stopped after so many steps. -/
def stopAfter : ℕ → Script σ α → σ → σ
  | n + 1, act f k, s => (k s).stopAfter n (f s)
  | _, _, s => s

theorem stops_stopAfter (n : ℕ) (p : Script σ α) (s : σ) : p.Stops s (p.stopAfter n s) := by
  induction p generalizing n s with
  | ret a | refuse => cases n <;> rfl
  | act f k ih =>
    cases n with
    | zero => exact .inl rfl
    | succ n => exact .inr (ih s n (f s))

theorem stops_run (p : Script σ α) (s : σ) : p.Stops s (p.run s).2 := by
  induction p generalizing s with
  | ret a | refuse => rfl
  | act f k ih => exact .inr (ih s (f s))

/-- Every state on the way satisfies `C`, and the end `Q`. -/
def wp (C : σ → Prop) (Q : Option α → σ → Prop) : Script σ α → σ → Prop
  | ret a, s => C s ∧ Q (some a) s
  | refuse, s => C s ∧ Q none s
  | act f k, s => C s ∧ wp C Q (k s) (f s)

section Rules

variable {C : σ → Prop} {Q : Option α → σ → Prop} {R : Option β → σ → Prop} {s : σ}

/-- A script meets a condition if it holds wherever the script may stop, and at its end. -/
theorem wp_iff {p : Script σ α} :
    p.wp C Q s ↔ (∀ t, p.Stops s t → C t) ∧ Q (p.run s).1 (p.run s).2 := by
  induction p generalizing s with
  | ret a | refuse => simp [wp, Stops, run]
  | act f k ih =>
    simp only [wp, Stops, run, ih]
    constructor
    · rintro ⟨hs, hk, hq⟩
      refine ⟨fun t ht => ?_, hq⟩
      rcases ht with rfl | ht
      · exact hs
      · exact hk t ht
    · rintro ⟨h, hq⟩
      exact ⟨h s (.inl rfl), fun t ht => h t (.inr ht), hq⟩

theorem wp_mono {C' : σ → Prop} {Q' : Option α → σ → Prop} {p : Script σ α} (h : p.wp C Q s)
    (hC : ∀ t, C t → C' t) (hQ : ∀ r t, Q r t → Q' r t) : p.wp C' Q' s := by
  rw [wp_iff] at h ⊢
  exact ⟨fun t ht => hC t (h.1 t ht), hQ _ _ h.2⟩

theorem wp.start {p : Script σ α} (h : p.wp C Q s) : C s := by
  cases p with
  | ret a | refuse | act f k => exact h.1

@[simp] theorem wp_modify {R : Option Unit → σ → Prop} {f : σ → σ} :
    (modify f : Script σ Unit).wp C R s ↔ C s ∧ C (f s) ∧ R (some ()) (f s) := Iff.rfl

theorem wp_ensure {R : Option Unit → σ → Prop} {p : Prop} [Decidable p] :
    (ensure p : Script σ Unit).wp C R s ↔ C s ∧ (p → R (some ()) s) ∧ (¬p → R none s) := by
  unfold ensure
  split_ifs with h
  · simp [wp, h]
  · simp [wp, h]

theorem wp_when {R : Option Unit → σ → Prop} {p : Prop} [Decidable p] {q : Script σ Unit}
    (h : p → q.wp C R s) (hnot : ¬p → C s ∧ R (some ()) s) : (when p q).wp C R s := by
  unfold when
  split_ifs with hp
  · exact h hp
  · exact hnot hp

theorem wp_ofOption {a : Option α} : (ofOption a : Script σ α).wp C Q s ↔ C s ∧ Q a s := by
  cases a <;> rfl

/-- The condition of a sequence is that of its first part, with that of the rest behind it. -/
theorem wp_bind {p : Script σ α} {k : α → Script σ β} :
    (p >>= k).wp C R s ↔
      p.wp C (fun r t => match r with
        | some a => (k a).wp C R t
        | none => R none t) s := by
  change (p.bind k).wp C R s ↔ _
  induction p generalizing s with
  | ret a => exact ⟨fun h => ⟨h.start, h⟩, fun h => h.2⟩
  | refuse => exact Iff.rfl
  | act f g ih => exact and_congr_right fun _ => ih s

theorem wp_map {p : Script σ α} {f : α → β} (h : p.wp C (fun r t => R (r.map f) t) s) :
    (p >>= fun a => pure (f a)).wp C R s := by
  rw [wp_bind]
  obtain ⟨hC, hR⟩ := wp_iff.1 h
  refine wp_iff.2 ⟨hC, ?_⟩
  cases hr : (p.run s).1 with
  | none => rwa [hr] at hR
  | some a =>
    rw [hr] at hR
    exact ⟨hC _ (stops_run p s), hR⟩

theorem wp_get_bind {k : σ → Script σ β} (h : (k s).wp C R s) :
    (get >>= k : Script σ β).wp C R s :=
  ⟨h.start, h⟩

theorem wp_ofOption_bind {a : Option α} {k : α → Script σ β} (hnone : a = none → C s ∧ R none s)
    (h : ∀ x, a = some x → (k x).wp C R s) : (ofOption a >>= k).wp C R s := by
  cases a with
  | none => exact hnone rfl
  | some x => exact h x rfl

theorem wp_ensure_bind {p : Prop} [Decidable p] {k : Unit → Script σ β}
    (hnot : ¬p → C s ∧ R none s) (h : p → (k ()).wp C R s) : (ensure p >>= k).wp C R s := by
  unfold ensure
  split_ifs with hp
  · exact h hp
  · exact hnot hp

theorem wp_attempt {p : Script σ α} {R : Option (Option α) → σ → Prop} :
    p.attempt.wp C R s ↔ p.wp C (fun r t => R (some r) t) s := by
  induction p generalizing s with
  | ret a | refuse => exact Iff.rfl
  | act f g ih => exact and_congr_right fun _ => ih s

theorem wp_cleanup {p : Script σ α} {q : Script σ Unit}
    (h : p.wp C (fun r t => q.wp C (fun r' u => r' = some () ∧ Q r u) t) s) :
    (p.cleanup q).wp C Q s := by
  unfold cleanup
  rw [wp_bind, wp_attempt]
  refine wp_mono h (fun _ h => h) fun r t ht => ?_
  change (q >>= fun _ => ofOption r).wp C Q t
  rw [wp_bind]
  rw [wp_iff] at ht ⊢
  obtain ⟨hC, hret, hQ⟩ := ht
  refine ⟨hC, ?_⟩
  rw [hret]
  exact wp_ofOption.2 ⟨hC _ (stops_run q t), hQ⟩

theorem wp_forEach {l : List β} {p : β → Script σ Unit} {I : List β → σ → Prop}
    {R : Option Unit → σ → Prop} (h₀ : I l s) (hC : ∀ l t, I l t → C t)
    (hstep : ∀ b l t, I (b :: l) t → (p b).wp C
      (fun r u => match r with
        | some () => I l u
        | none => R none u) t)
    (hend : ∀ t, I [] t → R (some ()) t) : (forEach l p).wp C R s := by
  induction l generalizing s with
  | nil => exact ⟨hC _ _ h₀, hend s h₀⟩
  | cons b l ih =>
    unfold forEach
    rw [wp_bind]
    refine wp_mono (hstep b l s h₀) (fun _ h => h) fun r t ht => ?_
    cases r with
    | none => exact ht
    | some u => exact ih ht

end Rules

/-- How a call ended. -/
inductive Outcome (α : Type) where
  /-- The process stopped. -/
  | stopped
  /-- The script returned, or refused. -/
  | ended (r : Option α)

/-- Calls, one after another. -/
def machine {ℓ : Type} (init : σ) (call : ℓ → Script σ α) : Machine σ (ℓ × Outcome α) where
  init := init
  step s l t :=
    match l.2 with
    | .stopped => (call l.1).Stops s t
    | .ended r => (call l.1).run s = (r, t)

section Calls

variable {ℓ : Type} {init : σ} {call : ℓ → Script σ α} {C : σ → Prop}

theorem step_machine {R : ℓ → Option α → Prop} {l : ℓ × Outcome α} {s t : σ}
    (h : (call l.1).wp C (fun r _ => R l.1 r) s) (hst : (machine init call).step s l t) :
    C t ∧ ∀ r, l.2 = .ended r → R l.1 r := by
  obtain ⟨c, o⟩ := l
  obtain ⟨hC, hR⟩ := wp_iff.1 h
  cases o with
  | stopped => exact ⟨hC t hst, nofun⟩
  | ended r =>
    have hrun : (call c).run s = (r, t) := hst
    have hstop := hC _ (stops_run _ s)
    rw [hrun] at hstop hR
    refine ⟨hstop, fun r' hr' => ?_⟩
    obtain rfl := Outcome.ended.inj hr'
    exact hR

/-- What every state of every script keeps holds of every run, and what every end satisfies holds of
the calls that ended. -/
theorem run_machine {R : ℓ → Option α → Prop} (h₀ : C init)
    (h : ∀ c s, C s → (call c).wp C (fun r _ => R c r) s) {ls : List (ℓ × Outcome α)} {s : σ}
    (hs : (machine init call).Run ls s) : C s ∧ ∀ c r, (c, .ended r) ∈ ls → R c r := by
  refine hs.history (I := fun ls s => C s ∧ ∀ c r, (c, .ended r) ∈ ls → R c r)
    ⟨h₀, fun _ _ => nofun⟩ fun ls s l t _ hI hst => ?_
  obtain ⟨hC, hR⟩ := step_machine (h l.1 s hI.1) hst
  refine ⟨hC, fun c r hmem => ?_⟩
  rcases List.mem_append.1 hmem with hmem | hmem
  · exact hI.2 c r hmem
  · obtain rfl := List.mem_singleton.1 hmem
    exact hR r rfl

end Calls

end Script

end U2os
