import Mathlib.Order.MinMax
import U2os.Lib.Run

/-!
# Calls of `drain`

`AutomationRuntime.drain` (`packages/automation-runtime.js`) is to run one pass at a time, and to
return only when a pass that began after the call is over.  A call runs without interruption from
one `await` to the next; what a pass does is not looked at, but for this: `this._drainPass()` runs
up to its own first `await` before `this._draining` is assigned, and in that time it may publish an
event whose handler calls `drain` again.

The runtime is not stopped, and passes do not reject.
-/

namespace U2os.Server.Packages

open List Option

/-- Where a call of `drain` is. -/
inductive CallPc where
  /-- In `this._drainPass()`, before `this._draining` is assigned. -/
  | starting (pass covers : ℕ)
  /-- Awaits the pass it has begun. -/
  | passing (pass covers : ℕ)
  /-- Awaits the pass it has found. -/
  | awaiting (pass : ℕ)
  | done
deriving DecidableEq

/-- A call of `drain`. -/
structure DrainCall where
  /-- `requested`. -/
  requested : ℕ
  /-- The number of passes that had begun when the call was made. -/
  madeAt : ℕ
  pc : CallPc
deriving DecidableEq

/-- The fields of the runtime that `drain` uses, the passes and the calls. -/
structure Drains where
  /-- `_drainRequested`. -/
  requested : ℕ := 0
  /-- `_drainCompleted`. -/
  completed : ℕ := 0
  /-- `_draining`: the promise of a pass. -/
  draining : Option ℕ := none
  /-- The passes in the order in which they began: whether they are over. -/
  passes : List Bool := []
  /-- The calls in the order in which they were made. -/
  calls : List DrainCall := []
  /-- The calls that run now and begin a pass, the innermost first. -/
  stack : List ℕ := []
deriving DecidableEq

/-- What can happen. -/
inductive DrainLabel where
  /-- `drain()` is called; from the pass that begins, where one does. -/
  | drain
  /-- The pass that begins reaches its first `await`, or its end. -/
  | began
  /-- A pass is over. -/
  | finish (pass : ℕ)
  /-- A call goes on after its `await`. -/
  | resume (call : ℕ)
deriving DecidableEq

namespace Drains

/-- `while (this._drainCompleted < requested)`, up to the next `await`. -/
def loop (s : Drains) (i : ℕ) (c : DrainCall) : Drains :=
  if s.completed < c.requested then
    match s.draining with
    | some p => { s with calls := s.calls.set i { c with pc := .awaiting p } }
    | none =>
      { s with
        passes := s.passes ++ [false]
        calls := s.calls.set i { c with pc := .starting s.passes.length s.requested }
        stack := i :: s.stack }
  else { s with calls := s.calls.set i { c with pc := .done } }

/-- A new call, before its loop. -/
def newCall (s : Drains) : DrainCall := ⟨s.requested + 1, s.passes.length, .done⟩

/-- `++this._drainRequested`. -/
def request (s : Drains) : Drains :=
  { s with requested := s.requested + 1, calls := s.calls ++ [s.newCall] }

/-- `finally`: the pass is credited with what had been requested before it began. -/
def credit (s : Drains) (covers : ℕ) : Drains :=
  { s with draining := none, completed := max s.completed covers }

/-- Nothing else runs while a pass begins. -/
def mayFinish (s : Drains) (pass : ℕ) : Bool :=
  match s.stack with
  | [] => true
  | i :: _ =>
    match (s.calls[i]?).map DrainCall.pc with
    | some (.starting p _) => p = pass
    | _ => false

end Drains

/-- A step of the machine. -/
def performDrain (s : Drains) : DrainLabel → Option Drains
  | .drain => some (s.request.loop s.calls.length s.newCall)
  | .began =>
    match s.stack with
    | [] => none
    | i :: rest =>
      match s.calls[i]? with
      | some ⟨requested, madeAt, .starting p covers⟩ =>
        some { s with
          draining := some p
          calls := s.calls.set i ⟨requested, madeAt, .passing p covers⟩
          stack := rest }
      | _ => none
  | .finish pass =>
    if s.passes[pass]? = some false ∧ s.mayFinish pass = true then
      some { s with passes := s.passes.set pass true }
    else none
  | .resume i =>
    if s.stack = [] then
      match s.calls[i]? with
      | some ⟨requested, madeAt, .passing p covers⟩ =>
        if s.passes[p]? = some true then
          some ((s.credit covers).loop i ⟨requested, madeAt, .passing p covers⟩)
        else none
      | some ⟨requested, madeAt, .awaiting p⟩ =>
        if s.passes[p]? = some true then some (s.loop i ⟨requested, madeAt, .awaiting p⟩) else none
      | _ => none
    else none

/-- The calls of `drain` of one runtime. -/
def drainMachine : Machine Drains DrainLabel := .ofPerform {} performDrain

/-- At most one pass is in progress. -/
def Drains.SingleFlight (s : Drains) : Prop :=
  ∀ p q : ℕ, s.passes[p]? = some false → s.passes[q]? = some false → p = q

/-- A call that has returned was made before a pass that is over began. -/
def Drains.Covered (s : Drains) : Prop :=
  ∀ c ∈ s.calls, c.pc = .done → ∃ p, c.madeAt ≤ p ∧ s.passes[p]? = some true

/-- The condition on a step: `drain` is not called while a pass begins, before `this._draining` is
assigned. -/
def NotNested (s : Drains) (l : DrainLabel) : Prop := l = .drain → s.stack = []

instance (s : Drains) (l : DrainLabel) : Decidable (NotNested s l) :=
  inferInstanceAs (Decidable (_ → _))

/-- The pass a call has begun and not taken leave of, and what it is to be credited with. -/
def CallPc.pass? : CallPc → Option (ℕ × ℕ)
  | .starting p k | .passing p k => some (p, k)
  | .awaiting _ | .done => none

namespace Drains

variable {s t : Drains} {l : DrainLabel} {i : ℕ} {c : DrainCall}

theorem loop_cases (s : Drains) (i : ℕ) (c : DrainCall) :
    (∃ p, s.draining = some p ∧
      s.loop i c = { s with calls := s.calls.set i { c with pc := .awaiting p } }) ∨
    (s.draining = none ∧ s.loop i c =
      { s with
        passes := s.passes ++ [false]
        calls := s.calls.set i { c with pc := .starting s.passes.length s.requested }
        stack := i :: s.stack }) ∨
    (c.requested ≤ s.completed ∧
      s.loop i c = { s with calls := s.calls.set i { c with pc := .done } }) := by
  rw [loop]
  split_ifs with hlt
  · cases hd : s.draining with
    | some p => exact .inl ⟨p, rfl, rfl⟩
    | none => exact .inr (.inl ⟨rfl, rfl⟩)
  · exact .inr (.inr ⟨not_lt.1 hlt, rfl⟩)

/-! ### Credit -/

/-- What is credited was covered; `running` is a call whose loop is about to run. -/
structure Credited (s : Drains) (running : Option ℕ) : Prop where
  completed_le : s.completed ≤ s.requested
  requested_le : ∀ (j : ℕ) c, s.calls[j]? = some c → c.requested ≤ s.requested
  madeAt_le : ∀ (j : ℕ) c, s.calls[j]? = some c → c.madeAt ≤ s.passes.length
  credited : ∀ (j : ℕ) c, s.calls[j]? = some c → c.requested ≤ s.completed →
    ∃ p, c.madeAt ≤ p ∧ s.passes[p]? = some true
  /-- What had been requested before a pass was requested by calls made before it. -/
  covers : ∀ (j : ℕ) d p k, s.calls[j]? = some d → d.pc.pass? = some (p, k) →
    k ≤ s.requested ∧ p < s.passes.length ∧
      ∀ (j : ℕ) c, s.calls[j]? = some c → c.requested ≤ k → c.madeAt ≤ p
  done : ∀ (j : ℕ) c, s.calls[j]? = some c → running ≠ some j → c.pc = .done →
    c.requested ≤ s.completed

theorem call_of_set {pc : CallPc} {j : ℕ} {d : DrainCall} (hc : s.calls[i]? = some c)
    (h : (s.calls.set i { c with pc := pc })[j]? = some d) :
    ∃ d', s.calls[j]? = some d' ∧ d.requested = d'.requested ∧ d.madeAt = d'.madeAt := by
  rcases of_set_some h with ⟨rfl, rfl⟩ | ⟨_, h⟩
  · exact ⟨c, hc, rfl, rfl⟩
  · exact ⟨d, h, rfl, rfl⟩

namespace Credited

theorem weaken (h : s.Credited none) (running : Option ℕ) : s.Credited running :=
  ⟨h.completed_le, h.requested_le, h.madeAt_le, h.credited, h.covers,
    fun j c hc _ => h.done j c hc nofun⟩

theorem setPc (h : s.Credited (some i)) (hc : s.calls[i]? = some c) {pc : CallPc}
    {draining : Option ℕ} {stack : List ℕ}
    (hpc : ∀ p k, pc.pass? = some (p, k) → c.pc.pass? = some (p, k))
    (hdone : pc = .done → c.requested ≤ s.completed) :
    Credited { s with
      draining := draining
      calls := s.calls.set i { c with pc := pc }
      stack := stack } none := by
  refine ⟨h.completed_le, fun j d hd => ?_, fun j d hd => ?_, fun j d hd hle => ?_,
    fun j d p k hd hp => ?_, fun j d hd _ hpcd => ?_⟩
  · obtain ⟨d', hd', hreq, _⟩ := call_of_set hc hd
    exact hreq ▸ h.requested_le j d' hd'
  · obtain ⟨d', hd', _, hmade⟩ := call_of_set hc hd
    exact hmade ▸ h.madeAt_le j d' hd'
  · obtain ⟨d', hd', hreq, hmade⟩ := call_of_set hc hd
    rw [hmade]
    exact h.credited j d' hd' (hreq ▸ hle)
  · obtain ⟨j', d', hd', hp'⟩ : ∃ (j' : ℕ) (d' : DrainCall), s.calls[j']? = some d' ∧
        d'.pc.pass? = some (p, k) := by
      rcases of_set_some hd with ⟨rfl, rfl⟩ | ⟨_, hd⟩
      · exact ⟨j, c, hc, hpc p k hp⟩
      · exact ⟨j, d, hd, hp⟩
    obtain ⟨hk, hlt, hall⟩ := h.covers j' d' p k hd' hp'
    refine ⟨hk, hlt, fun j' e he hle => ?_⟩
    obtain ⟨e', he', hreq, hmade⟩ := call_of_set hc he
    exact hmade ▸ hall j' e' he' (hreq ▸ hle)
  · rcases of_set_some hd with ⟨rfl, rfl⟩ | ⟨hne, hd⟩
    · exact hdone hpcd
    · exact h.done j d hd (fun hj => hne (Option.some.inj hj).symm) hpcd

/-- A pass begins, and the call that began it is credited. -/
theorem begin_ (h : s.Credited (some i)) (hc : s.calls[i]? = some c) {stack : List ℕ} :
    Credited { s with
      passes := s.passes ++ [false]
      calls := s.calls.set i { c with pc := .starting s.passes.length s.requested }
      stack := stack } none := by
  have hlen : (s.passes ++ [false]).length = s.passes.length + 1 := by simp
  refine ⟨h.completed_le, fun j d hd => ?_, fun j d hd => ?_, fun j d hd hle => ?_,
    fun j d p k hd hp => ?_, fun j d hd _ hpcd => ?_⟩
  · obtain ⟨d', hd', hreq, _⟩ := call_of_set hc hd
    exact hreq ▸ h.requested_le j d' hd'
  · obtain ⟨d', hd', _, hmade⟩ := call_of_set hc hd
    have := h.madeAt_le j d' hd'
    simp only [hlen]
    omega
  · obtain ⟨d', hd', hreq, hmade⟩ := call_of_set hc hd
    obtain ⟨p, hp, htrue⟩ := h.credited j d' hd' (hreq ▸ hle)
    obtain ⟨hlt, -⟩ := List.getElem?_eq_some_iff.1 htrue
    exact ⟨p, hmade ▸ hp, by rw [getElem?_append_left hlt, htrue]⟩
  · have hmade : ∀ (j : ℕ) e, (s.calls.set i
        { c with pc := .starting s.passes.length s.requested })[j]? = some e →
        e.madeAt ≤ s.passes.length := by
      intro j e he
      obtain ⟨e', he', _, hmade⟩ := call_of_set hc he
      exact hmade ▸ h.madeAt_le j e' he'
    rcases of_set_some hd with ⟨rfl, rfl⟩ | ⟨_, hd⟩
    · obtain ⟨rfl, rfl⟩ := Prod.mk.inj (Option.some.inj hp)
      exact ⟨le_rfl, by simp, fun j e he _ => hmade j e he⟩
    · obtain ⟨hk, hp', hall⟩ := h.covers j d p k hd hp
      refine ⟨hk, by simp only [hlen]; omega, fun j' e he hle => ?_⟩
      obtain ⟨e', he', hreq, hmade'⟩ := call_of_set hc he
      exact hmade' ▸ hall j' e' he' (hreq ▸ hle)
  · rcases of_set_some hd with ⟨rfl, rfl⟩ | ⟨hne, hd⟩
    · cases hpcd
    · exact h.done j d hd (fun hj => hne (Option.some.inj hj).symm) hpcd

theorem loop (h : s.Credited (some i)) (hc : s.calls[i]? = some c) :
    (s.loop i c).Credited none := by
  obtain ⟨p, _, heq⟩ | ⟨_, heq⟩ | ⟨hle, heq⟩ := loop_cases s i c
  · rw [heq]
    exact h.setPc hc nofun nofun
  · rw [heq]
    exact h.begin_ hc
  · rw [heq]
    exact h.setPc hc nofun fun _ => hle

theorem request (h : s.Credited none) : s.request.Credited (some s.calls.length) := by
  have hle := h.completed_le
  refine ⟨by simp only [Drains.request]; omega, fun j d hd => ?_, fun j d hd => ?_,
    fun j d hd hreq => ?_, fun j d p k hd hp => ?_, fun j d hd hne hpc => ?_⟩
  all_goals rcases of_push_some hd with ⟨rfl, rfl⟩ | ⟨hj, hd⟩
  · exact le_rfl
  · exact (h.requested_le j d hd).trans (Nat.le_succ _)
  · exact le_rfl
  · exact h.madeAt_le j d hd
  · exact absurd (hreq.trans h.completed_le) (Nat.not_succ_le_self _)
  · exact h.credited j d hd hreq
  · cases hp
  · obtain ⟨hk, hp', hall⟩ := h.covers j d p k hd hp
    refine ⟨hk.trans (Nat.le_succ _), hp', fun j' e he hreq => ?_⟩
    rcases of_push_some he with ⟨rfl, rfl⟩ | ⟨_, he⟩
    · exact absurd (hreq.trans hk) (Nat.not_succ_le_self _)
    · exact hall j' e he hreq
  · exact absurd rfl hne
  · exact h.done j d hd nofun hpc

theorem credit (h : s.Credited none) {p k : ℕ} (hc : s.calls[i]? = some c)
    (hpass : c.pc.pass? = some (p, k)) (hover : s.passes[p]? = some true) :
    (s.credit k).Credited (some i) := by
  obtain ⟨hk, _, hall⟩ := h.covers i c p k hc hpass
  refine ⟨max_le h.completed_le hk, h.requested_le, h.madeAt_le, fun j d hd hle => ?_, h.covers,
    fun j d hd _ hpc => (h.done j d hd nofun hpc).trans (le_max_left _ _)⟩
  rcases le_max_iff.1 hle with hle | hle
  · exact h.credited j d hd hle
  · exact ⟨p, hall j d hd hle, hover⟩

theorem finish (h : s.Credited none) {pass : ℕ} :
    Credited { s with passes := s.passes.set pass true } none := by
  have hlen : (s.passes.set pass true).length = s.passes.length := length_set
  refine ⟨h.completed_le, h.requested_le, fun j c hc => hlen.symm ▸ h.madeAt_le j c hc,
    fun j c hc hle => ?_, fun j d p k hd hp => ?_, h.done⟩
  · obtain ⟨p, hp, htrue⟩ := h.credited j c hc hle
    refine ⟨p, hp, ?_⟩
    rw [getElem?_set]
    split_ifs with heq hlt
    · rfl
    · exact absurd (List.getElem?_eq_some_iff.1 htrue).1 (heq ▸ hlt)
    · exact htrue
  · obtain ⟨hk, hlt, hall⟩ := h.covers j d p k hd hp
    exact ⟨hk, hlen.symm ▸ hlt, hall⟩

/-- Every step credits each call with a pass of its own. -/
theorem step (h : s.Credited none) (hst : performDrain s l = some t) : t.Credited none := by
  cases l with
  | drain =>
    cases hst
    exact h.request.loop (by simp [Drains.request])
  | began =>
    simp only [performDrain] at hst
    split at hst
    · cases hst
    · split at hst
      · rename_i hc
        cases hst
        exact (h.weaken _).setPc hc (fun p k hp => hp) nofun
      · cases hst
  | finish pass =>
    simp only [performDrain, ite_none_right_eq_some] at hst
    obtain ⟨_, hst⟩ := hst
    cases hst
    exact h.finish
  | resume i =>
    simp only [performDrain, ite_none_right_eq_some] at hst
    obtain ⟨_, hst⟩ := hst
    split at hst
    · rename_i hc
      simp only [ite_none_right_eq_some] at hst
      obtain ⟨hover, hst⟩ := hst
      cases hst
      exact (h.credit hc rfl hover).loop hc
    · rename_i hc
      simp only [ite_none_right_eq_some] at hst
      obtain ⟨_, hst⟩ := hst
      cases hst
      exact (h.weaken _).loop hc
    · cases hst

theorem init : drainMachine.init.Credited none :=
  ⟨le_rfl, nofun, nofun, nofun, nofun, nofun⟩

end Credited

theorem covered {h : List DrainLabel} (hr : drainMachine.Run h s) : s.Covered := by
  have hc : s.Credited none :=
    Machine.Run.invariant (I := fun s => s.Credited none) hr Credited.init
      fun _ _ _ hs hst => hs.step hst
  intro c hmem hdone
  obtain ⟨j, hj⟩ := mem_iff_getElem?.1 hmem
  exact hc.credited j c hj (hc.done j c hj nofun hdone)

/-! ### Single flight -/

/-- Where the one pass is. -/
inductive Phase (s : Drains) : Prop
  | idle (hstack : s.stack = []) (hd : s.draining = none)
      (hcalls : ∀ (j : ℕ) c, s.calls[j]? = some c → c.pc.pass? = none)
      (hp : ∀ q : ℕ, s.passes[q]? ≠ some false)
  /-- It is beginning. -/
  | starting (i p : ℕ) (hstack : s.stack = [i]) (hd : s.draining = none)
      (hcalls : ∀ (j : ℕ) c, s.calls[j]? = some c → c.pc.pass? ≠ none →
        j = i ∧ ∃ k, c.pc = .starting p k)
      (hp : ∀ q : ℕ, s.passes[q]? = some false → q = p)
  /-- It is `_draining`. -/
  | passing (i p : ℕ) (hstack : s.stack = []) (hd : s.draining = some p)
      (hcalls : ∀ (j : ℕ) c, s.calls[j]? = some c → c.pc.pass? ≠ none →
        j = i ∧ ∃ k, c.pc = .passing p k)
      (hp : ∀ q : ℕ, s.passes[q]? = some false → q = p)

theorem Phase.singleFlight (h : s.Phase) : s.SingleFlight := by
  intro p q hp hq
  cases h with
  | idle _ _ _ hno => exact absurd hp (hno p)
  | starting _ r _ _ _ hone | passing _ r _ _ _ hone => exact (hone p hp).trans (hone q hq).symm

theorem phase_loop_idle (hstack : s.stack = []) (hd : s.draining = none)
    (hcalls : ∀ (j : ℕ) d, s.calls[j]? = some d → j ≠ i → d.pc.pass? = none)
    (hp : ∀ q : ℕ, s.passes[q]? ≠ some false) : (s.loop i c).Phase := by
  obtain ⟨p, hsome, _⟩ | ⟨_, heq⟩ | ⟨_, heq⟩ := loop_cases s i c
  · rw [hd] at hsome
    cases hsome
  · rw [heq]
    refine .starting i s.passes.length (by rw [hstack]) hd (fun j d hj hne => ?_) fun q hq => ?_
    · rcases of_set_some hj with ⟨rfl, rfl⟩ | ⟨hji, hj⟩
      · exact ⟨rfl, _, rfl⟩
      · exact absurd (hcalls j d hj hji) hne
    · rcases of_push_some hq with ⟨hq, _⟩ | ⟨_, hq⟩
      · exact hq
      · exact absurd hq (hp q)
  · rw [heq]
    refine .idle hstack hd (fun j d hj => ?_) hp
    rcases of_set_some hj with ⟨rfl, rfl⟩ | ⟨hji, hj⟩
    · rfl
    · exact hcalls j d hj hji

theorem phase_loop_passing {o p : ℕ} (hstack : s.stack = []) (hd : s.draining = some p)
    (hcalls : ∀ (j : ℕ) d, s.calls[j]? = some d → d.pc.pass? ≠ none →
      j = o ∧ ∃ k, d.pc = .passing p k)
    (hp : ∀ q : ℕ, s.passes[q]? = some false → q = p) : (s.loop i c).Phase := by
  have hset : ∀ pc : CallPc, pc.pass? = none →
      Phase { s with calls := s.calls.set i { c with pc := pc } } := by
    intro pc hpc
    refine .passing o p hstack hd (fun j d hj hne => ?_) hp
    rcases of_set_some hj with ⟨rfl, rfl⟩ | ⟨_, hj⟩
    · exact absurd hpc hne
    · exact hcalls j d hj hne
  obtain ⟨q, _, heq⟩ | ⟨hnone, _⟩ | ⟨_, heq⟩ := loop_cases s i c
  · rw [heq]
    exact hset _ rfl
  · rw [hd] at hnone
    cases hnone
  · rw [heq]
    exact hset _ rfl

theorem Phase.finish (h : s.Phase) {pass : ℕ} :
    Phase { s with passes := s.passes.set pass true } := by
  have hsub : ∀ q : ℕ, (s.passes.set pass true)[q]? = some false → s.passes[q]? = some false := by
    intro q hq
    rcases of_set_some hq with ⟨_, hfalse⟩ | ⟨_, hq⟩
    · cases hfalse
    · exact hq
  cases h with
  | idle hstack hd hcalls hp => exact .idle hstack hd hcalls fun q hq => hp q (hsub q hq)
  | starting i p hstack hd hcalls hp =>
    exact .starting i p hstack hd hcalls fun q hq => hp q (hsub q hq)
  | passing i p hstack hd hcalls hp =>
    exact .passing i p hstack hd hcalls fun q hq => hp q (hsub q hq)

theorem Phase.drain (h : s.Phase) (hstack : s.stack = []) :
    (s.request.loop s.calls.length s.newCall).Phase := by
  have hpush : ∀ (j : ℕ) d, s.request.calls[j]? = some d →
      j = s.calls.length ∧ d.pc.pass? = none ∨ s.calls[j]? = some d := by
    intro j d hj
    rcases of_push_some hj with ⟨hlast, rfl⟩ | ⟨_, hj⟩
    · exact .inl ⟨hlast, rfl⟩
    · exact .inr hj
  cases h with
  | idle _ hd hcalls hp =>
    refine phase_loop_idle hstack hd (fun j d hj hne => ?_) hp
    exact (hpush j d hj).elim (fun h => h.2) (hcalls j d)
  | starting i p hs => rw [hstack] at hs; cases hs
  | passing o p _ hd hcalls hp =>
    have hcalls' : ∀ (j : ℕ) d, s.request.calls[j]? = some d → d.pc.pass? ≠ none →
        j = o ∧ ∃ k, d.pc = .passing p k := fun j d hj hne =>
      (hpush j d hj).elim (fun h => absurd h.2 hne) fun h => hcalls j d h hne
    exact phase_loop_passing hstack hd hcalls' hp

/-- Without nested calls, a pass is begun by the call on top. -/
theorem Phase.step (h : s.Phase) (hst : performDrain s l = some t) (hn : NotNested s l) :
    t.Phase := by
  cases l with
  | drain =>
    cases hst
    exact h.drain (hn rfl)
  | began =>
    simp only [performDrain] at hst
    split at hst
    · cases hst
    · rename_i i rest hstack
      split at hst
      · rename_i requested madeAt p covers hc
        cases hst
        cases h with
        | idle hs | passing _ _ hs => rw [hstack] at hs; cases hs
        | starting o q hs hd hcalls hp =>
          obtain ⟨rfl, rfl⟩ := List.cons.inj (hstack.symm.trans hs)
          obtain ⟨_, k, hpc⟩ := hcalls i _ hc nofun
          obtain ⟨rfl, rfl⟩ := CallPc.starting.inj hpc
          refine .passing i p rfl rfl (fun j d hj hne => ?_) hp
          rcases of_set_some hj with ⟨rfl, rfl⟩ | ⟨hji, hj⟩
          · exact ⟨rfl, _, rfl⟩
          · exact absurd (hcalls j d hj hne).1 hji
      · cases hst
  | finish pass =>
    simp only [performDrain, ite_none_right_eq_some] at hst
    obtain ⟨_, hst⟩ := hst
    cases hst
    exact h.finish
  | resume i =>
    simp only [performDrain, ite_none_right_eq_some] at hst
    obtain ⟨hstack, hst⟩ := hst
    split at hst
    · rename_i requested madeAt p covers hc
      simp only [ite_none_right_eq_some] at hst
      obtain ⟨hover, hst⟩ := hst
      cases hst
      -- The call is the one that has begun the pass.
      cases h with
      | idle _ _ hcalls => exact absurd (hcalls i _ hc) nofun
      | starting _ _ hs => rw [hstack] at hs; cases hs
      | passing o q _ hd hcalls hp =>
        obtain ⟨rfl, k, hpc⟩ := hcalls i _ hc nofun
        obtain ⟨rfl, rfl⟩ := CallPc.passing.inj hpc
        refine phase_loop_idle hstack rfl (fun j d hj hne => ?_) fun q hq => ?_
        · by_contra hpass
          exact hne (hcalls j d hj hpass).1
        · obtain rfl := hp q hq
          rw [show (s.credit covers).passes = s.passes from rfl, hover] at hq
          cases hq
    · rename_i requested madeAt p hc
      simp only [ite_none_right_eq_some] at hst
      obtain ⟨_, hst⟩ := hst
      cases hst
      cases h with
      | idle _ hd hcalls hp => exact phase_loop_idle hstack hd (fun j d hj _ => hcalls j d hj) hp
      | starting _ _ hs => rw [hstack] at hs; cases hs
      | passing o q _ hd hcalls hp => exact phase_loop_passing hstack hd hcalls hp
    · cases hst

end Drains

/-- Along runs without nested calls there is one pass at a time, and a call returns only after a
pass that began after it. -/
theorem single_flight {h : List DrainLabel} {s : Drains}
    (hr : (drainMachine.restrict fun s l _ => NotNested s l).Run h s) :
    s.SingleFlight ∧ s.Covered := by
  have hphase : s.Phase := hr.invariant (.idle rfl rfl nofun nofun) fun _ _ _ hs hst =>
    hs.step hst.1 hst.2
  exact ⟨hphase.singleFlight, Drains.covered hr.of_restrict⟩

/-- Three calls share two passes. -/
def sharedRun : List DrainLabel :=
  [.drain, .began, .drain, .drain, .finish 0, .resume 1, .resume 0, .resume 1, .began, .resume 2,
    .finish 1, .resume 2, .resume 1, .resume 2]

theorem sharedRun_single_flight : ∃ s, drainMachine.Run sharedRun s ∧
    (s.SingleFlight ∧ s.Covered) ∧ s.calls.map DrainCall.pc = [.done, .done, .done] := by
  have hdone : (Machine.drive performDrain (fun s l => decide (NotNested s l)) {} sharedRun).map
      (fun s => s.calls.map DrainCall.pc) = some [.done, .done, .done] := by decide +kernel
  obtain ⟨s, hs, hpcs⟩ := map_eq_some_iff.1 hdone
  have hr : (drainMachine.restrict fun s l _ => NotNested s l).Run sharedRun s :=
    Machine.steps_drive (fun _ _ => of_decide_eq_true) hs
  exact ⟨s, hr.of_restrict, single_flight hr, hpcs⟩

/-- A pass publishes an event before it is `_draining`; the call this makes begins another one. -/
theorem nested_call_begins_pass : ¬ ∀ h s, drainMachine.Run h s → s.SingleFlight ∧ s.Covered := by
  intro hall
  obtain ⟨hone, -⟩ := hall [.drain, .drain] _ (Machine.run_drive rfl)
  exact absurd (hone 0 1 rfl rfl) (by decide)

end U2os.Server.Packages
