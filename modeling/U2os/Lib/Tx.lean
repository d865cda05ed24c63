import Mathlib.Tactic.Common

/-!
# Transactions

A transaction body reads and writes a state and may fail.  Run in a transaction, a failed body
leaves the state as it was.

## Main results

* `Tx.ok_bind`, `Tx.ok_ensure`, … : inversion of a successful body, one rule per operation.
* `Tx.atomically_error` : a failed transaction changes nothing.
-/

namespace U2os

/-- The body of a transaction over the state `σ` with errors `ε`. -/
abbrev Tx (σ ε α : Type) := StateT σ (Except ε) α

namespace Tx

variable {σ ε α β : Type}

/-- Run on `s`, the body returns `a` and leaves `s'`. -/
def Ok (x : Tx σ ε α) (s : σ) (a : α) (s' : σ) : Prop := x.run s = .ok (a, s')

/-- Continue only if `p` holds. -/
def ensure (p : Prop) [Decidable p] (e : ε) : Tx σ ε Unit := if p then pure () else throw e

/-- A computation that does not touch the state. -/
def ofExcept (x : Except ε α) : Tx σ ε α := StateT.lift x

/-- The value of an option, or the error. -/
def ofOption (x : Option α) (e : ε) : Tx σ ε α :=
  match x with
  | some a => pure a
  | none => throw e

/-- The body with its errors converted. -/
def mapError {ε' : Type} (f : ε → ε') (x : Tx σ ε α) : Tx σ ε' α :=
  fun s => (x.run s).mapError f

@[simp] theorem ok_pure {a b : α} {s s' : σ} :
    (pure a : Tx σ ε α).Ok s b s' ↔ b = a ∧ s' = s := by
  simp only [Ok, StateT.run_pure]
  constructor
  · intro h; cases h; exact ⟨rfl, rfl⟩
  · rintro ⟨rfl, rfl⟩; rfl

@[simp] theorem ok_throw {e : ε} {b : α} {s s' : σ} : (throw e : Tx σ ε α).Ok s b s' ↔ False :=
  iff_false_intro fun h => by cases h

@[simp] theorem ok_bind {x : Tx σ ε α} {f : α → Tx σ ε β} {b : β} {s s' : σ} :
    (x >>= f).Ok s b s' ↔ ∃ a t, x.Ok s a t ∧ (f a).Ok t b s' := by
  simp only [Ok, StateT.run_bind]
  cases h : x.run s with
  | error e => exact ⟨fun h' => (by cases h'), fun ⟨a, t, h', _⟩ => (by cases h')⟩
  | ok r =>
    constructor
    · intro h'; exact ⟨r.1, r.2, rfl, h'⟩
    · rintro ⟨a, t, h', h''⟩; cases h'; exact h''

theorem exists_ok_bind {x : Tx σ ε α} {f : α → Tx σ ε β} {a : α} {s t : σ} (h : x.Ok s a t)
    (h' : ∃ b u, (f a).Ok t b u) : ∃ b u, (x >>= f).Ok s b u :=
  let ⟨b, u, hb⟩ := h'
  ⟨b, u, ok_bind.2 ⟨a, t, h, hb⟩⟩

@[simp] theorem ok_get {a s s' : σ} : (get : Tx σ ε σ).Ok s a s' ↔ a = s ∧ s' = s := by
  constructor
  · intro h; cases h; exact ⟨rfl, rfl⟩
  · rintro ⟨rfl, rfl⟩; rfl

@[simp] theorem ok_set {t s s' : σ} {u : PUnit} : (set t : Tx σ ε PUnit).Ok s u s' ↔ s' = t := by
  constructor
  · intro h; cases h; rfl
  · rintro rfl; rfl

@[simp] theorem ok_modify {f : σ → σ} {s s' : σ} {u : PUnit} :
    (modify f : Tx σ ε PUnit).Ok s u s' ↔ s' = f s := by
  constructor
  · intro h; cases h; rfl
  · rintro rfl; rfl

@[simp] theorem ok_ensure {p : Prop} [Decidable p] {e : ε} {s s' : σ} {u : Unit} :
    (ensure p e).Ok s u s' ↔ p ∧ s' = s := by
  unfold ensure
  split_ifs with h
  · simp [h]
  · simp [h]

@[simp] theorem ok_ofExcept {x : Except ε α} {a : α} {s s' : σ} :
    (ofExcept x : Tx σ ε α).Ok s a s' ↔ x = .ok a ∧ s' = s := by
  cases x with
  | error e => exact ⟨fun h => (by cases h), fun h => (by cases h.1)⟩
  | ok b =>
    constructor
    · intro h; cases h; exact ⟨rfl, rfl⟩
    · rintro ⟨h, rfl⟩; cases h; rfl

@[simp] theorem ok_ofOption {x : Option α} {e : ε} {a : α} {s s' : σ} :
    (ofOption x e : Tx σ ε α).Ok s a s' ↔ x = some a ∧ s' = s := by
  cases x with
  | none => simp [ofOption]
  | some b => simp [ofOption, eq_comm]

@[simp] theorem ok_mapError {ε' : Type} {f : ε → ε'} {x : Tx σ ε α} {a : α} {s s' : σ} :
    (x.mapError f).Ok s a s' ↔ x.Ok s a s' := by
  unfold Ok
  change (x.run s).mapError f = .ok (a, s') ↔ x.run s = .ok (a, s')
  cases x.run s with
  | error e => exact ⟨fun h => (by cases h), fun h => (by cases h)⟩
  | ok r => exact ⟨fun h => (by cases h; rfl), fun h => (by cases h; rfl)⟩

/-- A body run in a transaction: committed if it succeeds, rolled back if it fails. -/
def atomically (x : Tx σ ε α) (s : σ) : Except ε α × σ :=
  match x.run s with
  | .ok (a, s') => (.ok a, s')
  | .error e => (.error e, s)

/-- A transaction that succeeds does what its statements do. -/
theorem atomically_ok {x : Tx σ ε α} {s s' : σ} {a : α} :
    x.atomically s = (.ok a, s') ↔ x.Ok s a s' := by
  unfold atomically Ok
  cases h : x.run s with
  | error e => simp
  | ok r => simp [Prod.ext_iff]

theorem atomically_error {x : Tx σ ε α} {s s' : σ} {e : ε}
    (h : x.atomically s = (.error e, s')) : s' = s := by
  unfold atomically at h
  cases hx : x.run s with
  | error e' => rw [hx] at h; exact (Prod.ext_iff.1 h).2.symm
  | ok r => rw [hx] at h; cases h

end Tx

end U2os
