import Mathlib.Tactic.Common

/-!
# Programs that read what changes

A program that asks one question after another, and returns.  Where the store does not change its
result is that of `Inquiry.eval`; where others change it between two questions, nothing is known but
what holds whatever is answered.

## Main results

* `Inquiry.eval_bind` : the result of a sequence.
* `Inquiry.Along.each` : what a loop finds out while the store changes.
-/

namespace U2os

/-- A program that asks questions, and returns. -/
inductive Inquiry (Q : Type) (A : Q → Type) (α : Type) where
  | ret (a : α)
  | ask (q : Q) (k : A q → Inquiry Q A α)

namespace Inquiry

variable {Q : Type} {A : Q → Type} {α β : Type}

/-- One program after another. -/
def bind : Inquiry Q A α → (α → Inquiry Q A β) → Inquiry Q A β
  | ret a, f => f a
  | ask q k, f => ask q fun a => (k a).bind f

instance : Monad (Inquiry Q A) where
  pure := ret
  bind := bind

def question (q : Q) : Inquiry Q A (A q) := ask q ret

/-- A loop over a list, with its results. -/
def each (l : List β) (p : β → Inquiry Q A α) : Inquiry Q A (List α) :=
  match l with
  | [] => pure []
  | b :: l => do
    let a ← p b
    let as ← each l p
    return a :: as

/-- The result, where the answers are those of one store. -/
def eval (v : (q : Q) → A q) : Inquiry Q A α → α
  | ret a => a
  | ask q k => (k (v q)).eval v

/-- Whatever the answers are, the result satisfies `P`. -/
def Every (P : α → Prop) : Inquiry Q A α → Prop
  | ret a => P a
  | ask q k => ∀ a : A q, (k a).Every P

/-- Whichever of the stores of `P` gives each answer, the result is `a`. -/
def Always (P : ((q : Q) → A q) → Prop) (a : α) : Inquiry Q A α → Prop
  | ret b => b = a
  | ask q k => ∀ v, P v → (k (v q)).Always P a

/-- Each answer is that of the newest store, which comes first, and newer ones may come at any time:
the result and the stores until then satisfy `R`. -/
def Along (R : List ((q : Q) → A q) → α → Prop) : Inquiry Q A α → List ((q : Q) → A q) → Prop
  | ret a, seen => R seen a
  | ask q k, seen => ∀ newer v older, newer ++ seen = v :: older → (k (v q)).Along R (v :: older)

section Results

variable {v : (q : Q) → A q}

@[simp] theorem eval_pure (a : α) : (pure a : Inquiry Q A α).eval v = a := rfl

@[simp] theorem eval_bind (p : Inquiry Q A α) (f : α → Inquiry Q A β) :
    (p >>= f).eval v = (f (p.eval v)).eval v := by
  induction p with
  | ret a => rfl
  | ask q k ih => exact ih (v q)

@[simp] theorem eval_question (q : Q) : (question q : Inquiry Q A (A q)).eval v = v q := rfl

theorem eval_each (l : List β) (p : β → Inquiry Q A α) :
    (each l p).eval v = l.map fun b => (p b).eval v := by
  induction l with
  | nil => rfl
  | cons b l ih => rw [each, eval_bind, eval_bind, ih]; rfl

end Results

section Rules

variable {P P' : α → Prop} {R : β → Prop}

theorem Every.bind {p : Inquiry Q A α} {f : α → Inquiry Q A β} (h : p.Every P)
    (hf : ∀ a, P a → (f a).Every R) : (p >>= f).Every R := by
  induction p with
  | ret a => exact hf a h
  | ask q k ih => exact fun a => ih a (h a)

theorem Every.each {l : List β} {p : β → Inquiry Q A α} {S : β → α → Prop}
    (h : ∀ b ∈ l, (p b).Every (S b)) : (each l p).Every (List.Forall₂ S l) := by
  induction l with
  | nil => exact List.Forall₂.nil
  | cons b l ih =>
    refine (h b List.mem_cons_self).bind fun a ha => ?_
    refine (ih fun b hb => h b (List.mem_cons_of_mem _ hb)).bind fun as has => ?_
    exact List.Forall₂.cons ha has

variable {S : ((q : Q) → A q) → Prop} {a : α} {b : β}

theorem Always.bind {p : Inquiry Q A α} {f : α → Inquiry Q A β} (h : p.Always S a)
    (hf : (f a).Always S b) : (p >>= f).Always S b := by
  induction p with
  | ret c => exact (show c = a from h) ▸ hf
  | ask q k ih => exact fun v hv => ih (v q) (h v hv)

theorem Always.each {l : List β} {p : β → Inquiry Q A α} {g : β → α}
    (h : ∀ b ∈ l, (p b).Always S (g b)) : (each l p).Always S (l.map g) := by
  induction l with
  | nil => exact (rfl : ([] : List α) = [])
  | cons b l ih =>
    refine (h b List.mem_cons_self).bind ?_
    exact (ih fun b hb => h b (List.mem_cons_of_mem _ hb)).bind rfl

variable {seen : List ((q : Q) → A q)} {T T' : List ((q : Q) → A q) → α → Prop}

/-- What is known of an answer may be weakened. -/
theorem Along.mono {p : Inquiry Q A α} (h : p.Along T seen)
    (hT : ∀ newer a, T (newer ++ seen) a → T' (newer ++ seen) a) : p.Along T' seen := by
  induction p generalizing seen with
  | ret a => exact hT [] a h
  | ask q k ih =>
    intro newer v older hseen
    refine ih _ (h newer v older hseen) fun newest a ha => ?_
    rw [← hseen, ← List.append_assoc] at ha ⊢
    exact hT _ a ha

theorem Along.later {p : Inquiry Q A α} (h : p.Along T seen)
    (hT : ∀ newer seen a, T seen a → T (newer ++ seen) a) (newer : List ((q : Q) → A q)) :
    p.Along T (newer ++ seen) := by
  cases p with
  | ret a => exact hT newer seen a h
  | ask q k =>
    intro newest v older hseen
    rw [← List.append_assoc] at hseen
    exact h _ v older hseen

theorem Along.bind {p : Inquiry Q A α} {f : α → Inquiry Q A β}
    {U : List ((q : Q) → A q) → β → Prop}
    (h : p.Along (fun seen a => (f a).Along U seen) seen) : (p >>= f).Along U seen := by
  induction p generalizing seen with
  | ret a => exact h
  | ask q k ih => exact fun newer v older hseen => ih (v q) (h newer v older hseen)

/-- Questions asked for each item of a list are answered for each of them. -/
theorem Along.each {l : List β} {p : β → Inquiry Q A α}
    {U : β → List ((q : Q) → A q) → α → Prop}
    (hU : ∀ b newer seen a, U b seen a → U b (newer ++ seen) a)
    (h : ∀ b ∈ l, ∀ seen, (p b).Along (U b) seen) (seen : List ((q : Q) → A q)) :
    (each l p).Along (fun seen => List.Forall₂ (fun b a => U b seen a) l) seen := by
  induction l generalizing seen with
  | nil => exact List.Forall₂.nil
  | cons b l ih =>
    refine Along.bind ((h b List.mem_cons_self seen).mono fun newer a ha => ?_)
    refine Along.bind ((ih (fun b hb => h b (List.mem_cons_of_mem _ hb)) _).mono
      fun newest as has => ?_)
    exact List.Forall₂.cons (hU b newest _ a ha) has

end Rules

end Inquiry

end U2os
