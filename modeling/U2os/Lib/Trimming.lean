import Mathlib.Data.List.TakeWhile
import Mathlib.Tactic.Common

/-!
# Trimming with two notions of white space

Two languages that disagree about a few characters trim a text alike just where none of these
characters is at an end of it, once what both take is taken.

## Main results

* `dropWhile_congr` : a run of white space in which the two sides agree.
-/

namespace U2os.Trimming

open List Option

variable {p q r : Char → Bool} {cs : List Char} {c : Char}

/-- A text without the characters at its ends. -/
def trimBy (p : Char → Bool) (cs : List Char) : List Char :=
  ((cs.dropWhile p).reverse.dropWhile p).reverse

/-- Of what is left when both sides have taken what they both take, the first and the last
character are white space for both or for neither. -/
def EvenEnds (p q : Char → Bool) (cs : List Char) : Prop :=
  ∀ c, (trimBy (fun c => p c && q c) cs).head? = some c ∨
    (trimBy (fun c => p c && q c) cs).getLast? = some c → p c = q c

instance (p q : Char → Bool) (cs : List Char) : Decidable (EvenEnds p q cs) :=
  decidable_of_iff
    (((trimBy (fun c => p c && q c) cs).head?.all fun c => p c = q c) = true ∧
      ((trimBy (fun c => p c && q c) cs).getLast?.all fun c => p c = q c) = true) (by
    unfold EvenEnds
    cases (trimBy (fun c => p c && q c) cs).head? <;>
      cases (trimBy (fun c => p c && q c) cs).getLast? <;> simp [or_imp, forall_and])

theorem dropWhile_of_head (hr : ∀ c, r c = true → p c = true)
    (hhead : ∀ c, (cs.dropWhile r).head? = some c → p c = false) :
    cs.dropWhile p = cs.dropWhile r := by
  have htake : ∀ c ∈ cs.takeWhile r, p c = true := fun c hc => hr c (mem_takeWhile_imp hc)
  conv_lhs => rw [← takeWhile_append_dropWhile (p := r) (l := cs)]
  rw [dropWhile_append_of_pos htake]
  cases hdrop : cs.dropWhile r with
  | nil => rfl
  | cons c rest => exact dropWhile_cons_of_neg (by simp [hhead c (by rw [hdrop]; rfl)])

theorem takeWhile_congr (h : ∀ c ∈ cs.takeWhile fun c => p c || q c, p c = q c) :
    cs.takeWhile p = cs.takeWhile q := by
  induction cs with
  | nil => rfl
  | cons c cs ih =>
    by_cases hc : (p c || q c) = true
    · rw [takeWhile_cons_of_pos (p := fun c => p c || q c) hc] at h
      obtain ⟨heq, hrest⟩ := forall_mem_cons.1 h
      simp only [takeWhile_cons, heq, ih hrest]
    · obtain ⟨hp, hq⟩ := Bool.or_eq_false_iff.1 (by simpa using hc)
      rw [takeWhile_cons_of_neg (by simp [hp]), takeWhile_cons_of_neg (by simp [hq])]

theorem dropWhile_congr (h : ∀ c ∈ cs.takeWhile fun c => p c || q c, p c = q c) :
    cs.dropWhile p = cs.dropWhile q := by
  have hlength := congrArg List.length (takeWhile_congr h)
  have hp := takeWhile_append_dropWhile (p := p) (l := cs)
  have hq := takeWhile_append_dropWhile (p := q) (l := cs)
  rw [← takeWhile_congr h] at hq
  exact append_cancel_left (hp.trans hq.symm)

/-- Two readings of the leading blanks agree if they agree on the blanks that are there. -/
theorem head?_any_congr (h : ∀ c ∈ cs.takeWhile fun c => p c || q c, p c = q c) :
    cs.head?.any p = cs.head?.any q := by
  have hany : ∀ r : Char → Bool, cs.head?.any r = !(cs.takeWhile r).isEmpty := fun r => by
    cases cs with
    | nil => rfl
    | cons c cs => cases hc : r c <;> simp [hc]
  rw [hany, hany, takeWhile_congr h]

theorem trimBy_eq_nil (hdrop : trimBy r cs = []) : cs.dropWhile r = [] := by
  have hall := dropWhile_eq_nil_iff.1 (reverse_eq_nil_iff.1 hdrop)
  by_contra hne
  obtain ⟨c, rest, hcons⟩ := exists_cons_of_ne_nil hne
  have hhead := head?_dropWhile_not r cs
  rw [hcons] at hhead hall
  have hc := hall c (by simp)
  rw [head?_cons] at hhead
  simp [hc] at hhead

theorem head?_trimBy (r : Char → Bool) (cs : List Char) :
    (trimBy r cs).head? = (cs.dropWhile r).head? := by
  have hpre := reverse_prefix.2
    (dropWhile_suffix (l := (cs.dropWhile r).reverse) r)
  rw [reverse_reverse] at hpre
  obtain ⟨after, hafter⟩ : trimBy r cs <+: cs.dropWhile r := hpre
  cases htrim : trimBy r cs with
  | nil => rw [trimBy_eq_nil htrim]
  | cons c rest =>
    rw [htrim] at hafter
    rw [← hafter]
    rfl

theorem trimBy_of_ends (hr : ∀ c, r c = true → p c = true)
    (hends : ∀ c, (trimBy r cs).head? = some c ∨ (trimBy r cs).getLast? = some c → p c = false) :
    trimBy p cs = trimBy r cs := by
  have hfirst : cs.dropWhile p = cs.dropWhile r :=
    dropWhile_of_head hr fun c hc => hends c (.inl (by rw [head?_trimBy, hc]))
  have hlast : (cs.dropWhile r).reverse.dropWhile p = (cs.dropWhile r).reverse.dropWhile r := by
    refine dropWhile_of_head hr fun c hc => hends c (.inr ?_)
    rw [trimBy, getLast?_reverse, hc]
  rw [trimBy, trimBy, hfirst, hlast]

theorem trimBy_congr (h : EvenEnds p q cs) : trimBy p cs = trimBy q cs := by
  have hnot : ∀ c, (trimBy (fun c => p c && q c) cs).head? = some c ∨
      (trimBy (fun c => p c && q c) cs).getLast? = some c → (p c && q c) = false := by
    rintro c (hc | hc)
    · have hhead := head?_dropWhile_not (fun c => p c && q c) cs
      rw [head?_trimBy] at hc
      rw [hc] at hhead
      exact hhead
    · have hhead := head?_dropWhile_not (fun c => p c && q c)
        (cs.dropWhile fun c => p c && q c).reverse
      rw [trimBy, getLast?_reverse] at hc
      rw [hc] at hhead
      exact hhead
  rw [trimBy_of_ends (p := p) (r := fun c => p c && q c), trimBy_of_ends (p := q)
    (r := fun c => p c && q c)]
  · intro c hc
    exact (Bool.and_eq_true_iff.1 hc).2
  · intro c hc
    have hboth := hnot c hc
    rw [h c hc, Bool.and_self] at hboth
    exact hboth
  · intro c hc
    exact (Bool.and_eq_true_iff.1 hc).1
  · intro c hc
    have hboth := hnot c hc
    rwa [← h c hc, Bool.and_self] at hboth

end U2os.Trimming
