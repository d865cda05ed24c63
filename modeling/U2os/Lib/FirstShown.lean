import U2os.Lib.WallClock

/-!
# First showings

A clock on the wall whose offset changes at most once in any while shows a reading for the first
time just at the instants before which it has shown smaller readings only.  Whoever sets such a
clock to a reading always lands at a first showing.
-/

namespace U2os.WallClock

variable {offset : ℤ → ℤ} {while_ unit r s t : ℤ}

/-- The reading of the instant was not shown before. -/
def First (offset : ℤ → ℤ) (t : ℤ) : Prop := ∀ s < t, reading offset s ≠ reading offset t

variable (hsmall : ∀ t, -while_ < offset t ∧ offset t < while_)

include hsmall

theorem reading_near (t : ℤ) : t - while_ < reading offset t ∧ reading offset t < t + while_ := by
  have := hsmall t
  unfold reading
  omega

variable (honce : ∀ r, ChangesOnce offset (r - while_) (r + while_))

include honce

theorem shown_before (hlt : s < t) (hgt : reading offset t < reading offset s) :
    ∃ e < s, reading offset e = reading offset t := by
  have hs := reading_near hsmall s
  have ht := reading_near hsmall t
  obtain ⟨change, h⟩ := honce (reading offset t)
  have hos := h s (by omega) (by omega)
  have hot := h t (by omega) (by omega)
  have hlow := hsmall (reading offset t - while_)
  generalize hbefore : offset (reading offset t - while_) = before at *
  have hsub := h (reading offset t - before) (by omega) (by omega)
  -- the step back lies between the two instants
  have hstep : s < change ∧ change ≤ t := by
    unfold reading at hgt
    split_ifs at hos hot <;> omega
  rw [if_pos hstep.1] at hos
  have he : reading offset t - before < s := by
    unfold reading at hgt ⊢
    omega
  exact ⟨_, he, reading_sub (hsub.trans (if_pos (by omega)))⟩

/-- The clock at a first showing is past all that it has shown before. -/
theorem First.reading_lt (h : First offset t) (hlt : s < t) :
    reading offset s < reading offset t := by
  by_contra hge
  rcases eq_or_lt_of_le (not_lt.1 hge) with heq | hgt
  · exact h s hlt heq.symm
  · obtain ⟨e, he, heq⟩ := shown_before hsmall honce hlt hgt
    exact h e (he.trans hlt) heq

theorem reading_resolve_of_shown (h : ∃ t, reading offset t = r) :
    reading offset (resolve offset while_ r) = r := (resolve_isLeast hsmall (honce r) h).1

theorem le_reading_resolve : r ≤ reading offset (resolve offset while_ r) := by
  by_cases h : ∃ t, reading offset t = r
  · exact (reading_resolve_of_shown hsmall honce h).ge
  · obtain ⟨heq, hlt⟩ := reading_resolve hsmall (honce r) fun t ht => h ⟨t, ht⟩
    omega

theorem gap_of_skipped (h : ∀ t, reading offset t ≠ r) : ∃ change before after,
    resolve offset while_ r = r - before ∧ before < after ∧ -while_ < before ∧ after < while_ ∧
      change ≤ r - before ∧ r - after < change ∧
      ∀ t, r - while_ ≤ t → t ≤ r + while_ → offset t = if t < change then before else after := by
  obtain ⟨change, hoff⟩ := honce r
  have hlt := (reading_resolve hsmall (honce r) h).2
  have hlow := hsmall (r - while_)
  have hhigh := hsmall (r + while_)
  unfold resolve
  generalize offset (r - while_) = before at *
  generalize offset (r + while_) = after at *
  have hnb : offset (r - before) ≠ before := fun he => h _ (reading_sub he)
  have hna : offset (r - after) ≠ after := fun he => h _ (reading_sub he)
  refine ⟨change, before, after, by rw [if_neg hnb, if_neg hna], hlt, hlow.1, hhigh.2, ?_, ?_, hoff⟩
  · by_contra hge
    exact hnb ((hoff _ (by omega) (by omega)).trans (if_pos (by omega)))
  · by_contra hge
    exact hna ((hoff _ (by omega) (by omega)).trans (if_neg hge))

theorem first_resolve : First offset (resolve offset while_ r) := by
  intro e he heq
  by_cases h : ∃ t, reading offset t = r
  · have hshown := reading_resolve_of_shown hsmall honce h
    exact absurd ((resolve_isLeast hsmall (honce r) h).2 (heq.trans hshown)) (not_le.2 he)
  · obtain ⟨change, before, after, hres, hlt, hlow, hhigh, hchange, hchange', hoff⟩ :=
      gap_of_skipped hsmall honce fun t ht => h ⟨t, ht⟩
    have hland := hoff (r - before) (by omega) (by omega)
    rw [if_neg (by omega)] at hland
    have hnear := reading_near hsmall e
    rw [hres] at he heq
    unfold reading at heq hnear
    have hoe := hoff e (by omega) (by omega)
    split_ifs at hoe <;> omega

/-- **A reading that no gap swallows**, but perhaps as the first that it does, is resolved to the
first instant that shows it or a later one. -/
theorem resolve_isLeast_ge (hwhole : Whole offset unit) (hw : unit ∣ while_) (hr : r % unit = 0)
    (h : (∃ t, reading offset t = r) ∨ ∃ t, reading offset t = r - unit)
    (hs : s < resolve offset while_ r) : reading offset s < r := by
  by_cases hshown : ∃ t, reading offset t = r
  · rw [← reading_resolve_of_shown hsmall honce hshown]
    exact (first_resolve hsmall honce).reading_lt hsmall honce hs
  · obtain ⟨e, he⟩ := h.resolve_left hshown
    obtain ⟨change, before, after, hres, hlt, hlow, hhigh, hchange, hchange', hoff⟩ :=
      gap_of_skipped hsmall honce fun t ht => hshown ⟨t, ht⟩
    -- the offset before the gap is less than a while by a whole unit
    have hnear := hsmall e
    have hunit : unit ≤ while_ - offset e := Int.le_of_dvd (by omega) (Int.dvd_sub hw (hwhole.dvd e))
    have he' : e = r - unit - offset e := by
      unfold reading at he
      omega
    have hpos := hwhole.pos
    have hoe := hoff e (by omega) (by omega)
    have hbefore : offset e = before := by
      split_ifs at hoe <;> omega
    rw [hres] at hs
    have hsnear := reading_near hsmall s
    by_cases hfar : s < r - while_
    · omega
    · have hos := hoff s (by omega) (by omega)
      by_cases hes : e ≤ s
      · -- the gap starts with a unit of the clock
        have hdvd : unit ∣ e := by
          rw [he']
          exact Int.dvd_sub (Int.dvd_sub (Int.dvd_of_emod_eq_zero hr) (Int.dvd_refl unit)) (hwhole.dvd e)
        obtain ⟨q, hq⟩ := hdvd
        have hmod : s % unit = s - e := by
          rw [show s = s - e + unit * q by omega, Int.add_mul_emod_self_left,
            Int.emod_eq_of_lt (by omega) (by omega)]
          omega
        have hsame := hwhole.start s
        rw [hmod, sub_sub_cancel] at hsame
        unfold reading
        omega
      · rw [if_pos (by omega)] at hos
        unfold reading
        omega

/-- What the clock goes back to is shown again soon, and is then the latest it has shown since. -/
theorem shown_again (hlt : s < t) (hgt : reading offset t < reading offset s) :
    ∃ e, t < e ∧ e < t + 2 * while_ ∧ reading offset e = reading offset s ∧
      ∀ u, t ≤ u → u < e → reading offset u < reading offset s := by
  have hs := reading_near hsmall s
  have ht := reading_near hsmall t
  obtain ⟨change, h⟩ := honce (reading offset s)
  have hos := h s (by omega) (by omega)
  have hot := h t (by omega) (by omega)
  have hhigh := hsmall (reading offset s + while_)
  generalize hafter : offset (reading offset s + while_) = after at *
  have hsub := h (reading offset s - after) (by omega) (by omega)
  have hstep : s < change ∧ change ≤ t := by
    unfold reading at hgt
    split_ifs at hos hot <;> omega
  rw [if_neg (by omega)] at hot
  have he : t < reading offset s - after := by
    unfold reading at hgt ⊢
    omega
  refine ⟨_, he, by omega, reading_sub (hsub.trans (if_neg (by omega))), fun u hu hu' => ?_⟩
  -- from the step back on, the offset stays the same
  have hou := h u (by omega) (by omega)
  rw [if_neg (by omega)] at hou
  rw [reading, hou]
  omega

end U2os.WallClock
