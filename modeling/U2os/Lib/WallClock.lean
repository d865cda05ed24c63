import Mathlib.Order.Bounds.Basic
import Mathlib.Order.Interval.Set.Basic
import Mathlib.Tactic.Common
import Mathlib.Algebra.Order.Group.Unbundled.Int

/-!
# Clocks on the wall

A clock on the wall shows the time that has passed and an offset, which changes now and then.  When
the offset grows, some readings are skipped; when it shrinks, some are shown twice.

A reading is resolved by the offsets a while before and after it: if one of them is in force at the
instant it gives, this instant shows the reading.  That finds the first such instant when the offset
changes at most once in between and never is as large as that while.
-/

namespace U2os.WallClock

variable {offset : ℤ → ℤ} {low high while_ r t unit : ℤ}

/-- What the clock shows at an instant. -/
def reading (offset : ℤ → ℤ) (t : ℤ) : ℤ := t + offset t

/-- From `low` to `high` the offset changes at most once. -/
def ChangesOnce (offset : ℤ → ℤ) (low high : ℤ) : Prop :=
  ∃ change, ∀ t, low ≤ t → t ≤ high → offset t = if t < change then offset low else offset high

/-- The instant of a reading, by the offsets a while before and after. -/
def resolve (offset : ℤ → ℤ) (while_ r : ℤ) : ℤ :=
  let before := offset (r - while_)
  let after := offset (r + while_)
  if offset (r - before) = before then
    if offset (r - after) = after then min (r - before) (r - after) else r - before
  else if offset (r - after) = after then r - after else r - before

theorem reading_sub (h : offset (r - t) = t) : reading offset (r - t) = r := by
  unfold reading
  omega

/-- An instant that shows the reading has the offset before the change or the one after it, and
this offset is in force at the instant that it gives. -/
theorem eq_sub_of_reading (hsmall : ∀ t, -while_ < offset t ∧ offset t < while_)
    (honce : ChangesOnce offset (r - while_) (r + while_)) (h : reading offset t = r) :
    (t = r - offset (r - while_) ∨ t = r - offset (r + while_)) ∧ offset t = r - t := by
  obtain ⟨change, honce⟩ := honce
  have hnear := hsmall t
  have hself : offset t = r - t := by
    unfold reading at h
    omega
  have hoff := honce t (by omega) (by omega)
  split_ifs at hoff
  · exact ⟨.inl (by omega), hself⟩
  · exact ⟨.inr (by omega), hself⟩

/-- The time that a reading denotes is the first at which the clock shows it. -/
theorem resolve_isLeast (hsmall : ∀ t, -while_ < offset t ∧ offset t < while_)
    (honce : ChangesOnce offset (r - while_) (r + while_)) (h : ∃ t, reading offset t = r) :
    IsLeast {t | reading offset t = r} (resolve offset while_ r) := by
  have hall := fun t => eq_sub_of_reading (t := t) hsmall honce
  obtain ⟨t₀, ht₀⟩ := h
  unfold resolve
  generalize offset (r - while_) = before at hall ⊢
  generalize offset (r + while_) = after at hall ⊢
  dsimp only
  split_ifs with hb ha ha
  · refine ⟨?_, fun t ht => ?_⟩
    · show reading offset (min (r - before) (r - after)) = r
      rcases min_choice (r - before) (r - after) with hmin | hmin <;> rw [hmin]
      · exact reading_sub hb
      · exact reading_sub ha
    · rcases (hall t ht).1 with rfl | rfl
      · exact min_le_left _ _
      · exact min_le_right _ _
  · refine ⟨reading_sub hb, fun t ht => ?_⟩
    obtain ⟨rfl | rfl, hoff⟩ := hall t ht
    · exact le_rfl
    · exact absurd (hoff.trans (by omega)) ha
  · refine ⟨reading_sub ha, fun t ht => ?_⟩
    obtain ⟨rfl | rfl, hoff⟩ := hall t ht
    · exact absurd (hoff.trans (by omega)) hb
    · exact le_rfl
  · obtain ⟨rfl | rfl, hoff⟩ := hall t₀ ht₀
    · exact absurd (hoff.trans (by omega)) hb
    · exact absurd (hoff.trans (by omega)) ha

/-- **A skipped reading is resolved to one as much later as was skipped.** -/
theorem reading_resolve (hsmall : ∀ t, -while_ < offset t ∧ offset t < while_)
    (honce : ChangesOnce offset (r - while_) (r + while_)) (h : ∀ t, reading offset t ≠ r) :
    reading offset (resolve offset while_ r) =
        r + (offset (r + while_) - offset (r - while_)) ∧
      offset (r - while_) < offset (r + while_) := by
  obtain ⟨change, honce⟩ := honce
  have hsb := hsmall (r - while_)
  have hsa := hsmall (r + while_)
  have hb := honce (r - offset (r - while_)) (by omega) (by omega)
  have ha := honce (r - offset (r + while_)) (by omega) (by omega)
  have hnb : offset (r - offset (r - while_)) ≠ offset (r - while_) := fun he =>
    h _ (reading_sub he)
  have hna : offset (r - offset (r + while_)) ≠ offset (r + while_) := fun he =>
    h _ (reading_sub he)
  have hbc : ¬r - offset (r - while_) < change := fun hlt => hnb (hb.trans (if_pos hlt))
  have hac : r - offset (r + while_) < change := by
    by_contra hge
    exact hna (ha.trans (if_neg hge))
  unfold resolve
  dsimp only
  rw [if_neg hnb, if_neg hna, reading, hb, if_neg hbc]
  omega

/-- The clock changes at whole units only, and by whole units. -/
structure Whole (offset : ℤ → ℤ) (unit : ℤ) : Prop where
  pos : 0 < unit
  dvd : ∀ t, unit ∣ offset t
  start : ∀ t, offset (t - t % unit) = offset t

theorem Whole.reading_start (h : Whole offset unit) (t : ℤ) :
    reading offset (t - t % unit) = reading offset t - reading offset t % unit := by
  obtain ⟨k, hk⟩ := h.dvd t
  unfold reading
  rw [h.start, hk, Int.add_mul_emod_self_left]
  omega

theorem resolve_isLeast_unit (hsmall : ∀ t, -while_ < offset t ∧ offset t < while_)
    (honce : ChangesOnce offset (r - while_) (r + while_)) (hwhole : Whole offset unit)
    (h : ∃ t, reading offset t - reading offset t % unit = r) :
    IsLeast {t | reading offset t - reading offset t % unit = r} (resolve offset while_ r) := by
  obtain ⟨t, ht⟩ := h
  obtain ⟨hmem, hleast⟩ := resolve_isLeast hsmall honce
    ⟨_, (hwhole.reading_start t).trans ht⟩
  refine ⟨?_, fun u hu => ?_⟩
  · have hr : r % unit = 0 := by
      rw [← ht]
      exact Int.emod_eq_zero_of_dvd (Int.dvd_self_sub_emod)
    show reading offset _ - reading offset _ % unit = r
    rw [show reading offset (resolve offset while_ r) = r from hmem, hr, sub_zero]
  · have hu' := hleast (show reading offset (u - u % unit) = r from
      (hwhole.reading_start u).trans hu)
    have hmod := Int.emod_nonneg u hwhole.pos.ne'
    omega

end U2os.WallClock
