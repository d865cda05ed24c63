import Mathlib.Algebra.Order.Monoid.WithTop
import Mathlib.Order.WithBot
import Mathlib.Tactic.Positivity
import Mathlib.Tactic.Ring

/-!
# Numbers of the language

The finite numbers in 64 bits, each with its value; and the whole numbers that JavaScript has, and
`Infinity`: a natural number is rounded to the nearest one with 53 binary digits, to the even one of
two.

## Main results

* `JsNumber.ofNat_of_lt` : what is below `2 ^ 53` is kept.
-/

namespace U2os

open Nat

/-- A finite `f64`: ± significand · 2 ^ exponent. -/
structure F64 where
  negative : Bool
  significand : ℕ
  exponent : ℤ
  bounded : significand < 2 ^ 53 ∧ -1074 ≤ exponent ∧ exponent ≤ 971

/-- The value of a finite number. -/
def F64.value (f : F64) : ℚ :=
  let size : ℚ :=
    if 0 ≤ f.exponent then f.significand * 2 ^ f.exponent.toNat
    else f.significand / 2 ^ (-f.exponent).toNat
  if f.negative then -size else size

namespace JsNumber

/-- The nearest number; `⊤` is `Infinity`. -/
def ofNat (n : ℕ) : WithTop ℕ :=
  if n < 2 ^ 53 then n
  else
    let unit := 2 ^ (log2 n - 52)
    let quotient := n / unit
    let rest := n % unit
    let rounded := if unit < 2 * rest ∨ (2 * rest = unit ∧ quotient % 2 = 1) then quotient + 1
      else quotient
    if rounded * unit < 2 ^ 1024 then (rounded * unit : ℕ) else ⊤

/-- `[0-9]`, `\d`. -/
def isDigit (c : Char) : Bool := c.isDigit

/-- `Number(..)` of decimal digits. -/
def ofDigits (ds : List Char) : WithTop ℕ :=
  ofNat (ds.foldl (fun n c => 10 * n + (c.toNat - '0'.toNat)) 0)

/-- The product of two positive numbers. -/
def mul : WithTop ℕ → WithTop ℕ → WithTop ℕ
  | (m : ℕ), (n : ℕ) => ofNat (m * n)
  | _, _ => ⊤

/-- `2 ** e`. -/
def pow2 (e : ℕ) : WithTop ℕ := ofNat (2 ^ e)

/-- `x + 1`. -/
def succ : WithTop ℕ → WithTop ℕ
  | ⊤ => ⊤
  | (n : ℕ) => ofNat (n + 1)

theorem ofNat_of_lt {n : ℕ} (h : n < 2 ^ 53) : ofNat n = n := if_pos h

/-- A number that is kept: at most 53 binary digits, and zeros after them. -/
def IsKept (n : ℕ) : Prop := n < 2 ^ 1024 ∧ ∃ m e, m < 2 ^ 53 ∧ n = m * 2 ^ e

/-- A result of rounding. -/
def IsNumber (x : WithTop ℕ) : Prop := ∃ n, x = ofNat n

section Rounding

variable {k n : ℕ}

theorem le_quotient (h : 2 ^ 53 ≤ k) : 2 ^ 52 * 2 ^ (log2 k - 52) ≤ k := by
  have hk : k ≠ 0 := by omega
  have hlog : 53 ≤ log2 k := (le_log2 hk).2 h
  calc 2 ^ 52 * 2 ^ (log2 k - 52) = 2 ^ log2 k := by rw [← pow_add]; congr 1; omega
    _ ≤ k := log2_self_le hk

theorem quotient_lt (h : 2 ^ 53 ≤ k) : k / 2 ^ (log2 k - 52) < 2 ^ 53 := by
  have hk : k ≠ 0 := by omega
  have hlog : 53 ≤ log2 k := (le_log2 hk).2 h
  rw [Nat.div_lt_iff_lt_mul (by positivity), ← pow_add]
  refine lt_of_lt_of_eq lt_log2_self ?_
  congr 1
  omega

theorem mul_pow_lt {m e f : ℕ} (hm : m < 2 ^ 53) (hf : f < e) :
    m * 2 ^ f < 2 ^ 52 * 2 ^ e := by
  calc m * 2 ^ f < 2 ^ 53 * 2 ^ f := Nat.mul_lt_mul_of_pos_right hm (by positivity)
    _ = 2 ^ 52 * 2 ^ (f + 1) := by rw [pow_succ 2 f]; ring
    _ ≤ 2 ^ 52 * 2 ^ e := Nat.mul_le_mul_left _ (Nat.pow_le_pow_right (by decide) hf)

theorem ofNat_cases (h : 2 ^ 53 ≤ k) : ∃ r, (r = k / 2 ^ (log2 k - 52) ∨
    r = k / 2 ^ (log2 k - 52) + 1 ∧ k % 2 ^ (log2 k - 52) ≠ 0) ∧
    ofNat k = if r * 2 ^ (log2 k - 52) < 2 ^ 1024 then
      ((r * 2 ^ (log2 k - 52) : ℕ) : WithTop ℕ) else ⊤ := by
  set unit := 2 ^ (log2 k - 52)
  have hpos : 0 < unit := by positivity
  refine ⟨if unit < 2 * (k % unit) ∨ 2 * (k % unit) = unit ∧ k / unit % 2 = 1 then k / unit + 1
    else k / unit, ?_, ?_⟩
  · split_ifs with hr
    · exact .inr ⟨rfl, by omega⟩
    · exact .inl rfl
  · rw [ofNat, if_neg (by omega)]

theorem isKept_of_ofNat {r : ℕ} (h : ofNat n = (r : ℕ)) : IsKept r := by
  by_cases hn : n < 2 ^ 53
  · rw [ofNat_of_lt hn] at h
    obtain rfl : n = r := WithTop.coe_injective h
    have hmax : 2 ^ 53 ≤ 2 ^ 1024 := pow_le_pow_right₀ one_le_two (by decide)
    exact ⟨lt_of_lt_of_le hn hmax, n, 0, hn, by rw [pow_zero, mul_one]⟩
  · obtain ⟨q, hq, hof⟩ := ofNat_cases (not_lt.1 hn)
    rw [hof] at h
    split_ifs at h with hlt
    · obtain rfl : q * 2 ^ (log2 n - 52) = r := WithTop.coe_injective h
      have hlow := quotient_lt (not_lt.1 hn)
      refine ⟨hlt, ?_⟩
      rcases Nat.lt_or_ge q (2 ^ 53) with hq' | hq'
      · exact ⟨q, _, hq', rfl⟩
      · obtain rfl : q = 2 ^ 53 := by omega
        exact ⟨2 ^ 52, log2 n - 52 + 1, by decide, by rw [pow_succ 2 (log2 n - 52)]; ring⟩
    · exact absurd h WithTop.top_ne_coe

theorem le_ofNat (hn : IsKept n) (h : n ≤ k) : (n : WithTop ℕ) ≤ ofNat k := by
  by_cases hk : k < 2 ^ 53
  · rw [ofNat_of_lt hk]
    exact WithTop.coe_le_coe.2 h
  · obtain ⟨-, m, f, hm, rfl⟩ := hn
    obtain ⟨q, hq, hof⟩ := ofNat_cases (not_lt.1 hk)
    have hlow := le_quotient (not_lt.1 hk)
    rw [hof]
    split_ifs
    · set e := log2 k - 52
      have hfloor : k / 2 ^ e ≤ q := by omega
      refine WithTop.coe_le_coe.2 (le_trans ?_ (Nat.mul_le_mul_right _ hfloor))
      rcases Nat.lt_or_ge f e with hf | hf
      · have hle : 2 ^ 52 ≤ k / 2 ^ e := (Nat.le_div_iff_mul_le (by positivity)).2 hlow
        exact (mul_pow_lt hm hf).le.trans (Nat.mul_le_mul_right _ hle)
      · have hdvd : 2 ^ e ∣ m * 2 ^ f := (Nat.pow_dvd_pow 2 hf).mul_left m
        obtain ⟨c, hc⟩ := hdvd
        rw [hc, mul_comm]
        refine Nat.mul_le_mul_right _ ((Nat.le_div_iff_mul_le (by positivity)).2 ?_)
        rwa [mul_comm, ← hc]
    · exact le_top

theorem ofNat_le (hn : IsKept n) (h : k ≤ n) : ofNat k ≤ (n : WithTop ℕ) := by
  by_cases hk : k < 2 ^ 53
  · rw [ofNat_of_lt hk]
    exact WithTop.coe_le_coe.2 h
  · obtain ⟨hmax, m, f, hm, rfl⟩ := hn
    obtain ⟨q, hq, hof⟩ := ofNat_cases (not_lt.1 hk)
    have hlow := le_quotient (not_lt.1 hk)
    set e := log2 k - 52
    have hf : e ≤ f := by
      by_contra hf
      have := mul_pow_lt hm (not_le.1 hf)
      omega
    obtain ⟨c, hc⟩ : 2 ^ e ∣ m * 2 ^ f := (Nat.pow_dvd_pow 2 hf).mul_left m
    -- The kept number is a multiple of the unit, so the next multiple does not pass it.
    have hq' : q * 2 ^ e ≤ m * 2 ^ f := by
      have hdiv : k = 2 ^ e * (k / 2 ^ e) + k % 2 ^ e := (div_add_mod k (2 ^ e)).symm
      rw [hc] at h ⊢
      rw [mul_comm q]
      refine Nat.mul_le_mul_left _ ?_
      rcases hq with rfl | ⟨rfl, hr⟩
      · exact Nat.div_le_of_le_mul h
      · refine succ_le_of_lt (Nat.lt_of_mul_lt_mul_left (a := 2 ^ e) ?_)
        omega
    rw [hof, if_pos (hq'.trans_lt hmax)]
    exact WithTop.coe_le_coe.2 hq'

theorem ofNat_of_isKept (h : IsKept n) : ofNat n = n :=
  le_antisymm (ofNat_le h le_rfl) (le_ofNat h le_rfl)

theorem ofNat_eq_top {m f : ℕ} (hm : m < 2 ^ 53) (h : 2 ^ 1024 ≤ m * 2 ^ f) :
    ofNat (m * 2 ^ f) = ⊤ := by
  have hlarge : 2 ^ 53 ≤ m * 2 ^ f := le_trans (pow_le_pow_right₀ one_le_two (by decide)) h
  obtain ⟨q, hq, hof⟩ := ofNat_cases hlarge
  have hlow := le_quotient hlarge
  set e := log2 (m * 2 ^ f) - 52
  have hf : e ≤ f := by
    by_contra hf
    have := mul_pow_lt hm (not_le.1 hf)
    omega
  have hdvd : 2 ^ e ∣ m * 2 ^ f := (Nat.pow_dvd_pow 2 hf).mul_left m
  obtain rfl : q = m * 2 ^ f / 2 ^ e := hq.resolve_right fun hr => hr.2 (mod_eq_zero_of_dvd hdvd)
  rw [hof, Nat.div_mul_cancel hdvd, if_neg (not_lt.2 h)]

theorem mul_pow2 (h : IsKept n) (hn : 0 < n) (e : ℕ) :
    mul n (pow2 e) = if n * 2 ^ e < 2 ^ 1024 then ((n * 2 ^ e : ℕ) : WithTop ℕ) else ⊤ := by
  obtain ⟨-, m, f, hm, rfl⟩ := h
  have hpow : m * 2 ^ f * 2 ^ e = m * 2 ^ (f + e) := by rw [pow_add, mul_assoc]
  have hle : 2 ^ e ≤ m * 2 ^ f * 2 ^ e := Nat.le_mul_of_pos_left _ hn
  split_ifs with hlt
  · have hpow2 : pow2 e = ((2 ^ e : ℕ) : WithTop ℕ) :=
      ofNat_of_isKept ⟨hle.trans_lt hlt, 1, e, by decide, (one_mul _).symm⟩
    rw [hpow2]
    exact ofNat_of_isKept ⟨hlt, m, f + e, hm, hpow⟩
  · rcases Nat.lt_or_ge (2 ^ e) (2 ^ 1024) with he | he
    · have hpow2 : pow2 e = ((2 ^ e : ℕ) : WithTop ℕ) :=
        ofNat_of_isKept ⟨he, 1, e, by decide, (one_mul _).symm⟩
      rw [hpow2]
      change ofNat (m * 2 ^ f * 2 ^ e) = ⊤
      rw [hpow]
      exact ofNat_eq_top hm (hpow ▸ not_lt.1 hlt)
    · have hpow2 : pow2 e = ⊤ := by
        have := ofNat_eq_top (m := 1) (f := e) (by decide) (by rwa [one_mul])
        rwa [one_mul] at this
      rw [hpow2]
      rfl

theorem isNumber_ofDigits (ds : List Char) : IsNumber (ofDigits ds) := ⟨_, rfl⟩

variable {x y : WithTop ℕ}

theorem IsNumber.isKept {n : ℕ} (h : IsNumber n) : IsKept n := by
  obtain ⟨k, hk⟩ := h
  exact isKept_of_ofNat hk.symm

theorem IsNumber.le_succ (hx : IsNumber x) : x ≤ succ x := by
  cases x with
  | top => exact le_rfl
  | coe n => exact le_ofNat hx.isKept n.le_succ

theorem IsNumber.succ_le_of_lt (hy : IsNumber y) (h : x < y) : succ x ≤ y := by
  cases x with
  | top => exact absurd h not_top_lt
  | coe n =>
    cases y with
    | top => exact le_top
    | coe k => exact ofNat_le hy.isKept (WithTop.coe_lt_coe.1 h)

end Rounding

end JsNumber

end U2os
