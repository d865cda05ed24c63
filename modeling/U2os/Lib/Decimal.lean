import Mathlib.Data.List.Induction
import Mathlib.Order.Basic
import Mathlib.Tactic.Common
import Mathlib.Tactic.IntervalCases
import Mathlib.Data.Nat.Init

/-!
# Decimal fields of a fixed width

Numbers as they stand in dates: with leading zeros up to the width of the field.  A number that is
too long for its field is not cut off when it is printed.
-/

namespace U2os.Decimal

open List Nat

/-- The last digits of a number. -/
def digits : ℕ → ℕ → List Char
  | 0, _ => []
  | width + 1, n => digits width (n / 10) ++ [digitChar (n % 10)]

/-- A number with leading zeros; the sign counts as a digit. -/
def padded (width : ℕ) : ℤ → List Char
  | .ofNat n => (toDigits 10 n).leftpad width '0'
  | .negSucc n => '-' :: (toDigits 10 (n + 1)).leftpad (width - 1) '0'

variable {width n : ℕ} {ds : List Char}

@[simp] theorem length_digits (width n : ℕ) : (digits width n).length = width := by
  induction width generalizing n with
  | zero => rfl
  | succ width ih => simp [digits, ih]

theorem isDigit_of_mem_digits {c : Char} (h : c ∈ digits width n) : c.isDigit = true := by
  induction width generalizing n with
  | zero => cases h
  | succ width ih =>
    rcases mem_append.1 h with h | h
    · exact ih h
    · rw [mem_singleton.1 h]
      rw [isDigit_digitChar, decide_eq_true_iff]
      exact mod_lt _ (by decide)

theorem not_mem_digits {c : Char} (h : c.isDigit = false) : c ∉ digits width n := fun hc =>
  Bool.false_ne_true (h.symm.trans (isDigit_of_mem_digits hc))

theorem ofDigitChars_digits (width n : ℕ) :
    ofDigitChars 10 (digits width n) 0 = n % 10 ^ width := by
  induction width generalizing n with
  | zero => simp [digits, mod_one]
  | succ width ih =>
    rw [digits, ofDigitChars_append, ih,
      ofDigitChars_cons_digitChar_of_lt_ten (mod_lt _ (by decide)), ofDigitChars_nil,
      Nat.pow_succ', mod_mul]
    omega

theorem ofDigitChars_digits_of_lt (h : n < 10 ^ width) :
    ofDigitChars 10 (digits width n) 0 = n := by
  rw [ofDigitChars_digits, mod_eq_of_lt h]

theorem digits_inj {m : ℕ} (hm : m < 10 ^ width) (hn : n < 10 ^ width)
    (h : digits width m = digits width n) : m = n := by
  rw [← ofDigitChars_digits_of_lt hm, h, ofDigitChars_digits_of_lt hn]

theorem digitChar_of_isDigit {c : Char} (h : c.isDigit = true) :
    c.toNat - '0'.toNat < 10 ∧ digitChar (c.toNat - '0'.toNat) = c := by
  obtain ⟨hlow, hhigh⟩ := Char.isDigit_iff_toNat.1 h
  refine ⟨lt_succ_of_le (Nat.sub_le_sub_right hhigh _), ?_⟩
  have hc : c = Char.ofNat c.toNat := (Char.ofNat_toNat c).symm
  change 48 ≤ c.toNat at hlow
  change c.toNat ≤ 57 at hhigh
  generalize c.toNat = k at hc hlow hhigh
  subst hc
  interval_cases k <;> rfl

theorem digits_ofDigitChars (h : ∀ c ∈ ds, c.isDigit = true) :
    digits ds.length (ofDigitChars 10 ds 0) = ds := by
  induction ds using reverseRecOn with
  | nil => rfl
  | append_singleton ds c ih =>
    obtain ⟨hlt, hchar⟩ := digitChar_of_isDigit (h c (by simp))
    have hread : ofDigitChars 10 (ds ++ [c]) 0 =
        10 * ofDigitChars 10 ds 0 + (c.toNat - '0'.toNat) := by
      rw [ofDigitChars_append, ofDigitChars_cons, ofDigitChars_nil]
    rw [length_append, length_singleton, digits, hread, mul_add_div (by decide),
      div_eq_of_lt hlt, Nat.add_zero, ih fun d hd => h d (mem_append_left _ hd),
      mul_add_mod, mod_eq_of_lt hlt, hchar]

theorem ofDigitChars_lt (h : ∀ c ∈ ds, c.isDigit = true) :
    ofDigitChars 10 ds 0 < 10 ^ ds.length := by
  induction ds using reverseRecOn with
  | nil => decide
  | append_singleton ds c ih =>
    have hlt := (digitChar_of_isDigit (h c (by simp))).1
    have ih := ih fun d hd => h d (mem_append_left _ hd)
    rw [ofDigitChars_append, ofDigitChars_cons, ofDigitChars_nil, length_append,
      length_singleton, Nat.pow_succ]
    omega

/-- A number that has no more digits than the width is written with leading zeros. -/
theorem padded_eq_digits (h : n < 10 ^ width) (hpos : 0 < width) :
    padded width n = digits width n := by
  have hlen : (toDigits 10 n).length ≤ width :=
    (length_toDigits_le_iff (by decide) hpos).2 h
  have hdigit : ∀ c ∈ padded width n, c.isDigit = true := by
    intro c hc
    rcases mem_append.1 hc with hc | hc
    · rw [(mem_replicate.1 hc).2]
      rfl
    · exact isDigit_of_mem_toDigits (by decide) le_rfl hc
  have hlength : (padded width n).length = width := by
    show ((toDigits 10 n).leftpad width '0').length = width
    rw [length_leftpad]
    omega
  have hvalue : ofDigitChars 10 (padded width n) 0 = n := by
    show ofDigitChars 10 (replicate _ '0' ++ toDigits 10 n) 0 = n
    rw [ofDigitChars_append, ofDigitChars_replicate_zero, Nat.mul_zero,
      ofDigitChars_ten_toDigits]
  rw [← digits_ofDigitChars hdigit, hlength, hvalue]

theorem toDigits_ofDigitChars (hne : ds ≠ []) (h : ∀ c ∈ ds, c.isDigit = true)
    (hzero : ds = ['0'] ∨ ds.head? ≠ some '0') :
    toDigits 10 (ofDigitChars 10 ds 0) = ds := by
  rcases hzero with rfl | hzero
  · rfl
  have hpadded : padded ds.length (ofDigitChars 10 ds 0) = ds := by
    rw [padded_eq_digits (ofDigitChars_lt h) (length_pos_iff.2 hne), digits_ofDigitChars h]
  have hpad : replicate (ds.length - (toDigits 10 (ofDigitChars 10 ds 0)).length) '0' ++
      toDigits 10 (ofDigitChars 10 ds 0) = ds := hpadded
  -- a zero put before it would be its first digit
  cases hk : ds.length - (toDigits 10 (ofDigitChars 10 ds 0)).length with
  | zero => rwa [hk] at hpad
  | succ k =>
    rw [hk] at hpad
    exact absurd (by rw [← hpad]; rfl) hzero

theorem head?_toDigits_ne (hpos : 0 < n) : (toDigits 10 n).head? ≠ some '0' := by
  induction n using Nat.strongRecOn with
  | ind n ih =>
    rw [toDigits_eq_if (by decide)]
    split_ifs with hn
    · interval_cases n <;> decide
    · obtain ⟨c, cs, hcs⟩ := exists_cons_of_ne_nil (toDigits_ne_nil (n := n / 10) (b := 10))
      have hfirst := ih _ (Nat.div_lt_self hpos (by decide)) (Nat.div_pos (not_lt.1 hn) (by decide))
      rwa [hcs] at hfirst ⊢

end U2os.Decimal
