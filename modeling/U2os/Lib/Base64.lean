import Mathlib.Data.List.Basic
import Mathlib.Tactic.IntervalCases

/-!
# Base64

Bytes as digits of six bits, in the standard alphabet with padding and in that for URLs without.
What is read passes over every character that is no digit, and so over line breaks and the padding.

## Main results

* `decode_encode`, `decode_encodePadded` : what is written reads as it was.
-/

namespace U2os.Base64

open List

/-- The alphabets, which differ in the last two digits. -/
inductive Alphabet where
  | standard
  | url

/-- The letters and the figures. -/
def common : List Char :=
  "ABCDEFGHIJKLMNOPQRSTUVWXYZabcdefghijklmnopqrstuvwxyz0123456789".toList

def digits : Alphabet → List Char
  | .standard => common ++ ['+', '/']
  | .url => common ++ ['-', '_']

/-- The digit of a number. -/
def digit (a : Alphabet) (n : ℕ) : Char := (digits a).getD n 'A'

/-- The number of a digit. -/
def value? (a : Alphabet) (c : Char) : Option ℕ := (digits a).findIdx? (· == c)

theorem value?_digit (a : Alphabet) : ∀ n < 64, value? a (digit a n) = some n := by
  cases a <;> decide

theorem digit_mem (a : Alphabet) : ∀ n < 64, digit a n ∈ digits a := by
  cases a <;> decide

theorem value?_pad (a : Alphabet) : value? a '=' = none := by
  cases a <;> decide

/-- The numbers of six bits. -/
def sextets : List UInt8 → List ℕ
  | a :: b :: c :: rest =>
    a.toNat / 4 :: (a.toNat % 4 * 16 + b.toNat / 16) :: (b.toNat % 16 * 4 + c.toNat / 64) ::
      c.toNat % 64 :: sextets rest
  | [a, b] => [a.toNat / 4, a.toNat % 4 * 16 + b.toNat / 16, b.toNat % 16 * 4]
  | [a] => [a.toNat / 4, a.toNat % 4 * 16]
  | [] => []

/-- The bytes of numbers of six bits. -/
def octets : List ℕ → List UInt8
  | p :: q :: r :: s :: rest =>
    UInt8.ofNat (p * 4 + q / 16) :: UInt8.ofNat (q % 16 * 16 + r / 4) ::
      UInt8.ofNat (r % 4 * 64 + s) :: octets rest
  | [p, q, r] => [UInt8.ofNat (p * 4 + q / 16), UInt8.ofNat (q % 16 * 16 + r / 4)]
  | [p, q] => [UInt8.ofNat (p * 4 + q / 16)]
  | _ => []

theorem ofNat_eq {n : ℕ} {b : UInt8} (h : n = b.toNat) : UInt8.ofNat n = b := by
  rw [h, UInt8.ofNat_toNat]

@[simp] theorem octets_sextets (bs : List UInt8) : octets (sextets bs) = bs := by
  fun_induction sextets bs with
  | case1 a b c rest ih =>
    have ha := a.toNat_lt
    have hb := b.toNat_lt
    have hc := c.toNat_lt
    rw [octets, ih, ofNat_eq (b := a) (by omega), ofNat_eq (b := b) (by omega),
      ofNat_eq (b := c) (by omega)]
  | case2 a b =>
    have ha := a.toNat_lt
    have hb := b.toNat_lt
    rw [octets, ofNat_eq (b := a) (by omega), ofNat_eq (b := b) (by omega)]
  | case3 a =>
    have ha := a.toNat_lt
    rw [octets, ofNat_eq (b := a) (by omega)]
  | case4 => rfl

theorem lt_of_mem_sextets {bs : List UInt8} : ∀ n ∈ sextets bs, n < 64 := by
  fun_induction sextets bs with
  | case1 a b c rest ih =>
    have ha := a.toNat_lt
    have hb := b.toNat_lt
    have hc := c.toNat_lt
    simp only [forall_mem_cons]
    exact ⟨by omega, by omega, by omega, by omega, ih⟩
  | case2 a b =>
    have ha := a.toNat_lt
    have hb := b.toNat_lt
    simp only [forall_mem_cons]
    exact ⟨by omega, by omega, by omega, nofun⟩
  | case3 a =>
    have ha := a.toNat_lt
    simp only [forall_mem_cons]
    exact ⟨by omega, by omega, nofun⟩
  | case4 => exact nofun

/-- The digits of bytes. -/
def encode (a : Alphabet) (bs : List UInt8) : List Char := (sextets bs).map (digit a)

/-- The digits of bytes, padded to groups of four. -/
def encodePadded (bs : List UInt8) : List Char :=
  encode .standard bs ++ replicate ((3 - bs.length % 3) % 3) '='

/-- The bytes of digits, whatever stands between them. -/
def decode (a : Alphabet) (cs : List Char) : List UInt8 := octets (cs.filterMap (value? a))

variable {a : Alphabet} {bs : List UInt8}

theorem filterMap_value?_encode : (encode a bs).filterMap (value? a) = sextets bs := by
  rw [encode, filterMap_map]
  have hsome : ∀ n ∈ sextets bs, (value? a ∘ digit a) n = some n := fun n hn =>
    value?_digit a n (lt_of_mem_sextets n hn)
  rw [filterMap_congr hsome, filterMap_some]

@[simp] theorem decode_encode : decode a (encode a bs) = bs := by
  rw [decode, filterMap_value?_encode, octets_sextets]

@[simp] theorem decode_encodePadded : decode .standard (encodePadded bs) = bs := by
  have hpad : ∀ n, (replicate n '=').filterMap (value? .standard) = [] := fun n => by
    simp [value?_pad]
  rw [decode, encodePadded, filterMap_append, filterMap_value?_encode, hpad, append_nil,
    octets_sextets]

/-- The characters of padded digits. -/
def paddedDigits : List Char := '=' :: digits .standard

theorem mem_encodePadded {c : Char} (h : c ∈ encodePadded bs) : c ∈ paddedDigits := by
  rcases mem_append.1 h with h | h
  · obtain ⟨n, hn, rfl⟩ := mem_map.1 h
    exact mem_cons_of_mem _ (digit_mem .standard n (lt_of_mem_sextets n hn))
  · exact (mem_replicate.1 h).2 ▸ mem_cons_self

theorem forall_encodePadded {p : Char → Prop} (h : ∀ c ∈ paddedDigits, p c) :
    ∀ c ∈ encodePadded bs, p c :=
  fun c hc => h c (mem_encodePadded hc)

end U2os.Base64
