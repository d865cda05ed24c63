import Mathlib.Order.Basic
import Mathlib.Tactic.Common

/-!
# The bytes of a text

A text is a list of characters; its bytes are those of UTF-8.  A text is cut at a byte index, which
must lie between two characters.

## Main results

* `decode_bytes` : the bytes of a text are read as the text.
-/

namespace U2os.Utf8

open List

/-- The bytes of a text. -/
def bytes (cs : List Char) : List UInt8 := cs.flatMap String.utf8EncodeChar

/-- The text of bytes, if they are those of a text. -/
def decode (bs : List UInt8) : Option (List Char) := bs.toByteArray.utf8Decode?.map Array.toList

/-- The text before and after a byte index; none if the index lies within a character or after the
end. -/
def splitAt? : List Char → ℕ → Option (List Char × List Char)
  | cs, 0 => some ([], cs)
  | [], _ + 1 => none
  | c :: cs, n + 1 =>
    if c.utf8Size ≤ n + 1 then
      (splitAt? cs (n + 1 - c.utf8Size)).map fun r => (c :: r.1, r.2)
    else none

/-- The byte is that of a decimal digit. -/
def isAsciiDigit (b : UInt8) : Bool := 48 ≤ b.toNat ∧ b.toNat ≤ 57

variable {cs before after : List Char} {c : Char} {b : UInt8} {i : ℕ}

@[simp] theorem bytes_nil : bytes [] = [] := rfl

@[simp] theorem bytes_cons (c : Char) (cs : List Char) :
    bytes (c :: cs) = String.utf8EncodeChar c ++ bytes cs := rfl

@[simp] theorem bytes_append (cs ds : List Char) : bytes (cs ++ ds) = bytes cs ++ bytes ds :=
  flatMap_append

@[simp] theorem decode_bytes (cs : List Char) : decode (bytes cs) = some cs :=
  congrArg (Option.map Array.toList) utf8Decode?_utf8Encode

theorem utf8EncodeChar_cases (c : Char) :
    (c.toNat < 128 ∧ String.utf8EncodeChar c = [UInt8.ofNat c.toNat]) ∨
      128 ≤ c.toNat ∧ ∀ b ∈ String.utf8EncodeChar c, 128 ≤ b.toNat := by
  by_cases h : c.toNat ≤ 127
  · exact .inl ⟨by omega, if_pos h⟩
  · refine .inr ⟨by omega, ?_⟩
    have hc : ¬c.val.toNat ≤ 127 := h
    unfold String.utf8EncodeChar
    dsimp only
    rw [if_neg hc]
    split_ifs <;>
    · simp only [forall_mem_cons, UInt8.toNat_ofNat']
      refine ⟨by omega, ?_⟩
      simp
      omega

theorem utf8EncodeChar_ascii (h : c.toNat < 128) :
    String.utf8EncodeChar c = [UInt8.ofNat c.toNat] := by
  rcases utf8EncodeChar_cases c with ⟨-, h⟩ | ⟨hge, -⟩
  · exact h
  · omega

theorem toNat_ofNat_ascii (h : c.toNat < 128) : (UInt8.ofNat c.toNat).toNat = c.toNat := by
  rw [UInt8.toNat_ofNat']
  omega

/-- A byte below 128 is a character of its own. -/
theorem exists_split_of_ascii (h : (bytes cs)[i]? = some b) (hb : b.toNat < 128) :
    ∃ before after, cs = before ++ Char.ofNat b.toNat :: after ∧ (bytes before).length = i := by
  induction cs generalizing i with
  | nil => simp at h
  | cons c cs ih =>
    rw [bytes_cons] at h
    by_cases hi : i < (String.utf8EncodeChar c).length
    · rw [getElem?_append_left hi] at h
      have hmem := mem_of_getElem? h
      rcases utf8EncodeChar_cases c with ⟨hlt, hone⟩ | ⟨-, hge⟩
      · rw [hone, length_singleton] at hi
        obtain rfl : i = 0 := by omega
        rw [hone, mem_singleton] at hmem
        refine ⟨[], cs, ?_, rfl⟩
        rw [hmem, toNat_ofNat_ascii hlt, Char.ofNat_toNat, nil_append]
      · exact absurd hb (Nat.not_lt.2 (hge b hmem))
    · rw [getElem?_append_right (Nat.not_lt.1 hi)] at h
      obtain ⟨before, after, rfl, hlen⟩ := ih h
      refine ⟨c :: before, after, rfl, ?_⟩
      rw [bytes_cons, List.length_append, hlen]
      omega

theorem splitAt?_append (before after : List Char) :
    splitAt? (before ++ after) (bytes before).length = some (before, after) := by
  induction before with
  | nil => simp [splitAt?]
  | cons c before ih =>
    have hpos := c.utf8Size_pos
    have hlen : (bytes (c :: before)).length = c.utf8Size + (bytes before).length := by simp
    obtain ⟨n, hn⟩ : ∃ n, (bytes (c :: before)).length = n + 1 :=
      ⟨(bytes (c :: before)).length - 1, by omega⟩
    have hrest : n + 1 - c.utf8Size = (bytes before).length := by omega
    rw [hn, cons_append, splitAt?, if_pos (by omega), hrest, ih]
    rfl

theorem length_bytes_of_isDigit (h : ∀ c ∈ cs, c.isDigit = true) :
    (bytes cs).length = cs.length := by
  induction cs with
  | nil => rfl
  | cons c cs ih =>
    rw [forall_mem_cons] at h
    have hc := (Char.isDigit_iff_toNat.1 h.1).2
    change c.toNat ≤ 57 at hc
    rw [bytes_cons, List.length_append, ih h.2, utf8EncodeChar_ascii (by omega),
      length_singleton, length_cons, Nat.add_comm]

theorem all_isAsciiDigit (cs : List Char) :
    (bytes cs).all isAsciiDigit = cs.all Char.isDigit := by
  induction cs with
  | nil => rfl
  | cons c cs ih =>
    rw [bytes_cons, all_append, ih, all_cons]
    congr 1
    rcases utf8EncodeChar_cases c with ⟨hlt, hone⟩ | ⟨hge, hall⟩
    · rw [hone, all_cons, all_nil, Bool.and_true, Bool.eq_iff_iff,
        Char.isDigit_iff_toNat]
      simp [isAsciiDigit, toNat_ofNat_ascii hlt]
    · have hno : c.isDigit = false := by
        rw [Bool.eq_false_iff, Ne, Char.isDigit_iff_toNat]
        rintro ⟨-, hle⟩
        change c.toNat ≤ 57 at hle
        omega
      rw [hno, all_eq_false]
      obtain ⟨b, hb⟩ := exists_mem_of_ne_nil _ (String.utf8EncodeChar_ne_nil (c := c))
      have hge := hall b hb
      exact ⟨b, hb, by simp [isAsciiDigit]; omega⟩

end U2os.Utf8
