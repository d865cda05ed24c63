import U2os.Lib.Decimal
import U2os.Lib.Fallible
import U2os.Lib.Utf8
import Mathlib.Data.List.Basic

/-!
# The extended metadata of an archive

`pax` of `archive-reader.js`: records `length SP key=value LF`, of which the length counts the whole
record.  Two decoders are more generous than the format.  The digits of the length lose their highest
bit before they are read, and a byte order mark at the start of a key or of a value is dropped.

Main results.
* `pax_ok_iff`: what is accepted, and what is made of it.
* `pax_spec`: where the decoders make a difference.
-/

namespace U2os.Server.Backup.Archive

open Fallible Decimal List

abbrev Bytes := List UInt8

abbrev Text := List Char

/-- How `pax` ends without values. -/
inductive Stop where
  | invalid (reason : String)
  /-- A byte outside of the data is read. -/
  | outside
  /-- The loop goes on. -/
  | fuel
  deriving DecidableEq

/-- The data is refused. -/
def Stop.isInvalid : Stop → Bool
  | invalid _ => true
  | _ => false

def malformed : Stop := .invalid "archive extended metadata is malformed"

/-- `toString('ascii')`, of a byte: the highest bit is dropped. -/
def ascii (b : UInt8) : Char := Char.ofNat (b.toNat % 128)

/-- A decoder that is not told to keep it drops a byte order mark. -/
def stripBom (s : Text) : Text := if s.head? = some '\uFEFF' then s.tail else s

def utf8 (bytes : Bytes) : Except Stop Text :=
  match Utf8.decode bytes with
  | some s => .ok (stripBom s)
  | none => .error (.invalid "archive text encoding is invalid")

def sizeDecimal (value : Text) : Except Stop ℕ :=
  if (value = ['0'] ∨ value ≠ [] ∧ value.head? ≠ some '0' ∧ value.all Char.isDigit = true) ∧
      Nat.ofDigitChars 10 value 0 < 2 ^ 53 then
    .ok (Nat.ofDigitChars 10 value 0)
  else .error (.invalid "archive size metadata is invalid")

def metadataKeys : List Text :=
  ["path", "size", "mtime", "atime", "ctime", "uid", "gid", "uname", "gname", "SCHILY.dev",
    "SCHILY.ino", "SCHILY.nlink", "LIBARCHIVE.creationtime"].map String.toList

/-- `ignoredAttribute`. -/
def isIgnored (key : Text) : Bool :=
  "LIBARCHIVE.xattr.".toList.isPrefixOf key || "SCHILY.xattr.".toList.isPrefixOf key

/-- What is before and after the first of a byte. -/
def splitFirst (x : UInt8) : Bytes → Option (Bytes × Bytes)
  | [] => none
  | b :: bs => if b = x then some ([], bs) else (splitFirst x bs).map fun r => (b :: r.1, r.2)

/-- A record, as it is written. -/
structure Raw where
  digits : Bytes
  key : Bytes
  value : Bytes

def Raw.bytes (r : Raw) : Bytes := r.digits ++ 32 :: (r.key ++ 61 :: (r.value ++ [10]))

/-- `data[i]`. -/
def byteAt (data : Bytes) (i : ℕ) : Except Stop UInt8 :=
  match data[i]? with
  | some b => .ok b
  | none => .error .outside

/-- The first record of what is left of the data, and what follows. -/
def next (rest : Bytes) : Except Stop (Raw × Bytes) :=
  match splitFirst 32 rest with
  | none => .error malformed
  | some (digits, _) =>
    if 10 < digits.length then .error malformed
    else do
      let length ← sizeDecimal (digits.map ascii)
      if length ≤ digits.length + 2 ∨ rest.length < length then .error malformed
      else do
        let last ← byteAt rest (length - 1)
        if last ≠ 10 then .error malformed
        else
          match splitFirst 61 ((rest.take (length - 1)).drop (digits.length + 1)) with
          | none => .error malformed
          | some (key, value) =>
            if key = [] then .error malformed else .ok (⟨digits, key, value⟩, rest.drop length)

/-- `values`, in the order in which they are set. -/
abbrev Values := List (Text × Text)

/-- The key and the value of a record. -/
def enter (seen : List Text) (values : Values) (r : Raw) : Except Stop (List Text × Values) := do
  let key ← utf8 r.key
  if metadataKeys.contains key = false ∧ isIgnored key = false ∨ seen.contains key then
    .error (.invalid "archive extended metadata is unsupported or ambiguous")
  else if isIgnored key then .ok (key :: seen, values)
  else do
    let value ← utf8 r.value
    .ok (key :: seen, values ++ [(key, value)])

def loop : ℕ → Bytes → List Text → Values → Except Stop Values
  | _, [], _, values => .ok values
  | 0, _ :: _, _, _ => .error .fuel
  | fuel + 1, b :: bs, seen, values => do
    let r ← next (b :: bs)
    let entered ← enter seen values r.1
    loop fuel r.2 entered.1 entered.2

def pax (data : Bytes) : Except Stop Values := loop data.length data [] []

/-- How the digits of a length and the text of a key are taken. -/
structure Reading where
  digit : UInt8 → Char
  text : Text → Text

/-- As they are. -/
def asWritten : Reading := ⟨fun b => Char.ofNat b.toNat, id⟩

/-- As the decoders take them. -/
def asDecoded : Reading := ⟨ascii, stripBom⟩

variable {R : Reading} {r : Raw} {rs rs' : List Raw} {data rest t : Bytes} {x : UInt8}

/-- The key is supported and the value a text, or the key is one that is ignored. -/
def Reading.Named (R : Reading) (r : Raw) : Prop :=
  ∃ s, Utf8.decode r.key = some s ∧ (isIgnored (R.text s) = true ∨
    metadataKeys.contains (R.text s) = true ∧ (Utf8.decode r.value).isSome = true)

/-- A record whose length is in at most ten digits its own, and whose key is supported. -/
structure Reading.Valid (R : Reading) (r : Raw) : Prop where
  length : r.digits.map R.digit = Nat.toDigits 10 r.bytes.length
  short : r.digits.length ≤ 10
  key_ne : r.key ≠ []
  key : 61 ∉ r.key
  named : R.Named r

/-- The text of a key. -/
def Reading.keyOf (R : Reading) (r : Raw) : Text := R.text ((Utf8.decode r.key).getD [])

/-- The data is these records, with keys that are pairwise distinct. -/
structure Reading.Reads (R : Reading) (data : Bytes) (rs : List Raw) : Prop where
  data : data = rs.flatMap Raw.bytes
  valid : ∀ r ∈ rs, R.Valid r
  nodup : (rs.map R.keyOf).Nodup

/-- All bytes of the length are ASCII, and no byte order mark is before the key. -/
def Raw.Plain (r : Raw) : Prop :=
  (∀ b ∈ r.digits, b.toNat < 128) ∧ ∀ s, Utf8.decode r.key = some s → s.head? ≠ some '\uFEFF'

/-- Supported keys with their values. -/
structure Metadata where
  entries : Values
  supported : ∀ e ∈ entries, metadataKeys.contains e.1 = true
  nodup : (entries.map Prod.fst).Nodup

/-- The length of a record, for the length of what follows its digits. -/
def recordLength (n : ℕ) : ℕ :=
  let width := (Nat.toDigits 10 n).length
  if (Nat.toDigits 10 (n + width)).length = width then n + width else n + width + 1

/-- The record of a value. -/
def record (e : Text × Text) : Raw where
  digits := Utf8.bytes
    (Nat.toDigits 10 (recordLength (Raw.bytes ⟨[], Utf8.bytes e.1, Utf8.bytes e.2⟩).length))
  key := Utf8.bytes e.1
  value := Utf8.bytes e.2

def Metadata.encode (m : Metadata) : Bytes := m.entries.flatMap fun e => (record e).bytes

example : pax "11 path=ab\n".toUTF8.data.toList = .ok [("path".toList, "ab".toList)] := by
  decide +kernel

/-! ### One record -/

theorem splitFirst_eq_some {a b : Bytes} :
    splitFirst x data = some (a, b) ↔ data = a ++ x :: b ∧ x ∉ a := by
  induction data generalizing a b with
  | nil => simp [splitFirst]
  | cons c cs ih =>
    rw [splitFirst]
    by_cases hc : c = x
    · rw [if_pos hc, hc]
      cases a <;> simp +contextual [eq_comm]
    · rw [if_neg hc]
      cases a with
      | nil => simp [hc]
      | cons d a =>
        rw [Option.map_eq_some_iff]
        constructor
        · rintro ⟨⟨a', b'⟩, h, heq⟩
          obtain ⟨rfl, hx⟩ := ih.1 h
          obtain ⟨⟨rfl, rfl⟩, rfl⟩ := by simpa using heq
          exact ⟨rfl, by simp [hx, Ne.symm hc]⟩
        · rintro ⟨heq, hx⟩
          obtain ⟨rfl, rfl⟩ := by simpa using heq
          exact ⟨(a, b), ih.2 ⟨rfl, fun h => hx (mem_cons_of_mem _ h)⟩, rfl⟩

variable {s : Text}

/-- A size is read just from its decimal digits. -/
theorem sizeDecimal_eq_ok {n : ℕ} :
    sizeDecimal s = .ok n ↔ s = Nat.toDigits 10 n ∧ n < 2 ^ 53 := by
  constructor
  · intro h
    unfold sizeDecimal at h
    split_ifs at h with hs
    obtain rfl := Except.ok.inj h
    obtain ⟨hform, hlt⟩ := hs
    refine ⟨(toDigits_ofDigitChars ?_ ?_ ?_).symm, hlt⟩
    · rcases hform with rfl | h
      · simp
      · exact h.1
    · rcases hform with rfl | h
      · simp
      · exact all_eq_true.1 h.2.2
    · exact hform.imp_right fun h => h.2.1
  · rintro ⟨rfl, hlt⟩
    have hdigit : ∀ c ∈ Nat.toDigits 10 n, c.isDigit = true := fun c hc =>
      Nat.isDigit_of_mem_toDigits (by decide) le_rfl hc
    have hfirst : Nat.toDigits 10 n = ['0'] ∨ (Nat.toDigits 10 n).head? ≠ some '0' := by
      rcases Nat.eq_zero_or_pos n with rfl | hpos
      · exact .inl rfl
      · exact .inr (head?_toDigits_ne hpos)
    rw [sizeDecimal, Nat.ofDigitChars_ten_toDigits, if_pos ⟨hfirst.imp_right fun h =>
      ⟨Nat.toDigits_ne_nil, h, all_eq_true.2 hdigit⟩, hlt⟩]

theorem length_bytes : r.bytes.length = r.digits.length + r.key.length + r.value.length + 3 := by
  simp only [Raw.bytes, List.length_append, length_cons, length_nil]
  omega

/-- A record of which the length is read as its own. -/
structure Loose (r : Raw) : Prop where
  length : r.digits.map ascii = Nat.toDigits 10 r.bytes.length
  short : r.digits.length ≤ 10
  key_ne : r.key ≠ []
  key : 61 ∉ r.key

theorem space_notMem_digits {n : ℕ} {digits : Bytes} (h : digits.map ascii = Nat.toDigits 10 n) :
    32 ∉ digits := by
  intro hmem
  have hc : ascii 32 ∈ Nat.toDigits 10 n := h ▸ mem_map_of_mem hmem
  exact absurd (Nat.isDigit_of_mem_toDigits (by decide) le_rfl hc) (by decide)

theorem length_lt {n k : ℕ} {digits : Bytes} (h : digits.map ascii = Nat.toDigits 10 n)
    (hk : digits.length ≤ k) (hpos : 0 < k) : n < 10 ^ k := by
  rw [← length_map (f := ascii), h] at hk
  exact (Nat.length_toDigits_le_iff (by decide) hpos).1 hk

theorem next_append (h : Loose r) (t : Bytes) : next (r.bytes ++ t) = .ok (r, t) := by
  have hsplit : splitFirst 32 (r.bytes ++ t) =
      some (r.digits, r.key ++ 61 :: (r.value ++ [10]) ++ t) :=
    splitFirst_eq_some.2 ⟨by simp [Raw.bytes], space_notMem_digits h.length⟩
  have hsize : sizeDecimal (r.digits.map ascii) = .ok r.bytes.length :=
    sizeDecimal_eq_ok.2 ⟨h.length, (length_lt h.length h.short (by decide)).trans (by decide)⟩
  have hkey : 0 < r.key.length := length_pos_iff.2 h.key_ne
  have hlen := length_bytes (r := r)
  have hlong : ¬(r.bytes.length ≤ r.digits.length + 2 ∨ (r.bytes ++ t).length < r.bytes.length) := by
    rw [List.length_append]
    omega
  have hbody : r.bytes = r.digits ++ 32 :: (r.key ++ 61 :: r.value) ++ [10] := by simp [Raw.bytes]
  have hcut : r.bytes.length - 1 = (r.digits ++ 32 :: (r.key ++ 61 :: r.value)).length := by
    rw [hbody, List.length_append, length_singleton, Nat.add_sub_cancel]
  have hlast : byteAt (r.bytes ++ t) (r.bytes.length - 1) = .ok 10 := by
    rw [byteAt, hcut, hbody, append_assoc, getElem?_append_right le_rfl]
    simp
  have hrecord : ((r.bytes ++ t).take (r.bytes.length - 1)).drop (r.digits.length + 1) =
      r.key ++ 61 :: r.value := by
    rw [hcut, hbody, append_assoc, take_left', ← drop_drop, drop_left']
    · rfl
    · rfl
    · rfl
  have hequals : splitFirst 61 (r.key ++ 61 :: r.value) = some (r.key, r.value) :=
    splitFirst_eq_some.2 ⟨rfl, h.key⟩
  simp only [next, hsplit, if_neg (not_lt.2 h.short), hsize, bind, Except.bind, if_neg hlong, hlast,
    hrecord, hequals, if_neg h.key_ne, drop_left, ne_eq, not_true_eq_false, if_false]

/-- A record is read as it was written. -/
theorem next_eq_ok (h : next rest = .ok (r, t)) : Loose r ∧ rest = r.bytes ++ t := by
  unfold next at h
  split at h
  · cases h
  next digits _ hsplit =>
    obtain ⟨hrest, hspace⟩ := splitFirst_eq_some.1 hsplit
    split_ifs at h with hten
    obtain ⟨length, hsize, h⟩ := bind_eq_ok.1 h
    split_ifs at h with hlong
    obtain ⟨last, hlast, h⟩ := bind_eq_ok.1 h
    split_ifs at h with hline
    split at h
    · cases h
    next key value hequals =>
      split_ifs at h with hkey
      obtain ⟨rfl, rfl⟩ := Prod.mk.inj (Except.ok.inj h)
      obtain ⟨hrecord, heq⟩ := splitFirst_eq_some.1 hequals
      obtain ⟨hdigits, -⟩ := sizeDecimal_eq_ok.1 hsize
      obtain ⟨hshort, hfits⟩ := not_or.1 hlong
      -- the data up to the length, put together again
      have hend : rest.take length = rest.take (length - 1) ++ [10] := by
        unfold byteAt at hlast
        split at hlast
        next b hb =>
          obtain rfl := Except.ok.inj hlast
          rw [not_ne_iff.1 hline] at hb
          have hsucc : length = length - 1 + 1 := by omega
          rw [hsucc, take_add_one, Nat.add_sub_cancel, hb]
          rfl
        · cases hlast
      have hstart : (rest.take (length - 1)).take (digits.length + 1) = digits ++ [32] := by
        have hmin : min (digits.length + 1) (length - 1) = digits.length + 1 := by omega
        rw [take_take, hmin, hrest, take_length_add_append]
        rfl
      have hbytes : rest.take length = Raw.bytes ⟨digits, key, value⟩ := by
        rw [hend, ← take_append_drop (digits.length + 1) (rest.take (length - 1)), hstart, hrecord]
        simp [Raw.bytes]
      have hlength : (Raw.bytes ⟨digits, key, value⟩).length = length := by
        rw [← hbytes, length_take]
        omega
      refine ⟨⟨by rw [hlength]; exact hdigits, not_lt.1 hten, hkey, heq⟩, ?_⟩
      rw [← hbytes, take_append_drop]

theorem next_error {e : Stop} (h : next rest = .error e) : e.isInvalid = true := by
  have hinvalid {β : Type} {reason : String}
      (h : (.error (.invalid reason) : Except Stop β) = .error e) : e.isInvalid = true :=
    Except.error.inj h ▸ rfl
  unfold next at h
  split at h
  · exact hinvalid h
  split_ifs at h
  · exact hinvalid h
  rcases bind_eq_error.1 h with h | ⟨length, -, h⟩
  · unfold sizeDecimal at h
    split_ifs at h
    exact hinvalid h
  split_ifs at h with hlong
  · exact hinvalid h
  rcases bind_eq_error.1 h with h | ⟨last, -, h⟩
  · -- the last byte of the record is in the data
    rw [byteAt, getElem?_eq_getElem (by omega)] at h
    cases h
  split_ifs at h
  · exact hinvalid h
  split at h
  · exact hinvalid h
  split_ifs at h
  exact hinvalid h

/-! ### All records -/

variable {seen : List Text} {values out : Values} {fuel : ℕ}

/-- What a record adds to the values. -/
def entryOf (r : Raw) : Option (Text × Text) :=
  if isIgnored (asDecoded.keyOf r) then none
  else some (asDecoded.keyOf r, stripBom ((Utf8.decode r.value).getD []))

theorem enter_eq_ok {e : List Text × Values} : enter seen values r = .ok e ↔
    (asDecoded.Named r ∧ asDecoded.keyOf r ∉ seen) ∧
      e = (asDecoded.keyOf r :: seen, values ++ (entryOf r).toList) := by
  unfold enter utf8 Reading.Named entryOf Reading.keyOf asDecoded
  cases hkey : Utf8.decode r.key with
  | none => simp [bind, Except.bind]
  | some s =>
    have hmem : stripBom s ∉ seen ↔ seen.contains (stripBom s) = false := by simp
    simp only [bind, Except.bind, Option.getD_some, Option.some.injEq, exists_eq_left', hmem]
    generalize metadataKeys.contains (stripBom s) = supported
    generalize isIgnored (stripBom s) = ignored
    generalize seen.contains (stripBom s) = again
    cases ignored <;> cases supported <;> cases again <;> cases Utf8.decode r.value <;>
      simp [@eq_comm _ _ e]

theorem utf8_error {bs : Bytes} {e : Stop} (h : utf8 bs = .error e) : e.isInvalid = true := by
  unfold utf8 at h
  split at h <;> cases h
  rfl

theorem enter_error {e : Stop} (h : enter seen values r = .error e) : e.isInvalid = true := by
  rcases bind_eq_error.1 h with h | ⟨key, -, h⟩
  · exact utf8_error h
  split_ifs at h
  · exact Except.error.inj h ▸ rfl
  rcases bind_eq_error.1 h with h | ⟨value, -, h⟩
  · exact utf8_error h
  · cases h

theorem Reading.Valid.loose (h : asDecoded.Valid r) : Loose r := ⟨h.length, h.short, h.key_ne, h.key⟩

theorem reads_of_loop (h : loop fuel rest seen values = .ok out) :
    ∃ rs, asDecoded.Reads rest rs ∧ (∀ r ∈ rs, asDecoded.keyOf r ∉ seen) ∧
      out = values ++ rs.filterMap entryOf := by
  induction fuel generalizing rest seen values with
  | zero =>
    cases rest with
    | nil => exact ⟨[], ⟨rfl, by simp, by simp⟩, by simp, by simpa [loop] using h.symm⟩
    | cons b bs => cases h
  | succ fuel ih =>
    cases rest with
    | nil => exact ⟨[], ⟨rfl, by simp, by simp⟩, by simp, by simpa [loop] using h.symm⟩
    | cons b bs =>
      obtain ⟨⟨r, t⟩, hnext, h⟩ := bind_eq_ok.1 h
      obtain ⟨e, henter, h⟩ := bind_eq_ok.1 h
      obtain ⟨hloose, hrest⟩ := next_eq_ok hnext
      obtain ⟨⟨hnamed, hnew⟩, rfl⟩ := enter_eq_ok.1 henter
      obtain ⟨rs, hreads, hfresh, rfl⟩ := ih h
      refine ⟨r :: rs, ⟨?_, ?_, ?_⟩, ?_, ?_⟩
      · rw [hrest, flatMap_cons, ← hreads.data]
      · exact forall_mem_cons.2
          ⟨⟨hloose.length, hloose.short, hloose.key_ne, hloose.key, hnamed⟩, hreads.valid⟩
      · rw [map_cons, nodup_cons]
        refine ⟨fun hmem => ?_, hreads.nodup⟩
        obtain ⟨r', hr', heq⟩ := mem_map.1 hmem
        exact hfresh r' hr' (by simp [heq])
      · exact forall_mem_cons.2 ⟨hnew, fun r' hr' => fun hmem =>
          hfresh r' hr' (mem_cons_of_mem _ hmem)⟩
      · rw [filterMap_cons, append_assoc]
        cases entryOf r <;> simp

/-- The records are read one after another, where no key comes twice. -/
theorem loop_of_reads (h : asDecoded.Reads rest rs) (hseen : ∀ r ∈ rs, asDecoded.keyOf r ∉ seen)
    (hfuel : rest.length ≤ fuel) :
    loop fuel rest seen values = .ok (values ++ rs.filterMap entryOf) := by
  induction rs generalizing fuel rest seen values with
  | nil =>
    obtain rfl : rest = [] := h.data
    cases fuel <;> simp [loop]
  | cons r rs ih =>
    obtain ⟨hr, hrs⟩ := forall_mem_cons.1 h.valid
    obtain ⟨hnew, hseen⟩ := forall_mem_cons.1 hseen
    have hnodup := h.nodup
    rw [map_cons, nodup_cons] at hnodup
    have hrest : rest = r.bytes ++ rs.flatMap Raw.bytes := by rw [h.data, flatMap_cons]
    have hlen := length_bytes (r := r)
    rw [hrest, List.length_append] at hfuel
    obtain ⟨fuel, rfl⟩ : ∃ n, fuel = n + 1 := ⟨fuel - 1, by omega⟩
    obtain ⟨b, bs, hcons⟩ := exists_cons_of_ne_nil
      (ne_nil_of_length_pos (by omega : 0 < r.bytes.length))
    have hstep : loop (fuel + 1) rest seen values = (do
        let x ← next rest
        let entered ← enter seen values x.1
        loop fuel x.2 entered.1 entered.2) := by
      rw [hrest, hcons]
      rfl
    rw [hstep, hrest, next_append hr.loose]
    have henter : enter seen values r =
        .ok (asDecoded.keyOf r :: seen, values ++ (entryOf r).toList) :=
      enter_eq_ok.2 ⟨⟨hr.named, hnew⟩, rfl⟩
    simp only [bind, Except.bind, henter]
    rw [ih ⟨rfl, hrs, hnodup.2⟩ ?_ (by omega), filterMap_cons, append_assoc]
    · cases entryOf r <;> simp
    · intro r' hr' hmem
      rcases mem_cons.1 hmem with heq | hmem
      · exact hnodup.1 (mem_map.2 ⟨r', hr', heq⟩)
      · exact hseen r' hr' hmem

theorem pax_ok_iff : pax data = .ok out ↔
    ∃ rs, asDecoded.Reads data rs ∧ out = rs.filterMap entryOf := by
  constructor
  · intro h
    obtain ⟨rs, hreads, -, hout⟩ := reads_of_loop h
    exact ⟨rs, hreads, by simpa using hout⟩
  · rintro ⟨rs, hreads, rfl⟩
    exact loop_of_reads hreads (by simp) le_rfl

theorem loop_error {e : Stop} (hfuel : rest.length ≤ fuel)
    (h : loop fuel rest seen values = .error e) : e.isInvalid = true := by
  induction fuel generalizing rest seen values with
  | zero =>
    obtain rfl := length_eq_zero_iff.1 (Nat.le_zero.1 hfuel)
    cases h
  | succ fuel ih =>
    cases rest with
    | nil => cases h
    | cons b bs =>
      rcases bind_eq_error.1 h with h | ⟨⟨r, t⟩, hnext, h⟩
      · exact next_error h
      rcases bind_eq_error.1 h with h | ⟨entered, -, h⟩
      · exact enter_error h
      refine ih ?_ h
      have hlen := congrArg List.length (next_eq_ok hnext).2
      have hpos := length_bytes (r := r)
      rw [List.length_append] at hlen
      show t.length ≤ fuel
      omega

theorem records_unique (h : ∀ r ∈ rs, Loose r) (h' : ∀ r ∈ rs', Loose r)
    (heq : rs.flatMap Raw.bytes = rs'.flatMap Raw.bytes) : rs = rs' := by
  have hne (r : Raw) (t : Bytes) : r.bytes ++ t ≠ [] := by simp [Raw.bytes]
  induction rs generalizing rs' with
  | nil =>
    cases rs' with
    | nil => rfl
    | cons r' rs' => exact absurd heq.symm (hne r' _)
  | cons r rs ih =>
    cases rs' with
    | nil => exact absurd heq (hne r _)
    | cons r' rs' =>
      obtain ⟨hr, hrs⟩ := forall_mem_cons.1 h
      obtain ⟨hr', hrs'⟩ := forall_mem_cons.1 h'
      rw [flatMap_cons, flatMap_cons] at heq
      have hnext := next_append hr (rs.flatMap Raw.bytes)
      rw [heq, next_append hr'] at hnext
      obtain ⟨rfl, htail⟩ := Prod.mk.inj (Except.ok.inj hnext)
      rw [ih hrs hrs' htail.symm]

theorem stripBom_eq_self : stripBom s = s ↔ s.head? ≠ some '\uFEFF' := by
  unfold stripBom
  cases s with
  | nil => simp
  | cons c s => split_ifs with h <;> simp_all

theorem ascii_of_lt {b : UInt8} (h : b.toNat < 128) : ascii b = Char.ofNat b.toNat := by
  rw [ascii, Nat.mod_eq_of_lt h]

theorem lt_of_isDigit {b : UInt8} (h : (Char.ofNat b.toNat).isDigit = true) : b.toNat < 128 := by
  have hall : ∀ n < 256, (Char.ofNat n).isDigit = true → n < 128 := by decide +kernel
  exact hall b.toNat b.toNat_lt h

theorem head?_ne_bom (h : isIgnored s = true ∨ metadataKeys.contains s = true) :
    s.head? ≠ some '\uFEFF' := by
  rcases h with h | h
  · rw [isIgnored, Bool.or_eq_true, isPrefixOf_iff_prefix, isPrefixOf_iff_prefix] at h
    rcases h with ⟨t, rfl⟩ | ⟨t, rfl⟩ <;> simp
  · have hall : ∀ k ∈ metadataKeys, k.head? ≠ some '\uFEFF' := by decide +kernel
    exact hall s (contains_iff_mem.1 h)

theorem keyOf_eq (h : r.Plain) : asDecoded.keyOf r = asWritten.keyOf r := by
  unfold Reading.keyOf asDecoded asWritten
  cases hs : Utf8.decode r.key with
  | none => rfl
  | some s => exact stripBom_eq_self.2 (h.2 s hs)

theorem plain_of_valid (h : asWritten.Valid r) : r.Plain := by
  constructor
  · intro b hb
    have hmem : Char.ofNat b.toNat ∈ Nat.toDigits 10 r.bytes.length :=
      h.length ▸ mem_map_of_mem (f := asWritten.digit) hb
    exact lt_of_isDigit (Nat.isDigit_of_mem_toDigits (by decide) le_rfl hmem)
  · intro s hs
    obtain ⟨s', hs', hnamed⟩ := h.named
    obtain rfl := Option.some.inj (hs.symm.trans hs')
    exact head?_ne_bom (hnamed.imp_right And.left)

theorem valid_iff (h : r.Plain) : asDecoded.Valid r ↔ asWritten.Valid r := by
  have hdigits : r.digits.map asDecoded.digit = r.digits.map asWritten.digit :=
    map_congr_left fun b hb => ascii_of_lt (h.1 b hb)
  have hnamed : asDecoded.Named r ↔ asWritten.Named r := by
    refine exists_congr fun s => and_congr_right fun hs => ?_
    have htext : asDecoded.text s = asWritten.text s := stripBom_eq_self.2 (h.2 s hs)
    rw [htext]
  exact ⟨fun ⟨hl, hs, hne, hk, hn⟩ => ⟨hdigits ▸ hl, hs, hne, hk, hnamed.1 hn⟩,
    fun ⟨hl, hs, hne, hk, hn⟩ => ⟨hdigits.symm ▸ hl, hs, hne, hk, hnamed.2 hn⟩⟩

theorem reads_iff (h : ∀ r ∈ rs, r.Plain) : asDecoded.Reads data rs ↔ asWritten.Reads data rs := by
  have hkeys : rs.map asDecoded.keyOf = rs.map asWritten.keyOf :=
    map_congr_left fun r hr => keyOf_eq (h r hr)
  exact ⟨fun ⟨hd, hv, hn⟩ => ⟨hd, fun r hr => (valid_iff (h r hr)).1 (hv r hr), hkeys ▸ hn⟩,
    fun ⟨hd, hv, hn⟩ => ⟨hd, fun r hr => (valid_iff (h r hr)).2 (hv r hr), hkeys.symm ▸ hn⟩⟩

theorem accepts_iff : ((∃ v, pax data = .ok v) ↔ ∃ rs, asWritten.Reads data rs) ↔
    ∀ rs, asDecoded.Reads data rs → ∀ r ∈ rs, r.Plain := by
  have hplain {rs : List Raw} (h : asWritten.Reads data rs) : ∀ r ∈ rs, r.Plain :=
    fun r hr => plain_of_valid (h.valid r hr)
  constructor
  · intro h rs hrs
    obtain ⟨rs', hrs'⟩ := h.1 ⟨_, pax_ok_iff.2 ⟨rs, hrs, rfl⟩⟩
    have hdecoded := (reads_iff (hplain hrs')).2 hrs'
    obtain rfl := records_unique (fun r hr => (hrs.valid r hr).loose)
      (fun r hr => (hdecoded.valid r hr).loose) (hrs.data.symm.trans hdecoded.data)
    exact hplain hrs'
  · intro h
    constructor
    · rintro ⟨v, hv⟩
      obtain ⟨rs, hrs, -⟩ := pax_ok_iff.1 hv
      exact ⟨rs, (reads_iff (h rs hrs)).1 hrs⟩
    · rintro ⟨rs, hrs⟩
      exact ⟨_, pax_ok_iff.2 ⟨rs, (reads_iff (hplain hrs)).2 hrs, rfl⟩⟩

/-! ### What is encoded -/

theorem length_recordLength (n : ℕ) :
    (Nat.toDigits 10 (recordLength n)).length + n = recordLength n := by
  set width := (Nat.toDigits 10 n).length with hwidth
  have hpos : 0 < width := Nat.length_toDigits_pos
  have hn : n < 10 ^ width := (Nat.length_toDigits_le_iff (by decide) hpos).1 le_rfl
  have hdef : recordLength n =
      if (Nat.toDigits 10 (n + width)).length = width then n + width else n + width + 1 := rfl
  rw [hdef]
  split_ifs with h
  · omega
  -- one digit more than the number has
  · have hlarge : 10 ^ width ≤ n + width := by
      by_contra hlt
      have hle := (Nat.length_toDigits_le_iff (by decide) hpos).2 (not_le.1 hlt)
      have hge : width ≤ (Nat.toDigits 10 (n + width)).length := by
        by_contra hless
        have hlow := (Nat.length_toDigits_le_iff (b := 10) (by decide) Nat.length_toDigits_pos).1
          (le_refl (Nat.toDigits 10 (n + width)).length)
        have hmore := (Nat.length_toDigits_le_iff (b := 10) (n := n) (by decide)
          Nat.length_toDigits_pos).2 ((Nat.le_add_right n width).trans_lt hlow)
        omega
      omega
    have hwide : width < 10 ^ width := Nat.lt_pow_self (by decide)
    have hupper := (Nat.length_toDigits_le_iff (b := 10) (n := n + width + 1) (k := width + 1)
      (by decide) (Nat.succ_pos _)).2 (by rw [Nat.pow_succ]; omega)
    have hlower : ¬(Nat.toDigits 10 (n + width + 1)).length ≤ width := fun hle =>
      absurd ((Nat.length_toDigits_le_iff (by decide) hpos).1 hle) (by omega)
    omega

theorem map_ascii_bytes (h : ∀ c ∈ s, c.isDigit = true) :
    (Utf8.bytes s).map ascii = s := by
  induction s with
  | nil => rfl
  | cons c s ih =>
    obtain ⟨hc, hs⟩ := forall_mem_cons.1 h
    have hlt : c.toNat < 128 := (Char.isDigit_iff_toNat.1 hc).2.trans_lt (by decide)
    rw [Utf8.bytes_cons, Utf8.utf8EncodeChar_ascii hlt, map_append, ih hs, map_singleton,
      ascii, Utf8.toNat_ofNat_ascii hlt, Nat.mod_eq_of_lt hlt, Char.ofNat_toNat]
    rfl

variable {e : Text × Text} {es : Values}

theorem record_length : (record e).digits.map ascii = Nat.toDigits 10 (record e).bytes.length := by
  have hdigit (n : ℕ) : ∀ c ∈ Nat.toDigits 10 n, c.isDigit = true := fun c hc =>
    Nat.isDigit_of_mem_toDigits (by decide) le_rfl hc
  have hbody := length_bytes (r := ⟨[], Utf8.bytes e.1, Utf8.bytes e.2⟩)
  have htotal : (record e).bytes.length =
      recordLength (Raw.bytes ⟨[], Utf8.bytes e.1, Utf8.bytes e.2⟩).length := by
    rw [← length_recordLength, length_bytes]
    simp only [record, Utf8.length_bytes_of_isDigit (hdigit _)]
    simp only [length_nil] at hbody
    omega
  rw [htotal]
  exact map_ascii_bytes (hdigit _)

theorem record_loose (he : metadataKeys.contains e.1 = true)
    (h : (record e).digits.length ≤ 10) : Loose (record e) := by
  have hall : ∀ k ∈ metadataKeys, Utf8.bytes k ≠ [] ∧ 61 ∉ Utf8.bytes k := by decide +kernel
  obtain ⟨hne, heq⟩ := hall e.1 (contains_iff_mem.1 he)
  exact ⟨record_length, h, hne, heq⟩

theorem records_of_encoded (hes : ∀ e ∈ es, metadataKeys.contains e.1 = true)
    (h : ∀ r ∈ rs, Loose r) (heq : rs.flatMap Raw.bytes = es.flatMap fun e => (record e).bytes) :
    ∀ e ∈ es, (record e).digits.length ≤ 10 := by
  induction es generalizing rs with
  | nil => simp
  | cons e es ih =>
    obtain ⟨he, hes⟩ := forall_mem_cons.1 hes
    cases rs with
    | nil => simp [Raw.bytes] at heq
    | cons r rs =>
      obtain ⟨hr, hrs⟩ := forall_mem_cons.1 h
      rw [flatMap_cons, flatMap_cons] at heq
      -- both start with digits and a space
      have hsplit (r : Raw) (hr : r.digits.map ascii = Nat.toDigits 10 r.bytes.length) (t : Bytes) :
          splitFirst 32 (r.bytes ++ t) = some (r.digits, r.key ++ 61 :: (r.value ++ [10]) ++ t) :=
        splitFirst_eq_some.2 ⟨by simp [Raw.bytes], space_notMem_digits hr⟩
      have hdigits := hsplit r hr.length (rs.flatMap Raw.bytes)
      rw [heq, hsplit _ record_length] at hdigits
      have hten : (record e).digits.length ≤ 10 := by
        rw [(Prod.mk.inj (Option.some.inj hdigits)).1]
        exact hr.short
      have hnext := next_append hr (rs.flatMap Raw.bytes)
      rw [heq, next_append (record_loose he hten)] at hnext
      exact forall_mem_cons.2
        ⟨hten, ih hes hrs (Prod.mk.inj (Except.ok.inj hnext)).2.symm⟩

/-- Metadata are read as they were written, where records are short and no value starts with a mark.
-/
theorem decode_encode (m : Metadata) : pax m.encode = .ok m.entries ↔
    ∀ e ∈ m.entries, (record e).bytes.length < 10 ^ 10 ∧ e.2.head? ≠ some '\uFEFF' := by
  have hshort : ∀ e, (record e).digits.length ≤ 10 ↔ (record e).bytes.length < 10 ^ 10 := by
    intro e
    rw [← Nat.length_toDigits_le_iff (b := 10) (by decide) (by decide), ← record_length,
      length_map]
  have hkey : ∀ e ∈ m.entries, asDecoded.keyOf (record e) = e.1 := by
    intro e he
    unfold Reading.keyOf asDecoded record
    simp only [Utf8.decode_bytes, Option.getD_some]
    exact stripBom_eq_self.2 (head?_ne_bom (.inr (m.supported e he)))
  have hignored : ∀ k ∈ metadataKeys, isIgnored k = false := by decide +kernel
  have hentry : ∀ e ∈ m.entries, entryOf (record e) = some (e.1, stripBom e.2) := by
    intro e he
    have hno := hignored e.1 (contains_iff_mem.1 (m.supported e he))
    rw [entryOf, hkey e he, hno]
    simp [record]
  have hvalues : (m.entries.map record).filterMap entryOf =
      m.entries.map fun e => (e.1, stripBom e.2) := by
    rw [filterMap_map]
    exact filterMap_eq_map_iff_forall_eq_some.2 hentry
  have hloose (h : ∀ e ∈ m.entries, (record e).digits.length ≤ 10) :
      ∀ r ∈ m.entries.map record, Loose r := by
    intro r hr
    obtain ⟨e, he, rfl⟩ := mem_map.1 hr
    exact record_loose (m.supported e he) (h e he)
  have hencode : m.encode = (m.entries.map record).flatMap Raw.bytes := by
    rw [Metadata.encode, flatMap_map]
  constructor
  · intro h
    obtain ⟨rs, hrs, hout⟩ := pax_ok_iff.1 h
    have hrsLoose : ∀ r ∈ rs, Loose r := fun r hr => (hrs.valid r hr).loose
    have hten := records_of_encoded m.supported hrsLoose hrs.data.symm
    obtain rfl := records_unique hrsLoose (hloose hten) (hrs.data.symm.trans hencode)
    rw [hvalues] at hout
    intro e he
    have hself : ∀ e ∈ m.entries, e = (e.1, stripBom e.2) :=
      map_inj_left.1 ((map_id _).trans hout)
    exact ⟨(hshort e).1 (hten e he), stripBom_eq_self.1 (congrArg Prod.snd (hself e he)).symm⟩
  · intro h
    have hl := hloose fun e he => (hshort e).2 (h e he).1
    have hreads : asDecoded.Reads m.encode (m.entries.map record) := by
      refine ⟨hencode, fun r hr => ?_, ?_⟩
      · obtain ⟨hlen, hs, hne, hk⟩ := hl r hr
        obtain ⟨e, he, rfl⟩ := mem_map.1 hr
        refine ⟨hlen, hs, hne, hk, e.1, Utf8.decode_bytes _, .inr ⟨?_, by simp [record]⟩⟩
        have hbom : stripBom e.1 = e.1 :=
          stripBom_eq_self.2 (head?_ne_bom (.inr (m.supported e he)))
        show metadataKeys.contains (stripBom e.1) = true
        rw [hbom]
        exact m.supported e he
      · have hkeys : m.entries.map (asDecoded.keyOf ∘ record) = m.entries.map Prod.fst :=
          map_congr_left hkey
        rw [map_map, hkeys]
        exact m.nodup
    refine pax_ok_iff.2 ⟨_, hreads, ?_⟩
    rw [hvalues]
    refine (map_id _).symm.trans (map_congr_left fun e he => ?_)
    exact Prod.ext rfl (stripBom_eq_self.2 (h e he).2).symm

/-- Data is accepted just where it is well formed, unless what is read has a length with a byte that
is not ASCII or a key after a byte order mark; values come back just where none starts with such a
mark and no record is too long for ten digits; and no byte outside of the data is read. -/
theorem pax_spec (data : Bytes) (m : Metadata) :
    (((∃ v, pax data = .ok v) ↔ ∃ rs, asWritten.Reads data rs) ↔
      ∀ rs, asDecoded.Reads data rs → ∀ r ∈ rs, r.Plain) ∧
    (pax m.encode = .ok m.entries ↔
      ∀ e ∈ m.entries, (record e).bytes.length < 10 ^ 10 ∧ e.2.head? ≠ some '\uFEFF') ∧
    ∀ e, pax data = .error e → e.isInvalid = true :=
  ⟨accepts_iff, decode_encode m, fun _ h => loop_error le_rfl h⟩

/-- A length whose bytes are the digits 1 and 1 with the highest bit set. -/
def highBits : Raw := ⟨[177, 177], Utf8.bytes "path".toList, Utf8.bytes "ab".toList⟩

/-- A value after a byte order mark. -/
def marked : Metadata where
  entries := [("path".toList, "\uFEFFa".toList)]
  supported := by decide +kernel
  nodup := by simp

theorem pax_generous :
    (pax highBits.bytes = .ok [("path".toList, "ab".toList)] ∧
      ¬∃ rs, asWritten.Reads highBits.bytes rs) ∧
    pax marked.encode = .ok [("path".toList, "a".toList)] := by
  refine ⟨⟨by decide +kernel, ?_⟩, by decide +kernel⟩
  rintro ⟨rs, hrs⟩
  have hplain : ∀ r ∈ rs, r.Plain := fun r hr => plain_of_valid (hrs.valid r hr)
  have hloose : Loose highBits :=
    ⟨by decide +kernel, by decide, by decide +kernel, by decide +kernel⟩
  obtain rfl : rs = [highBits] :=
    records_unique (fun r hr => (((reads_iff hplain).2 hrs).valid r hr).loose)
      (by simpa using hloose) (hrs.data.symm.trans (by simp))
  exact absurd ((hplain highBits (by simp)).1 177 (by simp [highBits])) (by decide)

end U2os.Server.Backup.Archive
