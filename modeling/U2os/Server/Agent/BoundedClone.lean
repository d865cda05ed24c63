import Mathlib.Data.List.Infix
import U2os.Lib.JsonLength
import U2os.Server.Agent.ObservationFilter

/-!
# What is forwarded of a result

`boundedClone` of `agent/observation-filter.js`: a copy of a result without the entries whose key
looks like that of a secret, cut to a depth, a width and lengths.  A text is cut by code units, so
that half of a pair may be left at its end; it is serialized as an escape.
-/

namespace U2os.Server.Agent.Filtering

open List

/-- The words of `SECRET_KEY`. -/
def secretKeyWords : List String :=
  ["apikey", "api-key", "api_key", "secret", "password", "authorization", "cookie", "credential",
    "accesstoken", "access-token", "access_token", "refreshtoken", "refresh-token",
    "refresh_token"]

/-- `SECRET_KEY.test(key)`, by the characters of the key. -/
def isSecretKey (key : List Char) : Bool :=
  secretKeyWords.any fun word =>
    (key.map Char.toLower).tails.any fun rest => word.toList.isPrefixOf rest

theorem isSecretKey_iff {key : List Char} :
    isSecretKey key = true ↔ ∃ word ∈ secretKeyWords, word.toList <:+: key.map Char.toLower := by
  simp [isSecretKey, infix_iff_prefix_suffix, isPrefixOf_iff_prefix, mem_tails,
    and_comm]

theorem isSecretKey_of_initial {part key : List Char} (h : part <+: key)
    (hsecret : isSecretKey part = true) : isSecretKey key = true := by
  obtain ⟨word, hword, hin⟩ := isSecretKey_iff.1 hsecret
  exact isSecretKey_iff.2 ⟨word, hword, hin.trans (h.map _).isInfix⟩

/-- A text that may end in half of a pair, by its code unit. -/
structure Cut where
  text : List Char
  half : Option ℕ
deriving DecidableEq

/-- A character before a text. -/
def Cut.cons (c : Char) (t : Cut) : Cut := { t with text := c :: t.text }

/-- `slice(0, n)`. -/
def cutText : ℕ → List Char → Cut
  | _, [] => ⟨[], none⟩
  | 0, _ :: _ => ⟨[], none⟩
  | 1, c :: _ =>
    if c.toNat < 65536 then ⟨[c], none⟩ else ⟨[], some (55296 + (c.toNat - 65536) / 1024)⟩
  | n + 2, c :: cs =>
    if c.toNat < 65536 then (cutText (n + 1) cs).cons c else (cutText n cs).cons c

/-- A cut text is the beginning of the text. -/
theorem cutText_initial (n : ℕ) (cs : List Char) : (cutText n cs).text <+: cs := by
  fun_induction cutText n cs with
  | case1 => exact prefix_rfl
  | case2 => exact nil_prefix
  | case3 c cs h => exact ⟨cs, rfl⟩
  | case4 c cs h => exact nil_prefix
  | case5 n c cs h ih | case6 n c cs h ih => exact prefix_cons_inj c |>.2 ih

/-- The length of a text between quotes: half of a pair is an escape of six characters. -/
def Cut.quotedLength (t : Cut) : ℕ :=
  2 + (t.text.map fun c => JsText.length (Json.escapeChar c)).sum + if t.half.isSome then 6 else 0

/-- A copy of a value. -/
inductive Data where
  | null
  | bool (b : Bool)
  | num (literal : String)
  | str (s : Cut)
  | arr (items : List Data)
  | obj (fields : List (Cut × Data))

/-- An entry is added or replaced in place. -/
def setEntry (key : Cut) (value : Data) : List (Cut × Data) → List (Cut × Data)
  | [] => [(key, value)]
  | e :: es => if e.1 = key then (key, value) :: es else e :: setEntry key value es

def fromEntries (entries : List (Cut × Data)) : List (Cut × Data) :=
  entries.foldl (fun fields e => setEntry e.1 e.2 fields) []

def maxItems : ℕ := 12

def maxString : ℕ := 1024

def maxDepth : ℕ := 4

mutual
/-- `boundedClone`, with the depth that is left. -/
def boundedClone (room : ℕ) : Json → Data
  | .null => .null
  | .bool b => .bool b
  | .num literal => .num literal
  | .str s => .str (cutText maxString s.toList)
  | .arr items => if room = 0 then .null else .arr (cloneItems (room - 1) maxItems items)
  | .obj fields =>
    if room = 0 then .null else .obj (fromEntries (cloneFields (room - 1) maxItems fields))
/-- The copies of so many items. -/
def cloneItems (room : ℕ) : ℕ → List Json → List Data
  | _, [] => []
  | 0, _ :: _ => []
  | width + 1, v :: vs => boundedClone room v :: cloneItems room width vs
/-- The copies of so many entries, but for those of secrets. -/
def cloneFields (room : ℕ) : ℕ → List (String × Json) → List (Cut × Data)
  | _, [] => []
  | width, e :: es =>
    if isSecretKey e.1.toList = true then cloneFields room width es
    else
      match width with
      | 0 => []
      | width + 1 => cloneField room e :: cloneFields room width es
/-- The copy of an entry. -/
def cloneField (room : ℕ) : String × Json → Cut × Data
  | (key, v) => (cutText 80 key.toList, boundedClone room v)
end

mutual
/-- The length of a copy when it is serialized. -/
def Data.length : Data → ℕ
  | .null => 4
  | .bool b => if b then 4 else 5
  | .num literal => JsText.length literal
  | .str s => s.quotedLength
  | .arr items => 2 + Data.lengthItems items + (items.length - 1)
  | .obj fields => 2 + Data.lengthFields fields + (fields.length - 1)
def Data.lengthItems : List Data → ℕ
  | [] => 0
  | v :: vs => Data.length v + Data.lengthItems vs
/-- The lengths of entries. -/
def Data.lengthFields : List (Cut × Data) → ℕ
  | [] => 0
  | e :: es => Data.lengthField e + Data.lengthFields es
/-- The length of an entry. -/
def Data.lengthField : Cut × Data → ℕ
  | (key, v) => key.quotedLength + 1 + Data.length v
end

/-- A key of the value, at any depth, looks like that of a secret. -/
inductive Data.HasSecret : Data → Prop
  | key {fields : List (Cut × Data)} {e : Cut × Data} : e ∈ fields →
      isSecretKey e.1.text = true → HasSecret (.obj fields)
  | field {fields : List (Cut × Data)} {e : Cut × Data} : e ∈ fields → HasSecret e.2 →
      HasSecret (.obj fields)
  | item {items : List Data} {v : Data} : v ∈ items → HasSecret v → HasSecret (.arr items)

theorem mem_setEntry {key : Cut} {value : Data} {fields : List (Cut × Data)} {e : Cut × Data}
    (h : e ∈ setEntry key value fields) : e = (key, value) ∨ e ∈ fields := by
  induction fields with
  | nil => exact .inl (mem_singleton.1 h)
  | cons f fs ih =>
    rw [setEntry] at h
    split_ifs at h
    · exact (mem_cons.1 h).imp_right (mem_cons_of_mem f)
    · rcases mem_cons.1 h with rfl | h
      · exact .inr mem_cons_self
      · exact (ih h).imp_right (mem_cons_of_mem f)

theorem mem_fromEntries {entries : List (Cut × Data)} {e : Cut × Data}
    (h : e ∈ fromEntries entries) : e ∈ entries := by
  have hfold : ∀ fields, e ∈ entries.foldl (fun fields e => setEntry e.1 e.2 fields) fields →
      e ∈ fields ∨ e ∈ entries := by
    clear h
    induction entries with
    | nil => exact fun _ h => .inl h
    | cons f fs ih =>
      intro fields h
      rcases ih _ h with h | h
      · rcases mem_setEntry h with rfl | h
        · exact .inr mem_cons_self
        · exact .inl h
      · exact .inr (mem_cons_of_mem f h)
  exact (hfold [] h).resolve_left not_mem_nil

mutual
/-- No secret passes the clone. -/
theorem no_secret_boundedClone (room : ℕ) : ∀ v, ¬(boundedClone room v).HasSecret
  | .null | .bool _ | .num _ | .str _ => by rw [boundedClone]; exact nofun
  | .arr items => by
    rw [boundedClone]
    split_ifs
    · exact nofun
    · rintro (_ | _ | ⟨hv, hsecret⟩)
      exact no_secret_cloneItems (room - 1) maxItems items _ hv hsecret
  | .obj fields => by
    rw [boundedClone]
    split_ifs
    · exact nofun
    · rintro (⟨he, hsecret⟩ | ⟨he, hsecret⟩ | _)
      · exact (no_secret_cloneFields (room - 1) maxItems fields _ (mem_fromEntries he)).1 hsecret
      · exact (no_secret_cloneFields (room - 1) maxItems fields _ (mem_fromEntries he)).2 hsecret
theorem no_secret_cloneItems (room : ℕ) :
    ∀ width items, ∀ v ∈ cloneItems room width items, ¬v.HasSecret
  | _, [] | 0, _ :: _ => by rw [cloneItems]; exact nofun
  | width + 1, v :: vs => by
    rw [cloneItems, forall_mem_cons]
    exact ⟨no_secret_boundedClone room v, no_secret_cloneItems room width vs⟩
theorem no_secret_cloneFields (room : ℕ) : ∀ width fields, ∀ e ∈ cloneFields room width fields,
    ¬isSecretKey e.1.text = true ∧ ¬e.2.HasSecret
  | _, [] => by rw [cloneFields]; exact nofun
  | width, e :: es => by
    unfold cloneFields
    split_ifs with hsecret
    · exact no_secret_cloneFields room width es
    · cases width with
      | zero => exact nofun
      | succ width =>
        dsimp only
        rw [forall_mem_cons]
        exact ⟨no_secret_cloneField room e hsecret, no_secret_cloneFields room width es⟩
theorem no_secret_cloneField (room : ℕ) : ∀ e : String × Json, ¬isSecretKey e.1.toList = true →
    ¬isSecretKey (cloneField room e).1.text = true ∧ ¬(cloneField room e).2.HasSecret
  | (key, v) => fun h => by
    rw [cloneField]
    exact ⟨fun hsecret => h (isSecretKey_of_initial (cutText_initial _ _) hsecret),
      no_secret_boundedClone room v⟩
end

mutual
/-- The values differ at most in what stands under keys that look like those of secrets. -/
inductive SecretAlike : Json → Json → Prop
  | same (v : Json) : SecretAlike v v
  | arr {items items' : List Json} : ItemsAlike items items' →
      SecretAlike (.arr items) (.arr items')
  | obj {fields fields' : List (String × Json)} : FieldsAlike fields fields' →
      SecretAlike (.obj fields) (.obj fields')
/-- The items of two arrays do. -/
inductive ItemsAlike : List Json → List Json → Prop
  | nil : ItemsAlike [] []
  | cons {v w : Json} {vs ws : List Json} : SecretAlike v w → ItemsAlike vs ws →
      ItemsAlike (v :: vs) (w :: ws)
/-- The entries of two objects do. -/
inductive FieldsAlike : List (String × Json) → List (String × Json) → Prop
  | nil : FieldsAlike [] []
  | secret {key : String} {v w : Json} {es fs : List (String × Json)} :
      isSecretKey key.toList = true → FieldsAlike es fs →
      FieldsAlike ((key, v) :: es) ((key, w) :: fs)
  | cons {key : String} {v w : Json} {es fs : List (String × Json)} : SecretAlike v w →
      FieldsAlike es fs → FieldsAlike ((key, v) :: es) ((key, w) :: fs)
end

mutual
theorem boundedClone_congr {v w : Json} (h : SecretAlike v w) (room : ℕ) :
    boundedClone room v = boundedClone room w := by
  cases h with
  | same => rfl
  | arr hitems => rw [boundedClone, boundedClone, cloneItems_congr hitems]
  | obj hfields => rw [boundedClone, boundedClone, cloneFields_congr hfields]
theorem cloneItems_congr {vs ws : List Json} (h : ItemsAlike vs ws) (room width : ℕ) :
    cloneItems room width vs = cloneItems room width ws := by
  cases h with
  | nil => rfl
  | cons hv hvs =>
    cases width with
    | zero => rfl
    | succ width =>
      rw [cloneItems, cloneItems, boundedClone_congr hv, cloneItems_congr hvs]
theorem cloneFields_congr {es fs : List (String × Json)} (h : FieldsAlike es fs) (room width : ℕ) :
    cloneFields room width es = cloneFields room width fs := by
  cases h with
  | nil => rfl
  | secret hkey hes =>
    unfold cloneFields
    rw [if_pos hkey, if_pos hkey, cloneFields_congr hes]
  | cons hv hes =>
    unfold cloneFields
    split_ifs
    · exact cloneFields_congr hes room width
    · cases width with
      | zero => rfl
      | succ width =>
        dsimp only
        rw [cloneField, cloneField, boundedClone_congr hv, cloneFields_congr hes]
end

end U2os.Server.Agent.Filtering
