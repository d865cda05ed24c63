import Mathlib.Tactic.IntervalCases
import U2os.Lib.Json

/-!
# What the text of a value tells

Two values with the same compact text are the same, entries in the same order.  A text is read from
the left: its first character tells the kind of the value, a string ends at the quote that is not
escaped, and a number at the first character that no number has.
-/

namespace U2os.Json

open List Option

def isNumberChar (c : Char) : Bool := c.isDigit || c = '-' || c = '+' || c = '.' || c = 'e'

mutual
/-- Every number has a literal. -/
def Literals : Json → Prop
  | num literal => literal.toList ≠ [] ∧ ∀ c ∈ literal.toList, isNumberChar c = true
  | arr items => LiteralsItems items
  | obj fields => LiteralsFields fields
  | _ => True
/-- Those of an array. -/
def LiteralsItems : List Json → Prop
  | [] => True
  | j :: js => Literals j ∧ LiteralsItems js
/-- Those of an object. -/
def LiteralsFields : List (String × Json) → Prop
  | [] => True
  | p :: ps => LiteralsField p ∧ LiteralsFields ps
/-- Those of an entry. -/
def LiteralsField : String × Json → Prop
  | (_, v) => Literals v
end

/-- The value of a hexadecimal digit. -/
def hexValue (c : Char) : ℕ := if c.toNat < 58 then c.toNat - 48 else c.toNat - 87

def readChar : List Char → Option (Char × List Char)
  | '\\' :: 'u' :: '0' :: '0' :: x :: y :: rest =>
    some (Char.ofNat (16 * hexValue x + hexValue y), rest)
  | '\\' :: 'b' :: rest => some (Char.ofNat 8, rest)
  | '\\' :: 't' :: rest => some (Char.ofNat 9, rest)
  | '\\' :: 'n' :: rest => some (Char.ofNat 10, rest)
  | '\\' :: 'f' :: rest => some (Char.ofNat 12, rest)
  | '\\' :: 'r' :: rest => some (Char.ofNat 13, rest)
  | '\\' :: c :: rest => some (c, rest)
  | c :: rest => some (c, rest)
  | [] => none

theorem hexValue_hexDigit {n : ℕ} (h : n < 16) : hexValue (hexDigit n) = n := by
  interval_cases n <;> rfl

theorem ofNat_eq {c : Char} {n : ℕ} (h : c.toNat = n) : Char.ofNat n = c := by
  rw [← h, Char.ofNat_toNat]

theorem readChar_escapeChar (c : Char) (rest : List Char) :
    readChar ((escapeChar c).toList ++ rest) = some (c, rest) := by
  unfold escapeChar
  split_ifs with h1 h2 h3 h4 h5 h6 h7 h8
  · subst h1
    rfl
  · subst h2
    rfl
  · exact congrArg some (Prod.ext (ofNat_eq h3) rfl)
  · exact congrArg some (Prod.ext (ofNat_eq h4) rfl)
  · exact congrArg some (Prod.ext (ofNat_eq h5) rfl)
  · exact congrArg some (Prod.ext (ofNat_eq h6) rfl)
  · exact congrArg some (Prod.ext (ofNat_eq h7) rfl)
  · simp only [String.toList_append, String.toList_ofList]
    change some (Char.ofNat (16 * hexValue (hexDigit (c.toNat / 16)) +
      hexValue (hexDigit (c.toNat % 16))), rest) = some (c, rest)
    rw [hexValue_hexDigit (by omega), hexValue_hexDigit (by omega),
      ofNat_eq (c := c) (by omega)]
  · rw [String.toList_ofList, singleton_append]
    unfold readChar
    split <;> simp_all

theorem escapeChar_ne_quote (c : Char) (rest : List Char) :
    ∃ d ds, (escapeChar c).toList ++ rest = d :: ds ∧ d ≠ '"' := by
  unfold escapeChar
  split_ifs with h1 <;> first
    | exact ⟨_, _, rfl, by decide⟩
    | (rw [String.toList_append]; exact ⟨_, _, rfl, by decide⟩)
    | exact ⟨c, rest, by simp, h1⟩

theorem toList_quote (s : String) :
    (quote s).toList = '"' :: (s.toList.flatMap fun c => (escapeChar c).toList) ++ ['"'] := by
  unfold quote
  simp only [String.toList_append]
  have hbody : ∀ cs : List Char, ("".intercalate (cs.map escapeChar)).toList =
      cs.flatMap fun c => (escapeChar c).toList := by
    intro cs
    induction cs with
    | nil => rfl
    | cons c cs ih =>
      cases cs with
      | nil => simp
      | cons d ds =>
        rw [map_cons, map_cons, String.intercalate_cons_cons, String.toList_append,
          String.toList_append, ← map_cons, ih, flatMap_cons]
        simp
  rw [hbody]
  rfl

/-- Two quoted texts with something behind them are equal only if the texts are. -/
theorem quote_append_inj {s t : String} {r r' : List Char}
    (h : (quote s).toList ++ r = (quote t).toList ++ r') : s = t ∧ r = r' := by
  have hbody : ∀ cs ds : List Char,
      (cs.flatMap fun c => (escapeChar c).toList) ++ '"' :: r =
        (ds.flatMap fun c => (escapeChar c).toList) ++ '"' :: r' → cs = ds ∧ r = r' := by
    intro cs
    induction cs with
    | nil =>
      intro ds h
      cases ds with
      | nil => exact ⟨rfl, (List.cons.inj h).2⟩
      | cons d ds =>
        rw [flatMap_cons, append_assoc] at h
        obtain ⟨x, xs, hx, hne⟩ := escapeChar_ne_quote d _
        rw [hx] at h
        exact absurd (List.cons.inj h).1.symm hne
    | cons c cs ih =>
      intro ds h
      cases ds with
      | nil =>
        rw [flatMap_cons, append_assoc] at h
        obtain ⟨x, xs, hx, hne⟩ := escapeChar_ne_quote c _
        rw [hx] at h
        exact absurd (List.cons.inj h).1 hne
      | cons d ds =>
        rw [flatMap_cons, flatMap_cons, append_assoc, append_assoc] at h
        have hread := congrArg readChar h
        rw [readChar_escapeChar, readChar_escapeChar] at hread
        obtain ⟨rfl, hrest⟩ := Prod.mk.inj (some.inj hread)
        obtain ⟨rfl, hr⟩ := ih ds hrest
        exact ⟨rfl, hr⟩
  rw [toList_quote, toList_quote] at h
  simp only [cons_append, append_assoc, List.cons.injEq, true_and] at h
  obtain ⟨hst, hr⟩ := hbody _ _ h
  exact ⟨String.toList_inj.1 hst, hr⟩

/-- What may follow a value. -/
def Ends (r : List Char) : Prop := ∀ c, r.head? = some c → c = ',' ∨ c = ']' ∨ c = '\x7d'

theorem literal_append_inj {l l' r r' : List Char} (hl : ∀ c ∈ l, isNumberChar c = true)
    (hl' : ∀ c ∈ l', isNumberChar c = true) (hr : Ends r) (hr' : Ends r')
    (h : l ++ r = l' ++ r') : l = l' ∧ r = r' := by
  have hend : ∀ {r : List Char}, Ends r → r.takeWhile isNumberChar = [] := by
    intro r hr
    cases r with
    | nil => rfl
    | cons c cs =>
      rcases hr c rfl with rfl | rfl | rfl <;> rfl
  have htake := congrArg (takeWhile isNumberChar) h
  rw [takeWhile_append_of_pos hl, takeWhile_append_of_pos hl', hend hr, hend hr',
    append_nil, append_nil] at htake
  subst htake
  exact ⟨rfl, append_cancel_left h⟩

theorem render_arr (items : List Json) :
    (arr items).render = "[" ++ ",".intercalate (renderItems items) ++ "]" := by
  rw [render]

theorem render_obj (fields : List (String × Json)) :
    (obj fields).render = "\x7b" ++ ",".intercalate (renderFields fields) ++ "\x7d" := by
  rw [render]

/-- The kind of a value. -/
def kind : Json → ℕ
  | null => 0
  | bool _ => 1
  | num _ => 2
  | str _ => 3
  | arr _ => 4
  | obj _ => 5

/-- The kind that a first character tells. -/
def kindOf (c : Char) : ℕ :=
  if c = 'n' then 0 else if c = 't' ∨ c = 'f' then 1 else if isNumberChar c then 2
  else if c = '"' then 3 else if c = '[' then 4 else if c = '\x7b' then 5 else 6

theorem kindOf_numberChar {c : Char} (h : isNumberChar c = true) : kindOf c = 2 := by
  unfold kindOf
  rw [if_neg, if_neg, if_pos h]
  · rintro (rfl | rfl) <;> revert h <;> decide
  · rintro rfl
    revert h
    decide

theorem exists_first {j : Json} (hj : j.Literals) :
    ∃ c cs, j.render.toList = c :: cs ∧ kindOf c = j.kind := by
  cases j with
  | null => exact ⟨_, _, rfl, rfl⟩
  | bool b => cases b <;> exact ⟨_, _, rfl, rfl⟩
  | num literal =>
    unfold Literals at hj
    obtain ⟨c, cs, hcs⟩ := exists_cons_of_ne_nil hj.1
    exact ⟨c, cs, hcs, kindOf_numberChar (hj.2 c (by rw [hcs]; exact mem_cons_self))⟩
  | str s => exact ⟨_, _, toList_quote s, rfl⟩
  | arr items =>
    refine ⟨'[', (",".intercalate (renderItems items) ++ "]").toList, ?_, rfl⟩
    rw [render_arr, String.append_assoc, String.toList_append]
    rfl
  | obj fields =>
    refine ⟨'\x7b', (",".intercalate (renderFields fields) ++ "\x7d").toList, ?_, rfl⟩
    rw [render_obj, String.append_assoc, String.toList_append]
    rfl

theorem render_append_ne {j : Json} (hj : j.Literals) (r s : List Char) :
    ']' :: s ≠ j.render.toList ++ r := by
  intro h
  obtain ⟨c, cs, hc, hkind⟩ := exists_first hj
  rw [hc, cons_append] at h
  rw [← (List.cons.inj h).1] at hkind
  cases j <;> simp [kind] at hkind <;> revert hkind <;> decide

/-- The items after the first one. -/
def restItems : List Json → List Char
  | [] => [']']
  | j :: js => ',' :: j.render.toList ++ restItems js

/-- The entries after the first one. -/
def restFields : List (String × Json) → List Char
  | [] => ['\x7d']
  | p :: ps => ',' :: (renderField p).toList ++ restFields ps

theorem ends_restItems (js : List Json) (r : List Char) : Ends (restItems js ++ r) := by
  intro c hc
  cases js <;> simp [restItems] at hc <;> simp [← hc]

theorem ends_restFields (ps : List (String × Json)) (r : List Char) :
    Ends (restFields ps ++ r) := by
  intro c hc
  cases ps <;> simp [restFields] at hc <;> simp [← hc]

theorem toList_arr (j : Json) (js : List Json) :
    (arr (j :: js)).render.toList = '[' :: j.render.toList ++ restItems js := by
  have hitems : ∀ (js : List Json) (j : Json),
      (",".intercalate (renderItems (j :: js))).toList ++ [']'] =
        j.render.toList ++ restItems js := by
    intro js
    induction js with
    | nil =>
      intro j
      simp [renderItems, restItems]
    | cons k ks ih =>
      intro j
      rw [renderItems, renderItems, String.intercalate_cons_cons, String.toList_append,
        String.toList_append, append_assoc, ← renderItems, ih]
      simp [restItems]
  rw [render_arr, String.append_assoc, String.toList_append, String.toList_append]
  exact congrArg ('[' :: ·) (hitems js j)

theorem toList_renderField (p : String × Json) :
    (renderField p).toList = (quote p.1).toList ++ ':' :: p.2.render.toList := by
  obtain ⟨k, v⟩ := p
  rw [renderField, String.append_assoc, String.toList_append, String.toList_append]
  rfl

theorem toList_obj (p : String × Json) (ps : List (String × Json)) :
    (obj (p :: ps)).render.toList = '\x7b' :: (renderField p).toList ++ restFields ps := by
  have hfields : ∀ (ps : List (String × Json)) (p : String × Json),
      (",".intercalate (renderFields (p :: ps))).toList ++ ['\x7d'] =
        (renderField p).toList ++ restFields ps := by
    intro ps
    induction ps with
    | nil =>
      intro p
      simp [renderFields, restFields]
    | cons q qs ih =>
      intro p
      rw [renderFields, renderFields, String.intercalate_cons_cons, String.toList_append,
        String.toList_append, append_assoc, ← renderFields, ih]
      simp [restFields]
  rw [render_obj, String.append_assoc, String.toList_append, String.toList_append]
  exact congrArg ('\x7b' :: ·) (hfields ps p)

mutual
/-- No text of a value goes on to be the text of another one. -/
theorem render_append_inj : ∀ (a b : Json) (r r' : List Char), a.Literals → b.Literals → Ends r →
    Ends r' → a.render.toList ++ r = b.render.toList ++ r' → a = b ∧ r = r'
  | a, b, r, r', ha, hb, hr, hr', h => by
    have hkind : a.kind = b.kind := by
      obtain ⟨c, cs, hc, hkc⟩ := exists_first ha
      obtain ⟨d, ds, hd, hkd⟩ := exists_first hb
      rw [hc, hd] at h
      rw [← hkc, ← hkd, (List.cons.inj h).1]
    cases a with
    | null =>
      cases b <;> simp [kind] at hkind
      exact ⟨rfl, append_cancel_left h⟩
    | bool x =>
      cases b <;> simp [kind] at hkind
      rename_i y
      cases x <;> cases y <;> simp [render] at h
      · exact ⟨rfl, h⟩
      · exact ⟨rfl, h⟩
    | num literal =>
      cases b <;> simp [kind] at hkind
      unfold Literals at ha hb
      rw [render, render] at h
      obtain ⟨hliteral, hrest⟩ := literal_append_inj ha.2 hb.2 hr hr' h
      exact ⟨congrArg num (String.toList_inj.1 hliteral), hrest⟩
    | str s =>
      cases b <;> simp [kind] at hkind
      rw [render, render] at h
      obtain ⟨rfl, hrest⟩ := quote_append_inj h
      exact ⟨rfl, hrest⟩
    | arr items =>
      cases b <;> simp [kind] at hkind
      rename_i items'
      unfold Literals at ha hb
      obtain ⟨rfl, hrest⟩ := items_append_inj items items' r r' ha hb h
      exact ⟨rfl, hrest⟩
    | obj fields =>
      cases b <;> simp [kind] at hkind
      rename_i fields'
      unfold Literals at ha hb
      obtain ⟨rfl, hrest⟩ := fields_append_inj fields fields' r r' ha hb h
      exact ⟨rfl, hrest⟩
theorem items_append_inj : ∀ (xs ys : List Json) (r r' : List Char), LiteralsItems xs →
    LiteralsItems ys → (arr xs).render.toList ++ r = (arr ys).render.toList ++ r' →
    xs = ys ∧ r = r'
  | [], [], r, r', _, _, h => ⟨rfl, List.append_cancel_left h⟩
  | [], y :: ys, r, r', _, hys, h => by
    rw [toList_arr] at h
    simp only [List.cons_append, List.append_assoc] at h
    exact absurd (List.cons.inj h).2 (render_append_ne hys.1 _ _)
  | x :: xs, [], r, r', hxs, _, h => by
    rw [toList_arr] at h
    simp only [List.cons_append, List.append_assoc] at h
    exact absurd (List.cons.inj h).2.symm (render_append_ne hxs.1 _ _)
  | x :: xs, y :: ys, r, r', hxs, hys, h => by
    rw [toList_arr, toList_arr] at h
    simp only [List.cons_append, List.append_assoc] at h
    obtain ⟨rfl, hrest⟩ := render_append_inj x y _ _ hxs.1 hys.1 (ends_restItems _ _)
      (ends_restItems _ _) (List.cons.inj h).2
    obtain ⟨rfl, hr⟩ := restItems_append_inj xs ys r r' hxs.2 hys.2 hrest
    exact ⟨rfl, hr⟩
theorem restItems_append_inj : ∀ (xs ys : List Json) (r r' : List Char), LiteralsItems xs →
    LiteralsItems ys → restItems xs ++ r = restItems ys ++ r' → xs = ys ∧ r = r'
  | [], [], r, r', _, _, h => ⟨rfl, List.append_cancel_left h⟩
  | [], y :: ys, r, r', _, _, h => by simp [restItems] at h
  | x :: xs, [], r, r', _, _, h => by simp [restItems] at h
  | x :: xs, y :: ys, r, r', hxs, hys, h => by
    simp only [restItems, List.cons_append, List.append_assoc] at h
    obtain ⟨rfl, hrest⟩ := render_append_inj x y _ _ hxs.1 hys.1 (ends_restItems _ _)
      (ends_restItems _ _) (List.cons.inj h).2
    obtain ⟨rfl, hr⟩ := restItems_append_inj xs ys r r' hxs.2 hys.2 hrest
    exact ⟨rfl, hr⟩
theorem fields_append_inj : ∀ (ps qs : List (String × Json)) (r r' : List Char),
    LiteralsFields ps → LiteralsFields qs →
    (obj ps).render.toList ++ r = (obj qs).render.toList ++ r' → ps = qs ∧ r = r'
  | [], [], r, r', _, _, h => ⟨rfl, List.append_cancel_left h⟩
  | [], q :: qs, r, r', _, _, h => by
    rw [toList_obj, toList_renderField, toList_quote] at h
    simp [render_obj, renderFields] at h
  | p :: ps, [], r, r', _, _, h => by
    rw [toList_obj, toList_renderField, toList_quote] at h
    simp [render_obj, renderFields] at h
  | p :: ps, q :: qs, r, r', hps, hqs, h => by
    rw [toList_obj, toList_obj] at h
    simp only [List.cons_append, List.append_assoc] at h
    obtain ⟨rfl, hrest⟩ := field_append_inj p q _ _ hps.1 hqs.1 (ends_restFields _ _)
      (ends_restFields _ _) (List.cons.inj h).2
    obtain ⟨rfl, hr⟩ := restFields_append_inj ps qs r r' hps.2 hqs.2 hrest
    exact ⟨rfl, hr⟩
theorem restFields_append_inj : ∀ (ps qs : List (String × Json)) (r r' : List Char),
    LiteralsFields ps → LiteralsFields qs → restFields ps ++ r = restFields qs ++ r' →
    ps = qs ∧ r = r'
  | [], [], r, r', _, _, h => ⟨rfl, List.append_cancel_left h⟩
  | [], q :: qs, r, r', _, _, h => by simp [restFields] at h
  | p :: ps, [], r, r', _, _, h => by simp [restFields] at h
  | p :: ps, q :: qs, r, r', hps, hqs, h => by
    simp only [restFields, List.cons_append, List.append_assoc] at h
    obtain ⟨rfl, hrest⟩ := field_append_inj p q _ _ hps.1 hqs.1 (ends_restFields _ _)
      (ends_restFields _ _) (List.cons.inj h).2
    obtain ⟨rfl, hr⟩ := restFields_append_inj ps qs r r' hps.2 hqs.2 hrest
    exact ⟨rfl, hr⟩
theorem field_append_inj : ∀ (p q : String × Json) (r r' : List Char), LiteralsField p →
    LiteralsField q → Ends r → Ends r' →
    (renderField p).toList ++ r = (renderField q).toList ++ r' → p = q ∧ r = r'
  | (k, v), (l, w), r, r', hv, hw, hr, hr', h => by
    rw [toList_renderField, toList_renderField, List.append_assoc, List.append_assoc] at h
    obtain ⟨rfl, hrest⟩ := quote_append_inj h
    obtain ⟨rfl, hr⟩ := render_append_inj v w r r' hv hw hr hr' (List.cons.inj hrest).2
    exact ⟨rfl, hr⟩
end

theorem render_inj {a b : Json} (ha : a.Literals) (hb : b.Literals) :
    a.render = b.render ↔ a = b := by
  refine ⟨fun h => ?_, congrArg _⟩
  exact (render_append_inj a b [] [] ha hb nofun nofun (by rw [h])).1

end U2os.Json
