import Mathlib.Algebra.GroupWithZero.Nat
import Mathlib.Data.String.Basic
import U2os.Lib.Property

/-!
# Texts of the language

White space, trimming and lengths of strings as JavaScript has them, and maps that keep the order in
which their keys were first set.

## Main results

* `Assoc.get?_assign` : reading after writing.
-/

namespace U2os

open List Option Prod

namespace JsText

/-- `\s`. -/
def isSpace (c : Char) : Bool :=
  [9, 10, 11, 12, 13, 32, 160, 5760, 8232, 8233, 8239, 8287, 12288, 65279].contains c.toNat ||
    (8192 ≤ c.toNat && c.toNat ≤ 8202)

/-- The character ends a line. -/
def isLineTerminator (c : Char) : Bool := [10, 13, 8232, 8233].contains c.toNat

/-- `\w`. -/
def isWord (c : Char) : Bool := c.isAlphanum || c = '_'

/-- `trim()`, of characters. -/
def trimChars (cs : List Char) : List Char :=
  ((cs.dropWhile isSpace).reverse.dropWhile isSpace).reverse

def trim (s : String) : String := String.ofList (trimChars s.toList)

/-- `length`: UTF-16 code units. -/
def length (s : String) : ℕ := (s.toList.map fun c => if c.toNat < 65536 then 1 else 2).sum

end JsText

namespace Assoc

variable {V : Type*} {k k' : String} {v : V} {es : List (String × V)}

/-- `set`: a present key keeps its place. -/
def assign (k : String) (v : V) : List (String × V) → List (String × V)
  | [] => [(k, v)]
  | e :: es => if e.1 = k then (k, v) :: es else e :: assign k v es

def get? (es : List (String × V)) (k : String) : Option V :=
  (es.find? fun e => e.1 = k).map snd

theorem get?_cons (e : String × V) (es : List (String × V)) (k : String) :
    get? (e :: es) k = if e.1 = k then some e.2 else get? es k := by
  by_cases h : e.1 = k <;> simp [get?, h]

/-- An assigned key has its new value, and the others keep theirs. -/
theorem get?_assign : get? (assign k v es) k' = if k = k' then some v else get? es k' := by
  induction es with
  | nil => simp only [assign, get?_cons]
  | cons e es ih =>
    by_cases he : e.1 = k
    · simp only [assign, if_pos he, get?_cons]
      by_cases hk : k = k'
      · rw [if_pos hk, if_pos hk]
      · rw [if_neg hk, if_neg hk, if_neg (he ▸ hk)]
    · simp only [assign, if_neg he, get?_cons, ih]
      by_cases hk : k = k'
      · rw [if_pos hk, if_neg (hk ▸ he), if_pos hk]
      · rw [if_neg hk, if_neg hk]

theorem mem_keys_assign : k' ∈ (assign k v es).map fst ↔ k' = k ∨ k' ∈ es.map fst := by
  induction es with
  | nil => simp [assign]
  | cons e es ih =>
    by_cases he : e.1 = k
    · simp [assign, he]
    · rw [assign, if_neg he, map_cons, mem_cons, ih, map_cons, mem_cons]
      tauto

theorem mem_of_mem_assign {e : String × V} (h : e ∈ assign k v es) : e = (k, v) ∨ e ∈ es := by
  induction es with
  | nil => exact .inl (mem_singleton.1 h)
  | cons e' es ih =>
    rw [assign] at h
    split_ifs at h
    · exact (mem_cons.1 h).imp_right (mem_cons_of_mem _)
    · rcases mem_cons.1 h with rfl | h
      · exact .inr mem_cons_self
      · exact (ih h).imp_right (mem_cons_of_mem _)

theorem nodup_assign (h : (es.map fst).Nodup) : ((assign k v es).map fst).Nodup := by
  induction es with
  | nil => simp [assign]
  | cons e es ih =>
    rw [map_cons, nodup_cons] at h
    by_cases he : e.1 = k
    · rw [assign, if_pos he, map_cons, nodup_cons]
      exact ⟨he ▸ h.1, h.2⟩
    · rw [assign, if_neg he, map_cons, nodup_cons, mem_keys_assign, not_or]
      exact ⟨⟨he, h.1⟩, ih h.2⟩

theorem get?_eq_some_of_mem (h : (es.map fst).Nodup) (hmem : (k, v) ∈ es) :
    get? es k = some v := by
  induction es with
  | nil => cases hmem
  | cons e es ih =>
    rw [map_cons, nodup_cons] at h
    rw [get?_cons]
    rcases mem_cons.1 hmem with rfl | hmem
    · rw [if_pos rfl]
    · rw [if_neg, ih h.2 hmem]
      rintro rfl
      exact h.1 (List.mem_map.2 ⟨_, hmem, rfl⟩)

theorem mem_of_get? (h : get? es k = some v) : (k, v) ∈ es := by
  obtain ⟨e, he, rfl⟩ := map_eq_some_iff.1 h
  obtain rfl : e.1 = k := by simpa using find?_some he
  exact mem_of_find?_eq_some he

theorem get?_eq_some_iff (h : (es.map fst).Nodup) : get? es k = some v ↔ (k, v) ∈ es :=
  ⟨mem_of_get?, get?_eq_some_of_mem h⟩

theorem get?_eq_none_iff : get? es k = none ↔ k ∉ es.map fst := by
  induction es with
  | nil => simp [get?]
  | cons e es ih =>
    rw [get?_cons, map_cons, mem_cons, not_or]
    split_ifs with h
    · simp [h]
    · rw [ih]
      exact ⟨fun hn => ⟨Ne.symm h, hn⟩, fun hn => hn.2⟩

theorem get?_append {es' : List (String × V)} :
    get? (es ++ es') k = (get? es k).or (get? es' k) := by
  induction es with
  | nil => rfl
  | cons e es ih =>
    rw [cons_append, get?_cons, get?_cons, ih]
    split_ifs <;> rfl

theorem get?_map {α : Type*} {ds : List α} {key : α → String} {value : α → V} :
    get? (ds.map fun d => (key d, value d)) k = (ds.find? fun d => key d = k).map value := by
  induction ds with
  | nil => rfl
  | cons d ds ih =>
    rw [map_cons, get?_cons, ih]
    by_cases h : key d = k <;> simp [h]

theorem assign_of_notMem (h : k ∉ es.map fst) : assign k v es = es ++ [(k, v)] := by
  induction es with
  | nil => rfl
  | cons e es ih =>
    rw [map_cons, mem_cons, not_or] at h
    rw [assign, if_neg (Ne.symm h.1), ih h.2, cons_append]

/-- `delete`. -/
def erase (k : String) (es : List (String × V)) : List (String × V) := es.filter fun e => e.1 ≠ k

/-- An erased key is gone, and the others are as before. -/
theorem get?_erase : get? (erase k es) k' = if k = k' then none else get? es k' := by
  induction es with
  | nil => simp [erase, get?]
  | cons e es ih =>
    by_cases he : e.1 = k
    · have hcons : erase k (e :: es) = erase k es := by simp [erase, he]
      rw [hcons, ih, get?_cons, he]
      by_cases hk : k = k'
      · rw [if_pos hk, if_pos hk]
      · rw [if_neg hk, if_neg hk, if_neg hk]
    · have hcons : erase k (e :: es) = e :: erase k es := by simp [erase, he]
      rw [hcons, get?_cons, get?_cons, ih]
      by_cases hk : k = k'
      · rw [if_neg (hk ▸ he), if_pos hk, if_pos hk]
      · rw [if_neg hk, if_neg hk]

theorem get?_filterMap {W : Type*} {f : String × V → Option (String × W)}
    (hf : ∀ e e', f e = some e' → e'.1 = e.1) (h : (es.map fst).Nodup) :
    get? (es.filterMap f) k = (get? es k).bind fun v => (f (k, v)).map snd := by
  induction es with
  | nil => rfl
  | cons e es ih =>
    rw [map_cons, nodup_cons] at h
    rw [get?_cons]
    by_cases hk : e.1 = k
    · subst hk
      have hrest : get? (es.filterMap f) e.1 = none := by
        rw [ih h.2, get?_eq_none_iff.2 h.1]
        rfl
      rw [if_pos rfl]
      cases hfe : f e with
      | none => rw [filterMap_cons_none hfe, hrest, bind_some, hfe]; rfl
      | some e' =>
        rw [filterMap_cons_some hfe, get?_cons, if_pos (hf e e' hfe), bind_some, hfe]
        rfl
    · rw [if_neg hk, ← ih h.2]
      cases hfe : f e with
      | none => rw [filterMap_cons_none hfe]
      | some e' =>
        rw [filterMap_cons_some hfe, get?_cons, if_neg]
        rwa [hf e e' hfe]

theorem nodup_filterMap {W : Type*} {f : String × V → Option (String × W)}
    (hf : ∀ e e', f e = some e' → e'.1 = e.1) (h : (es.map fst).Nodup) :
    ((es.filterMap f).map fst).Nodup := by
  refine h.sublist ?_
  clear h
  induction es with
  | nil => exact Sublist.slnil
  | cons e es ih =>
    cases hfe : f e with
    | none =>
      rw [filterMap_cons_none hfe]
      exact ih.cons _
    | some e' =>
      rw [filterMap_cons_some hfe, map_cons, map_cons, hf e e' hfe]
      exact ih.cons_cons _

theorem get?_filter {p : String × V → Bool} (h : (es.map fst).Nodup) :
    get? (es.filter p) k = (get? es k).filter fun v => p (k, v) := by
  have hmap : es.filter p = es.filterMap fun e => if p e then some e else none := by
    rw [← filterMap_eq_filter]
    rfl
  rw [hmap, get?_filterMap _ h]
  · cases get? es k with
    | none => rfl
    | some v => by_cases hp : p (k, v) <;> simp [Option.filter, hp]
  · intro e e' he
    split_ifs at he
    cases he
    rfl

theorem nodup_filter {p : String × V → Bool} (h : (es.map fst).Nodup) :
    ((es.filter p).map fst).Nodup :=
  h.sublist (filter_sublist.map _)

end Assoc

end U2os
