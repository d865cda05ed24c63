import U2os.Lib.JsonText
import U2os.Lib.ParsedJson

/-!
# Equality of parsed values by their text

Two values are often compared by what `JSON.stringify` gives for them.  The text of a number tells
its value, so this is equality but for two things: the entries of an object must be in the same
order, and an infinite number has the text of `null`.

How a number is printed is left open; of the text only what a reader of it relies on is used.
-/

namespace U2os

/-- A way to print numbers: the text tells the value, and is one of digits, signs, `.` and `e`. -/
structure NumberText where
  text : F64 → String
  text_eq_iff : ∀ {x y}, text x = text y ↔ x.value = y.value
  nonempty : ∀ x, (text x).toList ≠ []
  chars : ∀ x, ∀ c ∈ (text x).toList, Json.isNumberChar c = true

/-- The value of a number. -/
def Double.extended : Double → WithBot (WithTop ℚ)
  | .finite f => ((f.value : WithTop ℚ) : WithBot (WithTop ℚ))
  | .infinite false => ((⊤ : WithTop ℚ) : WithBot (WithTop ℚ))
  | .infinite true => ⊥

/-- `String(x)`. -/
def Double.toText (N : NumberText) : Double → String
  | .finite f => N.text f
  | .infinite false => "Infinity"
  | .infinite true => "-Infinity"

namespace ParsedJson

section

variable (N : NumberText)

mutual
/-- A value with the texts of its numbers; an infinite one becomes `null`. -/
def toJson : ParsedJson → Json
  | null => .null
  | bool b => .bool b
  | num (.finite f) => .num (N.text f)
  | num (.infinite _) => .null
  | str s => .str s
  | arr items => .arr (toJsonItems items)
  | obj entries => .obj (toJsonEntries entries)
/-- The items of an array. -/
def toJsonItems : List ParsedJson → List Json
  | [] => []
  | v :: vs => toJson v :: toJsonItems vs
/-- The entries of an object. -/
def toJsonEntries : List (String × ParsedJson) → List (String × Json)
  | [] => []
  | e :: es => toJsonEntry e :: toJsonEntries es
def toJsonEntry : String × ParsedJson → String × Json
  | (k, v) => (k, toJson v)
end

def stringify (v : ParsedJson) : String := (v.toJson N).render

end

/-- A value without infinite numbers. -/
inductive IsFinite : ParsedJson → Prop
  | null : IsFinite null
  | bool (b : Bool) : IsFinite (bool b)
  | num (f : F64) : IsFinite (num (.finite f))
  | str (s : String) : IsFinite (str s)
  | arr {items : List ParsedJson} : (∀ v ∈ items, IsFinite v) → IsFinite (arr items)
  | obj {entries : List (String × ParsedJson)} : (∀ e ∈ entries, IsFinite e.2) →
      IsFinite (obj entries)

/-- Equality of values: an object is what its keys have. -/
inductive Equal : ParsedJson → ParsedJson → Prop
  | null : Equal null null
  | bool (b : Bool) : Equal (bool b) (bool b)
  | num {x y : Double} : x.extended = y.extended → Equal (num x) (num y)
  | str (s : String) : Equal (str s) (str s)
  | arr {xs ys : List ParsedJson} : xs.length = ys.length →
      (∀ (i : ℕ) (x y : ParsedJson), xs[i]? = some x → ys[i]? = some y → Equal x y) →
      Equal (arr xs) (arr ys)
  | obj {es fs : List (String × ParsedJson)} :
      (∀ k, (Assoc.get? es k).isSome = (Assoc.get? fs k).isSome) →
      (∀ k v w, Assoc.get? es k = some v → Assoc.get? fs k = some w → Equal v w) →
      Equal (obj es) (obj fs)

variable {N : NumberText} {a b : ParsedJson}

theorem toJsonItems_eq (vs : List ParsedJson) : toJsonItems N vs = vs.map (toJson N) := by
  induction vs with
  | nil => rfl
  | cons v vs ih => rw [toJsonItems, ih, List.map_cons]

theorem toJsonEntries_eq (es : List (String × ParsedJson)) :
    toJsonEntries N es = es.map fun e => (e.1, toJson N e.2) := by
  induction es with
  | nil => rfl
  | cons e es ih => rw [toJsonEntries, ih, List.map_cons, toJsonEntry]

mutual
theorem literals_toJson : ∀ v : ParsedJson, (toJson N v).Literals
  | null => trivial
  | bool _ => trivial
  | num (.finite f) => ⟨N.nonempty f, N.chars f⟩
  | num (.infinite _) => trivial
  | str _ => trivial
  | arr items => literals_toJsonItems items
  | obj entries => literals_toJsonEntries entries
theorem literals_toJsonItems : ∀ vs : List ParsedJson, Json.LiteralsItems (toJsonItems N vs)
  | [] => trivial
  | v :: vs => ⟨literals_toJson v, literals_toJsonItems vs⟩
theorem literals_toJsonEntries :
    ∀ es : List (String × ParsedJson), Json.LiteralsFields (toJsonEntries N es)
  | [] => trivial
  | e :: es => ⟨literals_toJsonEntry e, literals_toJsonEntries es⟩
theorem literals_toJsonEntry :
    ∀ e : String × ParsedJson, Json.LiteralsField (toJsonEntry N e)
  | (_, v) => literals_toJson v
end

/-- Two values have one text only if they are printed from one tree. -/
theorem stringify_eq_iff : stringify N a = stringify N b ↔ toJson N a = toJson N b :=
  Json.render_inj (literals_toJson a) (literals_toJson b)

theorem get?_toJsonEntries (es : List (String × ParsedJson)) (k : String) :
    Assoc.get? (toJsonEntries N es) k = (Assoc.get? es k).map (toJson N) := by
  rw [toJsonEntries_eq, Assoc.get?_map, Assoc.get?, Option.map_map]
  rfl

/-- Values that are printed alike are equal. -/
theorem equal_of_toJson (ha : a.IsFinite) (hb : b.IsFinite) (h : toJson N a = toJson N b) :
    Equal a b := by
  induction ha generalizing b with
  | null =>
    cases hb <;> simp [toJson] at h
    exact .null
  | bool x =>
    cases hb <;> simp [toJson] at h
    exact h ▸ .bool _
  | num f =>
    cases hb <;> simp [toJson, N.text_eq_iff] at h
    exact .num (by simp [Double.extended, h])
  | str s =>
    cases hb <;> simp [toJson] at h
    exact h ▸ .str _
  | @arr xs _ ih =>
    cases hb with
    | @arr ys hys =>
      rw [toJson, toJson, toJsonItems_eq, toJsonItems_eq, Json.arr.injEq] at h
      refine .arr (by simpa using congrArg List.length h) fun i x y hx hy => ?_
      refine ih x (List.mem_of_getElem? hx) (hys y (List.mem_of_getElem? hy)) ?_
      have hi := congrArg (fun l => l[i]?) h
      simpa [hx, hy] using hi
    | _ => simp [toJson] at h
  | @obj es _ ih =>
    cases hb with
    | @obj fs hfs =>
      rw [toJson, toJson, Json.obj.injEq] at h
      have hget : ∀ k, (Assoc.get? es k).map (toJson N) = (Assoc.get? fs k).map (toJson N) := by
        intro k
        rw [← get?_toJsonEntries, h, get?_toJsonEntries]
      refine .obj (fun k => ?_) fun k v w hv hw => ?_
      · simpa using congrArg Option.isSome (hget k)
      · refine ih _ (Assoc.mem_of_get? hv) (hfs _ (Assoc.mem_of_get? hw)) ?_
        have hk := hget k
        rw [hv, hw] at hk
        exact Option.some.inj hk
    | _ => simp [toJson] at h

theorem equal_of_stringify (ha : a.IsFinite) (hb : b.IsFinite)
    (h : stringify N a = stringify N b) : Equal a b :=
  equal_of_toJson ha hb (stringify_eq_iff.1 h)

end ParsedJson

end U2os
