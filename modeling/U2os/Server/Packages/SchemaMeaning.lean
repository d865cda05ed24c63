import U2os.Server.Packages.JsonSchema

/-!
# What a schema means

A value satisfies a schema if it passes every keyword, and its items and properties satisfy their
subschemas.  `validate` visits the same pairs of a schema and a value and reads the keywords in its
own way: it compares by `JSON.stringify`, which tells the order of the keys of an object, and counts
code units, where a text has characters.

So `validate` is too strict where an option is equal to the value in another order, and for texts
that are too long in code units only; it is too lax for texts that are long enough in code units
only.

## Main results

* `accepts_iff_passes` : how the two readings differ.
-/

namespace U2os.Server.Packages.Schema

open ParsedJson List Option

/-- A value is of a type. -/
def HasType (type : String) (value : ParsedJson) : Prop :=
  match type, value with
  | "string", .str _ | "number", .num _ | "boolean", .bool _ | "object", .obj _ | "array", .arr _
  | "null", .null => True
  | "integer", v => v.integer?.isSome = true
  | _, _ => False

inductive Keyword where
  | type | const | enum | minimum | maximum | minLength | maxLength | minItems | maxItems
  | required | additionalProperties
deriving DecidableEq

/-- The value passes the keyword. -/
def Keyword.Passes (schema value : ParsedJson) : Keyword → Prop
  | type => ∀ types, typesOf schema = some types → ∃ type ∈ texts types, HasType type value
  | const => ∀ const, schema.get? "const" = some const → Equal const value
  | enum => ∀ options, enumOf schema = some options → ∃ option ∈ options, Equal option value
  | minimum => ∀ bound x, boundOf schema "minimum" = some bound → value = .num x →
      bound.extended ≤ x.extended
  | maximum => ∀ bound x, boundOf schema "maximum" = some bound → value = .num x →
      x.extended ≤ bound.extended
  | minLength => ∀ bound s, boundOf schema "minLength" = some bound → value = .str s →
      bound.extended ≤ count s.toList.length
  | maxLength => ∀ bound s, boundOf schema "maxLength" = some bound → value = .str s →
      count s.toList.length ≤ bound.extended
  | minItems => ∀ bound items, boundOf schema "minItems" = some bound → value = .arr items →
      bound.extended ≤ count items.length
  | maxItems => ∀ bound items, boundOf schema "maxItems" = some bound → value = .arr items →
      count items.length ≤ bound.extended
  | required => ∀ entries, value = .obj entries → ∀ name ∈ requiredOf schema,
      (Assoc.get? entries name).isSome = true
  | additionalProperties => ∀ entries, value = .obj entries → ∀ e ∈ entries,
      isClosedTo schema e.1 = false

/-- **The value satisfies the schema.** -/
inductive Satisfies : ParsedJson → ParsedJson → Prop
  | intro {schema value : ParsedJson} :
      (∀ k : Keyword, k.Passes schema value) →
      (∀ child items, itemsOf schema = some child → value = .arr items →
        ∀ v ∈ items, Satisfies child v) →
      (∀ entries, value = .obj entries → ∀ e ∈ entries, ∀ child,
        subschema schema e.1 = some child → Satisfies child e.2) →
      Satisfies schema value

/-- The pair is visited. -/
inductive Reached : ParsedJson → ParsedJson → ParsedJson → ParsedJson → Prop
  | here (schema value : ParsedJson) : Reached schema value schema value
  | item {schema child s v w : ParsedJson} {items : List ParsedJson} :
      itemsOf schema = some child → w ∈ items → Reached child w s v →
      Reached schema (.arr items) s v
  | property {schema child s v : ParsedJson} {entries : List (String × ParsedJson)}
      {e : String × ParsedJson} :
      subschema schema e.1 = some child → e ∈ entries → Reached child e.2 s v →
      Reached schema (.obj entries) s v

variable {N : NumberText} {schema value s v : ParsedJson} {left : ℕ} {where_ : String}
  {errors : List String}

theorem passes_of_satisfies (h : Satisfies schema value) (hreached : Reached schema value s v)
    (k : Keyword) : k.Passes s v := by
  induction hreached with
  | here =>
    cases h with
    | intro hlocal _ _ => exact hlocal k
  | item hchild hw _ ih =>
    cases h with
    | intro _ hitems _ => exact ih (hitems _ _ hchild rfl _ hw)
  | property hchild he _ ih =>
    cases h with
    | intro _ _ hentries => exact ih (hentries _ rfl _ he _ hchild)

theorem satisfies_of_passes (schema value : ParsedJson)
    (h : ∀ s v, Reached schema value s v → ∀ k : Keyword, k.Passes s v) :
    Satisfies schema value :=
  .intro (h _ _ (.here ..))
    (fun child items hchild hvalue w hw => satisfies_of_passes child w fun s v hr =>
      h s v (hvalue ▸ .item hchild hw hr))
    (fun entries hvalue e he child hchild => satisfies_of_passes child e.2 fun s v hr =>
      h s v (hvalue ▸ .property hchild he hr))
termination_by value
decreasing_by
  · subst hvalue
    have := List.sizeOf_lt_of_mem hw
    simp
    omega
  · subst hvalue
    have := List.sizeOf_lt_of_mem he
    have : sizeOf e.2 < sizeOf e := by
      obtain ⟨_, _⟩ := e
      simp
    simp
    omega

/-- A value satisfies a schema if each reached keyword passes. -/
theorem satisfies_iff : Satisfies schema value ↔
    ∀ s v, Reached schema value s v → ∀ k : Keyword, k.Passes s v :=
  ⟨fun h _ _ => passes_of_satisfies h, satisfies_of_passes schema value⟩

/-- The subschemas are nested less deeply than what is left. -/
inductive Shallow : ℕ → ParsedJson → Prop
  | intro {left : ℕ} {schema : ParsedJson} :
      (∀ child, itemsOf schema = some child → Shallow left child) →
      (∀ name child, subschema schema name = some child → Shallow left child) →
      Shallow (left + 1) schema

theorem of_foldl_eq_nil {α : Type} {f : List String → α → List String} {P : α → Prop}
    (hf : ∀ errors x, f errors x = [] → errors = [] ∧ P x) {xs : List α} {errors : List String}
    (h : xs.foldl f errors = []) : errors = [] ∧ ∀ x ∈ xs, P x := by
  induction xs generalizing errors with
  | nil => exact ⟨h, nofun⟩
  | cons x xs ih =>
    obtain ⟨hx, hxs⟩ := ih h
    obtain ⟨herrors, hP⟩ := hf errors x hx
    exact ⟨herrors, forall_mem_cons.2 ⟨hP, hxs⟩⟩

section Children

variable {check : ParsedJson → String → List String → List String} {P : ParsedJson → Prop}
  (hcheck : ∀ schema where_ errors, check schema where_ errors = [] → errors = [] ∧ P schema)
include hcheck

theorem of_checkProperties (h : checkProperties check schema where_ errors = []) :
    errors = [] ∧ ∀ e ∈ propertiesOf schema, P e.2 := by
  unfold checkProperties at h
  unfold propertiesOf
  split at h
  · exact ⟨h, by simp [*]⟩
  · rename_i properties hget
    rw [hget]
    exact of_foldl_eq_nil (fun errors e => hcheck e.2 _ errors) h
  · simp at h

theorem of_checkItems (h : checkItems check schema where_ errors = []) :
    errors = [] ∧ ∀ child, schema.get? "items" = some child → P child := by
  unfold checkItems at h
  cases hget : schema.get? "items" with
  | none =>
    rw [hget] at h
    exact ⟨h, nofun⟩
  | some items =>
    rw [hget] at h
    obtain ⟨herrors, hP⟩ := hcheck _ _ _ h
    exact ⟨herrors, fun child hchild => Option.some.inj hchild ▸ hP⟩

theorem of_checkAdditional (h : checkAdditional check schema where_ errors = []) :
    errors = [] ∧ ∀ child, schema.get? "additionalProperties" = some child →
      child.isObject = true → P child := by
  unfold checkAdditional at h
  cases hget : schema.get? "additionalProperties" with
  | none =>
    rw [hget] at h
    exact ⟨h, nofun⟩
  | some additional =>
    rw [hget] at h
    cases additional with
    | obj entries =>
      obtain ⟨herrors, hP⟩ := hcheck _ _ _ h
      exact ⟨herrors, fun child hchild _ => Option.some.inj hchild ▸ hP⟩
    | bool b => exact ⟨h, fun child hchild hobject => by cases hchild; cases hobject⟩
    | _ => exact ⟨(hcheck _ _ _ h).1, fun child hchild hobject => by cases hchild; cases hobject⟩

end Children

theorem shallow_of_checkSchema (h : checkSchemaAt left schema where_ errors = []) :
    errors = [] ∧ Shallow left schema := by
  induction left generalizing schema where_ errors with
  | zero => simp [checkSchemaAt] at h
  | succ left ih =>
    unfold checkSchemaAt at h
    split_ifs at h
    · simp at h
    · have hcheck : ∀ schema where_ errors, checkSchemaAt left schema where_ errors = [] →
          errors = [] ∧ Shallow left schema := fun _ _ _ => ih
      -- backwards through what has been added
      obtain ⟨h, hadditional⟩ := of_checkAdditional hcheck (append_eq_nil_iff.1 h).1
      obtain ⟨h, hitems⟩ := of_checkItems hcheck h
      obtain ⟨h, hproperties⟩ := of_checkProperties hcheck (append_eq_nil_iff.1 h).1
      refine ⟨(append_eq_nil_iff.1 h).1, .intro (fun child hchild => ?_)
        fun name child hchild => ?_⟩
      · exact hitems child (Option.filter_eq_some_iff.1 hchild).1
      · unfold subschema at hchild
        split at hchild
        · rename_i child' hget
          obtain rfl := some.inj hchild
          exact hproperties _ (Assoc.mem_of_get? hget)
        · obtain ⟨hget, hobject⟩ := Option.filter_eq_some_iff.1 hchild
          exact hadditional child hget hobject

/-! ### What `validate` finds -/

/-- The code accepts the keyword. -/
def Keyword.Accepts (N : NumberText) (schema value : ParsedJson) : Keyword → Prop
  | type => ∀ types, typesOf schema = some types →
      ∃ type ∈ texts types, matchesType type value = true
  | const => ∀ const, schema.get? "const" = some const → const.stringify N = value.stringify N
  | enum => ∀ options, enumOf schema = some options →
      ∃ option ∈ options, option.stringify N = value.stringify N
  | minLength => ∀ bound s, boundOf schema "minLength" = some bound → value = .str s →
      bound.extended ≤ count (JsText.length s)
  | maxLength => ∀ bound s, boundOf schema "maxLength" = some bound → value = .str s →
      count (JsText.length s) ≤ bound.extended
  | k => k.Passes schema value

theorem typeError_eq_none_iff : typeError schema value where_ = none ↔
    Keyword.type.Accepts N schema value := by
  unfold typeError Keyword.Accepts
  cases typesOf schema <;> simp

theorem equalityErrors_eq_nil_iff : equalityErrors N schema value where_ = [] ↔
    Keyword.const.Accepts N schema value ∧ Keyword.enum.Accepts N schema value := by
  unfold equalityErrors Keyword.Accepts deepEqual
  rw [append_eq_nil_iff]
  refine and_congr ?_ ?_
  · cases schema.get? "const" <;> simp
  · cases enumOf schema <;> simp

variable {key : String}

theorem tooSmall_eq_nil_iff {size : WithBot (WithTop ℚ)}
    {message : String → String} : tooSmall N schema key size message = [] ↔
      ∀ bound, boundOf schema key = some bound → bound.extended ≤ size := by
  unfold tooSmall
  cases boundOf schema key <;> simp

theorem tooLarge_eq_nil_iff {size : WithBot (WithTop ℚ)}
    {message : String → String} : tooLarge N schema key size message = [] ↔
      ∀ bound, boundOf schema key = some bound → size ≤ bound.extended := by
  unfold tooLarge
  cases boundOf schema key <;> simp

theorem rangeErrors_eq_nil_iff : rangeErrors N schema value where_ = [] ↔
    (Keyword.minimum.Accepts N schema value ∧ Keyword.maximum.Accepts N schema value) ∧
    (Keyword.minLength.Accepts N schema value ∧ Keyword.maxLength.Accepts N schema value) ∧
    (Keyword.minItems.Accepts N schema value ∧ Keyword.maxItems.Accepts N schema value) := by
  unfold rangeErrors Keyword.Accepts
  cases value <;>
    simp [Keyword.Passes, tooSmall_eq_nil_iff, tooLarge_eq_nil_iff]

theorem missingErrors_eq_nil_iff {entries : List (String × ParsedJson)} :
    missingErrors schema entries where_ = [] ↔
      Keyword.required.Accepts N schema (.obj entries) := by
  unfold missingErrors Keyword.Accepts
  simp [Keyword.Passes, filterMap_eq_nil_iff, isSome_iff_ne_none]

/-- The keywords that are read before the properties are visited. -/
def KeywordsAccepted (N : NumberText) (schema value : ParsedJson) (where_ : String) : Prop :=
  typeError schema value where_ = none ∧ equalityErrors N schema value where_ = [] ∧
    rangeErrors N schema value where_ = []

theorem accepts_all_iff : (∀ k : Keyword, k.Accepts N schema value) ↔
    KeywordsAccepted N schema value where_ ∧ Keyword.required.Accepts N schema value ∧
      Keyword.additionalProperties.Accepts N schema value := by
  unfold KeywordsAccepted
  rw [typeError_eq_none_iff (N := N), equalityErrors_eq_nil_iff, rangeErrors_eq_nil_iff]
  constructor
  · exact fun h => ⟨⟨h _, ⟨h _, h _⟩, ⟨h _, h _⟩, ⟨h _, h _⟩, h _, h _⟩, h _, h _⟩
  · rintro ⟨⟨htype, ⟨hconst, henum⟩, ⟨hmin, hmax⟩, ⟨hminLength, hmaxLength⟩, hminItems, hmaxItems⟩,
      hrequired, hadditional⟩ k
    cases k <;> assumption

theorem isClosedTo_of_subschema {name : String} {child : ParsedJson}
    (h : subschema schema name = some child) : isClosedTo schema name = false := by
  unfold subschema at h
  unfold isClosedTo
  split at h
  · simp [*]
  · obtain ⟨hget, hobject⟩ := Option.filter_eq_some_iff.1 h
    obtain ⟨entries, rfl⟩ := isObject_iff.1 hobject
    simp [hget]

/-- The code accepts every keyword of every pair. -/
def Accepted (N : NumberText) (schema value : ParsedJson) : Prop :=
  ∀ s v, Reached schema value s v → ∀ k : Keyword, k.Accepts N s v

theorem accepted_arr {items : List ParsedJson} : Accepted N schema (.arr items) ↔
    (∀ k : Keyword, k.Accepts N schema (.arr items)) ∧
      ∀ child, itemsOf schema = some child → ∀ w ∈ items, Accepted N child w := by
  constructor
  · exact fun h => ⟨h _ _ (.here ..), fun child hchild w hw s v hr => h s v (.item hchild hw hr)⟩
  · rintro ⟨hhere, hitems⟩ s v hr
    cases hr with
    | here => exact hhere
    | item hchild hw hr => exact hitems _ hchild _ hw _ _ hr

theorem accepted_obj {entries : List (String × ParsedJson)} :
    Accepted N schema (.obj entries) ↔ (∀ k : Keyword, k.Accepts N schema (.obj entries)) ∧
      ∀ e ∈ entries, ∀ child, subschema schema e.1 = some child → Accepted N child e.2 := by
  constructor
  · exact fun h =>
      ⟨h _ _ (.here ..), fun e he child hchild s v hr => h s v (.property hchild he hr)⟩
  · rintro ⟨hhere, hentries⟩ s v hr
    cases hr with
    | here => exact hhere
    | property hchild he hr => exact hentries _ he _ hchild _ _ hr

theorem foldl_eq_nil_iff {α : Type} {f : List String → α → List String} {P : α → Prop}
    (hf : ∀ errors x, f errors x = [] ↔ errors = [] ∧ P x) {xs : List α} {errors : List String} :
    xs.foldl f errors = [] ↔ errors = [] ∧ ∀ x ∈ xs, P x := by
  induction xs generalizing errors with
  | nil => simp
  | cons x xs ih => rw [foldl_cons, ih, hf, forall_mem_cons, and_assoc]

section Children

variable {visit : ParsedJson → ParsedJson → String → List String → List String}
  {P : ParsedJson → ParsedJson → Prop}

theorem visitItems_eq_nil_iff {items : List ParsedJson}
    (hvisit : ∀ child value where_ errors, itemsOf schema = some child →
      (visit child value where_ errors = [] ↔ errors = [] ∧ P child value)) :
    visitItems visit schema where_ items errors = [] ↔
      errors = [] ∧ ∀ child, itemsOf schema = some child → ∀ w ∈ items, P child w := by
  unfold visitItems
  cases hchild : itemsOf schema with
  | none => simp
  | some child =>
    dsimp only
    rw [foldl_eq_nil_iff (P := fun item => P child item.1) fun errors item =>
        hvisit child item.1 _ errors hchild,
      ← List.forall_mem_map (f := Prod.fst) (P := P child), zipIdx_map_fst]
    simp

theorem visitProperty_eq_nil_iff {e : String × ParsedJson}
    (hvisit : ∀ child value where_ errors, subschema schema e.1 = some child →
      (visit child value where_ errors = [] ↔ errors = [] ∧ P child value)) :
    visitProperty visit schema where_ errors e = [] ↔
      errors = [] ∧ isClosedTo schema e.1 = false ∧
        ∀ child, subschema schema e.1 = some child → P child e.2 := by
  unfold visitProperty
  cases hchild : subschema schema e.1 with
  | none => cases hclosed : isClosedTo schema e.1 <;> simp
  | some child =>
    dsimp only
    rw [hvisit _ _ _ _ hchild]
    simp [isClosedTo_of_subschema hchild]

end Children

/-- Nothing is reported just where all keywords accept. -/
theorem visit_eq_nil_iff (h : Shallow left schema) : visit N left schema value where_ errors = [] ↔
    errors = [] ∧ Accepted N schema value := by
  induction left generalizing schema value where_ errors with
  | zero => cases h
  | succ left ih =>
    obtain ⟨hitems, hsubschema⟩ := h
    have hvisit : ∀ child value where_ errors, Shallow left child →
        (visit N left child value where_ errors = [] ↔ errors = [] ∧ Accepted N child value) :=
      fun _ _ _ _ => ih
    unfold visit
    split_ifs with hmany
    · have hne : errors ≠ [] := by
        rintro rfl
        exact absurd hmany (by decide)
      simp [hne]
    cases htype : typeError schema value where_ with
    | some error =>
      have hno : ¬ Keyword.type.Accepts N schema value := by
        intro haccepts
        have hnone : typeError schema value where_ = none := typeError_eq_none_iff.2 haccepts
        cases htype.symm.trans hnone
      simp only [append_eq_nil_iff, cons_ne_self, and_false, false_iff, not_and]
      exact fun _ hall => hno (hall _ _ (.here ..) .type)
    | none =>
      have hlocal : errors ++ equalityErrors N schema value where_ ++
          rangeErrors N schema value where_ = [] ↔
            errors = [] ∧ KeywordsAccepted N schema value where_ := by
        simp [KeywordsAccepted, htype]
      dsimp only
      cases value with
      | arr items =>
        have hobject : Keyword.required.Accepts N schema (.arr items) ∧
            Keyword.additionalProperties.Accepts N schema (.arr items) := ⟨nofun, nofun⟩
        dsimp only
        rw [visitItems_eq_nil_iff fun child value where_ errors hchild =>
            hvisit child value where_ errors (hitems child hchild),
          accepted_arr, hlocal, accepts_all_iff, and_iff_left hobject, and_assoc]
      | obj entries =>
        have hclosed : Keyword.additionalProperties.Accepts N schema (.obj entries) ↔
            ∀ e ∈ entries, isClosedTo schema e.1 = false :=
          ⟨fun h => h entries rfl, fun h _ heq => by cases heq; exact h⟩
        have hround : ∀ errors e, visitProperty (visit N left) schema where_ errors e = [] ↔
            errors = [] ∧ isClosedTo schema e.1 = false ∧
              ∀ child, subschema schema e.1 = some child → Accepted N child e.2 :=
          fun errors e => visitProperty_eq_nil_iff fun child value where_ errors hchild =>
            hvisit child value where_ errors (hsubschema _ child hchild)
        dsimp only
        rw [foldl_eq_nil_iff hround, accepted_obj, append_eq_nil_iff, hlocal,
          missingErrors_eq_nil_iff (N := N),
          accepts_all_iff, hclosed]
        constructor
        · rintro ⟨⟨⟨herrors, hkeywords⟩, hrequired⟩, hall⟩
          exact ⟨herrors, ⟨hkeywords, hrequired, fun e he => (hall e he).1⟩,
            fun e he => (hall e he).2⟩
        · rintro ⟨herrors, ⟨hkeywords, hrequired, hclosed⟩, hall⟩
          exact ⟨⟨⟨herrors, hkeywords⟩, hrequired⟩, fun e he => ⟨hclosed e he, hall e he⟩⟩
      | _ =>
        dsimp only
        rw [hlocal]
        refine and_congr_right fun _ => ?_
        constructor
        · intro hkeywords s v hr
          cases hr
          exact accepts_all_iff.2 ⟨hkeywords, nofun, nofun⟩
        · exact fun h => (accepts_all_iff.1 (h _ _ (.here ..))).1

/-! ### The two readings -/

/-- An option that is equal to the value, with the keys of some object in another order, and none
that is the same. -/
def Reordered (N : NumberText) (schema value : ParsedJson) : Prop :=
  (∃ const, schema.get? "const" = some const ∧ Equal const value ∧
    const.toJson N ≠ value.toJson N) ∨
  ∃ options, enumOf schema = some options ∧ (∃ option ∈ options, Equal option value) ∧
    ∀ option ∈ options, option.toJson N ≠ value.toJson N

/-- A text that is too long in code units and not in characters. -/
def LongInUnits (schema value : ParsedJson) : Prop :=
  ∃ bound s, boundOf schema "maxLength" = some bound ∧ value = .str s ∧
    count s.toList.length ≤ bound.extended ∧ bound.extended < count (JsText.length s)

/-- A text that is too short in characters and not in code units. -/
def ShortInCharacters (schema value : ParsedJson) : Prop :=
  ∃ bound s, boundOf schema "minLength" = some bound ∧ value = .str s ∧
    count s.toList.length < bound.extended ∧ bound.extended ≤ count (JsText.length s)

theorem count_le_count_length (s : String) : count s.toList.length ≤ count (JsText.length s) := by
  have hle : s.toList.length ≤ JsText.length s := by
    unfold JsText.length
    induction s.toList with
    | nil => exact le_rfl
    | cons c cs ih =>
      rw [map_cons, sum_cons, length_cons]
      split_ifs <;> omega
  unfold count
  exact_mod_cast hle

theorem matchesType_iff (hv : value.IsFinite) (type : String) :
    matchesType type value = true ↔ HasType type value := by
  unfold matchesType HasType
  cases hv <;> split <;> simp_all [isObject, integer?]

theorem isFinite_of_get? (h : schema.IsFinite) (hget : schema.get? key = some v) :
    v.IsFinite := by
  cases h with
  | obj hentries => exact hentries _ (Assoc.mem_of_get? hget)
  | _ => cases hget

theorem isFinite_of_enumOf {options : List ParsedJson} (h : schema.IsFinite)
    (henum : enumOf schema = some options) : ∀ option ∈ options, option.IsFinite := by
  unfold enumOf at henum
  split at henum
  · rename_i hget
    obtain rfl := some.inj henum
    cases isFinite_of_get? h hget with
    | arr hitems => exact hitems
  · cases henum

/-- What is reached in finite values is finite. -/
theorem isFinite_of_reached (hs : schema.IsFinite) (hv : value.IsFinite)
    (h : Reached schema value s v) : s.IsFinite ∧ v.IsFinite := by
  induction h with
  | here => exact ⟨hs, hv⟩
  | item hchild hw _ ih =>
    cases hv with
    | arr hitems =>
      exact ih (isFinite_of_get? hs (Option.filter_eq_some_iff.1 hchild).1) (hitems _ hw)
  | property hchild he _ ih =>
    cases hv with
    | obj hentries =>
      refine ih ?_ (hentries _ he)
      unfold subschema propertiesOf at hchild
      split at hchild
      · rename_i hget
        obtain rfl := some.inj hchild
        split at hget
        · rename_i hproperties
          cases isFinite_of_get? hs hproperties with
          | obj hchildren => exact hchildren _ (Assoc.mem_of_get? hget)
        · cases hget
      · exact isFinite_of_get? hs (Option.filter_eq_some_iff.1 hchild).1

theorem type_accepts_iff (hv : value.IsFinite) :
    Keyword.type.Accepts N schema value ↔ Keyword.type.Passes schema value := by
  simp only [Keyword.Accepts, Keyword.Passes, matchesType_iff hv]

/-- **The code accepts what the standard does not only where a text is too short in characters.** -/
theorem lax_iff (hs : schema.IsFinite) (hv : value.IsFinite) :
    (∃ k : Keyword, k.Accepts N schema value ∧ ¬k.Passes schema value) ↔
      ShortInCharacters schema value := by
  constructor
  · rintro ⟨k, haccepts, hpasses⟩
    cases k with
    | type => exact absurd ((type_accepts_iff hv).1 haccepts) hpasses
    | const =>
      refine absurd (fun const hconst => ?_) hpasses
      exact equal_of_stringify (isFinite_of_get? hs hconst) hv (haccepts const hconst)
    | enum =>
      refine absurd (fun options henum => ?_) hpasses
      obtain ⟨option, hoption, htext⟩ := haccepts options henum
      exact ⟨option, hoption,
        equal_of_stringify (isFinite_of_enumOf hs henum option hoption) hv htext⟩
    | minLength =>
      simp only [Keyword.Passes, not_forall, not_le] at hpasses
      obtain ⟨bound, s, hbound, hvalue, hlt⟩ := hpasses
      exact ⟨bound, s, hbound, hvalue, hlt, haccepts bound s hbound hvalue⟩
    | maxLength =>
      exact absurd (fun bound s hbound hvalue =>
        (count_le_count_length s).trans (haccepts bound s hbound hvalue)) hpasses
    | _ => exact absurd haccepts hpasses
  · rintro ⟨bound, s, hbound, rfl, hlt, hle⟩
    refine ⟨.minLength, fun bound' s' hbound' hs' => ?_, fun h => ?_⟩
    · obtain rfl := some.inj (hbound.symm.trans hbound')
      cases hs'
      exact hle
    · exact absurd (h bound s hbound rfl) (not_le.2 hlt)

/-- **The standard accepts what the code does not only where an option is equal in another order or
a text is too long in code units.** -/
theorem strict_iff (hv : value.IsFinite) :
    (∃ k : Keyword, k.Passes schema value ∧ ¬k.Accepts N schema value) ↔
      Reordered N schema value ∨ LongInUnits schema value := by
  constructor
  · rintro ⟨k, hpasses, haccepts⟩
    cases k with
    | type => exact absurd ((type_accepts_iff hv).2 hpasses) haccepts
    | const =>
      simp only [Keyword.Accepts, not_forall, stringify_eq_iff] at haccepts
      obtain ⟨const, hconst, hne⟩ := haccepts
      exact .inl (.inl ⟨const, hconst, hpasses const hconst, hne⟩)
    | enum =>
      simp only [Keyword.Accepts, not_forall, stringify_eq_iff, not_exists, not_and] at haccepts
      obtain ⟨options, henum, hne⟩ := haccepts
      exact .inl (.inr ⟨options, henum, hpasses options henum, hne⟩)
    | minLength =>
      exact absurd (fun bound s hbound hvalue =>
        (hpasses bound s hbound hvalue).trans (count_le_count_length s)) haccepts
    | maxLength =>
      simp only [Keyword.Accepts, not_forall, not_le] at haccepts
      obtain ⟨bound, s, hbound, hvalue, hlt⟩ := haccepts
      exact .inr ⟨bound, s, hbound, hvalue, hpasses bound s hbound hvalue, hlt⟩
    | _ => exact absurd hpasses haccepts
  · rintro ((⟨const, hconst, hequal, hne⟩ | ⟨options, henum, hequal, hne⟩) |
      ⟨bound, s, hbound, rfl, hle, hlt⟩)
    · refine ⟨.const, fun const' hconst' => ?_, fun h => hne (stringify_eq_iff.1 (h const hconst))⟩
      rwa [some.inj (hconst'.symm.trans hconst)]
    · refine ⟨.enum, fun options' henum' => ?_, fun h => ?_⟩
      · rwa [some.inj (henum'.symm.trans henum)]
      · obtain ⟨option, hoption, htext⟩ := h options henum
        exact hne option hoption (stringify_eq_iff.1 htext)
    · refine ⟨.maxLength, fun bound' s' hbound' hs' => ?_, fun h => ?_⟩
      · obtain rfl := some.inj (hbound.symm.trans hbound')
        cases hs'
        exact hle
      · exact absurd (h bound s hbound rfl) (not_le.2 hlt)

/-- Two readings of some checks agree on all of them together if one check fails in both, or each
reading is the stricter one somewhere or nowhere. -/
theorem readings_agree_iff {α β κ : Type} {R : α → β → Prop} {C S : α → β → κ → Prop} :
    ((∀ a b, R a b → ∀ k, C a b k) ↔ ∀ a b, R a b → ∀ k, S a b k) ↔
      (∃ a b, R a b ∧ ∃ k, ¬S a b k ∧ ¬C a b k) ∨
      ((∃ a b, R a b ∧ ∃ k, S a b k ∧ ¬C a b k) ↔ ∃ a b, R a b ∧ ∃ k, C a b k ∧ ¬S a b k) := by
  have hall : ∀ {C S : α → β → κ → Prop}, (∀ a b, R a b → ∀ k, C a b k) ↔
      ¬(∃ a b, R a b ∧ ∃ k, S a b k ∧ ¬C a b k) ∧ ¬∃ a b, R a b ∧ ∃ k, ¬S a b k ∧ ¬C a b k := by
    intro C S
    constructor
    · intro h
      exact ⟨fun ⟨a, b, hr, k, _, hc⟩ => hc (h a b hr k), fun ⟨a, b, hr, k, _, hc⟩ => hc (h a b hr k)⟩
    · rintro ⟨hstrict, hboth⟩ a b hr k
      by_contra hc
      by_cases hs : S a b k
      · exact hstrict ⟨a, b, hr, k, hs, hc⟩
      · exact hboth ⟨a, b, hr, k, hs, hc⟩
  rw [hall (C := C) (S := S), hall (C := S) (S := C)]
  simp only [and_comm (a := ¬C _ _ _)]
  generalize (∃ a b, R a b ∧ ∃ k, S a b k ∧ ¬C a b k) = strict
  generalize (∃ a b, R a b ∧ ∃ k, C a b k ∧ ¬S a b k) = lax
  generalize (∃ a b, R a b ∧ ∃ k, ¬S a b k ∧ ¬C a b k) = both
  tauto

/-- **`validate` is right where some keyword fails in both readings, or it is too strict somewhere
if and only if it is too lax somewhere.**  Defaults do not change what is there. -/
theorem validate_right_iff (N : NumberText) (schema value : ParsedJson)
    (hschema : checkSchema schema = []) (hs : schema.IsFinite) (hv : value.IsFinite) :
    ((validate N schema value = [] ↔ Satisfies schema value) ↔
      (∃ s v, Reached schema value s v ∧
        ∃ k : Keyword, ¬k.Passes s v ∧ ¬k.Accepts N s v) ∨
      ((∃ s v, Reached schema value s v ∧ (Reordered N s v ∨ LongInUnits s v)) ↔
        ∃ s v, Reached schema value s v ∧ ShortInCharacters s v)) ∧
    ∀ es k w, Assoc.get? es k = some w →
      ∃ fs, applyDefaults schema (some (.obj es)) = some (.obj fs) ∧ Assoc.get? fs k = some w := by
  refine ⟨?_, fun es k w => get?_applyDefaults schema⟩
  have haccepted : validate N schema value = [] ↔ Accepted N schema value := by
    unfold validate
    rw [visit_eq_nil_iff (shallow_of_checkSchema hschema).2]
    simp
  have hstrict : (∃ s v, Reached schema value s v ∧ (Reordered N s v ∨ LongInUnits s v)) ↔
      ∃ s v, Reached schema value s v ∧ ∃ k : Keyword, k.Passes s v ∧ ¬k.Accepts N s v :=
    exists₂_congr fun s v => and_congr_right fun hr =>
      (strict_iff (isFinite_of_reached hs hv hr).2).symm
  have hlax : (∃ s v, Reached schema value s v ∧ ShortInCharacters s v) ↔
      ∃ s v, Reached schema value s v ∧ ∃ k : Keyword, k.Accepts N s v ∧ ¬k.Passes s v :=
    exists₂_congr fun s v => and_congr_right fun hr =>
      (lax_iff (isFinite_of_reached hs hv hr).1 (isFinite_of_reached hs hv hr).2).symm
  rw [haccepted, satisfies_iff, hstrict, hlax]
  exact readings_agree_iff

/-- A constant with two keys. -/
def pairConst : ParsedJson := .obj [("a", .null), ("b", .bool true)]

/-- A schema that asks for the constant. -/
def pairSchema : ParsedJson := .obj [("const", pairConst)]

/-- The constant with its keys in another order. -/
def pairSwapped : ParsedJson := .obj [("b", .bool true), ("a", .null)]

/-- A way to print numbers, by a code of the value. -/
def codedText : NumberText where
  text f := toString (Encodable.encode (f.value.num, f.value.den))
  text_eq_iff := by
    intro x y
    refine ⟨fun h => ?_, fun h => by rw [h]⟩
    have hdigits := congrArg (fun s : String => Nat.ofDigitChars 10 s.toList 0) h
    simp only [Nat.toString_eq_repr, Nat.toList_repr, Nat.ofDigitChars_ten_toDigits,
      Encodable.encode_inj, Prod.mk.injEq] at hdigits
    exact Rat.ext hdigits.1 hdigits.2
  nonempty f := by
    rw [Nat.toString_eq_repr, Nat.toList_repr]
    exact Nat.toDigits_ne_nil
  chars f c hc := by
    rw [Nat.toString_eq_repr, Nat.toList_repr] at hc
    have hdigit := Nat.isDigit_of_mem_toDigits (by decide) (by decide) hc
    simp [Json.isNumberChar, hdigit]

theorem isFinite_pairConst : pairConst.IsFinite :=
  .obj (by
    simp only [forall_mem_cons, not_mem_nil, false_implies, implies_true, and_true]
    exact ⟨.null, .bool true⟩)

theorem isFinite_pairSchema : pairSchema.IsFinite :=
  .obj (by
    simp only [forall_mem_cons, not_mem_nil, false_implies, implies_true, and_true]
    exact isFinite_pairConst)

theorem isFinite_pairSwapped : pairSwapped.IsFinite :=
  .obj (by
    simp only [forall_mem_cons, not_mem_nil, false_implies, implies_true, and_true]
    exact ⟨.bool true, .null⟩)

theorem get?_pairSchema (h : key ≠ "const") : pairSchema.get? key = none := by
  simp [pairSchema, get?, Assoc.get?, h.symm]

theorem satisfies_pairSchema (hconst : Equal pairConst value) : Satisfies pairSchema value := by
  refine .intro (fun k => ?_) (fun child items hchild _ => ?_) fun entries _ e _ child hchild => ?_
  · cases k with
    | const =>
      intro const h
      simp [pairSchema, get?, Assoc.get?] at h
      exact h ▸ hconst
    | _ =>
      simp [Keyword.Passes, typesOf, enumOf, boundOf, requiredOf, isClosedTo, get?_pairSchema]
  · simp [itemsOf, get?_pairSchema] at hchild
  · simp [subschema, propertiesOf, get?_pairSchema, Assoc.get?] at hchild

/-- Equal values under the two keys, in any order. -/
theorem equal_pairConst {es : List (String × ParsedJson)} (ha : Assoc.get? es "a" = some .null)
    (hb : Assoc.get? es "b" = some (.bool true))
    (hno : ∀ k, "a" ≠ k → "b" ≠ k → Assoc.get? es k = none) : Equal pairConst (.obj es) := by
  refine .obj (fun k => ?_) fun k v w hv hw => ?_
  · by_cases hka : "a" = k
    · simp [Assoc.get?_cons, ← hka, ha]
    · by_cases hkb : "b" = k
      · simp [Assoc.get?_cons, ← hkb, hb]
      · rw [Assoc.get?_cons, if_neg hka, Assoc.get?_cons, if_neg hkb, hno k hka hkb]
        rfl
  · rw [Assoc.get?_cons] at hv
    split_ifs at hv with hka
    · obtain rfl := some.inj hv
      obtain rfl := some.inj (ha.symm.trans (hka ▸ hw))
      exact .null
    · rw [Assoc.get?_cons] at hv
      split_ifs at hv with hkb
      · obtain rfl := some.inj hv
        obtain rfl := some.inj (hb.symm.trans (hkb ▸ hw))
        exact .bool true
      · cases hv

theorem satisfies_pairConst : Satisfies pairSchema pairConst :=
  satisfies_pairSchema (equal_pairConst rfl rfl fun k ha hb => by simp [Assoc.get?, ha, hb])

theorem satisfies_pairSwapped : Satisfies pairSchema pairSwapped :=
  satisfies_pairSchema (equal_pairConst rfl rfl fun k ha hb => by simp [Assoc.get?, ha, hb])

theorem validate_pairSwapped : validate codedText pairSchema pairSwapped ≠ [] := by
  decide +kernel

/-- The readings of the constant differ where its keys are in another order, and not
where they are in the same. -/
theorem validate_right_pair :
    ¬((∃ s v, Reached pairSchema pairSwapped s v ∧
        ∃ k : Keyword, ¬k.Passes s v ∧ ¬k.Accepts codedText s v) ∨
      ((∃ s v, Reached pairSchema pairSwapped s v ∧
          (Reordered codedText s v ∨ LongInUnits s v)) ↔
        ∃ s v, Reached pairSchema pairSwapped s v ∧ ShortInCharacters s v)) ∧
    ((∃ s v, Reached pairSchema pairConst s v ∧
        ∃ k : Keyword, ¬k.Passes s v ∧ ¬k.Accepts codedText s v) ∨
      ((∃ s v, Reached pairSchema pairConst s v ∧
          (Reordered codedText s v ∨ LongInUnits s v)) ↔
        ∃ s v, Reached pairSchema pairConst s v ∧ ShortInCharacters s v)) := by
  have hswapped := (validate_right_iff codedText pairSchema pairSwapped (by decide +kernel)
    isFinite_pairSchema isFinite_pairSwapped).1
  have hsame := (validate_right_iff codedText pairSchema pairConst (by decide +kernel)
    isFinite_pairSchema isFinite_pairConst).1
  exact ⟨fun h => validate_pairSwapped ((hswapped.2 h).2 satisfies_pairSwapped),
    hsame.1 ⟨fun _ => satisfies_pairConst, fun _ => by decide +kernel⟩⟩

/-- A constant with its keys in another order is not accepted. -/
theorem reordered_constant_rejected :
    ¬∀ (N : NumberText) (schema value : ParsedJson), checkSchema schema = [] → schema.IsFinite →
      value.IsFinite → (validate N schema value = [] ↔ Satisfies schema value) :=
  fun h => validate_pairSwapped ((h codedText pairSchema pairSwapped (by decide +kernel)
    isFinite_pairSchema isFinite_pairSwapped).2 satisfies_pairSwapped)

end U2os.Server.Packages.Schema
