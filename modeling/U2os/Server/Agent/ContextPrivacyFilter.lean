import U2os.Server.Agent.ContextAssembler
import U2os.Server.Policy.DataProcessingPolicy

/-!
# The privacy filter of the personal context

What of an assembled context may reach a model (`agent/context-privacy-filter.js`).  Every item is
evaluated by its own classification and dropped where the data-processing policy does not allow it;
a fact of a person goes with the person.  A reference is kept if an item that is left has it.

References are compared by what they refer to and not by the item they come from.  So where a
withheld fact is about an entity that another fact speaks of, the reference to this entity is kept
once for each of the two, and the model can tell that something was withheld.
-/

namespace U2os.Server.Agent

open Policy List PersonalContext

/-- `classification || 'personal'`. -/
def labelOf (classification : String) : String :=
  if classification = "" then "personal" else classification

/-- What is reported of a withheld item. -/
structure Omitted where
  type : String
  id : String
  classification : String
  destination : String
  decision : Decision
  rule : String
deriving DecidableEq

section Filter

variable (T : PolicyTable) (destination : String)

/-- The policy lets the classification pass. -/
def allows (classification : String) : Bool :=
  (T.evaluate (labelOf classification) destination).decision = .allow

/-- The closure `evaluate` of the filter: what it reports of an item. -/
def omission (type id classification : String) : Option Omitted :=
  if allows T destination classification then none
  else
    let evaluation := T.evaluate (labelOf classification) destination
    some
      { type := type
        id := id
        classification := labelOf classification
        destination := destination
        decision := evaluation.decision
        rule := evaluation.rule }

/-- The items that pass. -/
def visible (c : Assembled) : Assembled :=
  { c with
    relevantPeople := (c.relevantPeople.filter fun p => allows T destination p.classification).map
      fun p => { p with facts := p.facts.filter fun f => allows T destination f.classification }
    relevantFacts := c.relevantFacts.filter fun f => allows T destination f.classification
    commitments := c.commitments.filter fun k => allows T destination k.classification
    recentEvents := c.recentEvents.filter fun e => allows T destination e.classification }

/-- The reports, in the order in which the items are evaluated. -/
def omissions (c : Assembled) : List Omitted :=
  (c.relevantPeople.filterMap fun p => omission T destination "person" p.id p.classification) ++
  (c.relevantPeople.filter fun p => allows T destination p.classification).flatMap (fun p =>
    p.facts.filterMap fun f => omission T destination "fact" f.factId f.classification) ++
  (c.commitments.filterMap fun k => omission T destination "commitment" k.id k.classification) ++
  (c.relevantFacts.filterMap fun f => omission T destination "fact" f.factId f.classification) ++
  (c.recentEvents.filterMap fun e => omission T destination "event" e.eventId e.classification)

/-- `${ref.type}:${ref.id}`. -/
def ProvenanceRef.key (r : ProvenanceRef) : String := r.type ++ ":" ++ r.id

/-- The keys that `filterProvenanceRefs` collects. -/
def allowedKeys (c : Assembled) : List String :=
  c.relevantPeople.flatMap (fun p => ("entity:" ++ p.id) :: p.facts.map fun f => "fact:" ++ f.factId) ++
  c.relevantFacts.flatMap (fun f => ["entity:" ++ f.entityId, "fact:" ++ f.factId]) ++
  c.commitments.flatMap (fun k => ["entity:" ++ k.id, "relationship:" ++ k.relationshipId]) ++
  c.recentEvents.map fun e => "event:" ++ e.eventId

def filterProvenanceRefs (refs : List ProvenanceRef) (c : Assembled) : List ProvenanceRef :=
  refs.filter fun r => (allowedKeys c).contains r.key

def filterPersonalContextForDestination :
    Option PersonalContext → Option PersonalContext × List Omitted
  | none => (none, [])
  | some c =>
    let omitted := omissions T destination c.toAssembled
    if omitted.isEmpty then (some c, omitted)
    else
      (some
        { visible T destination c.toAssembled with
          truncated := c.truncated
          provenanceRefs :=
            filterProvenanceRefs c.provenanceRefs (visible T destination c.toAssembled)
          dataProcessingRestricted := some true },
        omitted)

end Filter

/-- A context as `_fitBudget` returns it. -/
def Assembled.toContext (c : Assembled) (truncated : Bool) : PersonalContext :=
  { c with truncated := truncated, provenanceRefs := buildProvenanceRefs c }

/-- The context as the model gets it, but for the flag `dataProcessingRestricted`. -/
def PersonalContext.forModel (c : PersonalContext) : PersonalContext :=
  { c with dataProcessingRestricted := none }

/-- An item with its references; `owner` is the classification of the person that a fact is of. -/
structure Item where
  type : String
  id : String
  classification : String
  owner : Option String
  refs : List ProvenanceRef
deriving DecidableEq

/-- A person and the facts of the person. -/
def Person.items (p : Person) : List Item :=
  { type := "person", id := p.id, classification := p.classification, owner := none,
    refs := [⟨"entity", p.id⟩] } ::
  p.facts.map fun f =>
    { type := "fact", id := f.factId, classification := f.classification,
      owner := some p.classification, refs := [⟨"fact", f.factId⟩] }

def StandaloneFact.item (f : StandaloneFact) : Item :=
  { type := "fact", id := f.factId, classification := f.classification, owner := none,
    refs := f.refs }

def Commitment.item (k : Commitment) : Item :=
  { type := "commitment", id := k.id, classification := k.classification, owner := none,
    refs := k.refs }

def RecentEvent.item (e : RecentEvent) : Item :=
  { type := "event", id := e.eventId, classification := e.classification, owner := none,
    refs := e.refs }

/-- The items of a context. -/
def items (c : Assembled) : List Item :=
  c.relevantPeople.flatMap Person.items ++ c.relevantFacts.map StandaloneFact.item ++
    c.commitments.map Commitment.item ++ c.recentEvents.map RecentEvent.item

section

variable (T : PolicyTable) (destination : String)

/-- The person of a fact passes. -/
def Item.ownerPasses (i : Item) : Bool := i.owner.all (allows T destination)

def Item.passes (i : Item) : Bool :=
  i.ownerPasses T destination && allows T destination i.classification

/-- What is reported of the item: nothing of the facts of a withheld person. -/
def Item.omission (i : Item) : Option Omitted :=
  if i.ownerPasses T destination then Agent.omission T destination i.type i.id i.classification
  else none

/-- No withheld item has a reference in common with an item that passes. -/
def Separate (c : Assembled) : Prop :=
  ∀ i ∈ items c, i.passes T destination = false → ∀ j ∈ items c, j.passes T destination = true →
    ∀ r ∈ i.refs, r ∉ j.refs

end

variable {T : PolicyTable} {destination : String} {c d : Assembled}

theorem flatMap_refs_items (p : Person) : p.items.flatMap Item.refs = p.refs := by
  unfold Person.items Person.refs
  rw [flatMap_cons, flatMap_map]
  exact congrArg _ map_eq_flatMap.symm

theorem buildProvenanceRefs_eq (c : Assembled) :
    buildProvenanceRefs c = (items c).flatMap Item.refs := by
  unfold buildProvenanceRefs items
  simp only [flatMap_append, flatMap_map, flatMap_assoc, flatMap_refs_items]
  rfl

/-- The items of a person all pass or all do not, by the classification of the person. -/
theorem filter_items (p : Person) : p.items.filter (Item.passes T destination) =
    if allows T destination p.classification then
      { p with facts := p.facts.filter fun f => allows T destination f.classification }.items
    else [] := by
  unfold Person.items
  split_ifs with hp
  · rw [filter_cons_of_pos (by simpa [Item.passes, Item.ownerPasses] using hp),
      filter_map]
    refine congrArg _ (congrArg _ (filter_congr fun f _ => ?_))
    simp [Item.passes, Item.ownerPasses, hp]
  · rw [filter_cons_of_neg (by simpa [Item.passes, Item.ownerPasses] using hp),
      filter_map, map_eq_nil_iff, filter_eq_nil_iff]
    intro f _
    simp [Item.passes, Item.ownerPasses, hp]

theorem flatMap_filter_eq {α β : Type*} (l : List α) (ok : α → Bool) (f : α → List β) :
    (l.filter ok).flatMap f = l.flatMap fun a => if ok a then f a else [] := by
  induction l with
  | nil => rfl
  | cons a l ih =>
    rw [filter_cons, flatMap_cons, ← ih]
    split_ifs <;> simp

theorem items_visible (c : Assembled) :
    items (visible T destination c) = (items c).filter (Item.passes T destination) := by
  have hpeople : (visible T destination c).relevantPeople.flatMap Person.items =
      (c.relevantPeople.flatMap Person.items).filter (Item.passes T destination) := by
    rw [filter_flatMap]
    simp only [filter_items]
    exact (flatMap_map ..).trans (flatMap_filter_eq ..)
  unfold items
  simp only [filter_append, hpeople, filter_map]
  rfl

/-! ### References -/

/-- What is filtered are the references of the items that pass, if and only if no other item has a
reference that is kept. -/
theorem filter_flatMap_eq_iff {α β : Type*} {refs : α → List β} {ok : α → Bool} {kept : β → Bool}
    {l : List α} (h : ∀ a ∈ l, ok a = true → ∀ r ∈ refs a, kept r = true) :
    (l.flatMap refs).filter kept = (l.filter ok).flatMap refs ↔
      ∀ a ∈ l, ok a = false → ∀ r ∈ refs a, kept r = false := by
  have hsub : ∀ l : List α, (∀ a ∈ l, ok a = true → ∀ r ∈ refs a, kept r = true) →
      ((l.filter ok).flatMap refs).length ≤ ((l.flatMap refs).filter kept).length := by
    intro l h
    induction l with
    | nil => exact le_rfl
    | cons a l ih =>
      have ih := ih fun b hb => h b (mem_cons_of_mem _ hb)
      rw [flatMap_cons, filter_append, length_append]
      by_cases ha : ok a = true
      · rw [filter_cons_of_pos ha, flatMap_cons, length_append,
          filter_eq_self.2 (h a mem_cons_self ha)]
        omega
      · rw [filter_cons_of_neg ha]
        omega
  induction l with
  | nil => simp
  | cons a l ih =>
    have hl : ∀ b ∈ l, ok b = true → ∀ r ∈ refs b, kept r = true := fun b hb =>
      h b (mem_cons_of_mem _ hb)
    have ih := ih hl
    rw [flatMap_cons, filter_append, forall_mem_cons]
    by_cases ha : ok a = true
    · rw [filter_cons_of_pos ha, flatMap_cons,
        filter_eq_self.2 (h a mem_cons_self ha), append_cancel_left_eq]
      simpa [ha] using ih
    · rw [filter_cons_of_neg ha]
      constructor
      · intro he
        -- The kept references of `a` would be too many.
        have hlen := congrArg length he
        rw [length_append] at hlen
        have hnil : (refs a).filter kept = [] := by
          have := hsub l hl
          exact eq_nil_of_length_eq_zero (by omega)
        rw [hnil, nil_append] at he
        exact ⟨fun _ r hr => by simpa using filter_eq_nil_iff.1 hnil r hr, ih.1 he⟩
      · rintro ⟨hnone, he⟩
        have hnil : (refs a).filter kept = [] :=
          filter_eq_nil_iff.2 fun r hr => by simp [hnone (by simpa using ha) r hr]
        rw [hnil, nil_append, ih.2 he]

/-- The types of references. -/
def refTypes : List String := ["entity", "fact", "relationship", "event"]

theorem type_mem_refTypes {r : ProvenanceRef} (h : r ∈ buildProvenanceRefs c) :
    r.type ∈ refTypes := by
  cases mem_buildProvenanceRefs.1 h <;> simp [refTypes]

theorem key_injective {r s : ProvenanceRef} (hr : r.type ∈ refTypes) (hs : s.type ∈ refTypes)
    (h : r.key = s.key) : r = s := by
  obtain ⟨t, i⟩ := r
  obtain ⟨u, j⟩ := s
  have hlist := congrArg String.toList h
  simp only [refTypes, mem_cons, not_mem_nil, or_false] at hr hs
  rcases hr with rfl | rfl | rfl | rfl <;> rcases hs with rfl | rfl | rfl | rfl <;>
    simp [ProvenanceRef.key] at hlist ⊢ <;> exact String.toList_inj.1 hlist

theorem allowedKeys_eq (c : Assembled) :
    allowedKeys c = (buildProvenanceRefs c).map ProvenanceRef.key := by
  unfold allowedKeys buildProvenanceRefs
  simp only [map_append, map_flatMap, Person.refs, StandaloneFact.refs, Commitment.refs,
    RecentEvent.refs, map_cons, map_map, map_nil]
  rw [map_eq_flatMap]
  rfl

theorem contains_allowedKeys {r : ProvenanceRef} (hr : r.type ∈ refTypes) :
    (allowedKeys c).contains r.key = true ↔ r ∈ buildProvenanceRefs c := by
  rw [contains_iff_mem, allowedKeys_eq, mem_map]
  constructor
  · rintro ⟨s, hs, hkey⟩
    exact key_injective (type_mem_refTypes hs) hr hkey ▸ hs
  · exact fun h => ⟨r, h, rfl⟩

/-- **The references that are kept are those of the visible items, if and only if no withheld item
shares one with an item that passes.** -/
theorem refs_filter_eq_iff (c : Assembled) :
    filterProvenanceRefs (buildProvenanceRefs c) (visible T destination c) =
      buildProvenanceRefs (visible T destination c) ↔ Separate T destination c := by
  have hvisible : ∀ r, r ∈ buildProvenanceRefs (visible T destination c) ↔
      ∃ j ∈ items c, j.passes T destination = true ∧ r ∈ j.refs := by
    intro r
    rw [buildProvenanceRefs_eq, items_visible, mem_flatMap]
    simp only [mem_filter, and_assoc]
  have hkept : ∀ i ∈ items c, ∀ r ∈ i.refs,
      ((allowedKeys (visible T destination c)).contains r.key = true ↔
        ∃ j ∈ items c, j.passes T destination = true ∧ r ∈ j.refs) := by
    intro i hi r hr
    have hmem : r ∈ buildProvenanceRefs c :=
      buildProvenanceRefs_eq c ▸ mem_flatMap.2 ⟨i, hi, hr⟩
    rw [contains_allowedKeys (type_mem_refTypes hmem), hvisible]
  unfold filterProvenanceRefs
  rw [buildProvenanceRefs_eq (visible T destination c), items_visible, buildProvenanceRefs_eq c,
    filter_flatMap_eq_iff fun i hi hpass r hr => (hkept i hi r hr).2 ⟨i, hi, hpass, hr⟩]
  refine forall₂_congr fun i hi => forall_congr' fun _ => ?_
  constructor
  · intro h j hj hpass r hr hrj
    exact Bool.false_ne_true ((h r hr).symm.trans ((hkept i hi r hr).2 ⟨j, hj, hpass, hrj⟩))
  · intro h r hr
    rw [Bool.eq_false_iff, Ne, hkept i hi r hr]
    rintro ⟨j, hj, hpass, hrj⟩
    exact h j hj hpass r hr hrj

theorem omission_eq_none {type id classification : String} :
    omission T destination type id classification = none ↔
      allows T destination classification = true := by
  unfold omission
  split_ifs with h <;> simp [h]

/-- If nothing is omitted, the context is as it was. -/
theorem visible_eq_self (h : omissions T destination c = []) : visible T destination c = c := by
  simp only [omissions, append_eq_nil_iff, filterMap_eq_nil_iff, omission_eq_none,
    flatMap_eq_nil_iff, mem_filter, and_imp] at h
  obtain ⟨⟨⟨⟨hpeople, hfacts⟩, hcommitments⟩, hstandalone⟩, hevents⟩ := h
  have hperson : ∀ p ∈ c.relevantPeople,
      { p with facts := p.facts.filter fun f => allows T destination f.classification } = p := by
    intro p hp
    rw [filter_eq_self.2 (hfacts p hp (hpeople p hp))]
  unfold visible
  rw [filter_eq_self.2 hpeople, filter_eq_self.2 hcommitments,
    filter_eq_self.2 hstandalone, filter_eq_self.2 hevents, map_congr_left hperson,
    map_id']

theorem filterProvenanceRefs_self (c : Assembled) :
    filterProvenanceRefs (buildProvenanceRefs c) c = buildProvenanceRefs c :=
  filter_eq_self.2 fun _ hr => (contains_allowedKeys (type_mem_refTypes hr)).2 hr

/-- **What the model gets**, on either path: the items that pass and the references that are
kept. -/
theorem forModel_filter (T : PolicyTable) (destination : String) (c : Assembled)
    (truncated : Bool) :
    (filterPersonalContextForDestination T destination (c.toContext truncated)).1.map
        forModel =
      some
        { visible T destination c with
          truncated := truncated
          provenanceRefs := filterProvenanceRefs (buildProvenanceRefs c) (visible T destination c) } := by
  unfold filterPersonalContextForDestination
  dsimp only [Assembled.toContext]
  split_ifs with h
  · rw [visible_eq_self (List.isEmpty_iff.1 h), filterProvenanceRefs_self]
    rfl
  · rfl

theorem filterMap_items (p : Person) : p.items.filterMap (Item.omission T destination) =
    (omission T destination "person" p.id p.classification).toList ++
      if allows T destination p.classification then
        p.facts.filterMap fun f => omission T destination "fact" f.factId f.classification
      else [] := by
  unfold Person.items
  rw [filterMap_cons, filterMap_map]
  split_ifs with hp
  · simp [Item.omission, Item.ownerPasses, hp, Function.comp_def, omission_eq_none.2 hp]
  · cases ho : omission T destination "person" p.id p.classification with
    | none => exact absurd (omission_eq_none.1 ho) hp
    | some o => simp [Item.omission, Item.ownerPasses, hp, ho]

/-- **Every withheld item is reported once**, and a withheld person stands for its facts. -/
theorem perm_omitted (T : PolicyTable) (destination : String) (c : Assembled) :
    (omissions T destination c).Perm ((items c).filterMap (Item.omission T destination)) := by
  have hpeople : ((c.relevantPeople.filterMap fun p =>
        omission T destination "person" p.id p.classification) ++
      (c.relevantPeople.filter fun p => allows T destination p.classification).flatMap (fun p =>
        p.facts.filterMap fun f => omission T destination "fact" f.factId f.classification)).Perm
      ((c.relevantPeople.flatMap Person.items).filterMap (Item.omission T destination)) := by
    rw [filterMap_flatMap]
    simp only [filterMap_items]
    rw [filterMap_eq_flatMap_toList, flatMap_filter_eq]
    exact flatMap_append_perm ..
  unfold omissions items
  simp only [filterMap_append, filterMap_map]
  refine Perm.append_right _ ?_
  rw [append_assoc (_ ++ _),
    append_assoc (filterMap (Item.omission T destination) _)]
  exact hpeople.append perm_append_comm

theorem visible_visible (c : Assembled) :
    visible T destination (visible T destination c) = visible T destination c := by
  simp [visible, filter_filter, filter_map, Function.comp_def]

theorem separate_visible (c : Assembled) :
    Separate T destination (visible T destination c) := by
  intro i hi hwithheld
  rw [items_visible, mem_filter, hwithheld] at hi
  exact absurd hi.2 Bool.false_ne_true

/-- **The model learns nothing of what is withheld if and only if no withheld item shares a
reference with one that passes**, and every withheld item is reported once. -/
theorem noninterference_iff (T : PolicyTable) (destination : String) (c : Assembled)
    (truncated : Bool) :
    ((∀ d : Assembled, visible T destination d = visible T destination c →
        Separate T destination d →
        (filterPersonalContextForDestination T destination (d.toContext truncated)).1.map
            forModel =
          (filterPersonalContextForDestination T destination (c.toContext truncated)).1.map
            forModel) ↔
      Separate T destination c) ∧
    (filterPersonalContextForDestination T destination (c.toContext truncated)).2.Perm
      ((items c).filterMap (Item.omission T destination)) := by
  refine ⟨⟨fun h => ?_, fun hc d hd hsep => ?_⟩, ?_⟩
  · -- The context that lacks the withheld items altogether.
    have hlacks := h (visible T destination c) (visible_visible c) (separate_visible c)
    rw [forModel_filter, forModel_filter, visible_visible, filterProvenanceRefs_self] at hlacks
    exact (refs_filter_eq_iff c).1
      (congrArg provenanceRefs (Option.some.inj hlacks)).symm
  · rw [forModel_filter, forModel_filter, (refs_filter_eq_iff c).2 hc, (refs_filter_eq_iff d).2 hsep,
      hd]
  · have hreported :
        (filterPersonalContextForDestination T destination (c.toContext truncated)).2 =
          omissions T destination c := by
      unfold filterPersonalContextForDestination
      dsimp only [Assembled.toContext]
      split_ifs <;> rfl
    rw [hreported]
    exact perm_omitted T destination c

/-- Personal data may reach a remote model and sensitive data may not. -/
def personalOnly : PolicyTable where
  policies c :=
    if c = "personal" then some fun _ => some "allow"
    else if c = "sensitive" then some fun _ => some "never"
    else none

/-- A fact of one and the same person. -/
def factOfAlice (factId key classification : String) : StandaloneFact where
  factId := factId
  entityId := "alice"
  entityType := .str "person"
  entityName := .str "Alice"
  key := key
  value := .str "known"
  source := .null
  confidence := .null
  inferred := false
  observedAt := .null
  classification := classification
  relevance := .null

/-- A context with these facts alone. -/
def factsOnly (facts : List StandaloneFact) : Assembled where
  objective := "call"
  currentTime := "now"
  relevantPeople := []
  relevantFacts := facts
  commitments := []
  recentEvents := []

/-- A withheld fact leaves a second reference to its entity behind. -/
theorem withheld_fact_leaves_reference :
    ¬ ∀ (T : PolicyTable) (destination : String) (c d : Assembled) (truncated : Bool),
      visible T destination d = visible T destination c →
      (filterPersonalContextForDestination T destination (d.toContext truncated)).1.map
          forModel =
        (filterPersonalContextForDestination T destination (c.toContext truncated)).1.map
          forModel := by
  intro h
  have hrefs := congrArg (Option.map provenanceRefs)
    (h personalOnly "configured_remote_model"
      (factsOnly [factOfAlice "f1" "illness" "sensitive", factOfAlice "f2" "phone" "personal"])
      (factsOnly [factOfAlice "f2" "phone" "personal"]) false (by decide +kernel))
  exact absurd hrefs (by decide +kernel)

end U2os.Server.Agent
