import U2os.Lib.JsonLength
import U2os.Lib.ParsedJson

/-!
# The budget of the personal context

What a planning request is told of the owner's life (`agent/context-assembler.js`), and how it is
made to fit.  While the serialized context is too long, the least important item that may still go
is dropped: the last standalone fact, then the last event but one, then the last spare fact of the
first person who has one, then the last person but one, then the last commitment but one.

The flag `truncated` is serialized as `false` while the size is measured.
-/

namespace U2os.Server.Agent

open List Option

structure PersonFact where
  factId : String
  key : String
  value : Json
  confidence : Json
  inferred : Json
  source : Json
  observedAt : Json
  lastConfirmedAt : Json
  classification : String
  relevance : Option Json := none
deriving DecidableEq

/-- A person, with facts in the order of their rank. -/
structure Person where
  id : String
  name : Json
  matchedOn : String
  facts : List PersonFact
  relationshipCount : ℕ
  classification : String
  relevance : Option Json := none
deriving DecidableEq

/-- A fact of an entity that is not listed as a person. -/
structure StandaloneFact where
  factId : String
  entityId : String
  entityType : Json
  entityName : Json
  key : String
  value : Json
  source : Json
  confidence : Json
  inferred : Bool
  observedAt : Json
  classification : String
  relevance : Json
deriving DecidableEq

/-- An open commitment. -/
structure Commitment where
  id : String
  relationshipId : String
  description : String
  createdAt : Json
  confidence : Json
  inferred : Bool
  classification : String
  relevance : Json
deriving DecidableEq

structure RecentEvent where
  eventId : String
  type : String
  timestamp : Json
  summary : Json
  classification : String
  relevance : Json
deriving DecidableEq

/-- A reference to something in the store. -/
structure ProvenanceRef where
  type : String
  id : String
deriving DecidableEq

/-- The context as it is assembled. -/
structure Assembled where
  objective : String
  currentTime : String
  relevantPeople : List Person
  relevantFacts : List StandaloneFact
  commitments : List Commitment
  recentEvents : List RecentEvent
deriving DecidableEq

/-- The context as it is returned. -/
structure PersonalContext extends Assembled where
  truncated : Bool
  provenanceRefs : List ProvenanceRef
  /-- The flag of the privacy filter, where it is set. -/
  dataProcessingRestricted : Option Bool := none
deriving DecidableEq

/-- An entry that is left out where the value is not defined. -/
def optionalEntry (key : String) (value : Option Json) : List (String × Json) :=
  (value.map fun v => (key, v)).toList

/-- A fact as it is serialized. -/
def PersonFact.toJson (f : PersonFact) : Json :=
  .obj ([("factId", .str f.factId), ("key", .str f.key), ("value", f.value),
    ("confidence", f.confidence), ("inferred", f.inferred), ("source", f.source),
    ("observedAt", f.observedAt), ("lastConfirmedAt", f.lastConfirmedAt),
    ("classification", .str f.classification)] ++ optionalEntry "relevance" f.relevance)

/-- A person as it is serialized. -/
def Person.toJson (p : Person) : Json :=
  .obj ([("id", .str p.id), ("name", p.name), ("matchedOn", .str p.matchedOn),
    ("facts", .arr (p.facts.map PersonFact.toJson)),
    ("relationshipCount", .ofInt p.relationshipCount),
    ("classification", .str p.classification)] ++ optionalEntry "relevance" p.relevance)

/-- A standalone fact as it is serialized. -/
def StandaloneFact.toJson (f : StandaloneFact) : Json :=
  .obj [("factId", .str f.factId), ("entityId", .str f.entityId), ("entityType", f.entityType),
    ("entityName", f.entityName), ("key", .str f.key), ("value", f.value), ("source", f.source),
    ("confidence", f.confidence), ("inferred", .bool f.inferred), ("observedAt", f.observedAt),
    ("classification", .str f.classification), ("relevance", f.relevance)]

/-- A commitment as it is serialized. -/
def Commitment.toJson (c : Commitment) : Json :=
  .obj [("id", .str c.id), ("relationshipId", .str c.relationshipId),
    ("description", .str c.description), ("createdAt", c.createdAt),
    ("confidence", c.confidence), ("inferred", .bool c.inferred),
    ("classification", .str c.classification), ("relevance", c.relevance)]

/-- An event as it is serialized. -/
def RecentEvent.toJson (e : RecentEvent) : Json :=
  .obj [("eventId", .str e.eventId), ("type", .str e.type), ("timestamp", e.timestamp),
    ("summary", e.summary), ("classification", .str e.classification),
    ("relevance", e.relevance)]

/-- A reference as it is serialized. -/
def ProvenanceRef.toJson (r : ProvenanceRef) : Json := .obj [("type", .str r.type), ("id", .str r.id)]

def PersonalContext.entries (c : PersonalContext) : List (String × Json) :=
  [("objective", .str c.objective), ("currentTime", .str c.currentTime),
    ("relevantPeople", .arr (c.relevantPeople.map Person.toJson)),
    ("relevantFacts", .arr (c.relevantFacts.map StandaloneFact.toJson)),
    ("commitments", .arr (c.commitments.map Commitment.toJson)),
    ("recentEvents", .arr (c.recentEvents.map RecentEvent.toJson)),
    ("truncated", .bool c.truncated),
    ("provenanceRefs", .arr (c.provenanceRefs.map ProvenanceRef.toJson))] ++
  optionalEntry "dataProcessingRestricted" (c.dataProcessingRestricted.map Json.bool)

/-- `JSON.stringify(context).length`. -/
def PersonalContext.size (c : PersonalContext) : ℕ := JsText.length (Json.obj c.entries).render

/-- The references of a person. -/
def Person.refs (p : Person) : List ProvenanceRef :=
  ⟨"entity", p.id⟩ :: p.facts.map fun f => ⟨"fact", f.factId⟩

/-- The references of a standalone fact. -/
def StandaloneFact.refs (f : StandaloneFact) : List ProvenanceRef :=
  [⟨"entity", f.entityId⟩, ⟨"fact", f.factId⟩]

/-- The references of a commitment. -/
def Commitment.refs (c : Commitment) : List ProvenanceRef :=
  [⟨"entity", c.id⟩, ⟨"relationship", c.relationshipId⟩]

/-- The references of an event. -/
def RecentEvent.refs (e : RecentEvent) : List ProvenanceRef := [⟨"event", e.eventId⟩]

def buildProvenanceRefs (c : Assembled) : List ProvenanceRef :=
  c.relevantPeople.flatMap Person.refs ++ c.relevantFacts.flatMap StandaloneFact.refs ++
    c.commitments.flatMap Commitment.refs ++ c.recentEvents.flatMap RecentEvent.refs

/-! ### The loop -/

/-- `sizeOf`. -/
def Assembled.measured (c : Assembled) : ℕ :=
  { c with truncated := false, provenanceRefs := buildProvenanceRefs c : PersonalContext }.size

/-- The first person with more than one fact loses the last of them. -/
def popSpareFact : List Person → Option (List Person)
  | [] => none
  | p :: ps =>
    if 1 < p.facts.length then some ({ p with facts := p.facts.dropLast } :: ps)
    else (popSpareFact ps).map (p :: ·)

/-- What one round of the loop drops; none where nothing is left to drop. -/
def dropOne (c : Assembled) : Option Assembled :=
  if 0 < c.relevantFacts.length then some { c with relevantFacts := c.relevantFacts.dropLast }
  else if 1 < c.recentEvents.length then some { c with recentEvents := c.recentEvents.dropLast }
  else match popSpareFact c.relevantPeople with
    | some people => some { c with relevantPeople := people }
    | none =>
      if 1 < c.relevantPeople.length then
        some { c with relevantPeople := c.relevantPeople.dropLast }
      else if 1 < c.commitments.length then
        some { c with commitments := c.commitments.dropLast }
      else none

/-- The number of facts of people. -/
def factCount (people : List Person) : ℕ := (people.map fun p => p.facts.length).sum

/-- The number of items. -/
def Assembled.itemCount (c : Assembled) : ℕ :=
  c.relevantFacts.length + c.recentEvents.length + factCount c.relevantPeople +
    c.relevantPeople.length + c.commitments.length

variable {people people' : List Person}

theorem popSpareFact_eq_some (h : popSpareFact people = some people') :
    ∃ before p after, people = before ++ p :: after ∧ (∀ q ∈ before, q.facts.length ≤ 1) ∧
      1 < p.facts.length ∧ people' = before ++ { p with facts := p.facts.dropLast } :: after := by
  induction people generalizing people' with
  | nil => cases h
  | cons p ps ih =>
    unfold popSpareFact at h
    split_ifs at h with hspare
    · exact ⟨[], p, ps, rfl, nofun, hspare, (some.inj h).symm⟩
    · obtain ⟨ps', hps, rfl⟩ := map_eq_some_iff.1 h
      obtain ⟨before, q, after, rfl, hbefore, hq, rfl⟩ := ih hps
      refine ⟨p :: before, q, after, rfl, ?_, hq, rfl⟩
      intro r hr
      rcases mem_cons.1 hr with rfl | hr
      · exact not_lt.1 hspare
      · exact hbefore r hr

theorem popSpareFact_eq_set
    (h : popSpareFact people = some people') : ∃ i p, people[i]? = some p ∧ 1 < p.facts.length ∧
      (∀ j < i, ∀ q, people[j]? = some q → q.facts.length ≤ 1) ∧
      people' = people.set i { p with facts := p.facts.dropLast } := by
  obtain ⟨before, p, after, rfl, hbefore, hspare, rfl⟩ := popSpareFact_eq_some h
  refine ⟨before.length, p, by simp, hspare, fun j hj q hq => ?_, by simp⟩
  rw [getElem?_append_left hj] at hq
  exact hbefore q (mem_of_getElem? hq)

theorem popSpareFact_eq_none :
    popSpareFact people = none ↔ ∀ p ∈ people, p.facts.length ≤ 1 := by
  induction people with
  | nil => simp [popSpareFact]
  | cons p ps ih =>
    unfold popSpareFact
    split_ifs with hspare
    · simp [not_le.2 hspare]
    · simp [ih, not_lt.1 hspare]

theorem factCount_popSpareFact (h : popSpareFact people = some people') :
    factCount people' < factCount people ∧ people'.length = people.length := by
  obtain ⟨before, p, after, rfl, -, hspare, rfl⟩ := popSpareFact_eq_some h
  refine ⟨?_, by simp⟩
  simp only [factCount, map_append, map_cons, sum_append, sum_cons,
    length_dropLast]
  omega

theorem factCount_dropLast_le (people : List Person) :
    factCount people.dropLast ≤ factCount people :=
  ((dropLast_sublist people).map _).sum_le_sum fun _ _ => Nat.zero_le _

/-- What a round of the loop does, case by case. -/
inductive Drop : Assembled → Assembled → Prop
  | fact {c : Assembled} : 0 < c.relevantFacts.length →
      Drop c { c with relevantFacts := c.relevantFacts.dropLast }
  | event {c : Assembled} : c.relevantFacts = [] → 1 < c.recentEvents.length →
      Drop c { c with recentEvents := c.recentEvents.dropLast }
  | spareFact {c : Assembled} {people : List Person} : c.relevantFacts = [] →
      c.recentEvents.length ≤ 1 → popSpareFact c.relevantPeople = some people →
      Drop c { c with relevantPeople := people }
  | person {c : Assembled} : c.relevantFacts = [] → c.recentEvents.length ≤ 1 →
      (∀ p ∈ c.relevantPeople, p.facts.length ≤ 1) → 1 < c.relevantPeople.length →
      Drop c { c with relevantPeople := c.relevantPeople.dropLast }
  | commitment {c : Assembled} : c.relevantFacts = [] → c.recentEvents.length ≤ 1 →
      (∀ p ∈ c.relevantPeople, p.facts.length ≤ 1) → c.relevantPeople.length ≤ 1 →
      1 < c.commitments.length → Drop c { c with commitments := c.commitments.dropLast }

/-- Only the core is left, which is never dropped. -/
structure Assembled.IsCore (c : Assembled) : Prop where
  facts : c.relevantFacts = []
  events : c.recentEvents.length ≤ 1
  spareFacts : ∀ p ∈ c.relevantPeople, p.facts.length ≤ 1
  people : c.relevantPeople.length ≤ 1
  commitments : c.commitments.length ≤ 1

/-- An assembled context loses one item at a time, until only its core is left. -/
theorem dropOne_spec (c : Assembled) :
    (∃ c', dropOne c = some c' ∧ Drop c c') ∨ dropOne c = none ∧ c.IsCore := by
  unfold dropOne
  by_cases hfacts : 0 < c.relevantFacts.length
  · rw [if_pos hfacts]
    exact .inl ⟨_, rfl, .fact hfacts⟩
  have hnil : c.relevantFacts = [] := by simpa using hfacts
  rw [if_neg hfacts]
  by_cases hevents : 1 < c.recentEvents.length
  · rw [if_pos hevents]
    exact .inl ⟨_, rfl, .event hnil hevents⟩
  rw [if_neg hevents]
  rw [not_lt] at hevents
  cases hpeople : popSpareFact c.relevantPeople with
  | some people => exact .inl ⟨_, rfl, .spareFact hnil hevents hpeople⟩
  | none =>
    have hspare := popSpareFact_eq_none.1 hpeople
    dsimp only
    by_cases hmany : 1 < c.relevantPeople.length
    · rw [if_pos hmany]
      exact .inl ⟨_, rfl, .person hnil hevents hspare hmany⟩
    rw [if_neg hmany]
    rw [not_lt] at hmany
    by_cases hcommitments : 1 < c.commitments.length
    · rw [if_pos hcommitments]
      exact .inl ⟨_, rfl, .commitment hnil hevents hspare hmany hcommitments⟩
    · rw [if_neg hcommitments]
      exact .inr ⟨rfl, hnil, hevents, hspare, hmany, not_lt.1 hcommitments⟩

theorem drop_of_dropOne {c c' : Assembled} (h : dropOne c = some c') : Drop c c' := by
  rcases dropOne_spec c with ⟨d, hd, hdrop⟩ | ⟨hnone, -⟩
  · rwa [some.inj (h.symm.trans hd)]
  · cases h.symm.trans hnone

theorem isCore_of_dropOne {c : Assembled} (h : dropOne c = none) : c.IsCore := by
  rcases dropOne_spec c with ⟨d, hd, -⟩ | ⟨-, hcore⟩
  · cases h.symm.trans hd
  · exact hcore

theorem Drop.itemCount_lt {c c' : Assembled} (h : Drop c c') : c'.itemCount < c.itemCount := by
  cases h with
  | fact hfacts =>
    simp only [Assembled.itemCount, length_dropLast]
    omega
  | event _ hevents =>
    simp only [Assembled.itemCount, length_dropLast]
    omega
  | spareFact _ _ hpeople =>
    have hcount := factCount_popSpareFact hpeople
    simp only [Assembled.itemCount]
    omega
  | person _ _ _ hmany =>
    have hcount := factCount_dropLast_le c.relevantPeople
    simp only [Assembled.itemCount, length_dropLast]
    omega
  | commitment _ _ _ _ hcommitments =>
    simp only [Assembled.itemCount, length_dropLast]
    omega

/-- The loop of `_fitBudget`, with the flag `truncated`; it ends, as every round drops an item. -/
def fitLoop (maxChars : Double) (c : Assembled) (truncated : Bool) : Assembled × Bool :=
  if maxChars.exceededBy c.measured then
    match _h : dropOne c with
    | some c' => fitLoop maxChars c' true
    | none => (c, truncated)
  else (c, truncated)
termination_by c.itemCount
decreasing_by exact (drop_of_dropOne _h).itemCount_lt

def fitBudget (maxChars : Double) (c : Assembled) : PersonalContext :=
  let r := fitLoop maxChars c false
  { r.1 with truncated := r.2, provenanceRefs := buildProvenanceRefs r.1 }

/-! ### What is left -/

/-- What is left of a person: the first facts, at least one where there was one. -/
structure PersonCut (p q : Person) : Prop where
  rest : p = { q with facts := p.facts }
  facts : p.facts <+: q.facts
  kept : q.facts ≠ [] → p.facts ≠ []

theorem PersonCut.refl (p : Person) : PersonCut p p := ⟨rfl, prefix_rfl, id⟩

theorem PersonCut.dropLast {p q : Person} (h : PersonCut p q) (hspare : 1 < p.facts.length) :
    PersonCut { p with facts := p.facts.dropLast } q where
  rest := by rw [h.rest]
  facts := (List.dropLast_prefix _).trans h.facts
  kept := fun _ hnil => by
    have hlen := congrArg List.length hnil
    simp at hlen
    omega

/-- What is left of `c` when items were dropped in the order of their importance: standalone facts,
events, the spare facts of one person after the other, people, commitments. -/
structure Trimmed (c d : Assembled) : Prop where
  objective : d.objective = c.objective
  currentTime : d.currentTime = c.currentTime
  facts : d.relevantFacts <+: c.relevantFacts
  events : d.recentEvents <+: c.recentEvents
  people : d.relevantPeople.length ≤ c.relevantPeople.length
  cut : ∀ (i : ℕ) p q, d.relevantPeople[i]? = some p → c.relevantPeople[i]? = some q →
    PersonCut p q
  commitments : d.commitments <+: c.commitments
  /-- Events go when no standalone fact is left. -/
  factsFirst : d.recentEvents ≠ c.recentEvents → d.relevantFacts = []
  /-- Facts of people and people go when one event is left. -/
  eventsFirst : d.relevantPeople ≠ c.relevantPeople →
    d.relevantFacts = [] ∧ d.recentEvents.length ≤ 1
  /-- A person loses facts when nobody before has a spare one. -/
  inOrder : ∀ (j : ℕ) p, d.relevantPeople[j]? = some p → c.relevantPeople[j]? ≠ some p →
    ∀ i < j, ∀ q, d.relevantPeople[i]? = some q → q.facts.length ≤ 1
  /-- People go when nobody has a spare fact. -/
  spareFactsFirst : d.relevantPeople.length ≠ c.relevantPeople.length →
    ∀ p ∈ d.relevantPeople, p.facts.length ≤ 1
  /-- Commitments go when one person is left. -/
  peopleFirst : d.commitments ≠ c.commitments → d.relevantFacts = [] ∧
    d.recentEvents.length ≤ 1 ∧ (∀ p ∈ d.relevantPeople, p.facts.length ≤ 1) ∧
    d.relevantPeople.length ≤ 1
  keepsEvent : c.recentEvents ≠ [] → d.recentEvents ≠ []
  keepsPerson : c.relevantPeople ≠ [] → d.relevantPeople ≠ []
  keepsCommitment : c.commitments ≠ [] → d.commitments ≠ []

theorem Trimmed.refl (c : Assembled) : Trimmed c c where
  objective := rfl
  currentTime := rfl
  facts := prefix_rfl
  events := prefix_rfl
  people := le_rfl
  cut := fun _ p _ hp hq => some.inj (hp.symm.trans hq) ▸ PersonCut.refl p
  commitments := prefix_rfl
  factsFirst := fun h => absurd rfl h
  eventsFirst := fun h => absurd rfl h
  inOrder := fun _ _ hp hne => absurd hp hne
  spareFactsFirst := fun h => absurd rfl h
  peopleFirst := fun h => absurd rfl h
  keepsEvent := id
  keepsPerson := id
  keepsCommitment := id

theorem dropLast_ne_nil {α : Type*} {l : List α} (h : 1 < l.length) : l.dropLast ≠ [] := by
  intro hnil
  have hlen := congrArg List.length hnil
  simp at hlen
  omega

variable {maxChars : Double} {c d d' : Assembled} {flag : Bool}

/-- One item less is still a trimmed context. -/
theorem Trimmed.drop (h : Trimmed c d) (hdrop : Drop d d') : Trimmed c d' := by
  cases hdrop with
  | fact hfacts =>
    have hsome : d.relevantFacts ≠ [] := ne_nil_of_length_pos hfacts
    -- As long as there are standalone facts, nothing else was dropped.
    exact
      { h with
        facts := (List.dropLast_prefix _).trans h.facts
        factsFirst := fun hne => absurd (h.factsFirst hne) hsome
        eventsFirst := fun hne => absurd (h.eventsFirst hne).1 hsome
        peopleFirst := fun hne => absurd (h.peopleFirst hne).1 hsome }
  | event hnil hevents =>
    exact
      { h with
        events := (List.dropLast_prefix _).trans h.events
        factsFirst := fun _ => hnil
        eventsFirst := fun hne => absurd (h.eventsFirst hne).2 (not_le.2 hevents)
        peopleFirst := fun hne => absurd (h.peopleFirst hne).2.1 (not_le.2 hevents)
        keepsEvent := fun _ => dropLast_ne_nil hevents }
  | spareFact hnil hevents hpeople =>
    obtain ⟨i, p, hp, hspare, hbefore, rfl⟩ := popSpareFact_eq_set hpeople
    have hlt : i < d.relevantPeople.length := (List.getElem?_eq_some_iff.1 hp).1
    have hmem : p ∈ d.relevantPeople := mem_of_getElem? hp
    refine
      { h with
        people := by simpa using h.people
        cut := fun j q r hq hr => ?_
        eventsFirst := fun _ => ⟨hnil, hevents⟩
        inOrder := fun j q hq hne k hk r hr => ?_
        spareFactsFirst := fun hne => ?_
        peopleFirst := fun hne => absurd ((h.peopleFirst hne).2.2.1 p hmem) (not_le.2 hspare)
        keepsPerson := fun hne hset => h.keepsPerson hne ((set_eq_nil_iff _ _).1 hset) }
    · rw [getElem?_set] at hq
      split_ifs at hq with hij
      · subst hij
        obtain rfl := Option.some.inj hq
        exact (h.cut i p r hp hr).dropLast hspare
      · exact h.cut j q r hq hr
    · -- before the place of `p` nobody has a spare fact, after it nobody was cut
      rw [getElem?_set] at hr
      by_cases hki : k < i
      · rw [if_neg (by omega)] at hr
        exact hbefore k hki r hr
      · rw [getElem?_set_ne (by omega)] at hq
        exact absurd (h.inOrder j q hq hne i (by omega) p hp) (not_le.2 hspare)
    · rw [length_set] at hne
      exact absurd (h.spareFactsFirst hne p hmem) (not_le.2 hspare)
  | person hnil hevents hspare hmany =>
    have hlast : ∀ (j : ℕ) q, d.relevantPeople.dropLast[j]? = some q →
        d.relevantPeople[j]? = some q := by
      intro j q hq
      rw [getElem?_dropLast] at hq
      split_ifs at hq
      exact hq
    exact
      { h with
        people := (dropLast_sublist _).length_le.trans h.people
        cut := fun j q r hq => h.cut j q r (hlast j q hq)
        eventsFirst := fun _ => ⟨hnil, hevents⟩
        inOrder := fun j q hq hne k hk r hr =>
          h.inOrder j q (hlast j q hq) hne k hk r (hlast k r hr)
        spareFactsFirst := fun _ q hq => hspare q (mem_of_mem_dropLast hq)
        peopleFirst := fun hne => absurd (h.peopleFirst hne).2.2.2 (not_le.2 hmany)
        keepsPerson := fun _ => dropLast_ne_nil hmany }
  | commitment hnil hevents hspare hmany hcommitments =>
    exact
      { h with
        commitments := (List.dropLast_prefix _).trans h.commitments
        peopleFirst := fun _ => ⟨hnil, hevents, hspare, hmany⟩
        keepsCommitment := fun _ => dropLast_ne_nil hcommitments }

theorem fitLoop_of_some (hover : maxChars.exceededBy c.measured = true) (hdrop : dropOne c = some d) :
    fitLoop maxChars c flag = fitLoop maxChars d true := by
  rw [fitLoop, if_pos hover]
  split
  · next e he => rw [some.inj (hdrop.symm.trans he)]
  · next he => cases hdrop.symm.trans he

theorem fitLoop_of_none (hover : maxChars.exceededBy c.measured = true) (hdrop : dropOne c = none) :
    fitLoop maxChars c flag = (c, flag) := by
  rw [fitLoop, if_pos hover]
  split
  · next e he => cases hdrop.symm.trans he
  · rfl

theorem fitLoop_of_fits (hfits : ¬maxChars.exceededBy c.measured = true) :
    fitLoop maxChars c flag = (c, flag) := by
  rw [fitLoop, if_neg hfits]

theorem itemCount_lt_of_drops (h : Relation.TransGen Drop c d) : d.itemCount < c.itemCount := by
  induction h with
  | single hdrop => exact hdrop.itemCount_lt
  | tail _ hdrop ih => exact hdrop.itemCount_lt.trans ih

/-- What the loop leaves was reached by rounds, the flag tells whether there was one, and it ends
when the context fits or only the core is left. -/
theorem fitLoop_spec (maxChars : Double) (c : Assembled) (flag : Bool) :
    Relation.ReflTransGen Drop c (fitLoop maxChars c flag).1 ∧
      ((fitLoop maxChars c flag).2 = true ↔
        flag = true ∨ Relation.TransGen Drop c (fitLoop maxChars c flag).1) ∧
      (maxChars.exceededBy (fitLoop maxChars c flag).1.measured = false ∨
        (fitLoop maxChars c flag).1.IsCore) := by
  -- No context is reached from itself by a round or more.
  have hself : ∀ e, ¬Relation.TransGen Drop e e := fun _ he =>
    lt_irrefl _ (itemCount_lt_of_drops he)
  induction c, flag using fitLoop.induct maxChars with
  | case1 c flag hover d hdrop ih =>
    rw [fitLoop_of_some hover hdrop]
    have hstep := drop_of_dropOne hdrop
    obtain ⟨hreach, hflag, hend⟩ := ih
    refine ⟨hreach.head hstep, ?_, hend⟩
    rw [hflag]
    exact ⟨fun _ => .inr (.head' hstep hreach), fun _ => .inl rfl⟩
  | case2 c flag hover hnone =>
    rw [fitLoop_of_none hover hnone]
    refine ⟨.refl, ?_, .inr (isCore_of_dropOne hnone)⟩
    simp [hself c]
  | case3 c flag hfits =>
    rw [fitLoop_of_fits hfits]
    refine ⟨.refl, ?_, .inl (by simpa using hfits)⟩
    simp [hself c]

theorem trimmed_of_drops (h : Relation.ReflTransGen Drop c d) : Trimmed c d := by
  induction h with
  | refl => exact Trimmed.refl c
  | tail _ hdrop ih => exact ih.drop hdrop

/-! ### The result -/

theorem entries_truncated (c : Assembled) (refs : List ProvenanceRef) (flag : Bool) :
    List.Forall₂ (fun a b => a.1 = b.1 ∧ JsText.length a.2.render ≤ JsText.length b.2.render)
      { c with truncated := flag, provenanceRefs := refs : PersonalContext }.entries
      { c with truncated := false, provenanceRefs := refs : PersonalContext }.entries := by
  have hsame : ∀ l : List (String × Json), Forall₂ (fun a b => a.1 = b.1 ∧
      JsText.length a.2.render ≤ JsText.length b.2.render) l l := fun l =>
    List.forall₂_same.2 fun _ _ => ⟨rfl, le_rfl⟩
  have hflag : JsText.length (Json.bool flag).render ≤ JsText.length (Json.bool false).render := by
    cases flag <;> decide
  unfold PersonalContext.entries
  exact .cons ⟨rfl, le_rfl⟩ (.cons ⟨rfl, le_rfl⟩ (.cons ⟨rfl, le_rfl⟩ (.cons ⟨rfl, le_rfl⟩
    (.cons ⟨rfl, le_rfl⟩ (.cons ⟨rfl, le_rfl⟩ (.cons ⟨rfl, hflag⟩ (hsame _)))))))

/-- **What is returned is not longer than what was measured**: `true` is shorter than `false`. -/
theorem size_fitBudget_le (maxChars : Double) (c : Assembled) :
    (fitBudget maxChars c).size ≤ (fitBudget maxChars c).toAssembled.measured :=
  Json.length_render_obj_le (entries_truncated _ _ _)

/-- An item that a reference is of. -/
inductive Refers (c : Assembled) : ProvenanceRef → Prop
  | person {p : Person} : p ∈ c.relevantPeople → Refers c ⟨"entity", p.id⟩
  | personFact {p : Person} {f : PersonFact} : p ∈ c.relevantPeople → f ∈ p.facts →
      Refers c ⟨"fact", f.factId⟩
  | factEntity {f : StandaloneFact} : f ∈ c.relevantFacts → Refers c ⟨"entity", f.entityId⟩
  | fact {f : StandaloneFact} : f ∈ c.relevantFacts → Refers c ⟨"fact", f.factId⟩
  | commitment {k : Commitment} : k ∈ c.commitments → Refers c ⟨"entity", k.id⟩
  | relationship {k : Commitment} : k ∈ c.commitments →
      Refers c ⟨"relationship", k.relationshipId⟩
  | event {e : RecentEvent} : e ∈ c.recentEvents → Refers c ⟨"event", e.eventId⟩

theorem mem_buildProvenanceRefs {r : ProvenanceRef} :
    r ∈ buildProvenanceRefs c ↔ Refers c r := by
  unfold buildProvenanceRefs
  simp only [List.mem_append, mem_flatMap]
  constructor
  · rintro (((⟨p, hp, hr⟩ | ⟨f, hf, hr⟩) | ⟨k, hk, hr⟩) | ⟨e, he, hr⟩)
    · rcases mem_cons.1 hr with rfl | hr
      · exact .person hp
      · obtain ⟨f, hf, rfl⟩ := List.mem_map.1 hr
        exact .personFact hp hf
    · rcases mem_cons.1 hr with rfl | hr
      · exact .factEntity hf
      · exact mem_singleton.1 hr ▸ .fact hf
    · rcases mem_cons.1 hr with rfl | hr
      · exact .commitment hk
      · exact mem_singleton.1 hr ▸ .relationship hk
    · exact mem_singleton.1 hr ▸ .event he
  · intro h
    cases h with
    | person hp => exact .inl (.inl (.inl ⟨_, hp, mem_cons_self⟩))
    | personFact hp hf =>
      exact .inl (.inl (.inl ⟨_, hp, mem_cons_of_mem _ (List.mem_map_of_mem hf)⟩))
    | factEntity hf => exact .inl (.inl (.inr ⟨_, hf, mem_cons_self⟩))
    | fact hf => exact .inl (.inl (.inr ⟨_, hf, by simp [StandaloneFact.refs]⟩))
    | commitment hk => exact .inl (.inr ⟨_, hk, mem_cons_self⟩)
    | relationship hk => exact .inl (.inr ⟨_, hk, by simp [Commitment.refs]⟩)
    | event he => exact .inr ⟨_, he, mem_cons_self⟩

/-- The result `r` keeps to the budget for the context `c`. -/
structure Budgeted (maxChars : Double) (c : Assembled) (r : PersonalContext) : Prop where
  trimmed : Trimmed c r.toAssembled
  truncated : r.truncated = true ↔ r.toAssembled ≠ c
  built : r.provenanceRefs = buildProvenanceRefs r.toAssembled
  refers : ∀ ref, ref ∈ r.provenanceRefs ↔ Refers r.toAssembled ref
  fits : maxChars.exceededBy r.size = false ∨ r.IsCore

/-- **The result keeps to the budget**: every list is a prefix, the least important items are
dropped first, the flag and the references tell what was done, and the serialized result is not
longer than the limit, unless only the core is left. -/
theorem fitBudget_budgeted (maxChars : Double) (c : Assembled) :
    Budgeted maxChars c (fitBudget maxChars c) := by
  obtain ⟨hreach, hflag, hend⟩ := fitLoop_spec maxChars c false
  refine ⟨trimmed_of_drops hreach, ?_, rfl, fun _ => mem_buildProvenanceRefs, ?_⟩
  · refine hflag.trans ⟨fun h => ?_, fun hne => .inr ?_⟩
    · rcases h with h | h
      · cases h
      · exact fun he => (itemCount_lt_of_drops h).ne (congrArg Assembled.itemCount he)
    · rcases hreach.cases_head with he | ⟨d, hstep, hrest⟩
      · exact absurd he.symm hne
      · exact .head' hstep hrest
  · refine hend.imp_left fun hfits => ?_
    rw [← Bool.not_eq_true] at hfits ⊢
    exact fun hover => hfits (Double.exceededBy_mono (size_fitBudget_le maxChars c) hover)

end U2os.Server.Agent
