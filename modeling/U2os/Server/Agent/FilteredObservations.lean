import U2os.Server.Agent.BoundedClone

/-!
# Observations that are forwarded

`filterObservationsForDestination` of `agent/observation-filter.js`: of the results of earlier
steps, what a model may be given.  Each item is classified, and forwarded if the policy allows it; what is
forwarded is a copy, and all copies together have a bounded length.

An observation has each of its fields if it has the type that is asked for; a result that is missing
is as `null`.
-/

namespace U2os.Server.Agent.Filtering

open Policy List Option

structure Observation where
  stepIndex : Option ℕ
  tool : Option String
  actionId : Option String
  status : Option String
  result : Json
  historical : Bool

/-- Where a result is from. -/
structure Source where
  stepIndex : ℕ
  tool : String
  actionId : Option String

/-- An item that is forwarded. -/
structure Item where
  index : ℕ
  classification : Classification
  data : Data

/-- An observation that is forwarded. -/
structure Allowed where
  source : Source
  status : String
  items : List Item

/-- Why something is left out. -/
inductive Reason where
  | observationLimit
  | itemLimit (index : ℕ)
  | withheld (index : ℕ) (classification : Classification) (evaluation : DataEvaluation)
  | payloadLimit (index : ℕ) (classification : Classification)

/-- What is left out. -/
structure Omitted where
  source : Source
  reason : Reason
  destination : String

def setObservationFloor (floors : Floors) (tool classification : String) : Floors :=
  match Classification.ofText? classification with
  | some c => fun t => if t = tool then some c else floors t
  | none => floors

def maxObservations : ℕ := 8

def maxTotalChars : ℕ := 24000

/-- What the filter is given besides observations. -/
structure Filter where
  floors : Floors
  policies : DataPolicies
  destination : String

/-- The items of a result. -/
def rawItems : Json → List Json
  | .arr items => items
  | v => [v]

def Observation.toolName (o : Observation) : String := o.tool.getD "unknown"

/-- The classification of an item. -/
def Filter.classify (F : Filter) (o : Observation) (item : Json) : Classification :=
  classifyObservation F.floors o.toolName item o.historical

/-- What is found of items, and the characters that remain. -/
structure Found where
  items : List Item
  omitted : List Omitted
  remaining : ℕ

/-- One more item is left out. -/
def Found.leave (x : Omitted) (f : Found) : Found := { f with omitted := x :: f.omitted }

/-- One more item is forwarded. -/
def Found.forward (i : Item) (f : Found) : Found := { f with items := i :: f.items }

/-- The loop over the items, from an index on and with the characters that remain. -/
def filterItems (F : Filter) (o : Observation) (source : Source) : ℕ → ℕ → List Json → Found
  | _, remaining, [] => ⟨[], [], remaining⟩
  | index, remaining, item :: items =>
    let leave (reason : Reason) : Found :=
      (filterItems F o source (index + 1) remaining items).leave ⟨source, reason, F.destination⟩
    if maxItems ≤ index then leave (.itemLimit index)
    else
      let classification := F.classify o item
      let evaluation := F.policies.evaluate classification F.destination
      if evaluation.decision ≠ .allow then leave (.withheld index classification evaluation)
      else
        let data := boundedClone maxDepth item
        if remaining < data.length then leave (.payloadLimit index classification)
        else
          (filterItems F o source (index + 1) (remaining - data.length) items).forward
            ⟨index, classification, data⟩

/-- The loop over the observations, from a position on and with the characters that remain. -/
def filterFrom (F : Filter) : ℕ → ℕ → List Observation → List Allowed × List Omitted
  | _, _, [] => ([], [])
  | position, remaining, o :: os =>
    let source : Source := ⟨o.stepIndex.getD position, o.toolName, o.actionId⟩
    if maxObservations ≤ position then
      let rest := filterFrom F (position + 1) remaining os
      (rest.1, ⟨source, .observationLimit, F.destination⟩ :: rest.2)
    else if o.status ≠ some "executed" then
      let rest := filterFrom F (position + 1) remaining os
      let status := (o.status.filter (· ≠ "")).getD "unknown"
      (⟨source, status, []⟩ :: rest.1, rest.2)
    else
      let found := filterItems F o source 0 remaining (rawItems o.result)
      let rest := filterFrom F (position + 1) found.remaining os
      (⟨source, "executed", found.items⟩ :: rest.1, found.omitted ++ rest.2)

def filterObservationsForDestination (F : Filter) (observations : List Observation) :
    List Allowed × List Omitted :=
  filterFrom F 0 maxTotalChars observations

section

variable {F : Filter} {o : Observation} {source : Source} {index remaining : ℕ} {items : List Json}

/-- The characters of items. -/
def charsOf (items : List Item) : ℕ := (items.map fun i => i.data.length).sum

/-- An item of an observation that may be forwarded, by its raw item. -/
structure Forwarded (F : Filter) (o : Observation) (raw : Json) (item : Item) : Prop where
  allows : F.policies.Allows item.classification F.destination
  classification : item.classification = F.classify o raw
  data : item.data = boundedClone maxDepth raw

/-- Each item that passes comes from one of the source, and all are within the room that is left. -/
theorem filterItems_spec :
    (∀ item ∈ (filterItems F o source index remaining items).items, ∃ i raw,
      items[i]? = some raw ∧ item.index = index + i ∧ Forwarded F o raw item) ∧
    charsOf (filterItems F o source index remaining items).items +
      (filterItems F o source index remaining items).remaining = remaining := by
  induction items generalizing index remaining with
  | nil => exact ⟨nofun, Nat.zero_add _⟩
  | cons v vs ih =>
    have hlater : ∀ remaining, ∀ item ∈ (filterItems F o source (index + 1) remaining vs).items,
        ∃ i raw, (v :: vs)[i]? = some raw ∧ item.index = index + i ∧ Forwarded F o raw item := by
      intro remaining item hitem
      obtain ⟨i, raw, hraw, hindex, hforwarded⟩ := ih.1 item hitem
      exact ⟨i + 1, raw, hraw, by omega, hforwarded⟩
    unfold filterItems
    dsimp only
    split_ifs with hlimit hdecision hpayload
    · exact ⟨hlater remaining, ih.2⟩
    · exact ⟨hlater remaining, ih.2⟩
    · exact ⟨hlater remaining, ih.2⟩
    · refine ⟨forall_mem_cons.2 ⟨⟨0, v, rfl, rfl, not_not.1 hdecision, rfl, rfl⟩,
        hlater _⟩, ?_⟩
      have hrest := (@ih (index + 1) (remaining - (boundedClone maxDepth v).length)).2
      simp only [Found.forward, charsOf, map_cons, sum_cons] at hrest ⊢
      omega

/-- What is forwarded of an observation. -/
structure ForwardedFrom (F : Filter) (o : Observation) (allowed : Allowed) : Prop where
  tool : allowed.source.tool = o.toolName
  items : ∀ item ∈ allowed.items, o.status = some "executed" ∧
    ∃ raw, (rawItems o.result)[item.index]? = some raw ∧ Forwarded F o raw item

theorem filterFrom_limit {position : ℕ} {os : List Observation} (h : maxObservations ≤ position) :
    (filterFrom F position remaining os).1 = [] := by
  induction os generalizing position with
  | nil => rfl
  | cons o os ih =>
    rw [filterFrom, if_pos h]
    exact ih (Nat.le_succ_of_le h)

/-- Each observation that passes comes from one at its place, within the room in all. -/
theorem filterFrom_spec {position : ℕ} {os : List Observation} :
    (∀ (k : ℕ) (allowed : Allowed), (filterFrom F position remaining os).1[k]? = some allowed →
      ∃ o, os[k]? = some o ∧ ForwardedFrom F o allowed) ∧
    ((filterFrom F position remaining os).1.map fun a => charsOf a.items).sum ≤ remaining := by
  induction os generalizing position remaining with
  | nil => exact ⟨nofun, Nat.zero_le _⟩
  | cons o os ih =>
    by_cases hlimit : maxObservations ≤ position
    · rw [filterFrom_limit hlimit]
      exact ⟨nofun, Nat.zero_le _⟩
    · rw [filterFrom, if_neg hlimit]
      split_ifs with hstatus
      · refine ⟨fun k allowed hk => ?_, ?_⟩
        · cases k with
          | zero =>
            obtain rfl := some.inj hk
            exact ⟨o, rfl, rfl, nofun⟩
          | succ k => exact ih.1 k allowed hk
        · simpa [charsOf] using ih.2
      · obtain ⟨hitems, hchars⟩ := @filterItems_spec F o
          ⟨o.stepIndex.getD position, o.toolName, o.actionId⟩ 0 remaining (rawItems o.result)
        refine ⟨fun k allowed hk => ?_, ?_⟩
        · cases k with
          | zero =>
            obtain rfl := some.inj hk
            refine ⟨o, rfl, rfl, fun item hitem => ⟨not_not.1 hstatus, ?_⟩⟩
            obtain ⟨i, raw, hraw, hindex, hforwarded⟩ := hitems item hitem
            rw [Nat.zero_add] at hindex
            exact ⟨raw, hindex ▸ hraw, hforwarded⟩
          | succ k => exact ih.1 k allowed hk
        · have hrest := (@ih (filterItems F o ⟨o.stepIndex.getD position, o.toolName, o.actionId⟩ 0
            remaining (rawItems o.result)).remaining (position + 1)).2
          simp only [map_cons, sum_cons] at hrest ⊢
          omega

/-- Two items of an observation: both are withheld by the policy, or they differ at most under keys
of secrets, have the same labels and are both small enough to be classified by these, or both too
large. -/
inductive ItemsMatch (F : Filter) (o : Observation) (v w : Json) : Prop
  | withheld : ¬F.policies.Allows (F.classify o v) F.destination →
      ¬F.policies.Allows (F.classify o w) F.destination → ItemsMatch F o v w
  | secret : SecretAlike v w → (∀ c, HasLabel c v ↔ HasLabel c w) →
      (countValues v ≤ 5000 ↔ countValues w ≤ 5000) → ItemsMatch F o v w

theorem filterItems_congr {items' : List Json} (h : List.Forall₂ (ItemsMatch F o) items items') :
    (filterItems F o source index remaining items).items =
      (filterItems F o source index remaining items').items ∧
    (filterItems F o source index remaining items).remaining =
      (filterItems F o source index remaining items').remaining := by
  induction h generalizing index remaining with
  | nil => exact ⟨rfl, rfl⟩
  | @cons v w vs ws hmatch _ ih =>
    unfold filterItems
    dsimp only
    by_cases hlimit : maxItems ≤ index
    · rw [if_pos hlimit, if_pos hlimit]
      exact ih
    rw [if_neg hlimit, if_neg hlimit]
    cases hmatch with
    | withheld hv hw =>
      have hv' : (F.policies.evaluate (F.classify o v) F.destination).decision ≠ .allow := hv
      have hw' : (F.policies.evaluate (F.classify o w) F.destination).decision ≠ .allow := hw
      rw [if_pos hv', if_pos hw']
      exact ih
    | secret halike hlabels hsize =>
      have hclass : F.classify o v = F.classify o w := classifyObservation_congr hsize hlabels
      rw [hclass, boundedClone_congr halike]
      split_ifs
      · exact ih
      · exact ih
      · exact ⟨congrArg (_ :: ·) ih.1, ih.2⟩

/-- Two observations that differ at most in such items. -/
structure ObservationAlike (F : Filter) (o p : Observation) : Prop where
  stepIndex : o.stepIndex = p.stepIndex
  tool : o.tool = p.tool
  actionId : o.actionId = p.actionId
  status : o.status = p.status
  historical : o.historical = p.historical
  items : List.Forall₂ (ItemsMatch F o) (rawItems o.result) (rawItems p.result)

theorem filterItems_classify {p : Observation} (h : F.classify o = F.classify p) :
    filterItems F o source index remaining items =
      filterItems F p source index remaining items := by
  induction items generalizing index remaining with
  | nil => rfl
  | cons v vs ih =>
    unfold filterItems
    simp only [h, ih]

theorem filterFrom_congr {position : ℕ} {os ps : List Observation}
    (h : List.Forall₂ (ObservationAlike F) os ps) :
    (filterFrom F position remaining os).1 = (filterFrom F position remaining ps).1 := by
  induction h generalizing position remaining with
  | nil => rfl
  | @cons o p os ps halike _ ih =>
    have htool : o.toolName = p.toolName := by rw [Observation.toolName, halike.tool]; rfl
    have hclassify : F.classify o = F.classify p := by
      funext item
      rw [Filter.classify, htool, halike.historical]
      rfl
    obtain ⟨hitems, hremaining⟩ := @filterItems_congr F o
      ⟨o.stepIndex.getD position, o.toolName, o.actionId⟩ 0 remaining _ _ halike.items
    rw [filterItems_classify hclassify, filterItems_classify hclassify] at hitems hremaining
    unfold filterFrom
    dsimp only
    rw [← htool, ← halike.stepIndex, ← halike.actionId, ← halike.status]
    split_ifs
    · exact ih
    · exact congrArg (_ :: ·) ih
    · rw [filterItems_classify hclassify, hitems, hremaining]
      exact congrArg (_ :: ·) ih

end

/-- **The filter of observations.**  What is forwarded is allowed at a classification that is as
restrictive as the floor of the tool, as `private` for what is historical and as each label in it;
it has no keys that look like those of secrets and a bounded length; and it is the same for
observations that differ in what is withheld or secret. -/
theorem observations_filtered (F : Filter) (observations : List Observation) :
    (∀ (k : ℕ) (allowed : Allowed),
      (filterObservationsForDestination F observations).1[k]? = some allowed →
      ∃ o, observations[k]? = some o ∧ allowed.source.tool = o.toolName ∧
        ∀ item ∈ allowed.items, o.status = some "executed" ∧
          ∃ raw, (rawItems o.result)[item.index]? = some raw ∧
            item.data = boundedClone maxDepth raw ∧
            F.policies.Allows item.classification F.destination ∧
            (floorOf F.floors o.toolName false).rank ≤ item.classification.rank ∧
            (o.historical = true → Classification.private_.rank ≤ item.classification.rank) ∧
            (∀ c, HasLabel c raw → c.rank ≤ item.classification.rank) ∧
            ¬item.data.HasSecret) ∧
    ((filterObservationsForDestination F observations).1.map fun a => charsOf a.items).sum ≤
      maxTotalChars ∧
    ∀ observations', List.Forall₂ (ObservationAlike F) observations observations' →
      (filterObservationsForDestination F observations).1 =
        (filterObservationsForDestination F observations').1 := by
  obtain ⟨hforwarded, hchars⟩ := @filterFrom_spec F maxTotalChars 0 observations
  refine ⟨fun k allowed hk => ?_, hchars, fun observations' halike => filterFrom_congr halike⟩
  obtain ⟨o, ho, htool, hitems⟩ := hforwarded k allowed hk
  refine ⟨o, ho, htool, fun item hitem => ?_⟩
  obtain ⟨hstatus, raw, hraw, hallows, hclass, hdata⟩ := hitems item hitem
  refine ⟨hstatus, raw, hraw, hdata, hallows, ?_, fun hhistorical => ?_, fun c hlabel => ?_, ?_⟩
  · rw [hclass]
    exact rank_floorOf_mono.trans rank_floorOf_le
  · rw [hclass, Filter.classify, hhistorical]
    exact private_le_floorOf.trans rank_floorOf_le
  · rw [hclass]
    exact rank_le_of_hasLabel hlabel
  · rw [hdata]
    exact no_secret_boundedClone maxDepth raw

/-- A filter that allows everything. -/
def sampleFilter : Filter := ⟨fun _ => none, ⟨fun _ => some fun _ => some "allow"⟩, "local_model"⟩

/-- An item with a secret. -/
def sampleItem (secret : Json) : Json := .obj [("password", secret)]

def sampleObservation (secret : Json) : Observation :=
  ⟨none, none, none, some "executed", sampleItem secret, false⟩

theorem sample_filtered (secret : Json) :
    (filterObservationsForDestination sampleFilter [sampleObservation secret]).1 =
      [⟨⟨0, "unknown", none⟩, "executed",
        [⟨0, sampleFilter.classify (sampleObservation secret) (sampleItem secret), .obj []⟩]⟩] := by
  have hclone : boundedClone maxDepth (sampleItem secret) = .obj [] := by
    have hfields : cloneFields (maxDepth - 1) maxItems [("password", secret)] = [] := by
      have hsecret : isSecretKey "password".toList = true := by decide
      unfold cloneFields
      rw [if_pos hsecret, cloneFields]
    rw [sampleItem, boundedClone, if_neg (by decide), hfields]
    rfl
  have hallow : ∀ c, (sampleFilter.policies.evaluate c sampleFilter.destination).decision =
      .allow := fun c => by rfl
  have hitems : ∀ source, (filterItems sampleFilter (sampleObservation secret) source 0
      maxTotalChars [sampleItem secret]).items =
      [⟨0, sampleFilter.classify (sampleObservation secret) (sampleItem secret), .obj []⟩] := by
    intro source
    unfold filterItems
    dsimp only
    rw [if_neg (by decide), if_neg (not_not.2 (hallow _)), hclone, if_neg (by decide)]
    rfl
  have hstatus : (sampleObservation secret).status = some "executed" := rfl
  unfold filterObservationsForDestination filterFrom
  dsimp only
  rw [if_neg (by decide), if_neg (not_not.2 hstatus)]
  exact congrArg (fun items => [(⟨⟨0, "unknown", none⟩, "executed", items⟩ : Allowed)]) (hitems _)

theorem countValues_sample (n : ℕ) :
    countValues (sampleItem (.arr (List.replicate n .null))) = n + 2 := by
  rw [sampleItem, countValues, countFields, countField, countValues, countItems_eq,
    map_replicate, sum_replicate, countFields]
  simp [countValues]

/-- The secrets differ, and neither has a label; yet the one with too many values makes its item
sensitive, and so what is forwarded differs. -/
theorem sample_budget : ∃ secret secret',
    SecretAlike (sampleItem secret) (sampleItem secret') ∧
    (∀ c, ¬HasLabel c (sampleItem secret) ∧ ¬HasLabel c (sampleItem secret')) ∧
    (filterObservationsForDestination sampleFilter [sampleObservation secret]).1 =
      [⟨⟨0, "unknown", none⟩, "executed", [⟨0, .private_, .obj []⟩]⟩] ∧
    (filterObservationsForDestination sampleFilter [sampleObservation secret']).1 =
      [⟨⟨0, "unknown", none⟩, "executed", [⟨0, .sensitive, .obj []⟩]⟩] := by
  have hnull : ∀ c, ¬HasLabel c .null := by
    rintro c (h | ⟨h, -, -⟩)
    · cases h
    · cases h
  refine ⟨.null, .arr (replicate 5000 .null), .obj (.secret (by decide) .nil),
    fun c => ⟨?_, ?_⟩, ?_, ?_⟩
  · rintro (h | ⟨h, hmem, hlabel⟩)
    · cases h
    · obtain rfl := some.inj h
      obtain rfl := mem_singleton.1 hmem
      exact hnull c hlabel
  · rintro (h | ⟨h, hmem, hlabel⟩)
    · cases h
    · obtain rfl := some.inj h
      obtain rfl := mem_singleton.1 hmem
      obtain h | ⟨h, hmem, hlabel⟩ := hlabel
      · cases h
      · obtain rfl := some.inj h
        exact hnull c (eq_of_mem_replicate hmem ▸ hlabel)
  · rw [sample_filtered]
    have hclass : sampleFilter.classify (sampleObservation .null) (sampleItem .null) =
        .private_ := by rfl
    rw [hclass]
  · rw [sample_filtered]
    have hclass : sampleFilter.classify (sampleObservation (.arr (replicate 5000 .null)))
        (sampleItem (.arr (replicate 5000 .null))) = .sensitive := by
      refine classifyObservation_of_large ?_
      rw [countValues_sample]
      decide
    rw [hclass]

end U2os.Server.Agent.Filtering
