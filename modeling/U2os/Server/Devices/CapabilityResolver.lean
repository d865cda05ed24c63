import Mathlib.Algebra.Order.Group.Unbundled.Int
import U2os.Lib.Table
import U2os.Server.Policy.DataProcessingPolicy

/-!
# Which device serves a capability

The resolver of `devices/capability-resolver.js`.  Every device that offers the capability is
evaluated by fixed rules; the eligible ones come first, those with a higher score before the
others, and the first eligible one is chosen.

A privacy label that is not known is read as the least restrictive one.  Everything that is said
below of a request holds for known labels and for none; what an unknown label gets is said apart.
-/

namespace U2os.Server.Devices

open Policy List Option

/-- `VALID_STATUS`. -/
inductive Status where
  | online | offline
deriving DecidableEq

/-- `VALID_TRUST`. -/
inductive Trust where
  | untrusted | paired | trusted | revoked
deriving DecidableEq

/-- The text of a trust level. -/
def Trust.text : Trust → String
  | .untrusted => "untrusted"
  | .paired => "paired"
  | .trusted => "trusted"
  | .revoked => "revoked"

/-- A row of `devices`. -/
structure Device where
  id : String
  owner : Option String := none
  location : Option String := none
  status : Status
  trust : Trust
  capabilities : List String
  adapter : String
deriving DecidableEq

/-- The devices, in the order of the query, and the adapters that are registered. -/
structure DeviceRegistry where
  devices : Table Device Device.id
  adapters : List String

namespace DeviceRegistry

variable (registry : DeviceRegistry)

def getDevice (id : String) : Option Device := registry.devices.find id

/-- Whether `getAdapter` finds an adapter. -/
def hasAdapter (id : String) : Bool := registry.adapters.contains id

def findProvidersFor (capabilityId : String) : List Device :=
  registry.devices.rows.filter fun d => d.capabilities.contains capabilityId

end DeviceRegistry

/-- A request; what is not given is `none`. -/
structure Request where
  audience : Option String := none
  privacy : Option String := none
  location : Option String := none

/-- A request whose privacy is known. -/
structure NormalizedRequest where
  audience : Option String
  privacy : Classification
  location : Option String

/-- A text that is given and not empty. -/
def given (text : Option String) : Option String := text.filter (· ≠ "")

/-! ### The resolver -/

def trustMaxPrivacy : Trust → Option Classification
  | .untrusted => some .public_
  | .paired => some .personal
  | .trusted => some .sensitive
  | .revoked => none

/-- The most restrictive privacy that a trust level allows. -/
def maxPrivacy (trust : Trust) : Classification := (trustMaxPrivacy trust).getD .public_

def normalizePrivacy (privacy : Option String) : Classification :=
  (privacy.bind Classification.ofText?).getD .public_

/-- The request with its privacy normalized. -/
def Request.normalized (request : Request) : NormalizedRequest :=
  { audience := request.audience
    privacy := normalizePrivacy request.privacy
    location := request.location }

/-- The evaluation of one device. -/
structure Candidate where
  device : String
  eligible : Bool
  score : ℕ
  reasons : List String
deriving DecidableEq

def computeScore (device : Device) (request : NormalizedRequest) : ℕ :=
  50 +
    (if (given request.audience).isSome ∧ device.owner = request.audience then 30 else 0) +
    (if device.trust = .trusted then 15 else 0) +
    (if (given request.location).isSome ∧ device.location = request.location then 10 else 0)

/-- What a rule says: whether the device stays eligible, and why. -/
abbrev Verdict := Bool × List String

/-- The adapter has to be there. -/
def adapterVerdict (adapterAvailable : Bool) : Verdict :=
  if adapterAvailable then (true, [])
  else (false, ["adapter is unavailable; device record is cached"])

/-- The device has to be online. -/
def statusVerdict (device : Device) : Verdict :=
  if device.status = .online then (true, ["online"]) else (false, ["device is offline"])

/-- The trust in the device has to allow the privacy. -/
def privacyVerdict (device : Device) (request : NormalizedRequest) : Verdict :=
  if (maxPrivacy device.trust).rank < request.privacy.rank then
    (false, ["device trust \"" ++ device.trust.text ++ "\" is insufficient for \"" ++
      request.privacy.text ++ "\" content (max: \"" ++ (maxPrivacy device.trust).text ++ "\")"])
  else if request.privacy ≠ .public_ then
    (true, ["trusted sufficiently for \"" ++ request.privacy.text ++ "\" content"])
  else (true, [])

/-- Nobody else may own the device, and private content needs its owner. -/
def ownershipVerdict (device : Device) (request : NormalizedRequest) : Verdict :=
  match given request.audience with
  | none => (true, [])
  | some audience =>
    if (given device.owner).isSome ∧ device.owner ≠ some audience ∧
        device.owner ≠ some "household" then
      (false, ["device is owned by \"" ++ device.owner.getD "" ++
        "\", not the requested audience \"" ++ audience ++ "\""])
    else if Classification.private_.rank ≤ request.privacy.rank then
      if device.owner ≠ some audience then
        (false, ["shared device cannot receive \"" ++ request.privacy.text ++
          "\" content (owner \"" ++ (given device.owner).getD "none" ++ "\" != audience \"" ++
          audience ++ "\")"])
      else (true, ["owner match"])
    else (true, [])

/-- Another location is mentioned. -/
def locationVerdict (device : Device) (request : NormalizedRequest) : Verdict :=
  match given request.location, given device.location with
  | some wanted, some actual =>
    if actual = wanted then (true, [])
    else (true, ["location \"" ++ actual ++ "\" does not match requested \"" ++ wanted ++
      "\" (not disqualifying)"])
  | _, _ => (true, [])

def evaluateCandidate (device : Device) (request : NormalizedRequest) (adapterAvailable : Bool) :
    Candidate :=
  if device.trust = .revoked then
    { device := device.id, eligible := false, score := 0, reasons := ["device is revoked"] }
  else
    let verdicts := [adapterVerdict adapterAvailable, statusVerdict device,
      privacyVerdict device request, ownershipVerdict device request,
      locationVerdict device request]
    let eligible := verdicts.all Prod.fst
    { device := device.id
      eligible := eligible
      score := if eligible then computeScore device request else 0
      reasons := verdicts.flatMap Prod.snd }

/-- The comparison of the sort. -/
def compareCandidates (a b : Candidate) : ℤ :=
  let byEligible : ℤ := (b.eligible.toNat : ℤ) - a.eligible.toNat
  if byEligible ≠ 0 then byEligible else (b.score : ℤ) - a.score

/-- What `explainResolution` returns. -/
structure Explanation where
  capability : String
  request : NormalizedRequest
  candidates : List Candidate
  chosen : Option String

/-- The candidates in the order of the device registry. -/
def evaluated (registry : DeviceRegistry) (capabilityId : String) (request : NormalizedRequest) :
    List Candidate :=
  (registry.findProvidersFor capabilityId).map fun device =>
    evaluateCandidate device request (registry.hasAdapter device.adapter)

/-- `explainResolution`; `capabilities` are the ids of the capability registry. -/
def explainResolution (capabilityId : String) (request : Request) (registry : DeviceRegistry)
    (capabilities : List String) : Except String Explanation :=
  if capabilities.contains capabilityId then
    let candidates := (evaluated registry capabilityId request.normalized).mergeSort
      fun a b => compareCandidates a b ≤ 0
    .ok
      { capability := capabilityId
        request := request.normalized
        candidates := candidates
        chosen := (candidates.find? Candidate.eligible).map Candidate.device }
  else .error ("Unknown capability: " ++ capabilityId)

def resolveCapability (capabilityId : String) (request : Request) (registry : DeviceRegistry)
    (capabilities : List String) : Except String (Option Device) :=
  (explainResolution capabilityId request registry capabilities).map fun explanation =>
    explanation.chosen.bind registry.getDevice

/-! ### The rules -/

/-- What has to hold of a device that serves a request. -/
structure Serves (registry : DeviceRegistry) (request : NormalizedRequest) (device : Device) :
    Prop where
  known : device ∈ registry.devices
  online : device.status = .online
  available : registry.hasAdapter device.adapter = true
  not_revoked : device.trust ≠ .revoked
  trusted : request.privacy.rank ≤ (maxPrivacy device.trust).rank
  /-- Nobody but the audience owns the device, unless it is the household's. -/
  not_others : ∀ audience, given request.audience = some audience →
    ∀ owner, given device.owner = some owner → owner = audience ∨ owner = "household"
  /-- Private and sensitive content goes to a device of the audience. -/
  owned : ∀ audience, given request.audience = some audience →
    Classification.private_.rank ≤ request.privacy.rank → device.owner = some audience

variable {registry : DeviceRegistry} {capabilityId : String} {capabilities : List String}
  {device : Device} {request : NormalizedRequest} {available : Bool}

theorem given_eq_some {text : Option String} {s : String} :
    given text = some s ↔ text = some s ∧ s ≠ "" := by
  simp [given, filter_eq_some_iff]

theorem fst_privacyVerdict : (privacyVerdict device request).1 = true ↔
    request.privacy.rank ≤ (maxPrivacy device.trust).rank := by
  unfold privacyVerdict
  split_ifs with h
  · simpa using h
  · simpa using h
  · simpa using h

/-- A device may be used for an audience where its owner and its privacy allow it. -/
theorem fst_ownershipVerdict : (ownershipVerdict device request).1 = true ↔
    ∀ audience, given request.audience = some audience →
      (∀ owner, given device.owner = some owner → owner = audience ∨ owner = "household") ∧
      (Classification.private_.rank ≤ request.privacy.rank → device.owner = some audience) := by
  unfold ownershipVerdict
  cases hgiven : given request.audience with
  | none => simp
  | some audience =>
    dsimp only
    split_ifs with hother hprivate howner
    · -- somebody else owns the device
      obtain ⟨owner, howner⟩ := isSome_iff_exists.1 hother.1
      have hself := (given_eq_some.1 howner).1
      refine ⟨nofun, fun h => ?_⟩
      rcases (h audience rfl).1 owner howner with rfl | rfl
      · exact absurd hself hother.2.1
      · exact absurd hself hother.2.2
    · exact ⟨nofun, fun h => absurd ((h audience rfl).2 hprivate) howner⟩
    · rw [not_not] at howner
      refine ⟨fun _ a ha => ?_, fun _ => rfl⟩
      obtain rfl := some.inj ha
      refine ⟨fun owner ho => .inl ?_, fun _ => howner⟩
      exact some.inj ((given_eq_some.1 ho).1.symm.trans howner)
    · refine ⟨fun _ a ha => ?_, fun _ => rfl⟩
      obtain rfl := some.inj ha
      refine ⟨fun owner ho => ?_, fun h => absurd h hprivate⟩
      by_contra hne
      rw [not_or] at hne
      have hself := (given_eq_some.1 ho).1
      refine hother ⟨by rw [ho]; rfl, ?_, ?_⟩
      · rw [hself]
        exact fun he => hne.1 (some.inj he)
      · rw [hself]
        exact fun he => hne.2 (some.inj he)

theorem fst_locationVerdict : (locationVerdict device request).1 = true := by
  unfold locationVerdict
  split
  · split_ifs <;> rfl
  · rfl

theorem eligible_iff : (evaluateCandidate device request available).eligible = true ↔
    device.trust ≠ .revoked ∧ available = true ∧ device.status = .online ∧
      request.privacy.rank ≤ (maxPrivacy device.trust).rank ∧
      ∀ audience, given request.audience = some audience →
        (∀ owner, given device.owner = some owner → owner = audience ∨ owner = "household") ∧
        (Classification.private_.rank ≤ request.privacy.rank → device.owner = some audience) := by
  unfold evaluateCandidate
  split_ifs with hrevoked
  · exact ⟨nofun, fun h => absurd hrevoked h.1⟩
  · have hadapter : (adapterVerdict available).1 = true ↔ available = true := by
      cases available <;> decide
    have hstatus : (statusVerdict device).1 = true ↔ device.status = .online := by
      unfold statusVerdict
      split_ifs with h <;> simp [h]
    simp only [all_cons, all_nil, Bool.and_true, Bool.and_eq_true, hadapter, hstatus,
      fst_privacyVerdict, fst_ownershipVerdict, fst_locationVerdict]
    exact ⟨fun h => ⟨hrevoked, h⟩, fun h => h.2⟩

@[simp] theorem device_evaluateCandidate :
    (evaluateCandidate device request available).device = device.id := by
  unfold evaluateCandidate
  split_ifs <;> rfl

theorem eligible_mono {p q : Classification} (h : p.rank ≤ q.rank)
    (hq : (evaluateCandidate device { request with privacy := q } available).eligible = true) :
    (evaluateCandidate device { request with privacy := p } available).eligible = true := by
  rw [eligible_iff] at hq ⊢
  obtain ⟨hrevoked, havailable, honline, htrust, howner⟩ := hq
  refine ⟨hrevoked, havailable, honline, h.trans htrust, fun audience ha => ?_⟩
  obtain ⟨hothers, howned⟩ := howner audience ha
  exact ⟨hothers, fun hp => howned (hp.trans h)⟩

theorem mem_findProvidersFor : device ∈ registry.findProvidersFor capabilityId ↔
    device ∈ registry.devices ∧ device.capabilities.contains capabilityId = true :=
  mem_filter

theorem compareCandidates_total (a b : Candidate) :
    compareCandidates a b ≤ 0 ∨ compareCandidates b a ≤ 0 := by
  unfold compareCandidates
  dsimp only
  split_ifs <;> omega

theorem compareCandidates_trans {a b c : Candidate} (hab : compareCandidates a b ≤ 0)
    (hbc : compareCandidates b c ≤ 0) : compareCandidates a c ≤ 0 := by
  unfold compareCandidates at hab hbc ⊢
  dsimp only at hab hbc ⊢
  split_ifs at hab hbc ⊢ <;> omega

theorem score_le_of_find {cs : List Candidate} {c c' : Candidate}
    (h : (cs.mergeSort fun a b => compareCandidates a b ≤ 0).find? Candidate.eligible = some c)
    (hc' : c' ∈ cs) (heligible : c'.eligible = true) : c'.score ≤ c.score := by
  obtain ⟨hself, before, after, hsplit, hbefore⟩ := find?_eq_some_iff_append.1 h
  have hsorted := @List.pairwise_mergeSort _ (fun a b => decide (compareCandidates a b ≤ 0))
    (fun a b c hab hbc => decide_eq_true
      (compareCandidates_trans (of_decide_eq_true hab) (of_decide_eq_true hbc)))
    (fun a b => by
      rw [Bool.or_eq_true, decide_eq_true_iff, decide_eq_true_iff]
      exact compareCandidates_total a b) cs
  have hmem : c' ∈ cs.mergeSort fun a b => decide (compareCandidates a b ≤ 0) :=
    mem_mergeSort.2 hc'
  rw [hsplit] at hsorted hmem
  rcases mem_append.1 hmem with hmem | hmem
  · have hnot := hbefore c' hmem
    rw [heligible] at hnot
    cases hnot
  · rcases mem_cons.1 hmem with rfl | hmem
    · exact le_rfl
    · have hle := (pairwise_cons.1 (pairwise_append.1 hsorted).2.1).1 c' hmem
      have hcompare := of_decide_eq_true hle
      unfold compareCandidates at hcompare
      rw [hself, heligible] at hcompare
      dsimp only at hcompare
      split_ifs at hcompare <;> omega

variable {wanted : Request}

/-- The device that is chosen provides the capability, and passes. -/
theorem resolve_eq_some
    (h : resolveCapability capabilityId wanted registry capabilities = .ok (some device)) :
    device ∈ registry.findProvidersFor capabilityId ∧
      ((evaluated registry capabilityId wanted.normalized).mergeSort
        fun a b => compareCandidates a b ≤ 0).find? Candidate.eligible =
          some (evaluateCandidate device wanted.normalized
            (registry.hasAdapter device.adapter)) := by
  unfold resolveCapability explainResolution at h
  split_ifs at h with hknown
  · simp only [Except.map, Except.ok.injEq] at h
    cases hfind : ((evaluated registry capabilityId wanted.normalized).mergeSort
        fun a b => compareCandidates a b ≤ 0).find? Candidate.eligible with
    | none =>
      rw [hfind] at h
      cases h
    | some c =>
      rw [hfind] at h
      have hmem := mem_mergeSort.1 (mem_of_find?_eq_some hfind)
      obtain ⟨d, hd, rfl⟩ := List.mem_map.1 hmem
      -- The id of a candidate leads back to its device.
      have hself : registry.getDevice d.id = some d :=
        Table.find_key (mem_findProvidersFor.1 hd).1
      rw [map_some, bind_some, device_evaluateCandidate, hself] at h
      obtain rfl := some.inj h
      exact ⟨hd, rfl⟩
  · cases h

theorem serves_of_resolve
    (h : resolveCapability capabilityId wanted registry capabilities = .ok (some device)) :
    Serves registry wanted.normalized device := by
  obtain ⟨hmem, hfind⟩ := resolve_eq_some h
  obtain ⟨hrevoked, havailable, honline, htrust, howner⟩ := eligible_iff.1 (find?_some hfind)
  exact
    { known := (mem_findProvidersFor.1 hmem).1
      online := honline
      available := havailable
      not_revoked := hrevoked
      trusted := htrust
      not_others := fun audience ha => (howner audience ha).1
      owned := fun audience ha => (howner audience ha).2 }

/-- **No eligible device has a higher score than the one that is chosen.** -/
theorem score_le_of_resolve {other : Device}
    (h : resolveCapability capabilityId wanted registry capabilities = .ok (some device))
    (hother : other ∈ registry.findProvidersFor capabilityId)
    (heligible : (evaluateCandidate other wanted.normalized
      (registry.hasAdapter other.adapter)).eligible = true) :
    (evaluateCandidate other wanted.normalized (registry.hasAdapter other.adapter)).score ≤
      (evaluateCandidate device wanted.normalized (registry.hasAdapter device.adapter)).score :=
  score_le_of_find (resolve_eq_some h).2 (List.mem_map_of_mem hother) heligible

/-! ### Labels -/

/-- The request has a known privacy label, or none. -/
def Request.Labelled (request : Request) : Prop :=
  ∀ label, request.privacy = some label → (Classification.ofText? label).isSome = true

/-- What routing promises. -/
structure RoutedSafely (registry : DeviceRegistry) (capabilities : List String)
    (capabilityId : String) (request : Request) : Prop where
  serves : ∀ device,
    resolveCapability capabilityId request registry capabilities = .ok (some device) →
      Serves registry request.normalized device
  best : ∀ device,
    resolveCapability capabilityId request registry capabilities = .ok (some device) →
      ∀ other ∈ registry.findProvidersFor capabilityId,
        (evaluateCandidate other request.normalized
          (registry.hasAdapter other.adapter)).eligible = true →
        (evaluateCandidate other request.normalized (registry.hasAdapter other.adapter)).score ≤
          (evaluateCandidate device request.normalized
            (registry.hasAdapter device.adapter)).score
  /-- Of two known levels, the more private one makes no device eligible. -/
  monotone : ∀ p q : Classification, p.rank ≤ q.rank → ∀ device available,
    (evaluateCandidate device { request.normalized with privacy := q } available).eligible =
      true →
    (evaluateCandidate device { request.normalized with privacy := p } available).eligible = true
  /-- An unknown label makes no device eligible that a known one does not. -/
  unknown : ∀ label, request.privacy = some label → Classification.ofText? label = none →
    ∀ (p : Classification) device available,
      (evaluateCandidate device request.normalized available).eligible = true →
      (evaluateCandidate device { request.normalized with privacy := p } available).eligible =
        true

/-- A device that is eligible for public content only. -/
def strangerDevice : Device where
  id := "tv"
  status := .online
  trust := .untrusted
  capabilities := []
  adapter := ""

theorem eligible_strangerDevice : (evaluateCandidate strangerDevice request true).eligible = true ↔
    request.privacy = .public_ := by
  rw [eligible_iff]
  constructor
  · rintro ⟨-, -, -, htrust, -⟩
    cases hp : request.privacy with
    | public_ => rfl
    | personal | private_ | sensitive =>
      rw [hp] at htrust
      exact absurd htrust (by decide)
  · intro hp
    rw [hp]
    exact ⟨by decide, rfl, rfl, le_rfl, fun _ _ => ⟨nofun, fun h => absurd h (by decide)⟩⟩

/-- **Routing keeps its promises for a request if and only if its privacy label is known or not
given**: an unknown label is read as `public`. -/
theorem routedSafely_iff (registry : DeviceRegistry) (capabilities : List String)
    (capabilityId : String) (request : Request) :
    RoutedSafely registry capabilities capabilityId request ↔ request.Labelled := by
  constructor
  · intro h label hlabel
    by_contra hunknown
    rw [Bool.not_eq_true, isSome_eq_false_iff, isNone_iff_eq_none] at hunknown
    have hpublic : request.normalized.privacy = .public_ := by
      unfold Request.normalized normalizePrivacy
      rw [hlabel, bind_some, hunknown]
      rfl
    have hsensitive := h.unknown label hlabel hunknown .sensitive strangerDevice true
      (eligible_strangerDevice.2 hpublic)
    exact absurd (eligible_strangerDevice.1 hsensitive) nofun
  · intro h
    exact
      { serves := fun _ => serves_of_resolve
        best := fun _ hresolve _ => score_le_of_resolve hresolve
        monotone := fun _ _ hle _ _ => eligible_mono hle
        unknown := fun label hlabel hnone => by
          have hsome := h label hlabel
          rw [hnone] at hsome
          cases hsome }

/-- A screen of the household that is not trusted. -/
def sharedScreen : Device where
  id := "screen.hall"
  owner := some "household"
  location := some "hall"
  status := .online
  trust := .untrusted
  capabilities := ["ui.render"]
  adapter := "mock"

/-- The registry with this screen. -/
def sharedRegistry : DeviceRegistry where
  devices := ⟨[sharedScreen], by decide⟩
  adapters := ["mock"]

/-- Content that is labelled `confidential` is shown on a screen that gets nothing personal. -/
theorem unknown_label_routed :
    resolveCapability "ui.render" { audience := some "chris", privacy := some "confidential" }
        sharedRegistry ["ui.render"] = .ok (some sharedScreen) ∧
      resolveCapability "ui.render" { audience := some "chris", privacy := some "personal" }
        sharedRegistry ["ui.render"] = .ok none ∧
      ¬RoutedSafely sharedRegistry ["ui.render"] "ui.render"
        { audience := some "chris", privacy := some "confidential" } := by
  refine ⟨by decide +kernel, by decide +kernel, fun h => ?_⟩
  have hpersonal := h.unknown "confidential" rfl (by decide) .personal sharedScreen true (by decide)
  exact absurd hpersonal (by decide)

end U2os.Server.Devices
