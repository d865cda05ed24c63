import U2os.Server.Packages.Dependencies

/-!
# What a checked package has

What `validateDependencies` is to establish, in terms of the package and the registries: every
range that the manifest or a skill requires is met by the version that will be used, everything a
workflow uses is declared or exported, and every permission needed on the way is covered.

The ranges of the skills are merged into those of the manifest by `??=`, which keeps one range for
an id, and none for an id that names a property every object has.
-/

namespace U2os.Server.Packages

open JsText List

/-- A capability is used by a workflow, or by the workflow of a skill that it uses. -/
inductive Reaches (workflowOf : String → Option Uses) : Uses → String → Prop
  | uses {w : Uses} {c : String} (h : c ∈ usedCapabilities w) : Reaches workflowOf w c
  | through {w w' : Uses} {skill c : String} (hs : skill ∈ usedSkills w)
      (hw : workflowOf skill = some w') (h : Reaches workflowOf w' c) : Reaches workflowOf w c

/-- The id is exported, or there is a range for it. -/
def IsDeclared (own ranges : List (String × String)) (id : String) : Prop :=
  (Assoc.get? own id).isSome = true ∨ id ∈ ranges.map Prod.fst

instance (own ranges : List (String × String)) : DecidablePred (IsDeclared own ranges) :=
  fun _ => inferInstanceAs (Decidable (_ ∨ _))

namespace Bundle

variable (b : Bundle) (v : View)

/-- The ranges of capabilities the skills require. -/
def skillsCapabilities : List (String × String) := b.skills.flatMap (·.requires.capabilities)

/-- The ranges of skills the skills require. -/
def skillsSkills : List (String × String) := b.skills.flatMap (·.requires.skills)

/-- All ranges of capabilities. -/
def capabilityRanges : List (String × String) :=
  b.manifest.requires.capabilities ++ b.skillsCapabilities

/-- All ranges of skills. -/
def skillRanges : List (String × String) := b.manifest.requires.skills ++ b.skillsSkills

/-- What `validateDependencies` is to establish. -/
structure Complete : Prop where
  capabilities : ∀ e ∈ b.capabilityRanges, Met b.ownCapabilities v.capabilityVersion e
  skills : ∀ e ∈ b.skillRanges, Met b.ownSkills v.skillVersion e
  usedCapabilities : ∀ w ∈ b.workflows, ∀ id ∈ usedCapabilities w.2,
    IsDeclared b.ownCapabilities b.capabilityRanges id
  usedSkills : ∀ w ∈ b.workflows, ∀ id ∈ usedSkills w.2, IsDeclared b.ownSkills b.skillRanges id
  permissions : ∀ w ∈ b.workflows, ∀ c, Reaches (b.workflowOf v) w.2 c →
    ∀ permission ∈ b.permissionsOf v c,
      b.manifest.permissions.any (fun held => covers held permission) = true

end Bundle

/-- A range of a skill that the merge may pass over: its id has another range as well, or names a
property every object has. -/
def Overlooked (manifest skills : List (String × String)) (e : String × String) : Prop :=
  e ∈ skills ∧ ((∃ range, range ≠ e.2 ∧ (e.1, range) ∈ manifest ++ skills) ∨ e.1 ∈ objectPrototype)

/-- The ranges and ids that may be passed over are met and declared as they are. -/
structure Bundle.NothingOverlooked (b : Bundle) (v : View) : Prop where
  capabilities : ∀ e, Overlooked b.manifest.requires.capabilities b.skillsCapabilities e →
    Met b.ownCapabilities v.capabilityVersion e
  skills : ∀ e, Overlooked b.manifest.requires.skills b.skillsSkills e →
    Met b.ownSkills v.skillVersion e
  usedCapabilities : ∀ w ∈ b.workflows, ∀ id ∈ usedCapabilities w.2, id ∈ objectPrototype →
    IsDeclared b.ownCapabilities b.capabilityRanges id
  usedSkills : ∀ w ∈ b.workflows, ∀ id ∈ usedSkills w.2, id ∈ objectPrototype →
    IsDeclared b.ownSkills b.skillRanges id

section Merge

variable {required ranges manifest skills own : List (String × String)} {e : String × String}
  {registered : String → Option String}

theorem require_cons : require required (e :: ranges) =
    require (if e.1 ∈ required.map Prod.fst ∨ e.1 ∈ objectPrototype then required
      else required ++ [e]) ranges := rfl

theorem foldl_require {α : Type} (f : α → List (String × String)) (l : List α) :
    l.foldl (fun r a => require r (f a)) required = require required (l.flatMap f) := by
  simp only [require, foldl_flatMap]

theorem subset_require : required ⊆ require required ranges := by
  induction ranges generalizing required with
  | nil => exact List.Subset.refl _
  | cons e ranges ih =>
    rw [require_cons]
    split_ifs
    · exact ih
    · exact List.Subset.trans (subset_append_left _ _) ih

theorem require_subset : require required ranges ⊆ required ++ ranges := by
  induction ranges generalizing required with
  | nil => exact subset_append_left _ _
  | cons e ranges ih =>
    rw [require_cons]
    split_ifs
    · refine List.Subset.trans ih fun x hx => ?_
      rw [List.mem_append, mem_cons]
      exact (List.mem_append.1 hx).imp_right .inr
    · refine List.Subset.trans ih fun x hx => ?_
      rwa [append_assoc] at hx

theorem exists_mem_require (he : e ∈ ranges) (hp : e.1 ∉ objectPrototype) :
    ∃ range, (e.1, range) ∈ require required ranges := by
  induction ranges generalizing required with
  | nil => cases he
  | cons x ranges ih =>
    rw [require_cons]
    rcases mem_cons.1 he with rfl | he
    · split_ifs with hx
      · obtain ⟨r, hr, hid⟩ := mem_map.1 (hx.resolve_right hp)
        exact ⟨r.2, subset_require (by rw [← hid]; exact hr)⟩
      · exact ⟨e.2, subset_require (mem_append_right _ (mem_singleton.2 rfl))⟩
    · exact ih he

/-- The requirements are met just where the overlooked ones are. -/
theorem met_iff (h : ∀ e ∈ require manifest skills, Met own registered e) :
    (∀ e ∈ manifest ++ skills, Met own registered e) ↔
      ∀ e, Overlooked manifest skills e → Met own registered e := by
  constructor
  · exact fun hall e he => hall e (mem_append_right _ he.1)
  · intro hover e he
    rcases List.mem_append.1 he with hm | hs
    · exact h e (subset_require hm)
    · by_cases ho : Overlooked manifest skills e
      · exact hover e ho
      · -- The id has no other range, so this one is merged.
        have hnot := not_or.1 (not_and.1 ho hs)
        obtain ⟨range, hrange⟩ : ∃ range, (e.1, range) ∈ require manifest skills :=
          exists_mem_require hs hnot.2
        have heq : range = e.2 := by
          by_contra hne
          exact hnot.1 ⟨range, hne, require_subset hrange⟩
        rw [heq] at hrange
        exact h e hrange

/-- Where the code finds the ids declared, they are if those named like members of the prototype
are. -/
theorem declared_iff {ids : List String}
    (h : ∀ id ∈ ids, (Assoc.get? own id).isSome = true ∨
      Bundle.isDeclared (require manifest skills) id = true) :
    (∀ id ∈ ids, IsDeclared own (manifest ++ skills) id) ↔
      ∀ id ∈ ids, id ∈ objectPrototype → IsDeclared own (manifest ++ skills) id := by
  refine forall₂_congr fun id hid => ⟨fun hd _ => hd, fun hproto => ?_⟩
  rcases h id hid with hown | hd
  · exact .inl hown
  · simp only [Bundle.isDeclared, Bool.or_eq_true, decide_eq_true_eq] at hd
    rcases hd with hr | hp
    · exact .inr (map_subset _ require_subset hr)
    · exact hproto hp

end Merge

theorem capabilityClosure_complete {known : List String} {workflowOf : String → Option Uses}
    (hknown : ∀ id w, workflowOf id = some w → id ∈ known) {w : Uses} {c : String}
    (h : Reaches workflowOf w c) : c ∈ capabilityClosure known workflowOf w := by
  rw [mem_capabilityClosure hknown]
  induction h with
  | uses hc => exact .inl hc
  | @through w w' skill c hs hw _ ih =>
    refine .inr ?_
    rcases ih with hc | ⟨id, ⟨root, hroot, hpath⟩, hid⟩
    · exact ⟨skill, ⟨skill, hs, .refl⟩, w', hw, hc⟩
    · exact ⟨id, ⟨skill, hs, .head ⟨w', hw, hroot⟩ hpath⟩, hid⟩

section Complete

variable {b : Bundle} {v : View}

theorem requiredCapabilities_eq :
    b.requiredCapabilities = require b.manifest.requires.capabilities b.skillsCapabilities :=
  foldl_require _ _

theorem requiredSkills_eq :
    b.requiredSkills = require b.manifest.requires.skills b.skillsSkills :=
  foldl_require _ _

theorem workflowErrors_eq_nil : b.workflowErrors = [] ↔ ∀ w ∈ b.workflows,
    (∀ id ∈ usedCapabilities w.2, (Assoc.get? b.ownCapabilities id).isSome = true ∨
      Bundle.isDeclared b.requiredCapabilities id = true) ∧
    ∀ id ∈ usedSkills w.2, (Assoc.get? b.ownSkills id).isSome = true ∨
      Bundle.isDeclared b.requiredSkills id = true := by
  have hnone : ∀ own required (id : String),
      ((Assoc.get? own id).isNone && !Bundle.isDeclared required id) = true ↔
        ¬((Assoc.get? (V := String) own id).isSome = true ∨
          Bundle.isDeclared required id = true) := by
    intro own required id
    cases Assoc.get? own id <;> simp
  rw [Bundle.workflowErrors, flatMap_eq_nil_iff]
  refine forall₂_congr fun w _ => ?_
  simp only [append_eq_nil_iff, map_eq_nil_iff, filter_eq_nil_iff, hnone, not_not]

theorem covered_of_reaches (h : b.permissionErrors v = []) {w : String × Uses}
    (hw : w ∈ b.workflows) {c : String} (hc : Reaches (b.workflowOf v) w.2 c) :
    ∀ permission ∈ b.permissionsOf v c,
      b.manifest.permissions.any (fun held => covers held permission) = true := by
  refine permissionErrors_eq_nil.1 h c (mem_eraseDups.2 (mem_append_right _ ?_))
  exact mem_flatMap.2
    ⟨w, hw, capabilityClosure_complete (fun _ _ => mem_known_of_workflowOf) hc⟩

/-- A package without errors is complete exactly where nothing is overlooked. -/
theorem complete_iff (h : b.validateDependencies v = []) :
    b.Complete v ↔ b.NothingOverlooked v := by
  obtain ⟨-, hreq, -, hflow, hperm⟩ := validateDependencies_eq_nil.1 h
  obtain ⟨hcaps, hskills⟩ := requirementErrors_eq_nil.1 hreq
  have hflow := workflowErrors_eq_nil.1 hflow
  rw [requiredCapabilities_eq, requiredSkills_eq] at hflow
  rw [requiredCapabilities_eq] at hcaps
  rw [requiredSkills_eq] at hskills
  constructor
  · intro hc
    exact ⟨(met_iff hcaps).1 hc.capabilities, (met_iff hskills).1 hc.skills,
      fun w hw => (declared_iff (hflow w hw).1).1 (hc.usedCapabilities w hw),
      fun w hw => (declared_iff (hflow w hw).2).1 (hc.usedSkills w hw)⟩
  · intro hn
    exact ⟨(met_iff hcaps).2 hn.capabilities, (met_iff hskills).2 hn.skills,
      fun w hw => (declared_iff (hflow w hw).1).2 (hn.usedCapabilities w hw),
      fun w hw => (declared_iff (hflow w hw).2).2 (hn.usedSkills w hw),
      fun w hw _ => covered_of_reaches hperm hw⟩

end Complete

/-- A package that requires any version of a capability, and has a skill that requires a range. -/
def sampleReport (range : String) : Bundle where
  manifest :=
    { id := "com.example.report", version := "1.0.0",
      requires := { capabilities := [("notes.list", "*")] }, exports := { skills := ["report"] } }
  skills := [{ id := "report", version := "1.0.0",
               requires := { capabilities := [("notes.list", range)] },
               workflow := some ["capability:notes.list"] }]
  id_valid := by decide +kernel
  capabilities_exported := rfl
  skills_exported := rfl
  automations_exported := rfl
  capabilities_nodup := by exact List.nodup_nil
  skills_nodup := by simp
  automations_nodup := by exact List.nodup_nil

/-- One version of the capability is registered. -/
def sampleView : View where
  contract id := if id = "notes.list" then some ⟨id, "1.4.2", [], .core⟩ else none
  skill _ := none
  automation _ := none
  skillIds := []
  mem_skillIds := nofun

theorem sample_complete : (sampleReport "^1.0").Complete sampleView := by
  have hmet : Met [] sampleView.capabilityVersion ("notes.list", "^1.0") :=
    ⟨"1.4.2", rfl, by decide +kernel⟩
  refine (complete_iff (by decide +kernel)).2 ⟨?_, ?_, ?_, ?_⟩
  · rintro e ⟨he, -⟩
    obtain rfl : e = ("notes.list", "^1.0") := mem_singleton.1 he
    exact hmet
  · rintro e ⟨he, -⟩
    cases he
  · decide +kernel
  · decide +kernel

/-- The range of the manifest hides the one of the skill. -/
theorem hidden_range_unmet : ¬ ∀ (b : Bundle) (v : View), b.validateDependencies v = [] →
    b.Complete v := by
  intro h
  have hno : (sampleReport "^2.0").validateDependencies sampleView = [] := by decide +kernel
  obtain ⟨version, hversion, hsat⟩ := (h _ _ hno).capabilities ("notes.list", "^2.0")
    (by decide +kernel)
  obtain rfl : "1.4.2" = version := Option.some.inj hversion
  exact absurd hsat (by decide +kernel)

end U2os.Server.Packages
