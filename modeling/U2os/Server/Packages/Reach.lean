import U2os.Server.Packages.Registries

/-!
# What packages get of others

A package declares the permissions of what it uses, also through the skills of other packages, and
this is checked when it is installed.  A later version of another package may ask for more, or lead
to capabilities that do.  `Permits` says of a version that it does not.

## Main results

* `permissionErrors_register` : what a version permits stays permitted where it is registered.
* `permits_of_registered` : a version that is registered permits what is there.
-/

namespace U2os.Server.Packages

open List Option

/-- The package declares the permissions. -/
def Bundle.CoversAll (b : Bundle) (permissions : List String) : Prop :=
  ∀ permission ∈ permissions, b.manifest.permissions.any (fun held => covers held permission) = true

/-- The package `q` declares the permissions of what it gets of a version: of the capabilities that
it uses, and of those to which the skills lead that it uses. -/
structure Permits (r : Registries) (n q : Bundle) : Prop where
  contracts : ∀ c ∈ n.capabilities, c.implements = none →
    c.id ∈ q.used (r.unregisterPackage n.id).view → q.CoversAll c.requiredPermissions
  skills : ∀ s ∈ n.skills, s.id ∈ q.reached (r.unregisterPackage n.id).view →
    ∀ w ∈ s.workflow, ∀ id ∈ n.closure (r.unregisterPackage n.id).view w,
      q.CoversAll (n.permissionsOf (r.unregisterPackage n.id).view id)

instance (b : Bundle) : DecidablePred b.CoversAll := fun _ => List.decidableBAll ..

instance (r : Registries) (n q : Bundle) : Decidable (Permits r n q) :=
  decidable_of_iff
    ((∀ c ∈ n.capabilities, c.implements = none →
        c.id ∈ q.used (r.unregisterPackage n.id).view → q.CoversAll c.requiredPermissions) ∧
      ∀ s ∈ n.skills, s.id ∈ q.reached (r.unregisterPackage n.id).view →
        ∀ w ∈ s.workflow, ∀ id ∈ n.closure (r.unregisterPackage n.id).view w,
          q.CoversAll (n.permissionsOf (r.unregisterPackage n.id).view id))
    ⟨fun h => ⟨h.1, h.2⟩, fun h => ⟨h.contracts, h.skills⟩⟩

/-! ### What registered packages have in common -/

section Registered

variable {core : Core} {r r' : Registries} {n q o : Bundle} {id : String} {w : Uses}

theorem contract?_of_mem {c : CapabilityDefinition} (hc : c ∈ n.capabilities)
    (hi : c.implements = none) : n.contract? c.id = some (n.contract c) := by
  rw [Bundle.contract?]
  cases hfind : n.capabilities.find? fun c' => c'.id = c.id ∧ c'.implements = none with
  | none => exact absurd (find?_eq_none.1 hfind c hc) (by simp [hi])
  | some c' =>
    have hid : c'.id = c.id := by
      have hfound := find?_some hfind
      simp only [decide_eq_true_eq] at hfound
      exact hfound.1
    rw [inj_on_of_nodup_map n.capabilities_nodup (mem_of_find?_eq_some hfind) hc hid]
    rfl

theorem skill?_of_mem {s : SkillDefinition} (hs : s ∈ n.skills) :
    n.skill? s.id = some ⟨n.id, s⟩ := by
  rw [Bundle.skill?]
  cases hfind : n.skills.find? fun s' => s'.id = s.id with
  | none => exact absurd (find?_eq_none.1 hfind s hs) (by simp)
  | some s' =>
    have hid : s'.id = s.id := by simpa using find?_some hfind
    rw [inj_on_of_nodup_map n.skills_nodup (mem_of_find?_eq_some hfind) hs hid]
    rfl

/-- A skill is the same for every registered package. -/
theorem workflowOf_of_registered (h : Assembled core r) (hq : q ∈ r.bundles) :
    q.workflowOf r.view id = (r.view.skill id).bind (·.definition.workflow) := by
  rw [Bundle.workflowOf]
  cases hfind : q.skills.find? fun s => s.id = id with
  | none => rfl
  | some s =>
    have hown : q.skill? id = some ⟨q.id, s⟩ := by rw [Bundle.skill?, hfind]; rfl
    rw [(h.skill id _).2 ⟨q, hq, hown⟩]
    rfl

/-- A capability is the same for every registered package. -/
theorem permissionsOf_of_registered (h : Assembled core r) (hq : q ∈ r.bundles) :
    q.permissionsOf r.view id = ((r.view.contract id).map (·.requiredPermissions)).getD [] := by
  rw [Bundle.permissionsOf]
  cases hfind : q.capabilities.find? fun c => c.id = id ∧ c.implements = none with
  | none => rfl
  | some c =>
    have hown : q.contract? id = some (q.contract c) := by rw [Bundle.contract?, hfind]; rfl
    rw [(h.contract id _).2 (.inr ⟨q, hq, hown⟩)]
    rfl

theorem sub_unregisterPackage (h : Assembled core r) (p : String) :
    (r.unregisterPackage p).view.Sub r.view where
  contract id c hc := by
    have hfilter : Assoc.get? (r.capabilities.contracts.filter _) id = some c := hc
    rw [Assoc.get?_filter h.contracts_nodup] at hfilter
    exact (filter_eq_some_iff.1 hfilter).1
  skill id s hs := by
    have hfilter : Assoc.get? (r.skills.filter _) id = some s := hs
    rw [Assoc.get?_filter h.skills_nodup] at hfilter
    exact (filter_eq_some_iff.1 hfilter).1

/-- What is registered with a package is what was registered without it, and what it has. -/
structure With (n : Bundle) (v v' : View) : Prop where
  contract : ∀ id c, v'.contract id = some c ↔ v.contract id = some c ∨ n.contract? id = some c
  skill : ∀ id s, v'.skill id = some s ↔ v.skill id = some s ∨ n.skill? id = some s

theorem with_registerBundle (h : Assembled core r) (hr : r.registerBundle n = .ok r') :
    With n (r.unregisterPackage n.id).view r'.view := by
  obtain ⟨h', hbundles, -⟩ := registerBundle_eq_ok h hr
  have h₀ := h.unregisterPackage n.id
  have hmem : ∀ p : Bundle → Prop, (∃ b ∈ r'.bundles, p b) ↔
      (∃ b ∈ (r.unregisterPackage n.id).bundles, p b) ∨ p n := fun p => by
    rw [hbundles, bundles_unregisterPackage h]
    simp [or_and_right, exists_or]
  exact ⟨fun id c => (h'.contract id c).trans (by rw [h₀.contract, hmem]; exact or_assoc.symm),
    fun id s => by rw [h'.skill, h₀.skill, hmem]⟩

/-- With one package more, nothing that was there is missing. -/
theorem With.sub {v v' : View} (h : With n v v') : v.Sub v' :=
  ⟨fun id c hc => (h.contract id c).2 (.inl hc), fun id s hs => (h.skill id s).2 (.inl hs)⟩

/-- A package finds its own skills, registered or not. -/
theorem With.workflowOf {v v' : View} (h : With n v v') : n.workflowOf v' id = n.workflowOf v id := by
  rw [Bundle.workflowOf, Bundle.workflowOf]
  cases hfind : n.skills.find? fun s => s.id = id with
  | some s => rfl
  | none =>
    have hown : n.skill? id = none := by rw [Bundle.skill?, hfind]; rfl
    have hskill : v'.skill id = v.skill id := Option.ext fun s => by simp [h.skill, hown]
    dsimp only
    rw [hskill]

/-- What a package needs permission for does not change when it is registered itself. -/
theorem With.permissionsOf {v v' : View} (h : With n v v') :
    n.permissionsOf v' id = n.permissionsOf v id := by
  rw [Bundle.permissionsOf, Bundle.permissionsOf]
  cases hfind : n.capabilities.find? fun c => c.id = id ∧ c.implements = none with
  | some c => rfl
  | none =>
    have hown : n.contract? id = none := by rw [Bundle.contract?, hfind]; rfl
    have hcontract : v'.contract id = v.contract id := Option.ext fun c => by simp [h.contract, hown]
    dsimp only
    rw [hcontract]

/-! ### What is permitted -/

/-- What a workflow leads to where a version is registered, it leads to without it, or a skill of the
version that it reaches does. -/
theorem closure_with (h : Assembled core r) (hr : r.registerBundle n = .ok r') (hq : q ∈ r.bundles)
    (hne : q.id ≠ n.id) (hid : id ∈ q.closure r'.view w) :
    id ∈ q.closure (r.unregisterPackage n.id).view w ∨ ∃ s ∈ n.skills,
      Search.Reached (q.workflowOf (r.unregisterPackage n.id).view) usedSkills (usedSkills w) s.id ∧
        ∃ w' ∈ s.workflow, id ∈ n.closure (r.unregisterPackage n.id).view w' := by
  have hwith := with_registerBundle h hr
  have h₀ := h.unregisterPackage n.id
  obtain ⟨h', hbundles, -⟩ := registerBundle_eq_ok h hr
  have hq₀ : q ∈ (r.unregisterPackage n.id).bundles := by
    simpa [bundles_unregisterPackage h, hq] using hne
  have hq' : q ∈ r'.bundles := by simp [hbundles, hq, hne]
  have hn' : n ∈ r'.bundles := by simp [hbundles]
  set v := (r.unregisterPackage n.id).view
  have hsame : q.workflowOf r'.view = n.workflowOf v := funext fun i => by
    rw [workflowOf_of_registered h' hq', ← hwith.workflowOf, workflowOf_of_registered h' hn']
  -- A skill that has no workflow without the version is one of the version.
  have hnew : ∀ i b, q.workflowOf v i = none → q.workflowOf r'.view i = some b →
      ∃ s ∈ n.skills, s.id = i ∧ s.workflow = some b := by
    intro i b hnone hb
    rw [workflowOf_of_registered h' hq'] at hb
    obtain ⟨s, hs, hb⟩ := bind_eq_some_iff.1 hb
    rcases (hwith.skill i s).1 hs with hs | hs
    · rw [workflowOf_of_registered h₀ hq₀, show v.skill i = some s from hs, bind_some, hb] at hnone
      cases hnone
    · obtain ⟨d, hd, rfl⟩ := map_eq_some_iff.1 hs
      exact ⟨d, mem_of_find?_eq_some hd, by simpa using find?_some hd, hb⟩
  rw [Bundle.closure, mem_capabilityClosure fun _ _ => mem_known_of_workflowOf] at hid
  rcases hid with huses | ⟨j, hreach, b, hb, hc⟩
  · exact .inl ((mem_capabilityClosure fun _ _ => mem_known_of_workflowOf).2 (.inl huses))
  · rcases hreach.extend (fun i b => workflowOf_of_sub hwith.sub) with
      hold | ⟨i, b', hold, hnone, hb', hj⟩
    · cases hj : q.workflowOf v j with
      | some b' =>
        obtain rfl : b' = b :=
          Option.some.inj ((workflowOf_of_sub hwith.sub hj).symm.trans hb)
        exact .inl ((mem_capabilityClosure fun _ _ => mem_known_of_workflowOf).2
          (.inr ⟨j, hold, b', hj, hc⟩))
      | none =>
        obtain ⟨s, hs, rfl, hw⟩ := hnew j b hj hb
        exact .inr ⟨s, hs, hold, b, hw,
          (mem_capabilityClosure fun _ _ => mem_known_of_workflowOf).2 (.inl hc)⟩
    · obtain ⟨s, hs, rfl, hw⟩ := hnew i b' hnone hb'
      rw [hsame] at hj hb
      exact .inr ⟨s, hs, hold, b', hw,
        (mem_capabilityClosure fun _ _ => mem_known_of_workflowOf).2 (.inr ⟨j, hj, b, hb, hc⟩)⟩

/-- What a version permits stays permitted where it is registered. -/
theorem permissionErrors_register (h : Assembled core r) (hr : r.registerBundle n = .ok r')
    (hq : q ∈ r.bundles) (hne : q.id ≠ n.id) (hvalid : q.permissionErrors r.view = [])
    (hp : Permits r n q) : q.permissionErrors r'.view = [] := by
  have hwith := with_registerBundle h hr
  have h₀ := h.unregisterPackage n.id
  obtain ⟨h', hbundles, -⟩ := registerBundle_eq_ok h hr
  have hq₀ : q ∈ (r.unregisterPackage n.id).bundles := by
    simpa [bundles_unregisterPackage h, hq] using hne
  have hq' : q ∈ r'.bundles := by simp [hbundles, hq, hne]
  have hn' : n ∈ r'.bundles := by simp [hbundles]
  have hvalid₀ := permissionErrors_eq_nil.1
    (permissionErrors_of_sub (sub_unregisterPackage h n.id) hvalid)
  -- What is used without the version: the contract is the one before, or one of the version.
  have hused : ∀ id ∈ q.used (r.unregisterPackage n.id).view,
      q.CoversAll (q.permissionsOf r'.view id) := by
    intro id hid p hmem
    rw [permissionsOf_of_registered h' hq'] at hmem
    cases hc : r'.view.contract id with
    | none => rw [hc] at hmem; cases hmem
    | some c =>
      rw [hc] at hmem
      rcases (hwith.contract id c).1 hc with hc | hc
      · refine hvalid₀ id hid p ?_
        rw [permissionsOf_of_registered h₀ hq₀, hc]
        exact hmem
      · obtain ⟨d, hd, rfl⟩ := map_eq_some_iff.1 hc
        have hfound := find?_some hd
        simp only [decide_eq_true_eq] at hfound
        obtain ⟨rfl, himpl⟩ := hfound
        exact hp.contracts d (mem_of_find?_eq_some hd) himpl hid p hmem
  refine permissionErrors_eq_nil.2 fun id hid => ?_
  rcases mem_used.1 hid with hreq | ⟨w, hw, hc⟩
  · exact hused id (mem_used.2 (.inl hreq))
  · rcases closure_with h hr hq hne hc with hc | ⟨s, hs, hreach, w', hw', hc⟩
    · exact hused id (mem_used.2 (.inr ⟨w, hw, hc⟩))
    · have hcovers := hp.skills s hs (mem_reached.2 ⟨w, hw, hreach⟩) w' hw' id hc
      rwa [← hwith.permissionsOf, permissionsOf_of_registered h' hn',
        ← permissionsOf_of_registered h' hq'] at hcovers

/-- A version that passes the check passes it where it is registered. -/
theorem permissionErrors_registered (h : Assembled core r) (hr : r.registerBundle n = .ok r')
    (hvalid : n.permissionErrors r.view = []) : n.permissionErrors r'.view = [] := by
  have hwith := with_registerBundle h hr
  exact permissionErrors_mono (fun id w hw => hwith.workflowOf.symm.trans hw)
    (fun id p hp => hwith.permissionsOf ▸ hp)
    (permissionErrors_of_sub (sub_unregisterPackage h n.id) hvalid)

/-- A version that is registered permits what is there. -/
theorem permits_of_registered (h : Assembled core r) (ho : o ∈ r.bundles) (hq : q ∈ r.bundles)
    (hvalid : q.permissionErrors r.view = []) : Permits r o q := by
  have hsub := sub_unregisterPackage h o.id
  rw [permissionErrors_eq_nil] at hvalid
  constructor
  · intro c hc himpl hid p hp
    refine hvalid c.id (used_subset (fun _ _ => workflowOf_of_sub hsub) _ hid) p ?_
    rw [permissionsOf_of_registered h hq,
      (h.contract c.id _).2 (.inr ⟨o, ho, contract?_of_mem hc himpl⟩)]
    exact hp
  · intro s hs hid w hw id hc p hp
    have hworkflow : q.workflowOf r.view s.id = some w := by
      rw [workflowOf_of_registered h hq, (h.skill s.id _).2 ⟨o, ho, skill?_of_mem hs⟩]
      exact hw
    have hsame : ∀ i b, o.workflowOf (r.unregisterPackage o.id).view i = some b →
        q.workflowOf r.view i = some b := fun i b hb => by
      rw [workflowOf_of_registered h hq, ← workflowOf_of_registered h ho]
      exact workflowOf_of_sub hsub hb
    have hclosure : id ∈ q.closure r.view w := capabilityClosure_subset
      (fun _ _ => mem_known_of_workflowOf) (fun _ _ => mem_known_of_workflowOf) hsame _ hc
    obtain ⟨w₀, hw₀, hreach⟩ := mem_reached.1 hid
    have hreach := hreach.mono fun _ _ => workflowOf_of_sub hsub
    refine hvalid id (mem_used.2 (.inr ⟨w₀, hw₀, closure_of_reached hreach hworkflow hclosure⟩)) p ?_
    rw [permissionsOf_of_registered h hq, ← permissionsOf_of_registered h ho]
    exact permissionsOf_subset hsub id p hp

end Registered

end U2os.Server.Packages
