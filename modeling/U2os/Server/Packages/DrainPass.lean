import Mathlib.Data.String.Basic
import U2os.Server.Packages.AutomationPause

/-!
# What a pass leaves behind

A pass of `drain` returns when a page holds no run that may execute.  A page holds the 25 oldest
pending runs, whatever automations they belong to, and is filtered afterwards: where the 25 oldest
are all refused, the pass returns although younger runs may execute.

A pass leaves no work behind exactly if, when it reads its last page, fewer than 25 refused runs
are older than each run that may execute.  As long as no run becomes pending and no automation is
paused or resumed, it is enough that this is so when the pass begins.
-/

namespace U2os.Server.Packages

open List WorkflowRun

namespace RuntimeState

variable (s : RuntimeState)

/-- Every run that is pending is one that `_mayExecute` refuses. -/
def LeavesRefused : Prop := ∀ r ∈ pendingRuns s.engine.runs, s.mayExecute r = false

/-- The refused pending runs that are older than a run. -/
def refusedBefore (run : WorkflowRun) : List WorkflowRun :=
  (pendingRuns s.engine.runs).filter fun r => r.older run && !s.mayExecute r

/-- Fewer than 25 refused pending runs are older than each pending run that may execute. -/
def Uncrowded : Prop :=
  ∀ r ∈ pendingRuns s.engine.runs, s.mayExecute r = true → (s.refusedBefore r).length < pageSize

/-- No run becomes pending in the step. -/
def addsNoPending (R : Runtime) (l : RuntimeLabel) : Bool :=
  (performRuntime R s l).all fun t =>
    (pendingRuns t.engine.runs).all fun r' => (pendingRuns s.engine.runs).any fun r => r.id = r'.id

end RuntimeState

instance : Std.Total older where
  total a b := by
    unfold older
    rcases lt_trichotomy a.createdAt b.createdAt with h | h | h
    · exact .inl (.inl h)
    · rcases le_total a.id b.id with hid | hid
      · exact .inl (.inr ⟨h, not_lt_of_ge hid⟩)
      · exact .inr (.inr ⟨h.symm, not_lt_of_ge hid⟩)
    · exact .inr (.inl h)

instance : IsTrans WorkflowRun older where
  trans a b c := by
    unfold older
    rintro (h | ⟨h, hid⟩) (h' | ⟨h', hid'⟩)
    · exact .inl (h.trans h')
    · exact .inl (h' ▸ h)
    · exact .inl (h ▸ h')
    · exact .inr ⟨h.trans h', not_lt_of_ge ((not_lt.1 hid).trans (not_lt.1 hid'))⟩

section Pages

variable {s t : RuntimeState} {r : WorkflowRun} {runs : Runs}

theorem mem_pendingRuns : r ∈ pendingRuns runs ↔ r ∈ runs ∧ r.status = .pending := by
  rw [pendingRuns, mem_insertionSort, mem_filter, decide_eq_true_eq]
  rfl

theorem nodup_pendingRuns : ((pendingRuns runs).map WorkflowRun.id).Nodup := by
  have hperm := (perm_insertionSort older
    (runs.rows.filter fun (r : WorkflowRun) => r.status = .pending)).map WorkflowRun.id
  exact hperm.nodup_iff.2 (runs.nodup.sublist (filter_sublist.map _))

/-- A page with no run that may execute: nothing that may execute is left behind, if each such run
has fewer than a page of refused runs before it. -/
theorem leavesRefused_iff (h : s.runnable = []) : s.LeavesRefused ↔ s.Uncrowded := by
  constructor
  · intro hleaves r hr hmay
    rw [hleaves r hr] at hmay
    cases hmay
  · intro hun r hr
    rw [Bool.eq_false_iff]
    intro hmay
    have hrefused : ∀ x ∈ (pendingRuns s.engine.runs).take pageSize, s.mayExecute x = false := by
      intro x hx
      rw [Bool.eq_false_iff]
      exact filter_eq_nil_iff.1 h x hx
    -- the run is not in the page, so the page is full and lies before it
    have hsplit := take_append_drop pageSize (pendingRuns s.engine.runs)
    have hdrop : r ∈ (pendingRuns s.engine.runs).drop pageSize := by
      rw [← hsplit, mem_append] at hr
      refine hr.resolve_left fun hx => ?_
      rw [hrefused r hx] at hmay
      cases hmay
    have hsorted : (pendingRuns s.engine.runs).Pairwise older :=
      pairwise_insertionSort _ _
    rw [← hsplit, pairwise_append] at hsorted
    have hfull : ((pendingRuns s.engine.runs).take pageSize).length = pageSize := by
      rw [length_take, min_eq_left]
      have hlen := length_pos_of_mem hdrop
      rw [length_drop] at hlen
      omega
    have hsub : (pendingRuns s.engine.runs).take pageSize |>.Sublist (s.refusedBefore r) := by
      have hpage : ((pendingRuns s.engine.runs).take pageSize).filter
          (fun x => x.older r && !s.mayExecute x) = (pendingRuns s.engine.runs).take pageSize := by
        rw [filter_eq_self]
        intro x hx
        rw [decide_eq_true (hsorted.2.2 x hx r hdrop), hrefused x hx]
        rfl
      rw [← hpage]
      exact (take_sublist _ _).filter _
    have hle := hsub.length_le
    rw [hfull] at hle
    exact absurd (hun r (mem_of_mem_drop hdrop) hmay) (Nat.not_lt_of_le hle)

end Pages

/-- What is pending was pending. -/
def Thinned (s t : RuntimeState) : Prop :=
  ∀ r' ∈ pendingRuns t.engine.runs, ∃ r ∈ pendingRuns s.engine.runs, r.identity = r'.identity

section Passes

variable {R : Runtime} {instances : Instances} {s t u : RuntimeState}

theorem Thinned.refl (s : RuntimeState) : Thinned s s := fun r hr => ⟨r, hr, rfl⟩

/-- What a pass leaves out stays out. -/
theorem Thinned.trans (h : Thinned s t) (h' : Thinned t u) : Thinned s u := by
  intro r'' hr''
  obtain ⟨r', hr', hid'⟩ := h' r'' hr''
  obtain ⟨r, hr, hid⟩ := h r' hr'
  exact ⟨r, hr, hid.trans hid'⟩

theorem thinned_step {l : RuntimeLabel} (hs : s.Grounded) (hok : s.addsNoPending R l = true)
    (h : performRuntime R s l = some t) : Thinned s t := by
  rw [RuntimeState.addsNoPending, h, Option.all_some, all_eq_true] at hok
  intro r' hr'
  obtain ⟨r, hr, hid⟩ := any_eq_true.1 (hok r' hr')
  obtain ⟨r'', hr'', hid''⟩ :=
    (runtimeStep_of_perform hs.sane h).rows.goes r (mem_pendingRuns.1 hr).1
  have hsame : r''.id = r'.id := (congrArg RunIdentity.id hid'').trans (of_decide_eq_true hid)
  obtain rfl := t.engine.runs.eq_of_key hr'' (mem_pendingRuns.1 hr').1 hsame
  exact ⟨r, hr, hid''.symm⟩

theorem older_congr {a a' b b' : WorkflowRun} (ha : a.identity = a'.identity)
    (hb : b.identity = b'.identity) (h : a'.older b') : a.older b := by
  have h₁ : a.createdAt = a'.createdAt := congrArg RunIdentity.createdAt ha
  have h₂ : b.createdAt = b'.createdAt := congrArg RunIdentity.createdAt hb
  have h₃ : a.id = a'.id := congrArg RunIdentity.id ha
  have h₄ : b.id = b'.id := congrArg RunIdentity.id hb
  rw [older, h₁, h₂, h₃, h₄]
  exact h

theorem Thinned.uncrowded (h : Thinned s t)
    (hmay : ∀ r ∈ pendingRuns s.engine.runs, ∀ r' ∈ pendingRuns t.engine.runs,
      r.identity = r'.identity → s.mayExecute r = t.mayExecute r')
    (hun : s.Uncrowded) : t.Uncrowded := by
  intro r' hr' hmay'
  obtain ⟨r, hr, hid⟩ := h r' hr'
  have hlt := hun r hr ((hmay r hr r' hr' hid).trans hmay')
  have hnodup : ((t.refusedBefore r').map WorkflowRun.id).Nodup :=
    nodup_pendingRuns.sublist (filter_sublist.map _)
  have hsub : (t.refusedBefore r').map WorkflowRun.id ⊆
      (s.refusedBefore r).map WorkflowRun.id := by
    intro i hi
    obtain ⟨x', hx', rfl⟩ := mem_map.1 hi
    obtain ⟨hx', hbefore⟩ := mem_filter.1 hx'
    rw [Bool.and_eq_true, decide_eq_true_eq] at hbefore
    obtain ⟨x, hx, hxid⟩ := h x' hx'
    refine mem_map.2 ⟨x, mem_filter.2 ⟨hx, ?_⟩, congrArg RunIdentity.id hxid⟩
    rw [decide_eq_true (older_congr hxid hid hbefore.1), hmay x hx x' hx' hxid]
    exact hbefore.2
  have hle := (hnodup.subperm hsub).length_le
  rw [length_map, length_map] at hle
  exact hle.trans_lt hlt

theorem mayExecute_congr (hs : s.Grounded) (ht : t.Grounded)
    (hnames : names t.engine.instances = names s.engine.instances)
    (hpaused : ∀ i, (t.switches i).paused = (s.switches i).paused) {r r' : WorkflowRun}
    (hr : r ∈ s.engine.runs) (hr' : r' ∈ t.engine.runs) (hid : r.identity = r'.identity) :
    s.mayExecute r = t.mayExecute r' := by
  have hinst : r.instanceId = r'.instanceId := congrArg RunIdentity.instanceId hid
  have hsame : s.instancePaused = t.instancePaused := by
    funext i
    rw [instancePaused_eq, instancePaused_eq, isSome_find_congr hnames, hpaused]
  rw [mayExecute_eq hs.roots hr, mayExecute_eq ht.roots hr', hinst, hsame]

/-- A pass that returns, although it is not stopped and has not read its last page, has read a page
with no run that may execute. -/
theorem runnable_of_returns {p fid : ℕ} {owner : String} {now : Int}
    (h : performRuntime R t (.turnPage p fid owner now) = some u) (hover : u.passes[p]? = some none)
    (hrunning : t.stopped = false)
    (hguard : ∀ pass, t.passes[p]? = some (some pass) → pass.guard < maxPages) :
    t.runnable = [] ∧ u = t.setPass p none := by
  obtain ⟨pass, hpass, h⟩ := Option.bind_eq_some_iff.1 h
  rw [Option.join_eq_some_iff] at hpass
  rw [Option.ite_none_right_eq_some] at h
  obtain ⟨_, h⟩ := h
  have hgo : ¬(maxPages ≤ pass.guard ∨ t.stopped = true) := by
    rintro (hmax | hstop)
    · exact absurd (hguard pass hpass) (Nat.not_lt_of_le hmax)
    · rw [hrunning] at hstop
      cases hstop
  rw [RuntimeState.turnPage, if_neg hgo] at h
  split at h
  · rename_i hnone
    cases h
    exact ⟨hnone, rfl⟩
  · obtain ⟨engine, _, rfl⟩ := Option.map_eq_some_iff.1 h
    dsimp only [RuntimeState.setPass] at hover
    rw [getElem?_set_self', hpass] at hover
    cases hover

end Passes

/-- A pass that returns leaves behind only runs that `_mayExecute` refuses if, and only if, fewer
than 25 refused runs are older than each run that may execute; and if this is so when the pass
begins, no run becomes pending and the same automations are paused at its end, it is so then. -/
theorem drainPass_leaves_refused {R : Runtime} {instances : Instances} {h ls : List RuntimeLabel}
    {s t u : RuntimeState} {p fid : ℕ} {owner : String} {now : Int}
    (hr : (runtimeMachine R instances).Run h s)
    (hs : ((runtimeMachine R instances).restrict fun s l _ => s.addsNoPending R l = true).Steps
      s ls t)
    (hret : performRuntime R t (.turnPage p fid owner now) = some u)
    (hover : u.passes[p]? = some none) (hrunning : t.stopped = false)
    (hguard : ∀ pass, t.passes[p]? = some (some pass) → pass.guard < maxPages) :
    (u.LeavesRefused ↔ u.Uncrowded) ∧
      ((∀ i, (u.switches i).paused = (s.switches i).paused) → s.Uncrowded → u.LeavesRefused) := by
  obtain ⟨hnone, rfl⟩ := runnable_of_returns hret hover hrunning hguard
  have hground := grounded_run hr
  -- along the pass the table stays in order and only loses pending runs
  obtain ⟨htground, hnames, hthin⟩ :
      t.Grounded ∧ names t.engine.instances = names s.engine.instances ∧ Thinned s t := by
    refine hs.invariant (I := fun t => t.Grounded ∧
      names t.engine.instances = names s.engine.instances ∧ Thinned s t)
      ⟨hground, rfl, .refl s⟩ ?_
    rintro v l w ⟨hv, hnames, hthin⟩ ⟨hstep, hok⟩
    exact ⟨grounded_step hv hstep, (runtimeStep_of_perform hv.sane hstep).names.trans hnames,
      hthin.trans (thinned_step hv hok hstep)⟩
  have hiff : t.LeavesRefused ↔ t.Uncrowded := leavesRefused_iff hnone
  refine ⟨hiff, fun hpaused hun => hiff.2 (hthin.uncrowded ?_ hun)⟩
  intro r hr r' hr' hid
  exact mayExecute_congr hground htground hnames hpaused (mem_pendingRuns.1 hr).1
    (mem_pendingRuns.1 hr').1 hid

/-- A home with two automations. -/
def busyRuntime : Runtime :=
  { homeRuntime with
    automations := [{ homeAutomation with concurrency := .parallel },
      { id := "home.backup", packageId := "home", triggers := [],
        workflow := .code "backup.js" }] }

/-- The instances of the home. -/
def busyInstances : Instances :=
  ⟨[{ id := "ain_1", automationId := "home.digest" },
    { id := "ain_2", automationId := "home.backup" }], by decide⟩

/-- Mail arrives `n` times, the owner asks for a backup and pauses the digest. -/
def busyTriggers (n : ℕ) : List RuntimeLabel :=
  .enable "home.digest" 0 ::
    (range n).map (fun i => .processEvent "home.digest"
      { type := "mail.received", id := "evt_" ++ toString i } (homeFiring i ("wfr_" ++ toString i))) ++
    [.runNow "home.backup" (.obj []) (homeFiring n "wfr_backup"), .pause "home.digest"]

/-- The first pass of a runtime, if it returns at the end of the labels: what is pending then, and
whether it may execute. -/
def firstPass (R : Runtime) (instances : Instances) (h ls : List RuntimeLabel) (fid : ℕ)
    (owner : String) (now : Int) : Option (List (String × Bool)) := do
  let s ← Machine.drive (performRuntime R) (fun _ _ => true) (runtimeMachine R instances).init h
  let t ← Machine.drive (performRuntime R) (RuntimeState.addsNoPending · R ·) s ls
  let u ← performRuntime R t (.turnPage 0 fid owner now)
  match t.passes[0]?.join with
  | some pass =>
    if t.stopped = false ∧ pass.guard < maxPages ∧ u.passes.map Option.isSome = [false] then
      some ((pendingRuns u.engine.runs).map fun r => (r.id, u.mayExecute r))
    else none
  | none => none

/-- A pass that is computed is a run of the machine. -/
theorem exists_of_firstPass {R : Runtime} {instances : Instances} {h ls : List RuntimeLabel}
    {fid : ℕ} {owner : String} {now : Int} {l : List (String × Bool)}
    (hf : firstPass R instances h ls fid owner now = some l) :
    ∃ s t u, (runtimeMachine R instances).Run h s ∧
      ((runtimeMachine R instances).restrict fun s l _ => s.addsNoPending R l = true).Steps
        s ls t ∧
      performRuntime R t (.turnPage 0 fid owner now) = some u ∧ u.passes[0]? = some none ∧
      t.stopped = false ∧
      (∀ pass, t.passes[0]? = some (some pass) → pass.guard < maxPages) ∧
      (pendingRuns u.engine.runs).map (fun r => (r.id, u.mayExecute r)) = l := by
  obtain ⟨s, hs, hf⟩ := Option.bind_eq_some_iff.1 hf
  obtain ⟨t, ht, hf⟩ := Option.bind_eq_some_iff.1 hf
  obtain ⟨u, hu, hf⟩ := Option.bind_eq_some_iff.1 hf
  refine ⟨s, t, u, Machine.run_drive hs, Machine.steps_drive (fun _ _ hok => hok) ht, hu, ?_⟩
  split at hf
  · rename_i pass hpass
    rw [Option.ite_none_right_eq_some] at hf
    obtain ⟨⟨hrunning, hguard, hover⟩, hf⟩ := hf
    rw [Option.join_eq_some_iff] at hpass
    refine ⟨?_, hrunning, fun pass' hpass' => ?_, Option.some.inj hf⟩
    · obtain ⟨x, hx, hnone⟩ := map_eq_singleton_iff.1 hover
      have hx' : x = none := Option.isNone_iff_eq_none.1 (Option.isSome_eq_false_iff.1 hnone)
      rw [hx, hx']
      rfl
    · cases hpass.symm.trans hpass'
      exact hguard
  · cases hf

/-- Twenty-five runs of the paused digest are older than the backup, which stays pending. -/
theorem busy_pass_leaves_backup : ∃ s t u,
    (runtimeMachine busyRuntime busyInstances).Run (busyTriggers 25) s ∧
      ((runtimeMachine busyRuntime busyInstances).restrict
        fun s l _ => s.addsNoPending busyRuntime l = true).Steps s [.begin] t ∧
      performRuntime busyRuntime t (.turnPage 0 0 "w" 26) = some u ∧
      u.passes[0]? = some none ∧ t.stopped = false ∧
      (∀ pass, t.passes[0]? = some (some pass) → pass.guard < maxPages) ∧ ¬u.LeavesRefused := by
  have hf : (firstPass busyRuntime busyInstances (busyTriggers 25) [.begin] 0 "w" 26).map
      (fun l => l.contains ("wfr_backup", true)) = some true := by decide +kernel
  obtain ⟨l, hl, hmem⟩ := Option.map_eq_some_iff.1 hf
  obtain ⟨s, t, u, hs, ht, hu, hover, hrunning, hguard, hpending⟩ := exists_of_firstPass hl
  refine ⟨s, t, u, hs, ht, hu, hover, hrunning, hguard, fun hleaves => ?_⟩
  rw [contains_iff_mem, ← hpending, mem_map] at hmem
  obtain ⟨r, hr, heq⟩ := hmem
  have hmay : u.mayExecute r = true := congrArg Prod.snd heq
  rw [hleaves r hr] at hmay
  cases hmay

/-- With three runs of the digest before it, the backup is advanced. -/
theorem busy_pass_leaves_refused : ∃ s t u,
    (runtimeMachine busyRuntime busyInstances).Run (busyTriggers 3) s ∧
      (u.LeavesRefused ↔ u.Uncrowded) ∧
      ((∀ i, (u.switches i).paused = (s.switches i).paused) → s.Uncrowded → u.LeavesRefused) ∧
      performRuntime busyRuntime t (.turnPage 0 0 "w" 26) = some u ∧
      (pendingRuns u.engine.runs).map (fun r => (r.id, u.mayExecute r)) =
        [("wfr_0", false), ("wfr_1", false), ("wfr_2", false)] := by
  have hf : firstPass busyRuntime busyInstances (busyTriggers 3)
      ([.begin, .turnPage 0 0 "w" 26] ++ replicate 4 (.engine (.proceed 0 {}))) 0 "w" 26 =
      some [("wfr_0", false), ("wfr_1", false), ("wfr_2", false)] := by decide +kernel
  obtain ⟨s, t, u, hs, ht, hu, hover, hrunning, hguard, hpending⟩ := exists_of_firstPass hf
  obtain ⟨hiff, hkept⟩ := drainPass_leaves_refused hs ht hu hover hrunning hguard
  exact ⟨s, t, u, hs, hiff, hkept, hu, hpending⟩

end U2os.Server.Packages
