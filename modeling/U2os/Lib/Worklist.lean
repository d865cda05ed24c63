import Mathlib.Data.List.Nodup
import Mathlib.Data.List.Perm.Basic

/-!
# Worklists

A loop that loads items one after another into a state, where loading one may fail and is tried
again in the next pass, as long as a pass loads something.  Whether the loop finds all that can be
loaded in some order depends on whether an item that can be loaded still can when there is more.

## Main results

* `Worklist.passes_finished` : it ends where no item that is left can be loaded.
-/

namespace U2os.Worklist

open List Option

variable {σ α : Type} (load : σ → α → Option σ)

/-- One pass: the state, and the items to try again. -/
def pass : List α → σ → σ × List α
  | [], s => (s, [])
  | a :: rest, s =>
    match load s a with
    | some s' => pass rest s'
    | none => ((pass rest s).1, a :: (pass rest s).2)

/-- Passes of some kind, as long as one makes progress. -/
def passes (pass : List α → σ → σ × List α) : ℕ → List α → σ → σ × List α
  | 0, pending, s => (s, pending)
  | n + 1, pending, s =>
    let (s', retry) := pass pending s
    if retry.length < pending.length then passes pass n retry s' else (s', retry)

/-- Items have been loaded one after another, each once. -/
inductive Obtained (start : σ) (items : List α) : List α → σ → Prop
  | start : Obtained start items [] start
  | load {loaded : List α} {s s' : σ} {a : α} (h : Obtained start items loaded s) (ha : a ∈ items)
      (hnew : a ∉ loaded) (hload : load s a = some s') : Obtained start items (loaded ++ [a]) s'

/-- An item that can be loaded can be loaded where more has been. -/
def Stable (start : σ) (items : List α) : Prop :=
  ∀ few s many s', Obtained load start items few s → Obtained load start items many s' →
    few ⊆ many → ∀ a ∈ items, a ∉ many → (load s a).isSome → (load s' a).isSome

/-- An item that can no longer be loaded cannot be loaded later. -/
def Final (start : σ) (items : List α) : Prop :=
  ∀ few s many s' more s'', Obtained load start items few s → Obtained load start items many s' →
    Obtained load start items more s'' → few ⊆ many → many ⊆ more → ∀ a ∈ items, a ∉ more →
    (load s a).isSome → load s' a = none → load s'' a = none

/-- Some items have been loaded, and the others are pending. -/
structure Halfway (start : σ) (items loaded : List α) (s : σ) (pending : List α) : Prop where
  obtained : Obtained load start items loaded s
  perm : (loaded ++ pending).Perm items

/-- None of the pending items can be loaded. -/
structure Finished (start : σ) (items loaded : List α) (s : σ) (pending : List α) : Prop
    extends Halfway load start items loaded s pending where
  stuck : ∀ a ∈ pending, load s a = none

variable {load} {start s s' : σ} {items loaded loaded' pending rest order : List α} {a : α}

theorem Halfway.of_perm (h : order.Perm items) : Halfway load start items [] start order :=
  ⟨.start, h⟩

theorem Obtained.subset (h : Obtained load start items loaded s) : loaded ⊆ items := by
  induction h with
  | start => exact nil_subset _
  | load _ ha _ _ ih =>
    exact append_subset.2 ⟨ih, cons_subset.2 ⟨ha, nil_subset _⟩⟩

theorem Obtained.nodup (h : Obtained load start items loaded s) : loaded.Nodup := by
  induction h with
  | start => exact nodup_nil
  | load _ _ hnew _ ih => exact nodup_append.2 ⟨ih, nodup_singleton _, by grind⟩

theorem Halfway.snoc (h : Halfway load start items loaded s (a :: rest)) (hitems : items.Nodup)
    (hload : load s a = some s') : Halfway load start items (loaded ++ [a]) s' rest := by
  have hnodup : (loaded ++ a :: rest).Nodup := h.perm.nodup_iff.2 hitems
  refine ⟨h.obtained.load ?_ ?_ hload, ?_⟩
  · exact h.perm.mem_iff.1 (mem_append_right _ mem_cons_self)
  · exact fun hmem => (nodup_append.1 hnodup).2.2 a hmem a mem_cons_self rfl
  · rw [append_assoc]
    exact h.perm

theorem pass_sublist (pending : List α) (s : σ) : (pass load pending s).2.Sublist pending := by
  induction pending generalizing s with
  | nil => exact Sublist.refl _
  | cons a rest ih =>
    rw [pass]
    cases load s a with
    | some s' => exact (ih s').cons a
    | none => exact (ih s).cons_cons a

theorem Halfway.pass (hitems : items.Nodup)
    (h : Halfway load start items loaded s (pending ++ rest)) :
    ∃ loaded', Halfway load start items loaded' (pass load pending s).1
      ((Worklist.pass load pending s).2 ++ rest) ∧ loaded <+: loaded' := by
  induction pending generalizing loaded s rest with
  | nil => exact ⟨loaded, h, prefix_refl _⟩
  | cons a pending ih =>
    rw [Worklist.pass]
    cases hload : load s a with
    | some s' =>
      obtain ⟨loaded', h', hprefix⟩ := ih (h.snoc hitems hload)
      exact ⟨loaded', h', (prefix_append _ _).trans hprefix⟩
    | none =>
      -- The item goes behind those that have not been tried.
      have hbehind : Halfway load start items loaded s (pending ++ a :: rest) :=
        ⟨h.obtained, (Perm.append_left _ perm_middle).trans h.perm⟩
      obtain ⟨loaded', h', hprefix⟩ := ih hbehind
      exact ⟨loaded', ⟨h'.obtained, (Perm.append_left _ perm_middle.symm).trans h'.perm⟩,
        hprefix⟩

theorem pass_eq_self (h : ¬ (pass load pending s).2.length < pending.length) :
    pass load pending s = (s, pending) ∧ ∀ a ∈ pending, load s a = none := by
  induction pending with
  | nil => exact ⟨rfl, nofun⟩
  | cons a rest ih =>
    rw [pass] at h ⊢
    cases hload : load s a with
    | some s' =>
      rw [hload] at h
      exact absurd (Nat.lt_succ_of_le (pass_sublist rest s').length_le) h
    | none =>
      rw [hload] at h
      obtain ⟨heq, hstuck⟩ := ih fun hlt => h (Nat.succ_lt_succ hlt)
      refine ⟨by rw [heq], ?_⟩
      intro b hb
      rcases mem_cons.1 hb with rfl | hb
      · exact hload
      · exact hstuck b hb

theorem pass_append (h : Obtained load start items loaded s) (rest : List α) :
    pass load (loaded ++ rest) start = pass load rest s := by
  induction h generalizing rest with
  | start => rfl
  | load _ _ _ hload ih =>
    rw [append_assoc, ih, singleton_append, pass, hload]

section Passes

variable {τ : Type} {onePass : List α → σ → σ × List α} {otherPass : List α → τ → τ × List α}

theorem passes_fuel (hnil : ∀ s, onePass [] s = (s, [])) {n : ℕ} (hn : pending.length ≤ n) :
    passes onePass n pending s = passes onePass pending.length pending s := by
  induction n using Nat.strongRecOn generalizing pending s with
  | _ n ih =>
    cases pending with
    | nil =>
      cases n with
      | zero => rfl
      | succ n => simp [passes, hnil]
    | cons a rest =>
      obtain ⟨n, rfl⟩ : ∃ m, n = m + 1 := Nat.exists_eq_add_one.2 (by simp at hn; omega)
      rw [length_cons, passes, passes]
      dsimp only
      split_ifs with hlt
      · -- What is to be tried again is no longer than the rest, which either number covers.
        have hle : (onePass (a :: rest) s).2.length ≤ rest.length := Nat.le_of_lt_succ hlt
        have hn' : rest.length ≤ n := by simpa using hn
        rw [ih n (Nat.lt_succ_self n) (Nat.le_trans hle hn'),
          ih rest.length (Nat.lt_succ_of_le hn') hle]
      · rfl

theorem passes_map (f : σ → τ) (hpass : ∀ pending s,
    (f (onePass pending s).1, (onePass pending s).2) = otherPass pending (f s)) (n : ℕ)
    (pending : List α) (s : σ) :
    (f (passes onePass n pending s).1, (passes onePass n pending s).2) =
      passes otherPass n pending (f s) := by
  induction n generalizing pending s with
  | zero => rfl
  | succ n ih =>
    rw [passes, passes, ← hpass]
    dsimp only
    split_ifs with hlt
    · exact ih _ _
    · rfl

end Passes

/-- Passes go on until nothing more is loaded, and then they are finished. -/
theorem Halfway.passes (hitems : items.Nodup) {n : ℕ} (hn : pending.length ≤ n)
    (h : Halfway load start items loaded s pending) :
    ∃ loaded', Finished load start items loaded' (passes (Worklist.pass load) n pending s).1
      (Worklist.passes (Worklist.pass load) n pending s).2 ∧ loaded <+: loaded' := by
  induction n generalizing pending loaded s with
  | zero =>
    obtain rfl : pending = [] := length_eq_zero_iff.1 (Nat.le_zero.1 hn)
    exact ⟨loaded, ⟨h, nofun⟩, prefix_refl _⟩
  | succ n ih =>
    rw [Worklist.passes]
    dsimp only
    split_ifs with hlt
    · rw [← append_nil pending] at h
      obtain ⟨loaded', h', hprefix⟩ := h.pass hitems
      rw [append_nil] at h'
      obtain ⟨loaded'', h'', hprefix'⟩ := ih (by omega) h'
      exact ⟨loaded'', h'', hprefix.trans hprefix'⟩
    · obtain ⟨heq, hstuck⟩ := pass_eq_self hlt
      rw [heq]
      exact ⟨loaded, ⟨h, hstuck⟩, prefix_refl _⟩

theorem passes_finished (hitems : items.Nodup) (hperm : order.Perm items) :
    ∃ loaded, Finished load start items loaded (passes (pass load) order.length order start).1
      (passes (pass load) order.length order start).2 := by
  obtain ⟨loaded, h, -⟩ := (Halfway.of_perm hperm).passes hitems (Nat.le_refl _)
  exact ⟨loaded, h⟩

theorem Finished.largest (h : Finished load start items loaded s pending)
    (hstable : Stable load start items) (h' : Obtained load start items loaded' s') :
    loaded' ⊆ loaded := by
  induction h' with
  | start => exact nil_subset _
  | @load few s₁ s₂ a hfew ha hnew hload ih =>
    refine append_subset.2 ⟨ih, cons_subset.2 ⟨?_, nil_subset _⟩⟩
    by_contra hnot
    have hpending : a ∈ pending :=
      (List.mem_append.1 (h.perm.mem_iff.2 ha)).resolve_left hnot
    have hsome := hstable few s₁ loaded s hfew h.obtained ih a ha hnot (by rw [hload]; rfl)
    rw [h.stuck a hpending] at hsome
    cases hsome

theorem Obtained.loaded_after (h : Obtained load start items loaded' s') (hpre : loaded <+: loaded')
    (ha : a ∈ loaded') (hnot : a ∉ loaded) :
    ∃ few t, Obtained load start items few t ∧ loaded <+: few ∧ a ∉ few ∧ (load t a).isSome := by
  induction h with
  | start => cases ha
  | @load few s₁ s₂ b hfew hb hnew hload ih =>
    rcases prefix_concat_iff.1 hpre with rfl | hfirst
    · exact absurd ha hnot
    · rcases List.mem_append.1 ha with ha | ha
      · exact ih hfirst ha
      · obtain rfl := mem_singleton.1 ha
        exact ⟨few, s₁, hfew, hfirst, hnew, by rw [hload]; rfl⟩

/-- If every order loads the most there is, the order does not matter. -/
theorem stable_of_largest [DecidableEq α] (hitems : items.Nodup) (hfinal : Final load start items)
    (h : ∀ order : List α, order.Perm items → ∀ loaded,
      Obtained load start items loaded (passes (pass load) order.length order start).1 →
      ∀ few s, Obtained load start items few s → few ⊆ loaded) : Stable load start items := by
  intro few s many s' hfew hmany hsub a ha hnot hsome
  by_contra hlost
  have hlost : load s' a = none := by simpa using hlost
  -- The order that loads the many first.
  set others := items.filter fun b => b ∉ many with hothers
  have hperm : (many ++ others).Perm items := by
    refine (perm_ext_iff_of_nodup ?_ hitems).2 fun b => ?_
    · refine nodup_append.2 ⟨hmany.nodup, hitems.filter _, fun b hb c hc hbc => ?_⟩
      subst hbc
      simpa [hb] using (mem_filter.1 hc).2
    · rw [List.mem_append, mem_filter]
      by_cases hb : b ∈ many
      · simp [hb, hmany.subset hb]
      · simp [hb]
  obtain ⟨loaded, hfinished, hprefix⟩ : ∃ loaded, Finished load start items loaded
      (passes (pass load) (many ++ others).length (many ++ others) start).1
      (passes (pass load) (many ++ others).length (many ++ others) start).2 ∧ many <+: loaded := by
    have hpass := pass_append hmany others
    obtain ⟨n, hn⟩ : ∃ n, (many ++ others).length = n + 1 :=
      Nat.exists_eq_add_one.2 (length_pos_of_mem (hperm.mem_iff.2 ha))
    have hhalf : Halfway load start items many s' (others ++ []) := by
      rw [append_nil]
      exact ⟨hmany, hperm⟩
    obtain ⟨loaded, hloaded, hprefix⟩ := hhalf.pass hitems
    rw [append_nil, ← hpass] at hloaded
    rw [hn, passes]
    dsimp only
    split_ifs with hlt
    · obtain ⟨loaded', hfinished, hprefix'⟩ := hloaded.passes hitems (n := n) (by omega)
      exact ⟨loaded', hfinished, hprefix.trans hprefix'⟩
    · obtain ⟨heq, hstuck⟩ := pass_eq_self hlt
      rw [heq] at hloaded ⊢
      exact ⟨loaded, ⟨hloaded, hstuck⟩, hprefix⟩
  have hmem : a ∈ loaded := by
    obtain ⟨t, ht⟩ := isSome_iff_exists.1 hsome
    exact h _ hperm loaded hfinished.obtained _ t
      (hfew.load ha (fun hin => hnot (hsub hin)) ht)
      (mem_append_right _ (mem_singleton.2 rfl))
  obtain ⟨more, t, hmore, hpre, hnot', hsome'⟩ :=
    hfinished.obtained.loaded_after hprefix hmem hnot
  have hnone := hfinal few s many s' more t hfew hmany hmore hsub hpre.subset a ha hnot' hsome hlost
  rw [hnone] at hsome'
  cases hsome'

end U2os.Worklist
