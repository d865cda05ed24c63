import U2os.Lib.Fallible
import U2os.Lib.JsText

/-!
# Maps that are read entry by entry

A map is filled from a list of inputs, each of which gives an entry, gives none or stops the reading.
Where no two inputs disagree about a key, the order of the inputs does not matter: the map has just
the entries that the inputs give.

## Main results

* `collect_isOk` : the reading ends where no input stops it.
-/

namespace U2os.Assoc

open Fallible List

variable {α ε V : Type} {f : α → Except ε (Option (String × V))} {x : α} {xs : List α}
  {acc out : List (String × V)} {k : String} {v : V}

/-- What one input adds. -/
def add (acc : List (String × V)) : Option (String × V) → List (String × V)
  | none => acc
  | some e => assign e.1 e.2 acc

/-- The map of the entries that the inputs give. -/
def collect (f : α → Except ε (Option (String × V))) (acc : List (String × V)) (xs : List α) :
    Except ε (List (String × V)) :=
  xs.foldlM (fun acc x => (f x).map (add acc)) acc

/-- No two inputs give different values under one key. -/
def Coherent (f : α → Except ε (Option (String × V))) (xs : List α) : Prop :=
  ∀ x ∈ xs, ∀ y ∈ xs, ∀ k v w, f x = .ok (some (k, v)) → f y = .ok (some (k, w)) → v = w

theorem collect_cons : collect f acc (x :: xs) = .ok out ↔
    ∃ r, f x = .ok r ∧ collect f (add acc r) xs = .ok out := by
  refine bind_eq_ok.trans ⟨?_, ?_⟩
  · rintro ⟨acc', hadd, h⟩
    obtain ⟨r, hr, rfl⟩ := map_eq_ok.1 hadd
    exact ⟨r, hr, h⟩
  · rintro ⟨r, hr, h⟩
    exact ⟨_, map_eq_ok.2 ⟨r, hr, rfl⟩, h⟩

theorem collect_isOk :
    (∃ out, collect f acc xs = .ok out) ↔ ∀ x ∈ xs, ∃ r, f x = .ok r := by
  induction xs generalizing acc with
  | nil => exact ⟨fun _ _ hx => absurd hx not_mem_nil, fun _ => ⟨acc, rfl⟩⟩
  | cons x xs ih =>
    rw [forall_mem_cons]
    constructor
    · rintro ⟨out, h⟩
      obtain ⟨r, hr, h⟩ := collect_cons.1 h
      exact ⟨⟨r, hr⟩, ih.1 ⟨out, h⟩⟩
    · rintro ⟨⟨r, hr⟩, hrest⟩
      obtain ⟨out, h⟩ := ih.2 hrest
      exact ⟨out, collect_cons.2 ⟨r, hr, h⟩⟩

theorem get?_add {r : Option (String × V)} :
    get? (add acc r) k = some v ↔ r = some (k, v) ∨ (∀ w, r ≠ some (k, w)) ∧ get? acc k = some v := by
  cases r with
  | none => simp [add]
  | some e =>
    obtain ⟨k', v'⟩ := e
    rw [add, get?_assign]
    by_cases hk : k' = k
    · simp [hk]
    · simp [hk]

/-- What the map has: by induction on the inputs, where an input that gives the key prevails over what
was there. -/
theorem get?_collect_add (hf : Coherent f xs) (h : collect f acc xs = .ok out) :
    get? out k = some v ↔ (∃ x ∈ xs, f x = .ok (some (k, v))) ∨
      (∀ x ∈ xs, ∀ w, f x ≠ .ok (some (k, w))) ∧ get? acc k = some v := by
  induction xs generalizing acc with
  | nil =>
    cases h
    simp
  | cons x xs ih =>
    obtain ⟨r, hr, h⟩ := collect_cons.1 h
    have htail : Coherent f xs := fun x hx y hy =>
      hf x (mem_cons_of_mem _ hx) y (mem_cons_of_mem _ hy)
    rw [ih htail h, get?_add]
    constructor
    · rintro (⟨y, hy, hfy⟩ | ⟨hnone, rfl | ⟨hx, hacc⟩⟩)
      · exact .inl ⟨y, mem_cons_of_mem _ hy, hfy⟩
      · exact .inl ⟨x, mem_cons_self, hr⟩
      · refine .inr ⟨forall_mem_cons.2 ⟨fun w hw => hx w ?_, hnone⟩, hacc⟩
        rw [hr] at hw
        exact Except.ok.inj hw
    · rintro (⟨y, hy, hfy⟩ | ⟨hnone, hacc⟩)
      · rcases mem_cons.1 hy with rfl | hy
        · -- an input after it that gives the key gives the same value
          by_cases hlater : ∃ z ∈ xs, ∃ w, f z = .ok (some (k, w))
          · obtain ⟨z, hz, w, hw⟩ := hlater
            have heq := hf y mem_cons_self z (mem_cons_of_mem _ hz) k v w hfy hw
            exact .inl ⟨z, hz, heq ▸ hw⟩
          · push Not at hlater
            rw [hr] at hfy
            exact .inr ⟨hlater, .inl (Except.ok.inj hfy)⟩
        · exact .inl ⟨y, hy, hfy⟩
      · obtain ⟨hx, hnone⟩ := forall_mem_cons.1 hnone
        exact .inr ⟨hnone, .inr ⟨fun w hw => hx w (by rw [hr, hw]), hacc⟩⟩

theorem get?_collect (hf : Coherent f xs) (h : collect f [] xs = .ok out) :
    get? out k = some v ↔ ∃ x ∈ xs, f x = .ok (some (k, v)) := by
  rw [get?_collect_add hf h]
  refine or_iff_left ?_
  rintro ⟨_, hnil⟩
  cases hnil

variable {β δ W : Type} {g : β → Except δ (Option (String × W))} {conv : W → V} {zs : List α}
  {enc : α → β}

/-- The inputs give the same entries, up to a conversion of the values. -/
abbrev SameEntry (conv : W → V) : Option (String × V) → Option (String × W) → Prop :=
  fun r r' => r = r'.map (Prod.map id conv)

theorem Coherent.of_agree (hconv : Function.Injective conv)
    (hz : ∀ z ∈ zs, Agree (SameEntry conv) (f z) (g (enc z))) (hf : Coherent f zs) :
    Coherent g (zs.map enc) := by
  intro x hx y hy k v w hv hw
  obtain ⟨z, hz', rfl⟩ := mem_map.1 hx
  obtain ⟨z', hz'', rfl⟩ := mem_map.1 hy
  obtain ⟨_, hfz, rfl⟩ := (hz z hz').of_ok_right hv
  obtain ⟨_, hfz', rfl⟩ := (hz z' hz'').of_ok_right hw
  exact hconv (hf z hz' z' hz'' k _ _ hfz hfz')

/-- Collecting the entries of two lists that agree gives maps that agree, in whatever order they
are. -/
theorem agree_collect (hconv : Function.Injective conv) (hperm : xs.Perm zs)
    (hz : ∀ z ∈ zs, Agree (SameEntry conv) (f z) (g (enc z))) (hf : Coherent f zs) :
    Agree (fun a b => ∀ k, get? a k = (get? b k).map conv)
      (collect f [] xs) (collect g [] (zs.map enc)) := by
  refine .of_isOk ?_ fun a b ha hb k => ?_
  · rw [collect_isOk, collect_isOk, forall_mem_map]
    refine forall_congr' fun z => ⟨fun h hmem => ?_, fun h hmem => ?_⟩
    · obtain ⟨r, hr⟩ := h (hperm.mem_iff.2 hmem)
      obtain ⟨r', hr', _⟩ := (hz z hmem).of_ok hr
      exact ⟨r', hr'⟩
    · obtain ⟨r', hr'⟩ := h (hperm.mem_iff.1 hmem)
      obtain ⟨r, hr, _⟩ := (hz z (hperm.mem_iff.1 hmem)).of_ok_right hr'
      exact ⟨r, hr⟩
  · have hfxs : Coherent f xs := fun x hx y hy =>
      hf x (hperm.mem_iff.1 hx) y (hperm.mem_iff.1 hy)
    have hgzs := hf.of_agree hconv hz
    cases hw : get? b k with
    | some w =>
      obtain ⟨y, hy, hgy⟩ := (get?_collect hgzs hb).1 hw
      obtain ⟨z, hzs, rfl⟩ := mem_map.1 hy
      obtain ⟨r, hfz, rfl⟩ := (hz z hzs).of_ok_right hgy
      exact (get?_collect hfxs ha).2 ⟨z, hperm.mem_iff.2 hzs, hfz⟩
    | none =>
      by_contra hne
      obtain ⟨v, hv⟩ := Option.ne_none_iff_exists'.1 hne
      obtain ⟨z, hzs, hfz⟩ := (get?_collect hfxs ha).1 hv
      obtain ⟨r', hgz, hr'⟩ := (hz z (hperm.mem_iff.1 hzs)).of_ok hfz
      obtain ⟨⟨k', w⟩, rfl, hkw⟩ := Option.map_eq_some_iff.1 hr'.symm
      obtain rfl : k' = k := congrArg Prod.fst hkw
      have hget := (get?_collect hgzs hb).2
        ⟨enc z, mem_map_of_mem (hperm.mem_iff.1 hzs), hgz⟩
      rw [hw] at hget
      cases hget

end U2os.Assoc
