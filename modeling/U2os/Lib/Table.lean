import Mathlib.Data.List.Nodup
import Mathlib.Tactic.Common

/-!
# Tables with a primary key

The rows of a table in insertion order.  That no two rows share a key is a field of the
structure, so an insertion has to refuse a taken key and an update may not touch the key.

## Main results

* `Table.mem_put`, `Table.mem_updateWhere`, `Table.mem_of_insert?` : the rows afterwards.
-/

namespace U2os

open List Option

/-- The rows of a table in insertion order, no two of them with one key. -/
structure Table (ρ : Type*) {κ : Type*} (key : ρ → κ) where
  /-- The rows. -/
  rows : List ρ
  /-- The primary key constraint. -/
  nodup : (rows.map key).Nodup

namespace Table

variable {ρ κ : Type*} {key : ρ → κ}

/-- The empty table. -/
def empty : Table ρ key := ⟨[], by simp⟩

instance : Membership ρ (Table ρ key) := ⟨fun t r => r ∈ t.rows⟩

theorem mem_rows {t : Table ρ key} {r : ρ} : r ∈ t.rows ↔ r ∈ t := Iff.rfl

@[simp] theorem not_mem_empty (r : ρ) : r ∉ (empty : Table ρ key) := not_mem_nil

@[ext] theorem ext {t u : Table ρ key} (h : t.rows = u.rows) : t = u := by
  cases t; cases u; congr

theorem eq_of_key {t : Table ρ key} {r r' : ρ} (h : r ∈ t) (h' : r' ∈ t)
    (hk : key r = key r') : r = r' :=
  inj_on_of_nodup_map t.nodup h h' hk

section Find

variable [DecidableEq κ]

/-- `SELECT … WHERE key = k`. -/
def find (t : Table ρ key) (k : κ) : Option ρ := t.rows.find? fun r => key r = k

theorem mem_of_find {t : Table ρ key} {k : κ} {r : ρ} (h : t.find k = some r) : r ∈ t :=
  mem_of_find?_eq_some h

theorem key_of_find {t : Table ρ key} {k : κ} {r : ρ} (h : t.find k = some r) : key r = k :=
  of_decide_eq_true (find?_some (p := fun r => decide (key r = k)) h)

theorem find_key {t : Table ρ key} {r : ρ} (h : r ∈ t) : t.find (key r) = some r := by
  have hs : (t.find (key r)).isSome := find?_isSome.2 ⟨r, h, decide_eq_true rfl⟩
  rw [← some_get hs, some_inj]
  have hx : t.find (key r) = some ((t.find (key r)).get hs) := (some_get hs).symm
  exact t.eq_of_key (mem_of_find hx) h (key_of_find hx)

theorem find_eq_some {t : Table ρ key} {k : κ} {r : ρ} :
    t.find k = some r ↔ r ∈ t ∧ key r = k :=
  ⟨fun h => ⟨mem_of_find h, key_of_find h⟩, fun ⟨h, hk⟩ => hk ▸ find_key h⟩

theorem find_eq_none {t : Table ρ key} {k : κ} : t.find k = none ↔ ∀ r ∈ t, key r ≠ k := by
  simp [find, ← mem_rows]

end Find

section Insert

variable [DecidableEq κ]

/-- `INSERT`: refused when the key is taken. -/
def insert? (t : Table ρ key) (r : ρ) : Option (Table ρ key) :=
  if h : ∀ x ∈ t.rows, key x ≠ key r then
    some ⟨t.rows ++ [r], by
      rw [List.map_append, List.map_cons, List.map_nil]
      refine List.nodup_append.2 ⟨t.nodup, by simp, ?_⟩
      intro a ha b hb hab
      obtain ⟨x, hx, rfl⟩ := List.mem_map.1 ha
      exact h x hx (by simpa [hab] using hb)⟩
  else none

theorem insert?_eq_some {t t' : Table ρ key} {r : ρ} :
    t.insert? r = some t' ↔ (∀ x ∈ t, key x ≠ key r) ∧ t'.rows = t.rows ++ [r] := by
  unfold insert?
  split_ifs with h
  · rw [some_inj]
    exact ⟨fun e => ⟨h, by rw [← e]⟩, fun e => Table.ext e.2.symm⟩
  · exact ⟨fun e => by simp at e, fun e => absurd e.1 h⟩

theorem mem_of_insert? {t t' : Table ρ key} {r x : ρ} (h : t.insert? r = some t') :
    x ∈ t' ↔ x ∈ t ∨ x = r := by
  rw [← mem_rows, (insert?_eq_some.1 h).2]
  simp [mem_rows]

/-- An inserted row is found, and the others as before. -/
theorem find_insert? {t t' : Table ρ key} {r : ρ} (h : t.insert? r = some t') (k : κ) :
    t'.find k = if k = key r then some r else t.find k := by
  split_ifs with hk
  · rw [hk]
    exact find_key ((mem_of_insert? h).2 (.inr rfl))
  · cases ht : t.find k with
    | none =>
      refine find_eq_none.2 fun x hx => ?_
      rcases (mem_of_insert? h).1 hx with hx | rfl
      · exact find_eq_none.1 ht x hx
      · exact fun e => hk e.symm
    | some x =>
      obtain ⟨hx, rfl⟩ := find_eq_some.1 ht
      exact find_key ((mem_of_insert? h).2 (.inl hx))

end Insert

/-- `UPDATE … WHERE p`: `f` rewrites the rows that satisfy `p` and keeps their keys. -/
def updateWhere (t : Table ρ key) (p : ρ → Prop) [DecidablePred p] (f : ρ → ρ)
    (hf : ∀ r, key (f r) = key r) : Table ρ key where
  rows := t.rows.map fun r => if p r then f r else r
  nodup := by
    rw [List.map_map]
    refine (List.map_congr_left fun r _ => ?_) ▸ t.nodup
    simp only [Function.comp_apply]
    split_ifs
    · exact (hf r).symm
    · rfl

/-- The number of rows an `UPDATE … WHERE p` changes. -/
def count (t : Table ρ key) (p : ρ → Prop) [DecidablePred p] : ℕ :=
  (t.rows.filter fun r => p r).length

theorem mem_updateWhere {t : Table ρ key} {p : ρ → Prop} [DecidablePred p] {f : ρ → ρ}
    {hf : ∀ r, key (f r) = key r} {x : ρ} :
    x ∈ t.updateWhere p f hf ↔ ∃ r ∈ t, x = if p r then f r else r := by
  simp [← mem_rows, updateWhere, eq_comm]

theorem of_mem_updateWhere {t : Table ρ key} {p : ρ → Prop} [DecidablePred p] {f : ρ → ρ}
    (hf : ∀ r, key (f r) = key r) {x : ρ} (h : x ∈ t.updateWhere p f hf) :
    ∃ r ∈ t, x = if p r then f r else r :=
  mem_updateWhere.1 h

theorem updateWhere_mem {t : Table ρ key} {p : ρ → Prop} [DecidablePred p] {f : ρ → ρ}
    (hf : ∀ r, key (f r) = key r) {r : ρ} (h : r ∈ t) :
    (if p r then f r else r) ∈ t.updateWhere p f hf :=
  mem_updateWhere.2 ⟨r, h, rfl⟩

/-- The rows found after an update. -/
theorem find_updateWhere [DecidableEq κ] {t : Table ρ key} {p : ρ → Prop} [DecidablePred p]
    {f : ρ → ρ} {hf : ∀ r, key (f r) = key r} {k : κ} :
    (t.updateWhere p f hf).find k = (t.find k).map fun r => if p r then f r else r := by
  have hkey : ∀ r, key (if p r then f r else r) = key r := fun r => by split_ifs <;> simp [hf]
  cases hk : t.find k with
  | none =>
    refine find_eq_none.2 fun x hx => ?_
    obtain ⟨r, hr, rfl⟩ := mem_updateWhere.1 hx
    rw [hkey]
    exact find_eq_none.1 hk r hr
  | some r =>
    obtain ⟨hr, rfl⟩ := find_eq_some.1 hk
    exact find_eq_some.2 ⟨mem_updateWhere.2 ⟨r, hr, rfl⟩, hkey r⟩

theorem updateWhere_eq_self {t : Table ρ key} {p : ρ → Prop} [DecidablePred p] {f : ρ → ρ}
    {hf : ∀ r, key (f r) = key r} (h : ∀ r ∈ t, ¬p r) : t.updateWhere p f hf = t := by
  apply Table.ext
  calc t.rows.map (fun r => if p r then f r else r)
      = t.rows.map id := map_congr_left fun r hr => if_neg (h r hr)
    _ = t.rows := List.map_id _

/-- `DELETE … WHERE p`. -/
def deleteWhere (t : Table ρ key) (p : ρ → Prop) [DecidablePred p] : Table ρ key where
  rows := t.rows.filter fun r => ¬p r
  nodup := (List.filter_sublist.map key).nodup t.nodup

theorem find_deleteWhere [DecidableEq κ] {t : Table ρ key} {p : ρ → Prop} [DecidablePred p] {k : κ} :
    (t.deleteWhere p).find k = (t.find k).filter fun r => ¬p r := by
  cases hk : t.find k with
  | none => exact find_eq_none.2 fun x hx => find_eq_none.1 hk x (mem_filter.1 hx).1
  | some r =>
    obtain ⟨hr, rfl⟩ := find_eq_some.1 hk
    by_cases hp : p r
    · rw [filter_some, if_neg (by simpa using hp)]
      refine find_eq_none.2 fun x hx he => ?_
      obtain ⟨hxt, hnp⟩ := mem_filter.1 hx
      rw [t.eq_of_key hxt hr he] at hnp
      exact of_decide_eq_true hnp hp
    · rw [filter_some, if_pos (by simpa using hp)]
      exact find_eq_some.2 ⟨mem_filter.2 ⟨hr, by simpa using hp⟩, rfl⟩

section Put

variable [DecidableEq κ]

/-- The table with the row of `r`'s key replaced by `r`. -/
def put (t : Table ρ key) (r : ρ) : Table ρ key where
  rows := t.rows.map fun x => if key x = key r then r else x
  nodup := by
    rw [List.map_map]
    refine (List.map_congr_left fun x _ => ?_) ▸ t.nodup
    simp only [Function.comp_apply]
    split_ifs with h
    · exact h
    · rfl

theorem mem_put {t : Table ρ key} {r x : ρ} :
    x ∈ t.put r ↔ (x ∈ t ∧ key x ≠ key r) ∨ (x = r ∧ ∃ y ∈ t, key y = key r) := by
  simp only [← mem_rows, put, List.mem_map]
  constructor
  · rintro ⟨y, hy, rfl⟩
    by_cases h : key y = key r
    · rw [if_pos h]; exact .inr ⟨rfl, y, hy, h⟩
    · rw [if_neg h]; exact .inl ⟨hy, h⟩
  · rintro (⟨hx, h⟩ | ⟨rfl, y, hy, h⟩)
    · exact ⟨x, hx, if_neg h⟩
    · exact ⟨y, hy, if_pos h⟩

theorem mem_put_of_mem {t : Table ρ key} {r₀ r x : ρ} (h₀ : r₀ ∈ t) (hk : key r₀ = key r) :
    x ∈ t.put r ↔ (x ∈ t ∧ key x ≠ key r) ∨ x = r := by
  rw [mem_put]
  exact or_congr_right (and_iff_left ⟨r₀, h₀, hk⟩)

theorem find_put_self {t : Table ρ key} {r₀ r : ρ} (h₀ : r₀ ∈ t) (hk : key r₀ = key r) :
    (t.put r).find (key r) = some r :=
  find_eq_some.2 ⟨(mem_put_of_mem h₀ hk).2 (.inr rfl), rfl⟩

theorem find_put_of_ne {t : Table ρ key} {r : ρ} {k : κ} (hk : k ≠ key r) :
    (t.put r).find k = t.find k := by
  simp only [find, put, find?_map]
  have h : ((fun x => decide (key x = k)) ∘ fun x => if key x = key r then r else x) =
      fun x => decide (key x = k) := by
    funext x
    simp only [Function.comp_apply]
    split_ifs with hx
    · rw [hx]
    · rfl
  rw [h]
  cases hfind : t.rows.find? fun x => decide (key x = k) with
  | none => rfl
  | some x =>
    have hx : key x = k := by simpa using find?_some hfind
    simp [show key x ≠ key r from fun e => hk (hx ▸ e)]

theorem updateWhere_eq_put {t : Table ρ key} {p : ρ → Prop} [DecidablePred p] {f : ρ → ρ}
    (hf : ∀ r, key (f r) = key r) {r₀ : ρ} (h₀ : r₀ ∈ t) (hp : p r₀)
    (honly : ∀ r, p r → key r = key r₀) : t.updateWhere p f hf = t.put (f r₀) := by
  apply Table.ext
  simp only [updateWhere, put]
  apply map_congr_left
  intro x hx
  by_cases hxk : key x = key r₀
  · obtain rfl := t.eq_of_key hx h₀ hxk
    rw [if_pos hp, if_pos (hf x).symm]
  · rw [if_neg fun h => hxk (honly x h), if_neg fun h => hxk (h.trans (hf r₀))]

theorem find_put {t : Table ρ key} {r : ρ} {k : κ} :
    (t.put r).find k = if k = key r then (t.find k).map fun _ => r else t.find k := by
  split_ifs with hk
  · rw [hk]
    cases ht : t.find (key r) with
    | none =>
      refine find_eq_none.2 fun x hx => ?_
      rcases mem_put.1 hx with ⟨hx, hne⟩ | ⟨rfl, y, hy, hyk⟩
      · exact hne
      · exact absurd hyk (find_eq_none.1 ht y hy)
    | some x =>
      obtain ⟨hx, hxk⟩ := find_eq_some.1 ht
      exact find_put_self hx hxk
  · exact find_put_of_ne hk

theorem find_put_of_find {t : Table ρ key} {r₀ r : ρ} (h₀ : t.find (key r) = some r₀) (k : κ) :
    (t.put r).find k = if k = key r then some r else t.find k := by
  rw [find_put]
  split_ifs with hk
  · rw [hk, h₀]
    rfl
  · rfl

theorem insert?_put {t t' : Table ρ key} {r r' : ρ} (h : t.insert? r = some t')
    (hk : key r' = key r) : t.insert? r' = some (t'.put r') := by
  obtain ⟨hfresh, hrows⟩ := insert?_eq_some.1 h
  refine insert?_eq_some.2 ⟨fun x hx => hk ▸ hfresh x hx, ?_⟩
  simp only [put, hrows, map_append, map_cons, map_nil, if_pos hk.symm]
  congr 1
  calc t.rows.map (fun x => if key x = key r' then r' else x)
      = t.rows.map id := map_congr_left fun x hx => if_neg (hk ▸ hfresh x hx)
    _ = t.rows := List.map_id _

end Put

/-- Every row goes on as `R` says, and every row comes from such a row or is one of `N`. -/
structure Evolves (R : ρ → ρ → Prop) (N : ρ → Prop) (t t' : Table ρ key) : Prop where
  goes : ∀ r ∈ t, ∃ r' ∈ t', R r r'
  comes : ∀ r' ∈ t', (∃ r ∈ t, R r r') ∨ N r'

namespace Evolves

variable {R : ρ → ρ → Prop} {N : ρ → Prop} {t t' t'' : Table ρ key}

theorem refl (hR : ∀ r, R r r) (t : Table ρ key) : Evolves R N t t :=
  ⟨fun r hr => ⟨r, hr, hR r⟩, fun r hr => .inl ⟨r, hr, hR r⟩⟩

theorem of_eq (hR : ∀ r, R r r) (h : t' = t) : Evolves R N t t' := by
  rw [h]
  exact refl hR t

theorem trans (hR : ∀ a b c, R a b → R b c → R a c) (hN : ∀ a b, N a → R a b → N b)
    (h : Evolves R N t t') (h' : Evolves R N t' t'') : Evolves R N t t'' where
  goes r hr := by
    obtain ⟨r', hr', h1⟩ := h.goes r hr
    obtain ⟨r'', hr'', h2⟩ := h'.goes r' hr'
    exact ⟨r'', hr'', hR _ _ _ h1 h2⟩
  comes r'' hr'' := by
    rcases h'.comes r'' hr'' with ⟨r', hr', h2⟩ | hn
    · rcases h.comes r' hr' with ⟨r, hr, h1⟩ | hn
      · exact .inl ⟨r, hr, hR _ _ _ h1 h2⟩
      · exact .inr (hN _ _ hn h2)
    · exact .inr hn

theorem all {I : ρ → Prop} (h : Evolves R N t t') (ht : ∀ r ∈ t, I r)
    (hR : ∀ r r', R r r' → I r → I r') (hN : ∀ r, N r → I r) : ∀ r ∈ t', I r := by
  intro r' hr'
  rcases h.comes r' hr' with ⟨r, hr, hrr'⟩ | hn
  · exact hR r r' hrr' (ht r hr)
  · exact hN r' hn

theorem mono {R' : ρ → ρ → Prop} {N' : ρ → Prop} (h : Evolves R N t t')
    (hR : ∀ r ∈ t, ∀ r', R r r' → R' r r') (hN : ∀ r, N r → N' r) : Evolves R' N' t t' where
  goes r hr := by
    obtain ⟨r', hr', hrr'⟩ := h.goes r hr
    exact ⟨r', hr', hR r hr r' hrr'⟩
  comes r' hr' := (h.comes r' hr').imp (fun ⟨r, hr, hrr'⟩ => ⟨r, hr, hR r hr r' hrr'⟩) (hN r')

/-- An update changes rows as its function allows. -/
theorem updateWhere {p : ρ → Prop} [DecidablePred p] {f : ρ → ρ}
    (hf : ∀ r, key (f r) = key r) (hR : ∀ r, R r r) (h : ∀ r ∈ t, p r → R r (f r)) :
    Evolves R N t (t.updateWhere p f hf) := by
  have hrow : ∀ r ∈ t, R r (if p r then f r else r) := by
    intro r hr
    split_ifs with hp
    · exact h r hr hp
    · exact hR r
  constructor
  · exact fun r hr => ⟨_, updateWhere_mem hf hr, hrow r hr⟩
  · intro r' hr'
    obtain ⟨r, hr, rfl⟩ := mem_updateWhere.1 hr'
    exact .inl ⟨r, hr, hrow r hr⟩

theorem put [DecidableEq κ] {r₀ r : ρ} (hR : ∀ r, R r r) (h₀ : r₀ ∈ t) (hk : key r₀ = key r)
    (h : R r₀ r) : Evolves R N t (t.put r) := by
  constructor
  · intro x hx
    by_cases hxk : key x = key r
    · obtain rfl := t.eq_of_key hx h₀ (hxk.trans hk.symm)
      exact ⟨r, (mem_put_of_mem hx hk).2 (.inr rfl), h⟩
    · exact ⟨x, (mem_put_of_mem h₀ hk).2 (.inl ⟨hx, hxk⟩), hR x⟩
  · intro x hx
    rcases (mem_put_of_mem h₀ hk).1 hx with ⟨hx, _⟩ | rfl
    · exact .inl ⟨x, hx, hR x⟩
    · exact .inl ⟨r₀, h₀, h⟩

theorem insert [DecidableEq κ] {r : ρ} (hR : ∀ r, R r r) (h : t.insert? r = some t') (hN : N r) :
    Evolves R N t t' := by
  constructor
  · exact fun x hx => ⟨x, (mem_of_insert? h).2 (.inl hx), hR x⟩
  · intro x hx
    rcases (mem_of_insert? h).1 hx with hx | rfl
    · exact .inl ⟨x, hx, hR x⟩
    · exact .inr hN

end Evolves

section RewrittenAt

variable [DecidableEq κ]

/-- The row of one key is rewritten, and no other row. -/
def RewrittenAt (t t' : Table ρ key) (k : κ) (f : ρ → ρ) : Prop :=
  ∀ k', t'.find k' = if k' = k then (t.find k).map f else t.find k'

variable {t t' t'' : Table ρ key} {k : κ} {f g : ρ → ρ}

theorem RewrittenAt.refl (t : Table ρ key) (k : κ) : RewrittenAt t t k id := by
  intro k'
  split_ifs with h
  · rw [h, Option.map_id, id]
  · rfl

theorem RewrittenAt.trans (h : RewrittenAt t t' k f) (h' : RewrittenAt t' t'' k g) :
    RewrittenAt t t'' k (g ∘ f) := by
  intro k'
  have hk : t'.find k = (t.find k).map f := by rw [h k, if_pos rfl]
  rw [h' k', hk, Option.map_map]
  split_ifs with hkk
  · rfl
  · rw [h k', if_neg hkk]

theorem rewrittenAt_put {r₀ r : ρ} (h : t.find (key r) = some r₀) (hf : f r₀ = r) :
    RewrittenAt t (t.put r) (key r) f := by
  intro k'
  rw [find_put_of_find h, h, map_some, hf]

theorem rewrittenAt_updateWhere {p : ρ → Prop} [DecidablePred p] {f : ρ → ρ}
    (hf : ∀ r, key (f r) = key r) (hp : ∀ r, p r ↔ key r = k) :
    RewrittenAt t (t.updateWhere p f hf) k f := by
  intro k'
  rw [find_updateWhere]
  split_ifs with hk
  · rw [hk]
    cases hr : t.find k with
    | none => rfl
    | some r => rw [map_some, map_some, if_pos ((hp r).2 (key_of_find hr))]
  · cases hr : t.find k' with
    | none => rfl
    | some r =>
      rw [map_some, if_neg]
      exact fun h => hk ((key_of_find hr).symm.trans ((hp r).1 h))

theorem RewrittenAt.congr (h : RewrittenAt t t' k f) (hfg : ∀ r, t.find k = some r → f r = g r) :
    RewrittenAt t t' k g := by
  intro k'
  rw [h k']
  split_ifs
  · cases hr : t.find k with
    | none => rfl
    | some r => rw [map_some, map_some, hfg r hr]
  · rfl

/-- Rewriting one row changes rows as the new row allows. -/
theorem RewrittenAt.evolves {R : ρ → ρ → Prop} {N : ρ → Prop} (h : RewrittenAt t t' k f)
    (hR : ∀ r, R r r) (hf : ∀ r, t.find k = some r → R r (f r)) : Evolves R N t t' := by
  constructor
  · intro r hr
    have hfind := find_key hr
    by_cases hk : key r = k
    · rw [hk] at hfind
      exact ⟨f r, mem_of_find (k := k) (by rw [h k, if_pos rfl, hfind, map_some]), hf r hfind⟩
    · exact ⟨r, mem_of_find (by rw [h (key r), if_neg hk, hfind]), hR r⟩
  · intro r' hr'
    have hfind := find_key hr'
    rw [h (key r')] at hfind
    split_ifs at hfind with hk
    · obtain ⟨r, hr, rfl⟩ := map_eq_some_iff.1 hfind
      exact .inl ⟨r, mem_of_find hr, hf r hr⟩
    · exact .inl ⟨r', mem_of_find hfind, hR r'⟩

end RewrittenAt

end Table

end U2os
