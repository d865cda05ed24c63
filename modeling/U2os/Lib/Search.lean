import Mathlib.Data.List.Basic
import Mathlib.Logic.Relation

/-!
# Depth-first search

A search through a graph whose nodes may have a body, and children by it.  What was seen is kept in
the order in which it was found, and is not entered again.  The search goes down a bounded number of
levels; with one level for each node that has a body it finds all there is.
-/

namespace U2os.Search

open List

variable {ι β : Type} [DecidableEq ι] (body : ι → Option β) (children : β → List ι)

/-- A node has another one as a child. -/
def Edge (i j : ι) : Prop := ∃ b, body i = some b ∧ j ∈ children b

/-- The nodes seen after a search from some nodes, where others have been seen before. -/
def search : ℕ → List ι → List ι → List ι
  | 0, _, seen => seen
  | n + 1, ids, seen => ids.foldl (fun seen i =>
      if i ∈ seen then seen
      else match body i with
        | none => seen ++ [i]
        | some b => search n (children b) (seen ++ [i])) seen

/-- A node can be reached from one of the nodes. -/
def Reached (ids : List ι) (j : ι) : Prop := ∃ i ∈ ids, Relation.ReflTransGen (Edge body children) i j

/-- What was seen has grown, and what is new has its children seen. -/
structure Grown (seen seen' : List ι) : Prop where
  subset : ∀ i ∈ seen, i ∈ seen'
  closed : ∀ i ∈ seen', i ∉ seen → ∀ j, Edge body children i j → j ∈ seen'

variable {body children}

omit [DecidableEq ι] in
theorem Grown.refl (seen : List ι) : Grown body children seen seen :=
  ⟨fun _ hi => hi, fun _ hi hn => absurd hi hn⟩

/-- What a search has seen grows from call to call. -/
theorem Grown.trans {seen seen' seen'' : List ι} (h : Grown body children seen seen')
    (h' : Grown body children seen' seen'') : Grown body children seen seen'' where
  subset i hi := h'.subset i (h.subset i hi)
  closed i hi hn j hj := by
    by_cases hi' : i ∈ seen'
    · exact h'.subset j (h.closed i hi' hn j hj)
    · exact h'.closed i hi hi' j hj

/-- A node is closed once all that it points to has been seen. -/
theorem Grown.node {seen seen' : List ι} {i : ι} (h : Grown body children (seen ++ [i]) seen')
    (hi : ∀ j, Edge body children i j → j ∈ seen') : Grown body children seen seen' where
  subset j hj := h.subset j (List.mem_append_left _ hj)
  closed j hj hn k hk := by
    by_cases hji : j = i
    · exact hi k (hji ▸ hk)
    · exact h.closed j hj (by simp [hn, hji]) k hk

/-- The nodes with a body that have not been seen. -/
def unseen (known seen : List ι) : ℕ := (known.filter fun i => i ∉ seen).length

theorem unseen_append_lt {known seen : List ι} {i : ι} (hi : i ∈ known) (hn : i ∉ seen) :
    unseen known (seen ++ [i]) < unseen known seen := by
  have hsub : known.filter (fun j => j ∉ seen ++ [i]) =
      (known.filter fun j => j ∉ seen).filter fun j => j ≠ i := by
    rw [filter_filter]
    refine filter_congr fun j _ => ?_
    simp [not_or, and_comm]
  rw [unseen, unseen, hsub]
  refine length_filter_lt_length_iff_exists.2 ⟨i, ?_, by simp⟩
  exact mem_filter.2 ⟨hi, by simpa using hn⟩

theorem unseen_le {known seen seen' : List ι} (h : ∀ i ∈ seen, i ∈ seen') :
    unseen known seen' ≤ unseen known seen := by
  refine (monotone_filter_right known fun i hi => ?_).length_le
  simp only [decide_not, Bool.not_eq_eq_eq_not, Bool.not_true, decide_eq_false_iff_not] at hi ⊢
  exact fun hs => hi (h i hs)

/-- With a level for each node that has a body and was not seen, the search sees what it starts from
and the children of all that is new. -/
theorem grown_search {known : List ι} (hknown : ∀ i b, body i = some b → i ∈ known) (n : ℕ) :
    ∀ ids seen : List ι, unseen known seen < n →
      Grown body children seen (search body children n ids seen) ∧
        ∀ i ∈ ids, i ∈ search body children n ids seen := by
  induction n with
  | zero => exact fun _ _ hlt => absurd hlt (Nat.not_lt_zero _)
  | succ n ihn =>
    intro ids
    induction ids with
    | nil => exact fun seen _ => ⟨.refl seen, nofun⟩
    | cons i ids ih =>
      intro seen hlt
      rw [search, foldl_cons]
      -- What one node adds; the rest of the nodes follow by induction.
      have hone : ∀ seen₁, Grown body children seen seen₁ → i ∈ seen₁ →
          Grown body children seen (search body children (n + 1) ids seen₁) ∧
            ∀ j ∈ i :: ids, j ∈ search body children (n + 1) ids seen₁ := by
        intro seen₁ hg hi
        obtain ⟨hg', hids⟩ := ih seen₁ (Nat.lt_of_le_of_lt (unseen_le hg.subset) hlt)
        exact ⟨hg.trans hg', forall_mem_cons.2 ⟨hg'.subset i hi, hids⟩⟩
      split_ifs with hi
      · exact hone seen (.refl seen) hi
      · cases hb : body i with
        | none =>
          refine hone (seen ++ [i]) (Grown.node (.refl _) ?_) (by simp)
          rintro j ⟨b, hb', -⟩
          rw [hb] at hb'
          cases hb'
        | some b =>
          obtain ⟨hg, hch⟩ := ihn (children b) (seen ++ [i])
            (Nat.lt_of_lt_of_le (unseen_append_lt (hknown i b hb) hi) (Nat.le_of_lt_succ hlt))
          refine hone _ (hg.node ?_) (hg.subset i (by simp))
          rintro j ⟨b', hb', hj⟩
          rw [hb] at hb'
          cases hb'
          exact hch j hj

theorem reached_of_mem_search (n : ℕ) : ∀ (ids seen : List ι), ∀ j ∈ search body children n ids seen,
    j ∈ seen ∨ Reached body children ids j := by
  induction n with
  | zero => exact fun _ _ j hj => .inl hj
  | succ n ihn =>
    intro ids
    induction ids with
    | nil => exact fun _ j hj => .inl hj
    | cons i ids ih =>
      intro seen j hj
      rw [search, foldl_cons] at hj
      have hlift : Reached body children ids j → Reached body children (i :: ids) j :=
        fun ⟨k, hk, hr⟩ => ⟨k, mem_cons_of_mem i hk, hr⟩
      have hself : Reached body children (i :: ids) i := ⟨i, mem_cons_self, .refl⟩
      rcases ih _ j hj with hj | hr
      · split_ifs at hj with hi
        · exact .inl hj
        · cases hb : body i with
          | none =>
            rw [hb] at hj
            rcases List.mem_append.1 hj with hj | hj
            · exact .inl hj
            · exact .inr (mem_singleton.1 hj ▸ hself)
          | some b =>
            rw [hb] at hj
            rcases ihn (children b) (seen ++ [i]) j hj with hj | ⟨k, hk, hr⟩
            · rcases List.mem_append.1 hj with hj | hj
              · exact .inl hj
              · exact .inr (mem_singleton.1 hj ▸ hself)
            · exact .inr ⟨i, mem_cons_self, .head ⟨b, hb, hk⟩ hr⟩
      · exact .inr (hlift hr)

theorem mem_search {known : List ι} (hknown : ∀ i b, body i = some b → i ∈ known) {ids : List ι}
    {j : ι} : j ∈ search body children (known.length + 1) ids [] ↔ Reached body children ids j := by
  constructor
  · intro hj
    exact (reached_of_mem_search _ ids [] j hj).resolve_left not_mem_nil
  · rintro ⟨i, hi, hr⟩
    have hlt : unseen known [] < known.length + 1 :=
      Nat.lt_succ_of_le (length_filter_le _ _)
    obtain ⟨hg, hids⟩ : Grown body children [] (search body children (known.length + 1) ids []) ∧
        ∀ i ∈ ids, i ∈ search body children (known.length + 1) ids [] :=
      grown_search hknown _ ids [] hlt
    induction hr with
    | refl => exact hids i hi
    | tail _ he ih => exact hg.closed _ ih not_mem_nil _ he

omit [DecidableEq ι] in
theorem Reached.mono {body' : ι → Option β} (hext : ∀ i b, body i = some b → body' i = some b)
    {ids : List ι} {j : ι} (h : Reached body children ids j) : Reached body' children ids j := by
  obtain ⟨root, hroot, hr⟩ := h
  exact ⟨root, hroot, Relation.ReflTransGen.mono
    (fun i k ⟨b, hb, hk⟩ => ⟨b, hext i b hb, hk⟩) _ _ hr⟩

omit [DecidableEq ι] in
theorem Reached.trans {ids : List ι} {i j : ι} {b : β} (h : Reached body children ids i)
    (hb : body i = some b) (h' : Reached body children (children b) j) :
    Reached body children ids j := by
  obtain ⟨root, hroot, hr⟩ := h
  obtain ⟨k, hk, hr'⟩ := h'
  exact ⟨root, hroot, (hr.tail ⟨b, hb, hk⟩).trans hr'⟩

omit [DecidableEq ι] in
/-- Where more nodes have a body, what is reached was reached, or is reached by one of these. -/
theorem Reached.extend {body' : ι → Option β} (hext : ∀ i b, body i = some b → body' i = some b)
    {ids : List ι} {j : ι} (h : Reached body' children ids j) : Reached body children ids j ∨
      ∃ i b, Reached body children ids i ∧ body i = none ∧ body' i = some b ∧
        Reached body' children (children b) j := by
  obtain ⟨root, hroot, hr⟩ := h
  induction hr with
  | refl => exact .inl ⟨root, hroot, .refl⟩
  | @tail j k _ hedge ih =>
    obtain ⟨b, hb, hk⟩ := hedge
    rcases ih with ⟨i, hi, hij⟩ | ⟨i, c, hi, hnone, hc, l, hl, hlj⟩
    · cases hj : body j with
      | some b' =>
        obtain rfl : b' = b := Option.some.inj ((hext j b' hj).symm.trans hb)
        exact .inl ⟨i, hi, hij.tail ⟨b', hj, hk⟩⟩
      | none => exact .inr ⟨j, b, ⟨i, hi, hij⟩, hj, hb, k, hk, .refl⟩
    · exact .inr ⟨i, c, hi, hnone, hc, l, hl, hlj.tail ⟨b, hb, hk⟩⟩

end U2os.Search
