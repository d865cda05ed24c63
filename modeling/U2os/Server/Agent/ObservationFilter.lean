import Mathlib.Algebra.BigOperators.Group.List.Basic
import Mathlib.Algebra.GroupWithZero.Nat
import U2os.Lib.Json
import U2os.Server.Policy.DataProcessingPolicy

/-!
# The classification of what a model is given

`classifyObservation` of `agent/observation-filter.js`: a value is as restrictive as the most
restrictive label in it, at any depth, and not less than the floor of its tool.  The scan keeps a
stack, and gives up on more than 5000 values: what it did not look at counts as sensitive.

## Main results

* `scan_of_labelled`, `classifyObservation_of_labelled` : a sensitive label is never missed.
-/

namespace U2os.Server.Agent

open Policy List Option

/-- The label of a value. -/
def label? : Json → Option Classification
  | .obj fields =>
    match Json.lookup fields "classification" with
    | some (.str s) => Classification.ofText? s
    | _ => none
  | _ => none

/-- `Object.values` of an object or an array; none for other values. -/
def children? : Json → Option (List Json)
  | .arr items => some items
  | .obj fields => some (fields.map Prod.snd)
  | _ => none

/-- The value is labelled sensitive, or a value in it is. -/
inductive Labelled : Json → Prop
  | here {v : Json} : label? v = some .sensitive → Labelled v
  | inside {v child : Json} {children : List Json} : children? v = some children →
      child ∈ children → Labelled child → Labelled v

/-- The loop of `classifyObservation`, with the number of values it may still look at. -/
def scan : ℕ → Classification → List Json → Classification
  | _, rank, [] => rank
  | 0, _, _ :: _ => .sensitive
  | n + 1, rank, v :: pending =>
    match children? v with
    | none => scan n rank pending
    | some children =>
      let rank' := (label? v).elim rank rank.max
      if rank' = .sensitive then .sensitive
      else if n < pending.length + (children.take 5001).length then .sensitive
      else scan n rank' ((children.take 5001).reverse ++ pending)

/-- The declared floors of tools. -/
abbrev Floors := String → Option Classification

def classifyObservation (floors : Floors) (tool : String) (item : Json) (historical : Bool) :
    Classification :=
  let declared := (floors tool).getD (if tool = "web.search" then .public_ else .private_)
  let floor := if historical then declared.max .private_ else declared
  scan 5000 floor [item]

theorem children?_of_label? {v : Json} {c : Classification} (h : label? v = some c) :
    (children? v).isSome = true := by
  cases v with
  | obj fields => rfl
  | _ => simp [label?] at h

/-- A label among the pending values makes the whole sensitive. -/
theorem scan_of_labelled {n : ℕ} (hn : n ≤ 5000) {rank : Classification} {pending : List Json}
    {v : Json} (hv : v ∈ pending) (h : Labelled v) : scan n rank pending = .sensitive := by
  induction n generalizing rank pending v with
  | zero =>
    cases pending with
    | nil => cases hv
    | cons w pending => rfl
  | succ n ih =>
    cases pending with
    | nil => cases hv
    | cons w pending =>
      unfold scan
      cases hc : children? w with
      | none =>
        rcases mem_cons.1 hv with rfl | hv
        · -- A value without entries has no label.
          cases h with
          | here hl =>
            have := children?_of_label? hl
            rw [hc] at this
            cases this
          | inside hc' => cases hc.symm.trans hc'
        · exact ih (Nat.le_of_succ_le hn) hv h
      | some children =>
        simp only
        split_ifs with hrank hlen
        · rfl
        · rfl
        -- What was cut off would not have fitted.
        have htake : children.take 5001 = children := by
          refine take_of_length_le ?_
          rw [length_take] at hlen
          omega
        rw [htake]
        rcases mem_cons.1 hv with rfl | hv
        · cases h with
          | here hl =>
            refine absurd ?_ hrank
            rw [hl]
            cases rank <;> rfl
          | inside hc' hmem hchild =>
            obtain rfl := Option.some.inj (hc.symm.trans hc')
            exact ih (Nat.le_of_succ_le hn)
              (mem_append_left _ (mem_reverse.2 hmem)) hchild
        · exact ih (Nat.le_of_succ_le hn) (mem_append_right _ hv) h

theorem classifyObservation_of_labelled {floors : Floors} {tool : String} {item : Json}
    {historical : Bool} (h : Labelled item) :
    classifyObservation floors tool item historical = .sensitive :=
  scan_of_labelled (Nat.le_refl _) (mem_singleton_self item) h

/-- The value has the label, or a value in it has. -/
inductive HasLabel (c : Classification) : Json → Prop
  | here {v : Json} : label? v = some c → HasLabel c v
  | inside {v child : Json} {children : List Json} : children? v = some children →
      child ∈ children → HasLabel c child → HasLabel c v

mutual
/-- The number of values in a value, itself included. -/
def countValues : Json → ℕ
  | .arr items => countItems items + 1
  | .obj fields => countFields fields + 1
  | _ => 1
/-- That of the items of an array. -/
def countItems : List Json → ℕ
  | [] => 0
  | v :: vs => countValues v + countItems vs
/-- That of the values of an object. -/
def countFields : List (String × Json) → ℕ
  | [] => 0
  | e :: es => countField e + countFields es
/-- That of one value of an object. -/
def countField : String × Json → ℕ
  | (_, v) => countValues v
end

theorem countItems_eq (items : List Json) : countItems items = (items.map countValues).sum := by
  induction items with
  | nil => rfl
  | cons v vs ih => rw [countItems, ih, map_cons, sum_cons]

theorem countFields_eq (fields : List (String × Json)) :
    countFields fields = ((fields.map Prod.snd).map countValues).sum := by
  induction fields with
  | nil => rfl
  | cons e es ih =>
    obtain ⟨k, v⟩ := e
    rw [countFields, ih, map_cons, map_cons, sum_cons, countField]

theorem countValues_eq (v : Json) :
    countValues v = (((children? v).getD []).map countValues).sum + 1 := by
  cases v with
  | arr items => rw [countValues, countItems_eq]; rfl
  | obj fields => rw [countValues, countFields_eq]; rfl
  | _ => rfl

theorem countValues_pos (v : Json) : 0 < countValues v := by
  rw [countValues_eq]
  exact Nat.succ_pos _

theorem length_le_sum_count (vs : List Json) : vs.length ≤ (vs.map countValues).sum := by
  induction vs with
  | nil => exact Nat.le_refl _
  | cons v vs ih =>
    have := countValues_pos v
    rw [length_cons, map_cons, sum_cons]
    omega

section

variable {n : ℕ} {rank c : Classification} {pending children : List Json} {v : Json}

theorem rank_le_label (v : Json) (rank : Classification) :
    rank.rank ≤ ((label? v).elim rank rank.max).rank := by
  cases label? v with
  | none => exact Nat.le_refl _
  | some c => exact Nat.le_trans (Nat.le_max_left _ _) (Nat.le_of_eq (rank.rank_max c).symm)

/-- One more value of the stack: it has no children, the scan ends there, or its children are put on
the stack. -/
theorem scan_succ (rank : Classification) (v : Json) (pending : List Json) (hn : n + 1 ≤ 5000) :
    (children? v = none ∧ scan (n + 1) rank (v :: pending) = scan n rank pending) ∨
    ∃ children, children? v = some children ∧
      (((label? v).elim rank rank.max = .sensitive ∧
          scan (n + 1) rank (v :: pending) = .sensitive) ∨
        (n < pending.length + children.length ∧
          scan (n + 1) rank (v :: pending) = .sensitive) ∨
        (pending.length + children.length ≤ n ∧
          scan (n + 1) rank (v :: pending) =
            scan n ((label? v).elim rank rank.max) (children.reverse ++ pending))) := by
  cases hc : children? v with
  | none => exact .inl ⟨rfl, by rw [scan, hc]⟩
  | some children =>
    have hscan : scan (n + 1) rank (v :: pending) =
        if (label? v).elim rank rank.max = .sensitive then .sensitive
        else if n < pending.length + (children.take 5001).length then .sensitive
        else scan n ((label? v).elim rank rank.max) ((children.take 5001).reverse ++ pending) := by
      rw [scan, hc]
    rw [length_take] at hscan
    refine .inr ⟨children, rfl, ?_⟩
    split_ifs at hscan with hrank hlen
    · exact .inl ⟨hrank, hscan⟩
    · exact .inr (.inl ⟨by omega, hscan⟩)
    · refine .inr (.inr ⟨by omega, ?_⟩)
      rw [hscan, take_of_length_le (by omega)]

theorem rank_le_scan (hn : n ≤ 5000) : rank.rank ≤ (scan n rank pending).rank := by
  induction n generalizing rank pending with
  | zero =>
    cases pending with
    | nil => exact Nat.le_refl _
    | cons v pending => exact rank.rank_le_sensitive
  | succ n ih =>
    cases pending with
    | nil => exact Nat.le_refl _
    | cons v pending =>
      obtain ⟨-, hscan⟩ | ⟨children, -, ⟨-, hscan⟩ | ⟨-, hscan⟩ | ⟨-, hscan⟩⟩ :=
        scan_succ rank v pending hn
      · rw [hscan]
        exact ih (Nat.le_of_succ_le hn)
      · rw [hscan]
        exact rank.rank_le_sensitive
      · rw [hscan]
        exact rank.rank_le_sensitive
      · rw [hscan]
        exact Nat.le_trans (rank_le_label v rank) (ih (Nat.le_of_succ_le hn))

/-- The scan is at least as high as every label. -/
theorem rank_le_scan_of_hasLabel (hn : n ≤ 5000) (hv : v ∈ pending) (h : HasLabel c v) :
    c.rank ≤ (scan n rank pending).rank := by
  induction n generalizing rank pending v with
  | zero =>
    cases pending with
    | nil => cases hv
    | cons w pending => exact c.rank_le_sensitive
  | succ n ih =>
    cases pending with
    | nil => cases hv
    | cons w pending =>
      have hle := Nat.le_of_succ_le hn
      obtain ⟨hnone, hscan⟩ | ⟨children, hc, ⟨-, hscan⟩ | ⟨-, hscan⟩ | ⟨-, hscan⟩⟩ :=
        scan_succ rank w pending hn
      · rw [hscan]
        rcases mem_cons.1 hv with rfl | hv
        · cases h with
          | here hl =>
            have hsome := children?_of_label? hl
            rw [hnone] at hsome
            cases hsome
          | inside hc => cases hnone.symm.trans hc
        · exact ih hle hv h
      · rw [hscan]
        exact c.rank_le_sensitive
      · rw [hscan]
        exact c.rank_le_sensitive
      · rw [hscan]
        rcases mem_cons.1 hv with rfl | hv
        · cases h with
          | here hl =>
            refine Nat.le_trans ?_ (rank_le_scan hle)
            rw [hl]
            exact Nat.le_trans (Nat.le_max_right _ _) (Nat.le_of_eq (rank.rank_max c).symm)
          | inside hc' hmem hchild =>
            obtain rfl := some.inj (hc.symm.trans hc')
            exact ih hle (mem_append_left _ (mem_reverse.2 hmem)) hchild
        · exact ih hle (mem_append_right _ hv) h

theorem sum_count_cons (hc : children? v = some children) :
    ((v :: pending).map countValues).sum =
      ((children.reverse ++ pending).map countValues).sum + 1 := by
  rw [map_cons, sum_cons, countValues_eq, hc, map_append, sum_append,
    map_reverse, sum_reverse, getD_some]
  omega

theorem scan_of_large (hn : n ≤ 5000) (h : n < (pending.map countValues).sum) :
    scan n rank pending = .sensitive := by
  induction n generalizing rank pending with
  | zero =>
    cases pending with
    | nil => cases h
    | cons v pending => rfl
  | succ n ih =>
    cases pending with
    | nil => cases h
    | cons v pending =>
      have hle := Nat.le_of_succ_le hn
      obtain ⟨hnone, hscan⟩ | ⟨children, hc, ⟨-, hscan⟩ | ⟨-, hscan⟩ | ⟨-, hscan⟩⟩ :=
        scan_succ rank v pending hn
      · rw [hscan]
        refine ih hle ?_
        rw [map_cons, sum_cons, countValues_eq, hnone] at h
        simp only [getD_none, map_nil, sum_nil] at h
        omega
      · exact hscan
      · exact hscan
      · rw [hscan]
        refine ih hle ?_
        rw [sum_count_cons hc] at h
        omega

/-- A small value is scanned to the end, so that its rank is that of a label or the first one. -/
theorem scan_of_small (rank : Classification) (hn : n ≤ 5000)
    (h : (pending.map countValues).sum ≤ n) :
    scan n rank pending = rank ∨ ∃ v ∈ pending, HasLabel (scan n rank pending) v := by
  induction n generalizing rank pending with
  | zero =>
    cases pending with
    | nil => exact .inl rfl
    | cons v pending =>
      have := countValues_pos v
      rw [map_cons, sum_cons] at h
      omega
  | succ n ih =>
    cases pending with
    | nil => exact .inl rfl
    | cons v pending =>
      have hle := Nat.le_of_succ_le hn
      -- a label that is as restrictive as what was known is known, or found here
      have hlabel : (label? v).elim rank rank.max = rank ∨
          HasLabel ((label? v).elim rank rank.max) v := by
        cases hl : label? v with
        | none => exact .inl rfl
        | some c =>
          rw [elim_some, Classification.max]
          split_ifs
          · exact .inr (.here hl)
          · exact .inl rfl
      obtain ⟨hnone, hscan⟩ | ⟨children, hc, ⟨hrank, hscan⟩ | ⟨hlen, -⟩ | ⟨-, hscan⟩⟩ :=
        scan_succ rank v pending hn
      · rw [hscan]
        have hsum : (pending.map countValues).sum ≤ n := by
          have := countValues_pos v
          rw [map_cons, sum_cons] at h
          omega
        rcases ih rank hle hsum with hfound | ⟨w, hw, hfound⟩
        · exact .inl hfound
        · exact .inr ⟨w, mem_cons_of_mem _ hw, hfound⟩
      · rw [hscan, ← hrank]
        exact hlabel.imp_right fun hl => ⟨v, mem_cons_self, hl⟩
      · have hpending := length_le_sum_count pending
        have hchildren := length_le_sum_count children
        rw [map_cons, sum_cons, countValues_eq, hc, getD_some] at h
        omega
      · rw [hscan]
        rw [sum_count_cons hc] at h
        rcases ih _ hle (Nat.le_of_succ_le_succ h) with hfound | ⟨w, hw, hfound⟩
        · rw [hfound]
          exact hlabel.imp_right fun hl => ⟨v, mem_cons_self, hl⟩
        · refine .inr ?_
          rcases List.mem_append.1 hw with hw | hw
          · exact ⟨v, mem_cons_self, .inside hc (mem_reverse.1 hw) hfound⟩
          · exact ⟨w, mem_cons_of_mem _ hw, hfound⟩

end

section

variable {floors : Floors} {tool : String} {item item' : Json} {historical : Bool}

/-- The floor of the results of a tool. -/
def floorOf (floors : Floors) (tool : String) (historical : Bool) : Classification :=
  let declared := (floors tool).getD (if tool = "web.search" then .public_ else .private_)
  if historical then declared.max .private_ else declared

theorem rank_floorOf_mono :
    (floorOf floors tool false).rank ≤ (floorOf floors tool historical).rank := by
  cases historical with
  | false => exact Nat.le_refl _
  | true =>
    exact Nat.le_trans (Nat.le_max_left _ _) (Nat.le_of_eq (Classification.rank_max _ _).symm)

theorem private_le_floorOf :
    Classification.private_.rank ≤ (floorOf floors tool true).rank :=
  Nat.le_trans (Nat.le_max_right _ _) (Nat.le_of_eq (Classification.rank_max _ _).symm)

theorem classifyObservation_eq :
    classifyObservation floors tool item historical =
      scan 5000 (floorOf floors tool historical) [item] := rfl

theorem rank_floorOf_le :
    (floorOf floors tool historical).rank ≤
      (classifyObservation floors tool item historical).rank :=
  rank_le_scan (Nat.le_refl _)

theorem rank_le_of_hasLabel {c : Classification} (h : HasLabel c item) :
    c.rank ≤ (classifyObservation floors tool item historical).rank :=
  rank_le_scan_of_hasLabel (Nat.le_refl _) (mem_singleton_self item) h

theorem classifyObservation_of_large (h : 5000 < countValues item) :
    classifyObservation floors tool item historical = .sensitive :=
  scan_of_large (Nat.le_refl _) (by simpa using h)

theorem rank_le_of_labels (h : countValues item ≤ 5000)
    (hlabels : ∀ c, HasLabel c item → HasLabel c item') :
    (classifyObservation floors tool item historical).rank ≤
      (classifyObservation floors tool item' historical).rank := by
  have hsum : ([item].map countValues).sum ≤ 5000 := by simpa using h
  rcases scan_of_small (floorOf floors tool historical) (Nat.le_refl _) hsum with
    hfound | ⟨v, hv, hfound⟩
  · rw [classifyObservation_eq, hfound]
    exact rank_floorOf_le
  · obtain rfl := mem_singleton.1 hv
    exact rank_le_of_hasLabel (hlabels _ hfound)

theorem classifyObservation_congr (hsize : countValues item ≤ 5000 ↔ countValues item' ≤ 5000)
    (hlabels : ∀ c, HasLabel c item ↔ HasLabel c item') :
    classifyObservation floors tool item historical =
      classifyObservation floors tool item' historical := by
  by_cases h : countValues item ≤ 5000
  · exact Classification.rank_injective (Nat.le_antisymm
      (rank_le_of_labels h fun c => (hlabels c).1)
      (rank_le_of_labels (hsize.1 h) fun c => (hlabels c).2))
  · rw [classifyObservation_of_large (Nat.not_le.1 h),
      classifyObservation_of_large (Nat.not_le.1 fun h' => h (hsize.2 h'))]

end

end U2os.Server.Agent
