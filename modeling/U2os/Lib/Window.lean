import Mathlib.Algebra.Order.Monoid.Unbundled.Basic
import Mathlib.Data.List.Count
import Mathlib.Data.List.Perm.Subperm
import Mathlib.Tactic.Common

/-!
# Limits over a window of time

What happened is a list of events with their times.  A limit over a window holds when in every
window of a given length at most so many of them lie.
-/

namespace U2os

namespace Window

variable {α T : Type*} [LinearOrder T] [Add T] {time : α → T} {span now : T} {limit : ℕ}
  {l : List α}

/-- Every window of the length `span` holds at most `limit` events. -/
def Bounded (time : α → T) (span : T) (limit : ℕ) (l : List α) : Prop :=
  ∀ t, l.countP (fun a => t < time a ∧ time a ≤ t + span) ≤ limit

/-- The events less than a window old. -/
def recent (time : α → T) (span now : T) (l : List α) : List α :=
  l.filter fun a => now < time a + span

theorem bounded_nil : Bounded time span limit [] := fun _ => Nat.zero_le _

theorem mem_recent {a : α} : a ∈ recent time span now l ↔ a ∈ l ∧ now < time a + span := by
  simp [recent]

/-- With room in the window, one more keeps the bound. -/
theorem Bounded.push [AddRightStrictMono T] (h : Bounded time span limit l)
    (hroom : (recent time span now l).length < limit)
    {a : α} (hnow : now ≤ time a) : Bounded time span limit (l ++ [a]) := by
  intro t
  rw [List.countP_append, List.countP_singleton]
  by_cases ha : t < time a ∧ time a ≤ t + span
  · rw [if_pos (by simpa using ha)]
    -- What lies in the window of the new event was recent before.
    have hle : l.countP (fun b => t < time b ∧ time b ≤ t + span) ≤
        l.countP fun b => now < time b + span := by
      refine List.countP_mono_left fun b _ hb => ?_
      simp only [decide_eq_true_eq] at hb ⊢
      calc now ≤ time a := hnow
        _ ≤ t + span := ha.2
        _ < time b + span := add_lt_add_left hb.1 span
    have hrecent : l.countP (fun b => now < time b + span) = (recent time span now l).length :=
      List.countP_eq_length_filter
    omega
  · rw [if_neg (by simpa using ha)]
    exact h t

theorem length_recent_le {κ : Type*} {row : α → κ} {rows : List κ}
    (hnd : ((recent time span now l).map row).Nodup)
    (hrow : ∀ a ∈ recent time span now l, row a ∈ rows) :
    (recent time span now l).length ≤ rows.length := by
  rw [← List.length_map row]
  refine (hnd.subperm fun k hk => ?_).length_le
  obtain ⟨a, ha, rfl⟩ := List.mem_map.1 hk
  exact hrow a ha

end Window

end U2os
