import U2os.Server.Packages.Cron
import Mathlib.Data.Int.LeastGreatest

/-!
# The next minute of an expression

`nextCronTime` goes through first showings of the clock only, so that it leaves out what an overlap
shows again; from the second pass it may even return a minute of the first one, which lies before.
A setter whose local time a gap swallows lands later than meant, and may pass over a match.
-/

namespace U2os.Server.Packages

open JsDate WallClock Zone

variable (z : Zone) (cron : Cron)

/-- A whole minute whose fields match. -/
structure MatchesAt (m : ℤ) : Prop where
  whole : z.localTime m % msPerMinute = 0
  fields : cron.Matches (z.localTime m)

/-- The result is the first matching minute after an instant; none where there is none up to the
limit. -/
def IsNext (from_ : ℤ) : Option ℤ → Prop
  | some t => from_ < t ∧ MatchesAt z cron t ∧ ∀ m, from_ < m → m < t → ¬MatchesAt z cron m
  | none => ∀ m, from_ < m → m ≤ cronLimit from_ → ¬MatchesAt z cron m

/-- The dates that the search comes to. -/
inductive Visited (from_ : ℤ) : ℤ → Prop
  | start {t : ℤ} (h : start z from_ = some t) : Visited from_ t
  | step {t t' : ℤ} {j : Jump} (h : Visited from_ t) (hle : t ≤ cronLimit from_)
      (hjump : cron.jump (z.localTime t) = some j) (hland : applyJump z j (some t) = some t') :
      Visited from_ t'

/-- What the setter before `setHours` aims at; without one, the local time as it is. -/
def aim (r : ℤ) : Jump → ℤ
  | .month => nextMonth (day r) * msPerDay + timeWithinDay r
  | .day => r + msPerDay
  | .hour => r
  | .minute => r

/-- A gap swallows what a jump aims at: the local time of its first setter, or the one that it
lands at, with the minute before. -/
def Swallowed (t : ℤ) (j : Jump) : Prop :=
  (∀ s, z.localTime s ≠ aim (z.localTime t) j) ∨
    (∀ s, z.localTime s ≠ boundary (z.localTime t) j) ∧
      ∀ s, z.localTime s ≠ boundary (z.localTime t) j - msPerMinute

/-- The search reaches a minute: the clock shows it for the first time, all dates before are valid,
and no jump into a gap passes over it. -/
structure Reached (from_ m : ℤ) : Prop where
  first : First z.offset m
  start : start z from_ ≠ none
  valid : ∀ t j, Visited z cron from_ t → cron.jump (z.localTime t) = some j → t < m →
    applyJump z j (some t) ≠ none
  gaps : ∀ t j t', Visited z cron from_ t → cron.jump (z.localTime t) = some j → t < m →
    Swallowed z t j → applyJump z j (some t) = some t' → t' ≤ m

variable {z cron} {from_ t t' m r : ℤ} {j : Jump}

theorem Zone.first_utc (z : Zone) (r : ℤ) : First z.offset (z.utc r) :=
  first_resolve z.small z.once

theorem Zone.localTime_utc (z : Zone) (h : ∃ s, z.localTime s = r) :
    z.localTime (z.utc r) = r :=
  reading_resolve_of_shown z.small z.once h

theorem Zone.localTime_utc_emod (hwhole : Whole z.offset msPerMinute) (hr : r % msPerMinute = 0) :
    z.localTime (z.utc r) % msPerMinute = 0 := by
  by_cases h : ∃ s, z.localTime s = r
  · rwa [localTime_utc z h]
  · have hlater := (reading_resolve z.small (z.once r) fun s hs => h ⟨s, hs⟩).1
    obtain ⟨a, ha⟩ := hwhole.dvd (r + msPerDay)
    obtain ⟨b, hb⟩ := hwhole.dvd (r - msPerDay)
    rw [ha, hb] at hlater
    unfold Zone.localTime Zone.utc
    rw [hlater]
    unfold msPerMinute at *
    omega

theorem start_eq_some (hwhole : Whole z.offset msPerMinute) (h : start z from_ = some t) :
    t = z.utc (z.localTime from_ - z.localTime from_ % msPerMinute + msPerMinute) ∧
      ∀ s < t, z.localTime s < z.localTime from_ - z.localTime from_ % msPerMinute + msPerMinute := by
  obtain ⟨u, hu, rfl⟩ := set_eq_some h
  obtain ⟨_, ⟨⟩, rfl⟩ := set_eq_some hu
  have hshown : ∃ s, z.localTime s = z.localTime from_ - z.localTime from_ % msPerMinute :=
    ⟨_, hwhole.reading_start from_⟩
  rw [makeDate_minute, makeDate_add_minute, localTime_utc z hshown]
  refine ⟨rfl, fun s hs => ?_⟩
  refine resolve_isLeast_ge z.small z.once hwhole (by decide) ?_ (.inr ?_) hs
  · unfold msPerMinute
    omega
  · obtain ⟨s, hs⟩ := hshown
    exact ⟨s, hs.trans (add_sub_cancel_right _ _).symm⟩

theorem Visited.first (hwhole : Whole z.offset msPerMinute) (h : Visited z cron from_ t) :
    First z.offset t := by
  cases h with
  | start h =>
    rw [(start_eq_some hwhole h).1]
    exact first_utc z _
  | step _ _ _ hland =>
    obtain ⟨x, -, -, rfl⟩ := applyJump_eq_some hland
    exact first_utc z x

theorem Visited.whole (hwhole : Whole z.offset msPerMinute) (h : Visited z cron from_ t) :
    z.localTime t % msPerMinute = 0 := by
  cases h with
  | start h =>
    rw [(start_eq_some hwhole h).1]
    refine localTime_utc_emod hwhole ?_
    unfold msPerMinute
    omega
  | step _ _ _ hland =>
    obtain ⟨x, -, hx, rfl⟩ := applyJump_eq_some hland
    exact localTime_utc_emod hwhole hx

theorem Visited.localTime_lt (hwhole : Whole z.offset msPerMinute) (h : Visited z cron from_ t) :
    z.localTime from_ < z.localTime t := by
  induction h with
  | start h =>
    have hle := le_localTime_utc z
      (z.localTime from_ - z.localTime from_ % msPerMinute + msPerMinute)
    rw [← (start_eq_some hwhole h).1] at hle
    unfold msPerMinute at hle
    omega
  | step _ _ _ hland ih => exact ih.trans (lt_applyJump hland)

theorem Visited.shown_again (hwhole : Whole z.offset msPerMinute) (h : Visited z cron from_ t)
    (hle : t ≤ from_) : ∃ e, from_ < e ∧ e ≤ cronLimit from_ ∧ z.localTime e = z.localTime t ∧
      ∀ u, from_ ≤ u → u < e → z.localTime u < z.localTime t := by
  have hlt := h.localTime_lt hwhole
  have hne : t ≠ from_ := by
    rintro rfl
    exact lt_irrefl _ hlt
  obtain ⟨e, he, hnear, heq, hsmaller⟩ :=
    WallClock.shown_again z.small z.once (lt_of_le_of_ne hle hne) hlt
  refine ⟨e, he, ?_, heq, hsmaller⟩
  unfold cronLimit
  unfold msPerDay at hnear
  omega

/-- A jump that aims at what the clock shows lands at the first local time that it does not leave
out. -/
theorem applyJump_of_shown (hshown : ∃ s, z.localTime s = aim (z.localTime t) j)
    (h : applyJump z j (some t) = some t') : t' = z.utc (boundary (z.localTime t) j) := by
  unfold applyJump at h
  cases j with
  | month =>
    obtain ⟨u, hu, rfl⟩ := set_eq_some h
    obtain ⟨_, ⟨⟩, rfl⟩ := set_eq_some hu
    have haim : makeDate (makeDay (date (z.localTime t)).year (month (z.localTime t) + 1) 1)
        (timeWithinDay (z.localTime t)) = aim (z.localTime t) .month := by
      rw [aim, nextMonth, makeDate, month, Int.sub_add_cancel, date]
    rw [haim, makeDate_day, localTime_utc z hshown, aim, boundary]
    congr 1
    unfold timeWithinDay msPerDay
    omega
  | day =>
    obtain ⟨u, hu, rfl⟩ := set_eq_some h
    obtain ⟨_, ⟨⟩, rfl⟩ := set_eq_some hu
    rw [makeDate_next_day, makeDate_day]
    rw [aim] at hshown
    rw [localTime_utc z hshown, boundary]
    congr 1
    unfold msPerDay
    omega
  | hour =>
    obtain ⟨_, ⟨⟩, rfl⟩ := set_eq_some h
    rw [makeDate_next_hour, boundary]
  | minute =>
    obtain ⟨_, ⟨⟩, rfl⟩ := set_eq_some h
    rw [makeDate_next_minute, boundary]

/-- **A jump passes over a match only where a gap swallows what it aims at.** -/
theorem applyJump_le (hwhole : Whole z.offset msPerMinute)
    (hjump : cron.jump (z.localTime t) = some j) (hlt : t < m) (hfirst : First z.offset m)
    (hmatch : MatchesAt z cron m) (hshown : ¬Swallowed z t j)
    (h : applyJump z j (some t) = some t') : t' ≤ m := by
  simp only [Swallowed, not_or, not_and_or, not_forall, not_not] at hshown
  obtain ⟨haim, hedge⟩ := hshown
  have hpast : boundary (z.localTime t) j ≤ z.localTime m := by
    by_contra hge
    have hmono := hfirst.reading_lt z.small z.once hlt
    exact not_matches_of_lt_boundary hjump hmono.le (not_le.1 hge) hmatch.fields
  by_contra hge
  rw [applyJump_of_shown haim h] at hge
  have := resolve_isLeast_ge z.small z.once hwhole (by decide) boundary_emod hedge (not_le.1 hge)
  exact absurd hpast (not_le.2 this)

variable {d result : Option ℤ}

theorem Search.visited (h : Search z cron (cronLimit from_) d result)
    (hd : ∀ t, d = some t → Visited z cron from_ t) (hresult : result = some t) :
    Visited z cron from_ t ∧ t ≤ cronLimit from_ ∧ cron.Matches (z.localTime t) := by
  induction h with
  | invalid => cases hresult
  | late => cases hresult
  | @found t hle hmatch =>
    cases hresult
    exact ⟨hd t rfl, hle, jump_eq_none_iff.1 hmatch⟩
  | next hle hjump _ ih => exact ih (fun t' hland => .step (hd _ rfl) hle hjump hland) hresult

/-- The search goes on from the dates that it comes to. -/
theorem Visited.search (h : Visited z cron from_ t)
    (hsearch : Search z cron (cronLimit from_) (Packages.start z from_) result) :
    Search z cron (cronLimit from_) (some t) result := by
  induction h with
  | start h => rwa [h] at hsearch
  | step _ hle hjump hland ih =>
    cases ih with
    | late hlate => exact absurd hle (not_le.2 hlate)
    | found _ hmatch => cases hmatch.symm.trans hjump
    | next _ hjump' hrest =>
      cases hjump.symm.trans hjump'
      rwa [hland] at hrest

theorem Search.localTime_le (h : Search z cron (cronLimit from_) d result) (hd : d = some t)
    (hresult : result = some t') : z.localTime t ≤ z.localTime t' := by
  induction h generalizing t with
  | invalid => cases hd
  | late => cases hresult
  | found =>
    cases hd
    cases hresult
    exact le_rfl
  | @next u j _ hle hjump hrest ih =>
    cases hd
    cases hland : applyJump z j (some u) with
    | none =>
      rw [hland] at hrest
      cases hrest
      cases hresult
    | some u' => exact (lt_applyJump hland).le.trans (ih hland hresult)

theorem Search.eq_of_reached (hwhole : Whole z.offset msPerMinute)
    (hm : IsLeast {m | from_ < m ∧ m ≤ cronLimit from_ ∧ MatchesAt z cron m} m)
    (hreached : Reached z cron from_ m) (h : Search z cron (cronLimit from_) d result)
    (hd : d = some t) (hvisited : Visited z cron from_ t) (hle : t ≤ m) : result = some m := by
  obtain ⟨⟨hafter, hlimit, hmatch⟩, hleast⟩ := hm
  induction h generalizing t with
  | invalid => cases hd
  | late hlate =>
    cases hd
    exact absurd (hle.trans hlimit) (not_le.2 hlate)
  | @found t hlim hfound =>
    cases hd
    have hfields := jump_eq_none_iff.1 hfound
    by_cases hfrom : t ≤ from_
    · -- a minute of the first pass is shown again, and not before the next one
      obtain ⟨e, he, helim, heq, hsmaller⟩ := hvisited.shown_again hwhole hfrom
      have hme := hleast ⟨he, helim, heq ▸ hvisited.whole hwhole, heq ▸ hfields⟩
      have hmono := hreached.first.reading_lt z.small z.once (hfrom.trans_lt hafter)
      rcases eq_or_lt_of_le hme with rfl | hlt
      · exact absurd heq hmono.ne'
      · exact absurd (hsmaller m hafter.le hlt) (not_lt.2 hmono.le)
    · have := hleast ⟨not_le.1 hfrom, hlim, hvisited.whole hwhole, hfields⟩
      rw [le_antisymm hle this]
  | @next t j _ hlim hjump _ ih =>
    cases hd
    have hlt : t < m := by
      refine lt_of_le_of_ne hle ?_
      rintro rfl
      cases (jump_eq_none_iff.2 hmatch.fields).symm.trans hjump
    obtain ⟨t', hland⟩ := Option.ne_none_iff_exists'.1 (hreached.valid t j hvisited hjump hlt)
    have hle' : t' ≤ m := by
      by_cases hgap : Swallowed z t j
      · exact hreached.gaps t j t' hvisited hjump hlt hgap hland
      · exact applyJump_le hwhole hjump hlt hreached.first hmatch hgap hland
    exact ih hland (.step hvisited hlim hjump hland) hle'

/-- What the search returns, it reaches. -/
theorem Search.reached (hwhole : Whole z.offset msPerMinute)
    (h : Search z cron (cronLimit from_) (start z from_) (some m)) : Reached z cron from_ m := by
  have hvisited := (h.visited (fun t ht => .start ht) rfl).1
  -- a search from a date before the minute does not end there
  have hrest : ∀ t j, Visited z cron from_ t → cron.jump (z.localTime t) = some j →
      Search z cron (cronLimit from_) (applyJump z j (some t)) (some m) := by
    intro t j ht hjump
    cases ht.search h with
    | found _ hmatch => cases hmatch.symm.trans hjump
    | next _ hjump' hrest =>
      cases hjump.symm.trans hjump'
      exact hrest
  refine ⟨hvisited.first hwhole, ?_, ?_, ?_⟩
  · intro hnone
    rw [hnone] at h
    cases h
  · intro t j ht hjump _ hnone
    have := hrest t j ht hjump
    rw [hnone] at this
    cases this
  · intro t j t' ht hjump hlt _ hland
    have hon := (hrest t j ht hjump).localTime_le hland rfl
    have hfirst : First z.offset t' := by
      obtain ⟨x, -, -, rfl⟩ := applyJump_eq_some hland
      exact first_utc z x
    by_contra hge
    exact absurd hon (not_le.2 (hfirst.reading_lt z.small z.once (not_le.1 hge)))

/-- **`nextCronTime` returns the next minute that matches**, or none where there is none up to its
limit, just when that minute, if there is one, is reached. -/
theorem nextCronTime_isNext_iff {expression : String} (hcron : parseCron expression = .ok cron)
    (z : Zone) (hwhole : Whole z.offset msPerMinute) (from_ : ℤ) :
    ∃ result, (∃ n, ∀ fuel, n ≤ fuel → nextCronTime z expression from_ fuel = .ok (some result)) ∧
      (IsNext z cron from_ result ↔
        ∀ m, IsLeast {m | from_ < m ∧ m ≤ cronLimit from_ ∧ MatchesAt z cron m} m →
          Reached z cron from_ m) := by
  obtain ⟨result, hsearch, hreturns⟩ := nextCronTime_returns hcron z from_
  refine ⟨result, hreturns, fun hnext m hm => ?_, fun hreached => ?_⟩
  · obtain ⟨⟨hafter, hlimit, hmatch⟩, hleast⟩ := hm
    cases result with
    | none => exact absurd hmatch (hnext m hafter hlimit)
    | some t =>
      obtain ⟨hfrom, ht, hnone⟩ := hnext
      have hle : t ≤ m := by
        by_contra hlt
        exact hnone m hafter (not_le.1 hlt) hmatch
      have heq := le_antisymm hle (hleast ⟨hfrom, hle.trans hlimit, ht⟩)
      exact (heq ▸ hsearch).reached hwhole
  · by_cases hsome : ∃ m, from_ < m ∧ m ≤ cronLimit from_ ∧ MatchesAt z cron m
    · obtain ⟨m, hm, hleast⟩ := Int.exists_least_of_bdd ⟨from_, fun m hm => hm.1.le⟩ hsome
      have hm' := hreached m ⟨hm, fun m' h' => hleast m' h'⟩
      obtain ⟨t, ht⟩ := Option.ne_none_iff_exists'.1 hm'.start
      have hstart : t ≤ m := by
        by_contra hlt
        have hearly := (start_eq_some hwhole ht).2 m (not_le.1 hlt)
        have hmono := hm'.first.reading_lt z.small z.once hm.1
        have hw := hm.2.2.whole
        unfold Zone.localTime msPerMinute at *
        omega
      have hresult := hsearch.eq_of_reached hwhole ⟨hm, fun m' h' => hleast m' h'⟩ hm' ht
        (.start ht) hstart
      subst hresult
      refine ⟨hm.1, hm.2.2, fun m' hafter hlt hmatch => ?_⟩
      exact absurd (hleast m' ⟨hafter, hlt.le.trans hm.2.1, hmatch⟩) (not_le.2 hlt)
    · cases result with
      | none => exact fun m hafter hlimit hmatch => hsome ⟨m, hafter, hlimit, hmatch⟩
      | some t =>
        exfalso
        obtain ⟨hvisited, hlimit, hfields⟩ := hsearch.visited (fun t ht => .start ht) rfl
        have hw := hvisited.whole hwhole
        by_cases hfrom : t ≤ from_
        · obtain ⟨e, he, helim, heq, -⟩ := hvisited.shown_again hwhole hfrom
          exact hsome ⟨e, he, helim, heq ▸ hw, heq ▸ hfields⟩
        · exact hsome ⟨t, not_le.1 hfrom, hlimit, hw, hfields⟩

/-- The clock goes back from two hours ahead to one. -/
def fallBack : Zone where
  offset t := if t < 0 then 7200000 else 3600000
  small t := by
    unfold msPerDay
    split_ifs <;> omega
  once r := by
    refine ⟨0, fun t _ _ => ?_⟩
    unfold msPerDay at *
    dsimp only
    split_ifs <;> omega

theorem fallBack_whole : Whole fallBack.offset msPerMinute where
  pos := by decide
  dvd t := by
    unfold fallBack msPerMinute
    dsimp only
    split_ifs <;> omega
  start t := by
    unfold fallBack msPerMinute
    dsimp only
    split_ifs <;> omega

/-- Each minute. -/
def everyMinute : Cron where
  minutes := steps 0 59 1
  hours := steps 0 23 1
  days := steps 1 31 1
  months := steps 1 12 1
  weekdays := steps 0 6 1 ++ [0]
  dayOr := false

theorem parseCron_everyMinute : parseCron "* * * * *" = .ok everyMinute := by
  decide +kernel

/-- Where the time after `from_` is not to be moved, it is the result. -/
theorem nextCronTime_everyMinute {from_ t : ℤ} (hstart : start fallBack from_ = some t)
    (hlimit : t ≤ cronLimit from_) (hjump : everyMinute.jump (fallBack.localTime t) = none)
    (fuel : ℕ) :
    nextCronTime fallBack "* * * * *" from_ (fuel + 1) = .ok (some (some t)) := by
  rw [nextCronTime, parseCron_everyMinute, Except.map, hstart, search, if_pos hlimit, hjump]

theorem nextCronTime_fallBack (fuel : ℕ) :
    nextCronTime fallBack "* * * * *" 1800000 (fuel + 1) = .ok (some (some (-1740000))) :=
  nextCronTime_everyMinute (by decide +kernel) (by decide) (by decide +kernel) fuel

theorem isNext_fallBack : IsNext fallBack everyMinute 7200000 (some 7260000) := by
  refine ⟨by decide, ⟨by decide, jump_eq_none_iff.1 (by decide +kernel)⟩,
    fun m hafter hbefore hmatch => ?_⟩
  have hwhole := hmatch.whole
  simp only [Zone.localTime, reading, fallBack, msPerMinute] at hwhole
  split_ifs at hwhole <;> omega

/-- Half an hour after the clock goes back the next minute is not reached; after two hours it is. -/
theorem nextCronTime_fallBack_isNext_iff :
    (¬∀ m, IsLeast {m | 1800000 < m ∧ m ≤ cronLimit 1800000 ∧ MatchesAt fallBack everyMinute m} m →
        Reached fallBack everyMinute 1800000 m) ∧
      ∀ m, IsLeast {m | 7200000 < m ∧ m ≤ cronLimit 7200000 ∧ MatchesAt fallBack everyMinute m} m →
        Reached fallBack everyMinute 7200000 m := by
  constructor
  · obtain ⟨result, ⟨n, hn⟩, hiff⟩ :=
      nextCronTime_isNext_iff parseCron_everyMinute fallBack fallBack_whole 1800000
    obtain rfl : some (-1740000) = result := by
      simpa [nextCronTime_fallBack] using hn (n + 1) n.le_succ
    exact fun h => absurd (hiff.2 h).1 (by decide)
  · obtain ⟨result, ⟨n, hn⟩, hiff⟩ :=
      nextCronTime_isNext_iff parseCron_everyMinute fallBack fallBack_whole 7200000
    have hresult :
        nextCronTime fallBack "* * * * *" 7200000 (n + 1) = .ok (some (some 7260000)) :=
      nextCronTime_everyMinute (by decide +kernel) (by decide) (by decide +kernel) n
    obtain rfl : some 7260000 = result := by
      simpa [hresult] using hn (n + 1) n.le_succ
    exact hiff.1 isNext_fallBack

/-- Half an hour into the second pass, the next minute is one of the first. -/
theorem nextCronTime_before : parseCron "* * * * *" = .ok everyMinute ∧
    Whole fallBack.offset msPerMinute ∧
    (∀ fuel, nextCronTime fallBack "* * * * *" 1800000 (fuel + 1) = .ok (some (some (-1740000)))) ∧
    ¬IsNext fallBack everyMinute 1800000 (some (-1740000)) :=
  ⟨parseCron_everyMinute, fallBack_whole, nextCronTime_fallBack, fun h => absurd h.1 (by decide)⟩

end U2os.Server.Packages
