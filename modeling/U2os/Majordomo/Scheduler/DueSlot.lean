import U2os.Majordomo.Scheduler.Trigger

/-!
# The slot that is due

A daily trigger is due on the local date of the instant: its window ends at midnight, even where
the minutes of grace would go on.  A date is named by its scheduled instant, which shows it also
where the time of day is skipped, for what is skipped is an hour from two o'clock on.

The window of a trigger that runs every so many minutes is computed in milliseconds, and nothing
bounds the minutes from above.

## Main results

* `localAt_wallToUtc` : a scheduled instant shows its date.
-/

namespace U2os.Majordomo.Scheduler

open Calendar WallClock Zone

variable {a b t : ℤ}

namespace Zone

variable {zone : Zone} {d : Date} {hour minute : ℤ}

/-- The date is that of the instant. -/
def OnDate (zone : Zone) (t : ℤ) (d : Date) : Prop :=
  (zone.localAt t).year = d.year ∧ (zone.localAt t).month = d.month ∧ (zone.localAt t).day = d.day

theorem exists_onDate (zone : Zone) (t : ℤ) : ∃ d, zone.OnDate t d := by
  obtain ⟨d, _, _, hd, -⟩ := zone.localAt_valid t
  exact ⟨d, by rw [hd], by rw [hd], by rw [hd]⟩

theorem OnDate.unique {e : Date} (h : zone.OnDate t d) (h' : zone.OnDate t e) : d = e :=
  Date.ext (h.1.symm.trans h'.1) (h.2.1.symm.trans h'.2.1) (h.2.2.symm.trans h'.2.2)

theorem OnDate.weekday (h : zone.OnDate t d) : (zone.localAt t).weekday = d.weekday := by
  obtain ⟨e, eh, em, he, -⟩ := zone.localAt_valid t
  obtain ⟨hy, hm, hd⟩ := h
  rw [he] at hy hm hd ⊢
  exact congrArg Date.weekday (Date.ext hy hm hd)

theorem hour_of_skipped (h : 0 ≤ hour) (h' : hour < 24) (hm : 0 ≤ minute) (hm' : minute < 60)
    (hskipped : ∀ t, reading zone.offsetMs t ≠ wallMs d hour minute) : hour = 2 := by
  cases zone with
  | fixed o =>
    refine absurd ?_ (hskipped (wallMs d hour minute - o * msPerMin))
    show _ - _ + _ = _
    exact sub_add_cancel _ _
  | usDst std =>
    obtain ⟨y, hlow, hhigh⟩ := exists_usStop std (wallMs d hour minute - std * msPerMin)
    have hreads : ∀ t o, (usDst std).offsetMinAt t = o → t + o * msPerMin ≠ wallMs d hour minute :=
      fun t o ho ht => hskipped t (by rw [reading, offsetMs, ho, ht])
    -- standard time is over, and daylight time has not come
    have hafter : usStart std y ≤ wallMs d hour minute - std * msPerMin := by
      by_contra hlt
      refine hreads _ std ?_ (sub_add_cancel _ _)
      rw [offsetMinAt_of_between hlow hhigh, if_pos (not_le.1 hlt)]
    have hbefore : wallMs d hour minute - (std + 60) * msPerMin < usStart std y := by
      by_contra hge
      refine hreads _ (std + 60) ?_ (sub_add_cancel _ _)
      have hstart := usStart_bounds std y
      have hstop := usStop_bounds std (y - 1)
      have hyear := daysBeforeYear_bounds (y - 1)
      rw [sub_add_cancel] at hyear
      unfold msPerDay msPerMin at *
      rw [offsetMinAt_of_between (y := y) (by omega) (by omega), if_neg hge]
    unfold usStart wallMs msPerDay msPerMin at *
    omega

theorem onDate_wallToUtc (hz : zone.Moderate) (h : 0 ≤ hour) (h' : hour < 24) (hm : 0 ≤ minute)
    (hm' : minute < 60) : zone.OnDate (zone.wallToUtc d.year d.month d.day hour minute) d := by
  by_cases hex : ∃ t, zone.Shows t d hour minute
  · obtain ⟨hyear, hmonth, hday, -⟩ := (wallToUtc_isLeast hz h h' hm hm' hex).1
    exact ⟨hyear, hmonth, hday⟩
  · have hread := reading_wallToUtc hz h h' hm hm' hex
    simp only [shows_iff h h' hm hm', not_exists] at hex
    have hwhole : wallMs d hour minute % msPerMin = 0 := by
      unfold wallMs msPerDay msPerMin
      omega
    have htwo := hour_of_skipped h h' hm hm' fun t ht => hex t (by rw [ht, hwhole, sub_zero])
    have hshows : zone.Shows (zone.wallToUtc d.year d.month d.day hour minute) d (hour + 1)
        minute := by
      rw [shows_iff (by omega) (by omega) hm hm', hread]
      unfold wallMs msPerDay msPerMin
      omega
    obtain ⟨hyear, hmonth, hday, -⟩ := hshows
    exact ⟨hyear, hmonth, hday⟩

/-- The date of a time is that of its reading. -/
theorem OnDate.dayNumber (h : zone.OnDate t d) :
    d.dayNumber = reading zone.offsetMs t / msPerDay := by
  obtain ⟨e, he, hn⟩ := civilFromDays_spec (reading zone.offsetMs t / msPerDay)
  obtain ⟨hyear, hmonth, hday⟩ := h
  have hy : e.year = d.year := (congrArg (·.1) he).symm.trans hyear
  have hm : e.month = d.month := (congrArg (·.2.1) he).symm.trans hmonth
  have hd : e.day = d.day := (congrArg (·.2.2) he).symm.trans hday
  rw [← hn, Date.ext hy hm hd]

end Zone

theorem exact_dueSlot? (t : Trigger) (now : ℤ) (zone : Zone) (grace : ℤ) :
    Exact (dueSlot? t now zone grace) (dueSlot t now zone grace) := by
  cases t with
  | every minutes =>
    refine .bind (exact_mul? _ _) ?_
    split_ifs
    · exact nofun
    · exact .pure
  | daily hour minute days =>
    refine .bind (zone.exact_localAt? now) (.ite .pure ?_)
    refine .bind (zone.exact_wallToUtc? _ _ _ _ _) (.bind (exact_sub? _ _) (.ite .pure ?_))
    exact .bind (exact_mul? _ _) (.ite .pure (.bind (zone.exact_localAt? _) .pure))
  | event eventType condition => exact .pure

/-- The minutes fit 64 bits as milliseconds. -/
def Representable (t : Trigger) : Prop := ∀ m, t = .every m → m ≤ i64Max / 60000

/-- The slot of a representable trigger does not overflow. -/
theorem returns_dueSlot? {t : Trigger} {now grace : ℤ} {zone : Zone} (hz : zone.Moderate)
    (ht : WellFormed t) (hr : Representable t) (hn : -27 * 10 ^ 17 ≤ now ∧ now ≤ 27 * 10 ^ 17)
    (hg : -10 ^ 14 ≤ grace ∧ grace ≤ 10 ^ 14) :
    Returns (dueSlot? t now zone grace) (dueSlot t now zone grace) := by
  cases t with
  | every minutes =>
    have hmax := hr minutes rfl
    obtain ⟨hmin, -⟩ := ht
    unfold minEveryMinutes i64Max at *
    refine .bind (returns_mul? (by unfold I64 i64Min i64Max; omega)) ?_
    rw [if_neg (by omega)]
    exact .pure
  | daily hour minute days =>
    obtain ⟨hhour, hminute⟩ := ht
    obtain ⟨d, hd⟩ := zone.exists_onDate now
    have hs := onDate_wallToUtc (d := d) hz hhour.1 hhour.2 hminute.1 hminute.2
    have hday := hd.dayNumber.symm.trans hs.dayNumber
    have hyear : -86 * 10 ^ 6 ≤ d.year ∧ d.year ≤ 86 * 10 ^ 6 := by
      have hoff := offsetMs_small hz now
      have hnumber := hd.dayNumber
      obtain ⟨hlow, hhigh⟩ := d.dayNumber_bounds
      unfold daysBeforeYear at hlow hhigh
      unfold reading msPerDay at *
      omega
    have hnear : -3 * msPerDay ≤ now - zone.wallToUtc d.year d.month d.day hour minute ∧
        now - zone.wallToUtc d.year d.month d.day hour minute ≤ 3 * msPerDay := by
      have hoff := offsetMs_small hz now
      have hoff' := offsetMs_small hz (zone.wallToUtc d.year d.month d.day hour minute)
      unfold reading msPerDay at *
      omega
    unfold dueSlot? dueSlot
    dsimp only
    rw [hd.1, hd.2.1, hd.2.2]
    unfold msPerDay at hnear
    refine .bind (returns_localAt? hz (by omega)) (.ite (fun _ => .pure) fun _ => ?_)
    rw [hd.1, hd.2.1, hd.2.2]
    refine .bind (returns_wallToUtc? hz hyear hhour hminute) (.bind (returns_sub? ?_)
      (.ite (fun _ => .pure) fun _ => .bind (returns_mul? ?_) (.ite (fun _ => .pure) fun _ =>
        .bind (returns_localAt? hz (by omega)) .pure)))
    all_goals
      unfold I64 i64Min i64Max
      omega
  | event eventType condition => exact .pure

/-- **A daily slot is due on the date of the instant, from the scheduled instant to the end of the
grace.** -/
theorem daily_slot {text : RustText} {hour minute : ℤ} {days : Option (List String)}
    (ht : Accepted text (.daily hour minute days)) {spec : String} {zone : Zone}
    (hz : parse spec = some zone) (grace now : ℤ) :
    (∀ slot, dueSlot (.daily hour minute days) now zone grace = some slot ↔
      ∃ d : Date, zone.OnDate now d ∧ onDay days d.weekday = true ∧
        zone.wallToUtc d.year d.month d.day hour minute ≤ now ∧
        now ≤ zone.wallToUtc d.year d.month d.day hour minute + grace * 60000 ∧
        slot = "daily:" ++ dateText d.year d.month d.day) ∧
    (∀ r, dueSlot? (.daily hour minute days) now zone grace = some r →
      r = dueSlot (.daily hour minute days) now zone grace) ∧
    (-27 * 10 ^ 17 ≤ now → now ≤ 27 * 10 ^ 17 → -10 ^ 14 ≤ grace → grace ≤ 10 ^ 14 →
      dueSlot? (.daily hour minute days) now zone grace =
        some (dueSlot (.daily hour minute days) now zone grace)) := by
  have hwell := ht.wellFormed
  have ⟨hhour, hminute⟩ := hwell
  have hmoderate := moderate_of_parse hz
  refine ⟨fun slot => ?_, exact_dueSlot? _ _ _ _, fun hn hn' hg hg' =>
    returns_dueSlot? hmoderate hwell nofun ⟨hn, hn'⟩ ⟨hg, hg'⟩⟩
  obtain ⟨d, hd⟩ := zone.exists_onDate now
  have hs := onDate_wallToUtc (d := d) hmoderate hhour.1 hhour.2 hminute.1 hminute.2
  have hslot : dueSlot (.daily hour minute days) now zone grace =
      if onDay days d.weekday = false then none
      else if now - zone.wallToUtc d.year d.month d.day hour minute < 0 then none
      else if grace * 60000 < now - zone.wallToUtc d.year d.month d.day hour minute then none
      else some ("daily:" ++ dateText d.year d.month d.day) := by
    unfold dueSlot Local.dateString
    dsimp only
    rw [hd.weekday, hd.1, hd.2.1, hd.2.2, hs.1, hs.2.1, hs.2.2]
  rw [hslot]
  constructor
  · intro h
    split_ifs at h with hday hearly hlate
    exact ⟨d, hd, by simpa using hday, by omega, by omega, (Option.some_inj.1 h).symm⟩
  · rintro ⟨e, he, hday, hearly, hlate, rfl⟩
    obtain rfl := hd.unique he
    rw [if_neg (by simp [hday]), if_neg (by omega), if_neg (by omega)]

/-- A text of Rust whose lower case is that of a text in lower case. -/
def plainText : RustText := ⟨fun _ => "", id⟩

/-- The first of May 2026, a Friday. -/
def friday : Date := .ofNumbers 2026 5 1 (by decide)

/-- Ten minutes late on a Friday. -/
theorem daily_slot_friday :
    dueSlot (.daily 7 30 (some ["mon", "fri"])) 1777621200000 .utc 60 = some "daily:2026-05-01" := by
  have hparse : parse "fixed:0" = some .utc := by decide +kernel
  have haccepted : Accepted plainText (.daily 7 30 (some ["mon", "fri"])) :=
    .inr (.inr ⟨7, 30, some ["mon", "fri"], by decide +kernel⟩)
  refine ((daily_slot haccepted hparse 60 1777621200000).1 _).2 ⟨friday, ?_, ?_, ?_, ?_, ?_⟩
  · exact ⟨by decide +kernel, by decide +kernel, by decide +kernel⟩
  all_goals decide +kernel

/-- The last day of 2025. -/
def newYearsEve : Date := .ofNumbers 2025 12 31 (by decide)

/-- Forty minutes late, but after midnight: not due, within an hour of grace. -/
theorem late_evening_not_due_after_midnight :
    ¬∀ slot, dueSlot? (.daily 23 30 none) 1767226200000 .utc 60 = some (some slot) ↔
      ∃ d : Date, onDay none d.weekday = true ∧
        utc.wallToUtc d.year d.month d.day 23 30 ≤ 1767226200000 ∧
        1767226200000 ≤ utc.wallToUtc d.year d.month d.day 23 30 + 60 * 60000 ∧
        slot = "daily:" ++ dateText d.year d.month d.day := by
  intro h
  have hnone : dueSlot? (.daily 23 30 none) 1767226200000 .utc 60 = some none := by decide +kernel
  have hdue := (h "daily:2025-12-31").2 ⟨newYearsEve, rfl, by decide +kernel, by decide +kernel,
    by decide +kernel⟩
  rw [hnone] at hdue
  cases hdue

theorem toString_inj (ha : 0 ≤ a) (hb : 0 ≤ b) : toString a = toString b ↔ a = b := by
  refine ⟨fun h => ?_, congrArg _⟩
  rw [Int.toString_eq_repr, Int.toString_eq_repr, Int.repr_eq_if, Int.repr_eq_if, if_pos ha,
    if_pos hb] at h
  have hdigits := congrArg (fun s : String => Nat.ofDigitChars 10 s.toList 0) h
  simp only [Nat.toList_repr, Nat.ofDigitChars_toDigits (show 1 < 10 by decide) le_rfl] at hdigits
  omega

theorem everySlot_inj {m : ℤ} (ha : 0 ≤ a) (hb : 0 ≤ b) :
    everySlot m a = everySlot m b ↔ a = b := by
  unfold everySlot
  rw [String.append_right_inj, toString_inj ha hb]

/-- The two instants lie in the same window of so many minutes. -/
def SameWindow (minutes a b : ℤ) : Prop :=
  ∃ k, (k * (minutes * 60000) ≤ a ∧ a < (k + 1) * (minutes * 60000)) ∧
    k * (minutes * 60000) ≤ b ∧ b < (k + 1) * (minutes * 60000)

theorem sameWindow_iff {minutes : ℤ} (h : 0 < minutes) :
    SameWindow minutes a b ↔ a / (minutes * 60000) = b / (minutes * 60000) := by
  have hpos : 0 < minutes * 60000 := by omega
  have hin : ∀ k c : ℤ, k * (minutes * 60000) ≤ c ∧ c < (k + 1) * (minutes * 60000) ↔
      c / (minutes * 60000) = k := fun k c => by
    rw [Int.ediv_eq_iff_of_pos hpos, add_mul, one_mul]
  unfold SameWindow
  simp only [hin]
  exact ⟨fun ⟨k, ha, hb⟩ => ha.trans hb.symm, fun hk => ⟨_, hk, rfl⟩⟩

/-- An instant of the years 1970 to 9999. -/
def InYears (t : ℤ) : Prop := 0 ≤ t ∧ t < daysBeforeYear 10000 * msPerDay

/-- The slots at two instants are computed, and those of a trigger that runs every so many minutes
are the same where the instants lie in the same window. -/
def Computable (t : Trigger) (zone : Zone) (grace a b : ℤ) : Prop :=
  ∃ r r', dueSlot? t a zone grace = some r ∧ dueSlot? t b zone grace = some r' ∧
    ∀ m, t = .every m → (r = r' ↔ SameWindow m a b)

/-- **The slots of an accepted trigger are computed where its minutes fit 64 bits as
milliseconds.** -/
theorem slots_computable {text : RustText} {t : Trigger} (ht : Accepted text t) {spec : String}
    {zone : Zone} (hz : parse spec = some zone) {grace : ℤ} (hg : 0 ≤ grace)
    (hg' : grace ≤ 24 * 60) {a b : ℤ} (ha : InYears a) (hb : InYears b) :
    Computable t zone grace a b ↔ Representable t := by
  have hwell := ht.wellFormed
  have hmoderate := moderate_of_parse hz
  constructor
  · rintro ⟨r, -, hr, -, -⟩ m rfl
    obtain ⟨window, hwindow, -⟩ := Option.bind_eq_some_iff.1 hr
    by_cases hfits : I64 (m * 60000)
    · have hmax := hfits.2
      unfold i64Max at *
      omega
    · rw [mul?, i64?, if_neg hfits] at hwindow
      cases hwindow
  · intro hr
    have hsmall : ∀ t, InYears t → -27 * 10 ^ 17 ≤ t ∧ t ≤ 27 * 10 ^ 17 := by
      rintro t ⟨hlow, hhigh⟩
      have hlast : daysBeforeYear 10000 * msPerDay = 253402300800000 := by decide
      omega
    refine ⟨_, _, returns_dueSlot? hmoderate hwell hr (hsmall a ha) (by omega),
      returns_dueSlot? hmoderate hwell hr (hsmall b hb) (by omega), ?_⟩
    rintro m rfl
    have hmin : minEveryMinutes ≤ m := hwell.1
    have hpos : 0 < m := lt_of_lt_of_le (by decide) hmin
    have hwindow : 0 ≤ m * 60000 := by omega
    unfold dueSlot
    dsimp only
    rw [Option.some_inj, everySlot_inj (Int.ediv_nonneg ha.1 hwindow)
      (Int.ediv_nonneg hb.1 hwindow), sameWindow_iff hpos]

/-- Every quarter of an hour: one slot for two instants of one window. -/
theorem slots_computable_quarter : Computable (.every 15) .utc 60 1777621200000 1777621260000 := by
  have hparse : parse "fixed:0" = some .utc := by decide +kernel
  have haccepted : Accepted plainText (.every 15) := .inr (.inl ⟨15, by decide, rfl⟩)
  refine (slots_computable haccepted hparse (show (0 : ℤ) ≤ 60 by decide) (by decide) ?_ ?_).2 ?_
  · exact ⟨by decide, by decide⟩
  · exact ⟨by decide, by decide⟩
  · rintro m ⟨⟩
    decide

/-- The `when` of a trigger every `2 ^ 59` minutes. -/
def hugeWhen : Value :=
  .object [("every_minutes", .number (.posInt 576460752303423488 (by decide)))]

/-- It is accepted, and its slot is not computed at any instant: the product does not fit 64 bits,
and of its last 64 bits, by which a release divides, all are zero. -/
theorem huge_minutes_overflow :
    Trigger.fromWhen plainText hugeWhen = .ok (.every 576460752303423488) ∧
      dueSlot? (.every 576460752303423488) 1777621200000 .utc 60 = none ∧
      (576460752303423488 * 60000 : ℤ) % 2 ^ 64 = 0 :=
  ⟨by decide +kernel, by decide +kernel, by decide⟩

end U2os.Majordomo.Scheduler
