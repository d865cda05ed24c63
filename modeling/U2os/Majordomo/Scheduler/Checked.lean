import U2os.Majordomo.Actions.Classify
import U2os.Majordomo.Scheduler.Zone

/-!
# Local time in 64 bits

The functions of `Scheduler/Zone` with every sum, difference and product checked to fit the machine
integers of the source: an overflow, which is a panic or a wrong number there, is `none` here.

Two things are to be known of such a function: what it returns is what the exact one returns, and
for which arguments it returns.

## Main results

* `Zone.wallToUtc?_eq`, `Zone.localAt?_eq` : a hundred million years around 1970 nothing overflows.
-/

namespace U2os.Majordomo.Scheduler

open Calendar WallClock

/-- The integer fits 64 bits. -/
def I64 (x : ℤ) : Prop := i64Min ≤ x ∧ x ≤ i64Max

instance (x : ℤ) : Decidable (I64 x) := inferInstanceAs (Decidable (_ ∧ _))

/-- A result that fits 64 bits. -/
def i64? (x : ℤ) : Option ℤ := if I64 x then some x else none

/-- A result that fits 32 bits. -/
def i32? (x : ℤ) : Option ℤ := if -2 ^ 31 ≤ x ∧ x < 2 ^ 31 then some x else none

/-- The sum of two `i64`. -/
def add? (a b : ℤ) : Option ℤ := i64? (a + b)

/-- Their difference. -/
def sub? (a b : ℤ) : Option ℤ := i64? (a - b)

/-- Their product. -/
def mul? (a b : ℤ) : Option ℤ := i64? (a * b)

def daysFromCivil? (y m d : ℤ) : Option ℤ := do
  let y ← (if m ≤ 2 then sub? y 1 else pure y)
  let era := y / 400
  let yoe ← sub? y (← mul? era 400)
  let mp := (← add? m 9) % 12
  let doy ← sub? (← add? ((← add? (← mul? 153 mp) 2) / 5) d) 1
  let doe ← add? (← sub? (← add? (← mul? yoe 365) (yoe / 4)) (yoe / 100)) doy
  sub? (← add? (← mul? era 146097) doe) 719468

def civilFromDays? (z : ℤ) : Option (ℤ × ℤ × ℤ) := do
  let z ← add? z 719468
  let era := z / 146097
  let doe ← sub? z (← mul? era 146097)
  let yoe := (← sub? (← add? (← sub? doe (doe / 1460)) (doe / 36524)) (doe / 146096)) / 365
  let y ← add? yoe (← mul? era 400)
  let doy ← sub? doe (← sub? (← add? (← mul? 365 yoe) (yoe / 4)) (yoe / 100))
  let mp := (← add? (← mul? 5 doy) 2) / 153
  let d ← add? (← sub? doy ((← add? (← mul? 153 mp) 2) / 5)) 1
  let m ← (if mp < 10 then add? mp 3 else sub? mp 9)
  let y ← (if m ≤ 2 then add? y 1 else pure y)
  pure (y, m, d)

def weekdayOfDays? (days : ℤ) : Option ℤ := do pure ((← add? days 4) % 7)

def nthSunday? (year month n : ℤ) : Option ℤ := do
  let first ← daysFromCivil? year month 1
  let toSunday := (← sub? 7 (← weekdayOfDays? first)) % 7
  add? (← add? first toSunday) (← mul? (← sub? n 1) 7)

namespace Zone

def offsetMinAt? (zone : Zone) (utcMs : ℤ) : Option ℤ :=
  match zone with
  | .fixed offsetMin => pure offsetMin
  | .usDst std => do
    let civil ← civilFromDays? ((← add? utcMs (← mul? std msPerMin)) / msPerDay)
    let start ← sub? (← add? (← mul? (← nthSunday? civil.1 3 2) msPerDay) (2 * 60 * msPerMin))
      (← mul? std msPerMin)
    let stop ← sub? (← add? (← mul? (← nthSunday? civil.1 11 1) msPerDay) (2 * 60 * msPerMin))
      (← mul? (← add? std 60) msPerMin)
    (if start ≤ utcMs ∧ utcMs < stop then i32? (std + 60) else pure std)

/-- `local`. -/
def localAt? (zone : Zone) (utcMs : ℤ) : Option Local := do
  let localMs ← add? utcMs (← mul? (← zone.offsetMinAt? utcMs) msPerMin)
  let days := localMs / msPerDay
  let rem := localMs % msPerDay
  let civil ← civilFromDays? days
  pure
    { year := civil.1
      month := civil.2.1
      day := civil.2.2
      hour := rem / (60 * msPerMin)
      minute := rem / msPerMin % 60
      weekday := ← weekdayOfDays? days }

/-- `valid` in `wall_to_utc`: the instant of a wall time by an offset, if the offset is in force
then. -/
def validAt? (zone : Zone) (wall offset : ℤ) : Option (Option ℤ) := do
  let t ← sub? wall (← mul? offset msPerMin)
  pure (if (← zone.offsetMinAt? t) = offset then some t else none)

def wallToUtc? (zone : Zone) (year month day hour minute : ℤ) : Option ℤ := do
  let wall ← add? (← add? (← mul? (← daysFromCivil? year month day) msPerDay)
    (← mul? (← mul? hour 60) msPerMin)) (← mul? minute msPerMin)
  let before ← zone.offsetMinAt? (← sub? wall msPerDay)
  let after ← zone.offsetMinAt? (← add? wall msPerDay)
  match ← zone.validAt? wall before, ← zone.validAt? wall after with
  | some a, some b => pure (min a b)
  | some t, none => pure t
  | none, some t => pure t
  | none, none => sub? wall (← mul? before msPerMin)

end Zone

/-! ### What is returned -/

variable {zone : Zone}

section

variable {α β : Type} {x : Option α} {v : α} {a b : ℤ}

/-- Nothing but the value is returned. -/
def Exact (x : Option α) (v : α) : Prop := ∀ w, x = some w → w = v

theorem Exact.pure : Exact (some v) v := fun _ h => (Option.some_inj.1 h).symm

/-- Checked operations one after another return the exact value. -/
theorem Exact.bind {f : α → Option β} {u : β} (hx : Exact x v) (hf : Exact (f v) u) :
    Exact (x >>= f) u := by
  intro w hw
  obtain ⟨v', hv', hw⟩ := Option.bind_eq_some_iff.1 hw
  rw [hx v' hv'] at hw
  exact hf w hw

theorem Exact.ite {p : Prop} [Decidable p] {y : Option α} {u : α} (hx : Exact x v)
    (hy : Exact y u) : Exact (if p then x else y) (if p then v else u) := by
  split_ifs
  · exact hx
  · exact hy

theorem exact_i64? (x : ℤ) : Exact (i64? x) x := by
  intro w hw
  unfold i64? at hw
  split_ifs at hw
  exact (Option.some_inj.1 hw).symm

theorem exact_i32? (x : ℤ) : Exact (i32? x) x := by
  intro w hw
  unfold i32? at hw
  split_ifs at hw
  exact (Option.some_inj.1 hw).symm

theorem exact_add? (a b : ℤ) : Exact (add? a b) (a + b) := exact_i64? _

theorem exact_sub? (a b : ℤ) : Exact (sub? a b) (a - b) := exact_i64? _

theorem exact_mul? (a b : ℤ) : Exact (mul? a b) (a * b) := exact_i64? _

theorem exact_daysFromCivil? (y m d : ℤ) : Exact (daysFromCivil? y m d) (daysFromCivil y m d) := by
  unfold daysFromCivil? daysFromCivil
  refine .bind (.ite (exact_sub? _ _) .pure) ?_
  refine .bind (exact_mul? _ _) (.bind (exact_sub? _ _) (.bind (exact_add? _ _) ?_))
  refine .bind (exact_mul? _ _) (.bind (exact_add? _ _) (.bind (exact_add? _ _) ?_))
  refine .bind (exact_sub? _ _) (.bind (exact_mul? _ _) (.bind (exact_add? _ _) ?_))
  refine .bind (exact_sub? _ _) (.bind (exact_add? _ _) (.bind (exact_mul? _ _) ?_))
  exact .bind (exact_add? _ _) (exact_sub? _ _)

theorem exact_civilFromDays? (z : ℤ) : Exact (civilFromDays? z) (civilFromDays z) := by
  unfold civilFromDays? civilFromDays
  refine .bind (exact_add? _ _) (.bind (exact_mul? _ _) (.bind (exact_sub? _ _) ?_))
  refine .bind (exact_sub? _ _) (.bind (exact_add? _ _) (.bind (exact_sub? _ _) ?_))
  refine .bind (exact_mul? _ _) (.bind (exact_add? _ _) (.bind (exact_mul? _ _) ?_))
  refine .bind (exact_add? _ _) (.bind (exact_sub? _ _) (.bind (exact_sub? _ _) ?_))
  refine .bind (exact_mul? _ _) (.bind (exact_add? _ _) (.bind (exact_mul? _ _) ?_))
  refine .bind (exact_add? _ _) (.bind (exact_sub? _ _) (.bind (exact_add? _ _) ?_))
  refine .bind (.ite (exact_add? _ _) (exact_sub? _ _)) ?_
  exact .bind (.ite (exact_add? _ _) .pure) .pure

theorem exact_weekdayOfDays? (days : ℤ) : Exact (weekdayOfDays? days) (weekdayOfDays days) :=
  .bind (exact_add? _ _) .pure

theorem exact_nthSunday? (year month n : ℤ) :
    Exact (nthSunday? year month n) (nthSunday year month n) := by
  unfold nthSunday? nthSunday
  refine .bind (exact_daysFromCivil? _ _ _) (.bind (exact_weekdayOfDays? _) ?_)
  refine .bind (exact_sub? _ _) (.bind (exact_add? _ _) (.bind (exact_sub? _ _) ?_))
  exact .bind (exact_mul? _ _) (exact_add? _ _)

namespace Zone

theorem exact_offsetMinAt? (zone : Zone) (t : ℤ) :
    Exact (zone.offsetMinAt? t) (zone.offsetMinAt t) := by
  cases zone with
  | fixed o => exact .pure
  | usDst std =>
    refine .bind (exact_mul? _ _) (.bind (exact_add? _ _) (.bind (exact_civilFromDays? _) ?_))
    refine .bind (exact_nthSunday? _ _ _) (.bind (exact_mul? _ _) (.bind (exact_add? _ _) ?_))
    refine .bind (exact_mul? _ _) (.bind (exact_sub? _ _) (.bind (exact_nthSunday? _ _ _) ?_))
    refine .bind (exact_mul? _ _) (.bind (exact_add? _ _) (.bind (exact_add? _ _) ?_))
    exact .bind (exact_mul? _ _) (.bind (exact_sub? _ _) (.ite (exact_i32? _) .pure))

theorem exact_localAt? (zone : Zone) (t : ℤ) : Exact (zone.localAt? t) (zone.localAt t) :=
  .bind (exact_offsetMinAt? zone t) (.bind (exact_mul? _ _) (.bind (exact_add? _ _)
    (.bind (exact_civilFromDays? _) (.bind (exact_weekdayOfDays? _) .pure))))

theorem exact_validAt? (zone : Zone) (wall offset : ℤ) : Exact (zone.validAt? wall offset)
    (if zone.offsetMinAt (wall - offset * msPerMin) = offset then
      some (wall - offset * msPerMin) else none) :=
  .bind (exact_mul? _ _) (.bind (exact_sub? _ _) (.bind (exact_offsetMinAt? zone _) .pure))

theorem exact_wallToUtc? (zone : Zone) (year month day hour minute : ℤ) :
    Exact (zone.wallToUtc? year month day hour minute)
      (zone.wallToUtc year month day hour minute) := by
  unfold wallToUtc? wallToUtc
  refine .bind (exact_daysFromCivil? _ _ _) (.bind (exact_mul? _ _) (.bind (exact_mul? _ _) ?_))
  refine .bind (exact_mul? _ _) (.bind (exact_add? _ _) (.bind (exact_mul? _ _) ?_))
  refine .bind (exact_add? _ _) (.bind (exact_sub? _ _) (.bind (exact_offsetMinAt? zone _) ?_))
  refine .bind (exact_add? _ _) (.bind (exact_offsetMinAt? zone _) ?_)
  refine .bind (exact_validAt? zone _ _) (.bind (exact_validAt? zone _ _) ?_)
  dsimp only
  split_ifs
  · exact .pure
  · exact .pure
  · exact .pure
  · exact .bind (exact_mul? _ _) (exact_sub? _ _)

end Zone

/-! ### What does not overflow -/

/-- The value is returned. -/
def Returns (x : Option α) (v : α) : Prop := x = some v

theorem Returns.pure : Returns (some v) v := rfl

theorem Returns.bind {f : α → Option β} {u : β} (hx : Returns x v) (hf : Returns (f v) u) :
    Returns (x >>= f) u := by
  rw [hx]
  exact hf

theorem Returns.ite {p : Prop} [Decidable p] {y : Option α} {u : α} (hx : p → Returns x v)
    (hy : ¬p → Returns y u) : Returns (if p then x else y) (if p then v else u) := by
  split_ifs with h
  · exact hx h
  · exact hy h

theorem returns_add? (h : I64 (a + b)) : Returns (add? a b) (a + b) := if_pos h

theorem returns_sub? (h : I64 (a - b)) : Returns (sub? a b) (a - b) := if_pos h

theorem returns_mul? (h : I64 (a * b)) : Returns (mul? a b) (a * b) := if_pos h

theorem returns_daysFromCivil? {y m d : ℤ} (hy : -10 ^ 9 ≤ y ∧ y ≤ 10 ^ 9)
    (hm : 1 ≤ m ∧ m ≤ 12) (hd : 1 ≤ d ∧ d ≤ 31) :
    Returns (daysFromCivil? y m d) (daysFromCivil y m d) := by
  have hmp : 0 ≤ (m + 9) % 12 ∧ (m + 9) % 12 ≤ 11 := by omega
  have hy' : -10 ^ 9 - 1 ≤ (if m ≤ 2 then y - 1 else y) ∧
      (if m ≤ 2 then y - 1 else y) ≤ 10 ^ 9 := by
    split_ifs <;> omega
  unfold daysFromCivil? daysFromCivil
  refine .bind (.ite (fun _ => returns_sub? ?_) fun _ => .pure) ?_
  · unfold I64 i64Min i64Max
    omega
  generalize (if m ≤ 2 then y - 1 else y) = y at hy' ⊢
  refine .bind (returns_mul? ?_) (.bind (returns_sub? ?_) (.bind (returns_add? ?_)
    (.bind (returns_mul? ?_) (.bind (returns_add? ?_) (.bind (returns_add? ?_)
    (.bind (returns_sub? ?_) (.bind (returns_mul? ?_) (.bind (returns_add? ?_)
    (.bind (returns_sub? ?_) (.bind (returns_add? ?_) (.bind (returns_mul? ?_)
    (.bind (returns_add? ?_) (returns_sub? ?_)))))))))))))
  all_goals
    unfold I64 i64Min i64Max
    omega

/-- The date of a day does not overflow. -/
theorem returns_civilFromDays? {z : ℤ} (hz : -10 ^ 11 ≤ z ∧ z ≤ 10 ^ 11) :
    Returns (civilFromDays? z) (civilFromDays z) := by
  obtain ⟨era, hera⟩ : ∃ era, (z + 719468) / 146097 = era := ⟨_, rfl⟩
  obtain ⟨doe, hdoe⟩ : ∃ doe, z + 719468 - era * 146097 = doe := ⟨_, rfl⟩
  obtain ⟨yoe, hyoe⟩ : ∃ yoe, (doe - doe / 1460 + doe / 36524 - doe / 146096) / 365 = yoe :=
    ⟨_, rfl⟩
  obtain ⟨doy, hdoy⟩ : ∃ doy, doe - (365 * yoe + yoe / 4 - yoe / 100) = doy := ⟨_, rfl⟩
  obtain ⟨mp, hmp⟩ : ∃ mp, (5 * doy + 2) / 153 = mp := ⟨_, rfl⟩
  have hsmall : (-10 ^ 7 ≤ era ∧ era ≤ 10 ^ 7) ∧ 0 ≤ doe ∧ doe ≤ 146096 := by omega
  have hyear : (0 ≤ yoe ∧ yoe < 400) ∧ 0 ≤ doy ∧ doy ≤ 400 := by
    have hday : 0 ≤ doe ∧ doe < 146097 := by omega
    obtain ⟨hbound, hlow, hhigh⟩ := marchYear_spec hday.1 hday.2
    rw [show marchYear doe = yoe from hyoe] at hbound hlow hhigh
    unfold marchStart at hlow hhigh
    omega
  unfold civilFromDays? civilFromDays
  dsimp only
  rw [hera, hdoe, hyoe, hdoy, hmp]
  refine .bind (returns_add? ?_) ?_
  rotate_left
  rw [hera]
  refine .bind (returns_mul? ?_) (.bind (returns_sub? ?_) ?_)
  rotate_left 2
  rw [hdoe]
  refine .bind (returns_sub? ?_) (.bind (returns_add? ?_) (.bind (returns_sub? ?_) ?_))
  rotate_left 3
  rw [hyoe]
  refine .bind (returns_mul? ?_) (.bind (returns_add? ?_) (.bind (returns_mul? ?_)
    (.bind (returns_add? ?_) (.bind (returns_sub? ?_) (.bind (returns_sub? ?_) ?_)))))
  rotate_left 6
  rw [hdoy]
  refine .bind (returns_mul? ?_) (.bind (returns_add? ?_) ?_)
  rotate_left 2
  rw [hmp]
  refine .bind (returns_mul? ?_) (.bind (returns_add? ?_) (.bind (returns_sub? ?_)
    (.bind (returns_add? ?_) (.bind (.ite (fun _ => returns_add? ?_) fun _ => returns_sub? ?_)
      (.bind (.ite (fun _ => returns_add? ?_) fun _ => .pure) .pure)))))
  all_goals
    unfold I64 i64Min i64Max
    omega

theorem returns_weekdayOfDays? {days : ℤ} (h : -10 ^ 12 ≤ days ∧ days ≤ 10 ^ 12) :
    Returns (weekdayOfDays? days) (weekdayOfDays days) := by
  refine .bind (returns_add? ?_) .pure
  unfold I64 i64Min i64Max
  omega

theorem daysBeforeYear_small {y : ℤ} (h : -2 * 10 ^ 8 ≤ y ∧ y ≤ 2 * 10 ^ 8) :
    -10 ^ 11 ≤ daysBeforeYear y ∧ daysBeforeYear y ≤ 10 ^ 11 := by
  unfold daysBeforeYear
  omega

theorem year_small {y z : ℤ} (h : daysBeforeYear y ≤ z) (h' : z < daysBeforeYear (y + 1))
    (hz : -4 * 10 ^ 10 ≤ z ∧ z ≤ 4 * 10 ^ 10) : -2 * 10 ^ 8 ≤ y ∧ y ≤ 2 * 10 ^ 8 := by
  unfold daysBeforeYear at h h'
  omega

theorem returns_nthSunday? {y m n : ℤ} (hy : -2 * 10 ^ 8 ≤ y ∧ y ≤ 2 * 10 ^ 8)
    (hm : 1 ≤ m ∧ m ≤ 12) (hn : 1 ≤ n ∧ n ≤ 5) :
    Returns (nthSunday? y m n) (nthSunday y m n) := by
  have hsmall := daysBeforeYear_small hy
  have hfirst := daysFromCivil_first y hm.1 hm.2
  have hmonth : 0 ≤ daysBeforeMonth y m ∧ daysBeforeMonth y m ≤ 366 := by
    rw [daysBeforeMonth_eq y hm.1 hm.2]
    split_ifs <;> omega
  have hweekday : 0 ≤ weekdayOfDays (daysFromCivil y m 1) ∧
      weekdayOfDays (daysFromCivil y m 1) ≤ 6 := by
    unfold weekdayOfDays
    omega
  refine .bind (returns_daysFromCivil? (by omega) hm (by decide))
    (.bind (returns_weekdayOfDays? (by omega)) (.bind (returns_sub? ?_) (.bind (returns_add? ?_)
      (.bind (returns_sub? ?_) (.bind (returns_mul? ?_) (returns_add? ?_))))))
  all_goals
    unfold I64 i64Min i64Max
    omega

namespace Zone

/-- The offset of a time does not overflow. -/
theorem returns_offsetMinAt? {t : ℤ} (hz : zone.Moderate)
    (ht : -33 * 10 ^ 17 ≤ t ∧ t ≤ 33 * 10 ^ 17) :
    Returns (zone.offsetMinAt? t) (zone.offsetMinAt t) := by
  cases zone with
  | fixed o => exact .pure
  | usDst std =>
    obtain ⟨hlow, hhigh⟩ := hz
    have hday : -4 * 10 ^ 10 ≤ (t + std * 60000) / 86400000 ∧
        (t + std * 60000) / 86400000 ≤ 4 * 10 ^ 10 := by omega
    obtain ⟨d, hd, hn⟩ := civilFromDays_spec ((t + std * 60000) / 86400000)
    have hyear : -2 * 10 ^ 8 ≤ usYear std t ∧ usYear std t ≤ 2 * 10 ^ 8 := by
      unfold usYear msPerMin msPerDay
      rw [hd]
      obtain ⟨hyl, hyh⟩ := d.dayNumber_bounds
      rw [hn] at hyl hyh
      exact year_small hyl hyh hday
    have hsmall := daysBeforeYear_small hyear
    have hstart := usStart_bounds std (usYear std t)
    have hstop := usStop_bounds std (usYear std t)
    unfold usStart at hstart
    unfold usStop at hstop
    generalize hy : usYear std t = y at *
    unfold usYear at hy
    unfold offsetMinAt? offsetMinAt
    dsimp only
    rw [hy]
    unfold msPerMin msPerDay at *
    refine .bind (returns_mul? ?_) (.bind (returns_add? ?_) (.bind
      (returns_civilFromDays? (by omega)) ?_))
    rotate_left 2
    rw [hy]
    refine .bind (returns_nthSunday? hyear (by decide) (by decide)) (.bind (returns_mul? ?_)
      (.bind (returns_add? ?_) (.bind (returns_mul? ?_) (.bind (returns_sub? ?_) ?_))))
    rotate_left 4
    refine .bind (returns_nthSunday? hyear (by decide) (by decide)) (.bind (returns_mul? ?_)
      (.bind (returns_add? ?_) (.bind (returns_add? ?_) (.bind (returns_mul? ?_)
      (.bind (returns_sub? ?_) (.ite (fun _ => if_pos (by omega)) fun _ => .pure))))))
    all_goals
      unfold I64 i64Min i64Max
      omega

theorem offsetMinAt_small (h : zone.Moderate) (t : ℤ) :
    -840 ≤ zone.offsetMinAt t ∧ zone.offsetMinAt t ≤ 900 := by
  cases zone with
  | fixed o =>
    obtain ⟨h, h'⟩ := h
    show -840 ≤ o ∧ o ≤ 900
    omega
  | usDst std =>
    obtain ⟨h, h'⟩ := h
    rw [offsetMinAt_usDst]
    split_ifs <;> omega

theorem returns_localAt? {t : ℤ} (hz : zone.Moderate)
    (ht : -33 * 10 ^ 17 ≤ t ∧ t ≤ 33 * 10 ^ 17) :
    Returns (zone.localAt? t) (zone.localAt t) := by
  have hoff := offsetMinAt_small hz t
  have hdays : -10 ^ 11 ≤ (t + zone.offsetMinAt t * msPerMin) / msPerDay ∧
      (t + zone.offsetMinAt t * msPerMin) / msPerDay ≤ 10 ^ 11 := by
    unfold msPerMin msPerDay
    omega
  refine .bind (returns_offsetMinAt? hz ht) (.bind (returns_mul? ?_) (.bind (returns_add? ?_)
    (.bind (returns_civilFromDays? hdays) (.bind (returns_weekdayOfDays? ?_) .pure))))
  · unfold I64 i64Min i64Max msPerMin
    omega
  · unfold I64 i64Min i64Max msPerMin
    omega
  · omega

theorem returns_validAt? {wall offset : ℤ} (hz : zone.Moderate)
    (hw : -32 * 10 ^ 17 ≤ wall ∧ wall ≤ 32 * 10 ^ 17) (ho : -840 ≤ offset ∧ offset ≤ 900) :
    Returns (zone.validAt? wall offset) (if zone.offsetMinAt (wall - offset * msPerMin) = offset then
      some (wall - offset * msPerMin) else none) := by
  unfold msPerMin
  refine .bind (returns_mul? ?_) (.bind (returns_sub? ?_)
    (.bind (returns_offsetMinAt? hz (by unfold msPerMin; omega)) .pure))
  all_goals
    unfold I64 i64Min i64Max msPerMin
    omega

/-- The time of a wall clock does not overflow. -/
theorem returns_wallToUtc? {d : Date} {hour minute : ℤ} (hz : zone.Moderate)
    (hy : -86 * 10 ^ 6 ≤ d.year ∧ d.year ≤ 86 * 10 ^ 6) (h : 0 ≤ hour ∧ hour < 24)
    (hm : 0 ≤ minute ∧ minute < 60) : Returns (zone.wallToUtc? d.year d.month d.day hour minute)
      (zone.wallToUtc d.year d.month d.day hour minute) := by
  have hday : d.day ≤ 31 := d.day_le.trans (by unfold daysInMonth; split_ifs <;> decide)
  obtain ⟨hlow, hhigh⟩ := d.dayNumber_bounds
  have hn : -32 * 10 ^ 9 ≤ d.dayNumber ∧ d.dayNumber ≤ 32 * 10 ^ 9 := by
    unfold daysBeforeYear at hlow hhigh
    omega
  obtain ⟨wall, hwall⟩ : ∃ wall, daysFromCivil d.year d.month d.day * msPerDay +
      hour * 60 * msPerMin + minute * msPerMin = wall := ⟨_, rfl⟩
  have hw : -32 * 10 ^ 17 ≤ wall ∧ wall ≤ 32 * 10 ^ 17 := by
    rw [daysFromCivil_eq] at hwall
    unfold msPerDay msPerMin at hwall
    omega
  have hbefore := offsetMinAt_small hz (wall - msPerDay)
  have hafter := offsetMinAt_small hz (wall + msPerDay)
  unfold wallToUtc? wallToUtc
  dsimp only
  rw [hwall]
  refine .bind (returns_daysFromCivil? (by omega) ⟨d.month_pos, d.month_le⟩ ⟨d.day_pos, hday⟩) ?_
  rw [daysFromCivil_eq] at hwall ⊢
  refine .bind (returns_mul? ?_) (.bind (returns_mul? ?_) (.bind (returns_mul? ?_)
    (.bind (returns_add? ?_) (.bind (returns_mul? ?_) (.bind (returns_add? ?_) ?_)))))
  rotate_left 6
  rw [hwall]
  refine .bind (returns_sub? ?_) (.bind (returns_offsetMinAt? hz ?_) (.bind (returns_add? ?_)
    (.bind (returns_offsetMinAt? hz ?_) (.bind (returns_validAt? hz hw hbefore)
      (.bind (returns_validAt? hz hw hafter) ?_)))))
  rotate_left 4
  · split_ifs
    · exact .pure
    · exact .pure
    · exact .pure
    · refine .bind (returns_mul? ?_) (returns_sub? ?_)
      all_goals
        unfold I64 i64Min i64Max msPerMin
        omega
  all_goals
    unfold msPerDay msPerMin at *
    try unfold I64 i64Min i64Max
    omega

end Zone

end

open Zone in
/-- **Wall-clock conversion is right in every zone.**  A wall time that some instant shows is
resolved to the first of them, which shows the same date and weekday; one that is skipped is
resolved to the instant that shows an hour more; and every instant shows a valid date with its
weekday.  In 64 bits this is what is computed, for the years within 86 million. -/
theorem wall_clock_right {zone : Zone} {spec : String} (hz : Zone.parse spec = some zone) :
    (∀ (d : Date) (hour minute : ℤ), 0 ≤ hour → hour < 24 → 0 ≤ minute → minute < 60 →
      ((∃ t, zone.Shows t d hour minute) →
        IsLeast {t | zone.Shows t d hour minute}
          (zone.wallToUtc d.year d.month d.day hour minute) ∧
        zone.localAt (zone.wallToUtc d.year d.month d.day hour minute) =
          ⟨d.year, d.month, d.day, hour, minute, d.weekday⟩) ∧
      ((¬∃ t, zone.Shows t d hour minute) →
        reading zone.offsetMs (zone.wallToUtc d.year d.month d.day hour minute) =
          wallMs d hour minute + 60 * msPerMin) ∧
      (-86 * 10 ^ 6 ≤ d.year → d.year ≤ 86 * 10 ^ 6 →
        zone.wallToUtc? d.year d.month d.day hour minute =
          some (zone.wallToUtc d.year d.month d.day hour minute))) ∧
    ∀ t, (∃ (d : Date) (hour minute : ℤ),
        zone.localAt t = ⟨d.year, d.month, d.day, hour, minute, d.weekday⟩ ∧
          (0 ≤ hour ∧ hour < 24) ∧ 0 ≤ minute ∧ minute < 60) ∧
      (-33 * 10 ^ 17 ≤ t → t ≤ 33 * 10 ^ 17 → zone.localAt? t = some (zone.localAt t)) := by
  have hmoderate := moderate_of_parse hz
  refine ⟨fun d hour minute h h' hm hm' => ⟨fun hex => ?_, fun hno => ?_, fun hy hy' => ?_⟩,
    fun t => ⟨localAt_valid zone t, fun ht ht' => returns_localAt? hmoderate ⟨ht, ht'⟩⟩⟩
  · have hleast := wallToUtc_isLeast hmoderate h h' hm hm' hex
    have hshows : zone.Shows _ d hour minute := hleast.1
    exact ⟨hleast, Local.ext hshows.1 hshows.2.1 hshows.2.2.1 hshows.2.2.2.1 hshows.2.2.2.2
      hshows.weekday⟩
  · exact reading_wallToUtc hmoderate h h' hm hm' hno
  · exact returns_wallToUtc? hmoderate ⟨hy, hy'⟩ ⟨h, h'⟩ ⟨hm, hm'⟩

/-- The first of November 2026, on which daylight time ends. -/
def fallBack : Date := .ofNumbers 2026 11 1 (by decide)

/-- Half past one is shown twice on that day; the first time, at 08:30 UTC, is found. -/
theorem wall_clock_right_fallBack :
    (Zone.usDst (-480)).wallToUtc 2026 11 1 1 30 = 1793521800000 ∧
      IsLeast {t | (Zone.usDst (-480)).Shows t fallBack 1 30}
        ((Zone.usDst (-480)).wallToUtc 2026 11 1 1 30) := by
  have hparse : Zone.parse "us:-480" = some (.usDst (-480)) := by decide +kernel
  have hshown : (Zone.usDst (-480)).Shows 1793525400000 fallBack 1 30 := by
    unfold Zone.Shows
    decide +kernel
  exact ⟨by decide +kernel, (((wall_clock_right hparse).1 fallBack 1 30 (by decide) (by decide)
    (by decide) (by decide)).1 ⟨_, hshown⟩).1⟩

/-- Half past two is skipped on the eighth of March: half past three is found. -/
example : (Zone.usDst (-480)).wallToUtc 2026 3 8 2 30 = 1772965800000 := by decide +kernel

end U2os.Majordomo.Scheduler
