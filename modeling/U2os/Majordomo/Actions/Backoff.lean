import Mathlib.Order.Lattice.Nat
import U2os.Lib.JsNumber
import U2os.Majordomo.Actions.Invariant
import U2os.Server.Agent.ActionQueue

/-!
# Backing off

How long a failed attempt waits.  The factor of the delay is a shift: the one by 63 places reaches
the sign bit of an `i64`, so that the delay of the attempt 64 is negative; from the attempt 65 on the
shift is refused and the factor is the largest there is.
-/

namespace U2os

namespace Server.Agent

/-- `retryDelayMs` with both delays given: whole numbers, since they are compared with `i64`s. -/
def retryDelayOf (attemptNumber baseDelayMs maxDelayMs : ℕ) : Option (WithTop ℕ) :=
  if attemptNumber < 1 ∨ baseDelayMs = 0 ∨ maxDelayMs = 0 then none
  else some (min (maxDelayMs : WithTop ℕ)
    (JsNumber.mul baseDelayMs (JsNumber.pow2 (attemptNumber - 1))))

variable {n base cap : ℕ}

theorem retryDelayOf_eq (hn : 1 ≤ n) (hbase : 0 < base) (hcap : 0 < cap)
    (hkept : JsNumber.IsKept base) (hcapped : JsNumber.IsKept cap) :
    retryDelayOf n base cap = some ((min cap (base * 2 ^ (n - 1)) : ℕ) : WithTop ℕ) := by
  unfold retryDelayOf
  rw [if_neg (by omega), JsNumber.mul_pow2 hkept hbase]
  split_ifs with hlt
  · exact congrArg some (WithTop.coe_min cap (base * 2 ^ (n - 1))).symm
  · have hle : cap ≤ base * 2 ^ (n - 1) := hcapped.1.le.trans (not_lt.1 hlt)
    rw [min_eq_left hle, min_eq_left le_top]

end Server.Agent

namespace Majordomo

variable {n : ℕ} {base cap : Int}

theorem shiftFactor_of_lt (h : n < 63) : shiftFactor n = 2 ^ n := by
  rw [shiftFactor, if_pos h, Nat.one_shiftLeft]
  norm_cast

theorem shiftFactor_of_gt (h : 63 < n) : shiftFactor n = i64Max := by
  rw [shiftFactor, if_neg (by omega), if_neg (by omega)]

theorem min_satMul_of_nonneg {x : Int} (hx : 0 ≤ x) (hcap : cap ≤ i64Max) :
    min cap (saturate x) = min cap x := by
  unfold saturate i64Min i64Max at *
  omega

theorem two_pow_ge (h : 63 ≤ n) : i64Max < 2 ^ n := by
  have hpow : (2 : Int) ^ 63 ≤ 2 ^ n := pow_le_pow_right₀ (by decide) h
  exact lt_of_lt_of_le (by decide) hpow

theorem retryDelayMs_of_ne (hn : 1 ≤ n) (h64 : n ≠ 64) (hbase : 0 < base) (hcap : 0 < cap)
    (hmax : cap ≤ i64Max) : retryDelayMs n base cap = some (min cap (base * 2 ^ (n - 1))) := by
  unfold retryDelayMs satMul
  rw [if_neg (by omega)]
  rcases Nat.lt_or_ge n 64 with hlt | hge
  · have hpos : (0 : Int) < 2 ^ (n - 1) := by positivity
    rw [shiftFactor_of_lt (by omega), min_satMul_of_nonneg (mul_pos hbase hpos).le hmax]
  · -- The factor is replaced by the largest there is, and both products pass the cap.
    have hfactor : base * i64Max ≥ i64Max := le_mul_of_one_le_left (by decide) hbase
    have hpow : i64Max < 2 ^ (n - 1) := two_pow_ge (by omega)
    have hexact : 2 ^ (n - 1) ≤ base * 2 ^ (n - 1) :=
      le_mul_of_one_le_left (by positivity) hbase
    rw [shiftFactor_of_gt (by omega), min_satMul_of_nonneg (le_trans (by decide) hfactor) hmax,
      min_eq_left (hmax.trans hfactor), min_eq_left (hmax.trans (hpow.le.trans hexact))]

theorem retryDelayMs_64 (hbase : 0 < base) (hcap : 0 < cap) :
    retryDelayMs 64 base cap = some i64Min := by
  have hfactor : base * i64Min ≤ i64Min := by
    unfold i64Min
    omega
  have hsat : saturate (base * i64Min) = i64Min := by
    unfold saturate i64Min i64Max at *
    omega
  unfold retryDelayMs satMul
  rw [if_neg (by omega), show shiftFactor (64 - 1) = i64Min from rfl, hsat,
    min_eq_right (le_trans (by decide) hcap.le)]

/-- The delay of the attempt `n` is the capped exponential one. -/
structure BacksOff (n : ℕ) (base cap : Int) : Prop where
  exact : retryDelayMs n base cap = some (min cap (base * 2 ^ (n - 1)))
  positive : ∀ d ∈ retryDelayMs n base cap, 0 < d ∧ d ≤ cap
  monotone : ∀ m d e, 1 ≤ m → m ≤ n → retryDelayMs m base cap = some d →
    retryDelayMs n base cap = some e → d ≤ e
  /-- Node waits as long, where its numbers have both delays. -/
  node : ∀ b c : ℕ, base = b → cap = c → JsNumber.IsKept b → JsNumber.IsKept c →
    ∃ d : ℕ, retryDelayMs n base cap = some (d : Int) ∧
      Server.Agent.retryDelayOf n b c = some (d : WithTop ℕ)

/-- **The delay is the capped exponential one, except for the attempt 64.** -/
theorem backsOff_iff (hn : 1 ≤ n) (hbase : 0 < base) (hcap : 0 < cap) (hmax : cap ≤ i64Max) :
    BacksOff n base cap ↔ n ≠ 64 := by
  constructor
  · rintro h rfl
    have hpos := (h.positive _ (retryDelayMs_64 hbase hcap)).1
    exact absurd hpos (by decide)
  · intro h64
    have hexact := retryDelayMs_of_ne hn h64 hbase hcap hmax
    have hpow (m : ℕ) : (0 : Int) < base * 2 ^ m := mul_pos hbase (by positivity)
    refine ⟨hexact, fun d hd => ?_, fun m d e hm hle hd he => ?_, ?_⟩
    · obtain rfl := Option.some.inj (hexact.symm.trans hd)
      exact ⟨lt_min hcap (hpow _), min_le_left _ _⟩
    · obtain rfl := Option.some.inj (hexact.symm.trans he)
      by_cases hm64 : m = 64
      · subst hm64
        obtain rfl := Option.some.inj ((retryDelayMs_64 hbase hcap).symm.trans hd)
        exact le_trans (by decide) (lt_min hcap (hpow _)).le
      · obtain rfl := Option.some.inj ((retryDelayMs_of_ne hm hm64 hbase hcap hmax).symm.trans hd)
        have hgrow : (2 : Int) ^ (m - 1) ≤ 2 ^ (n - 1) :=
          pow_le_pow_right₀ (by decide) (by omega)
        exact min_le_min_left _ (mul_le_mul_of_nonneg_left hgrow hbase.le)
    · rintro b c rfl rfl hb hc
      refine ⟨min c (b * 2 ^ (n - 1)), ?_, ?_⟩
      · rw [hexact]
        norm_cast
      · exact Server.Agent.retryDelayOf_eq hn (by omega) (by omega) hb hc

theorem settled_row {attemptId owner : String} {now : Int} {choose : Attempt → Settlement}
    {r : Action} {s s' : Session} (h : (settle attemptId owner now choose).Ok s r s') :
    ∃ a t, a ∈ s.db.actions ∧ t ∈ s.db.attempts ∧ t.id = attemptId ∧ t.actionId = a.id ∧
      next a.status (choose t).trigger = .ok r.status ∧
      r.nextAttemptAtMs =
        if 0 < (choose t).nextAttempt then (choose t).nextAttempt else a.nextAttemptAtMs := by
  simp only [settle, Tx.ok_bind, Tx.ok_ensure, Tx.ok_pure] at h
  obtain ⟨t, _, hload, _, _, ⟨-, rfl⟩, a', u, htr, _, v, -, rfl, -⟩ := h
  obtain ⟨ht, htid, rfl⟩ := loadAttempt_ok hload
  obtain ⟨a, a₁, to_, ev, log, hmem, hid, hn, hmut, rfl, -⟩ :=
    transition_ok htr fun _ _ => settleRow_sameRequest
  obtain ⟨-, rfl⟩ := settleRow_ok hmut
  exact ⟨a, t, hmem, ht, htid, hid.symm, hn, rfl⟩

theorem trigger_of_retryWait {f : Status} {g : Trigger} (h : next f g = .ok .retryWait) :
    g = .failRetry := by
  have htable : ∀ e ∈ transitions, e.2.2 = .retryWait → e.2.1 = .failRetry := by decide
  exact htable _ (next_eq_ok.1 h) rfl

theorem nextAttempt_of_retry {error : String} {class_ : ErrorClass} {policy : RetryPolicy}
    {now : Int} {t : Attempt}
    (h : (failSettlement error class_ policy now t).trigger = .failRetry) :
    (failSettlement error class_ policy now t).nextAttempt =
      satAdd now ((retryDelayMs t.attemptNumber policy.baseDelayMs policy.maxDelayMs).getD
        policy.maxDelayMs) := by
  unfold failSettlement at h ⊢
  cases hf : failureOutcome class_ t.attemptNumber policy.maxAttempts with
  | retry => rfl
  | deadLetter => rw [hf] at h; cases h
  | terminal => rw [hf] at h; cases h
  | uncertain => rw [hf] at h; cases h

/-- The next attempt waits for the delay of its number, up to the cap. -/
theorem le_nextAttempt_iff {now old : Int} (hn : 1 ≤ n) (hbase : 0 < base) (hcap : 0 < cap)
    (hmax : cap ≤ i64Max) (hnow : now ≤ i64Max) :
    (now + min cap base ≤
        if 0 < satAdd now ((retryDelayMs n base cap).getD cap) then
          satAdd now ((retryDelayMs n base cap).getD cap)
        else old) ↔
      if n = 64 ∨ now + min cap (base * 2 ^ (n - 1)) ≤ 0 then now + min cap base ≤ old
      else now + min cap base ≤ i64Max := by
  by_cases h64 : n = 64
  · subst h64
    have hpast : ¬0 < satAdd now i64Min := by
      unfold satAdd saturate i64Min i64Max at *
      omega
    rw [retryDelayMs_64 hbase hcap, Option.getD_some, if_neg hpast, if_pos (.inl rfl)]
  · have hfactor : base ≤ base * 2 ^ (n - 1) :=
      le_mul_of_one_le_right hbase.le (one_le_pow₀ (by decide))
    rw [retryDelayMs_of_ne hn h64 hbase hcap hmax, Option.getD_some]
    generalize base * 2 ^ (n - 1) = delay at hfactor ⊢
    unfold satAdd saturate i64Min i64Max at *
    split_ifs <;> omega

/-- **The delay is the capped exponential one, except for the attempt 64; and an attempt that is to be
retried is not due before the smallest delay is over, but for that attempt, for times before 1970 and
for times past the largest.** -/
theorem retries_back_off (sha256 : String → String) :
    (∀ n base cap, 1 ≤ n → 0 < base → 0 < cap → cap ≤ i64Max →
      (BacksOff n base cap ↔ n ≠ 64)) ∧
      ∀ (calls : List Call) (s s' : Session) (attemptId owner error : String)
        (class_ : ErrorClass) (policy : RetryPolicy) (now : Int) (r : Action),
        (actionStore sha256).Run calls s.db → policy.maxDelayMs ≤ i64Max → now ≤ i64Max →
        (failAttempt attemptId owner error class_ policy now).Ok s r s' → r.status = .retryWait →
        ∃ a ∈ s.db.actions, ∃ t ∈ s.db.attempts, t.id = attemptId ∧ t.actionId = a.id ∧
          (now + min policy.maxDelayMs policy.baseDelayMs ≤ r.nextAttemptAtMs ↔
            if t.attemptNumber = 64 ∨
                now + min policy.maxDelayMs (policy.baseDelayMs * 2 ^ (t.attemptNumber - 1)) ≤ 0
            then now + min policy.maxDelayMs policy.baseDelayMs ≤ a.nextAttemptAtMs
            else now + min policy.maxDelayMs policy.baseDelayMs ≤ i64Max) := by
  refine ⟨fun n base cap => backsOff_iff, ?_⟩
  intro calls s s' attemptId owner error class_ policy now r hrun hmax hnow h hr
  simp only [failAttempt, Tx.ok_bind, Tx.ok_ensure] at h
  obtain ⟨_, _, ⟨-, rfl⟩, _, _, ⟨hvalid, rfl⟩, h⟩ := h
  obtain ⟨a, t, ha, ht, htid, hact, hnext, hdue⟩ := settled_row h
  have hpos : 0 < policy.baseDelayMs ∧ 0 < policy.maxDelayMs := by
    unfold retryDelayMs at hvalid
    split_ifs at hvalid with hbad
    · exact absurd rfl hvalid
    · omega
  have hnum : 1 ≤ t.attemptNumber :=
    ((((actionStore_consistent hrun).actions a ha).numbered t.attemptNumber).1
      ⟨t, ht, hact, rfl⟩).1
  rw [hr] at hnext
  rw [nextAttempt_of_retry (trigger_of_retryWait hnext)] at hdue
  refine ⟨a, ha, t, ht, htid, hact, ?_⟩
  rw [hdue]
  exact le_nextAttempt_iff hnum hpos.1 hpos.2 hmax hnow

/-- The worker of an action that begins an attempt. -/
def busyWorker : List (Op × Int × List Word) :=
  [(.submit { tool := "mail", arguments := .null, actionId := some "a" }, 0, words [1]),
    (.lease none "w" 10, 1, words [2]), (.beginAttempt "a" "w", 2, words [3, 4])]

theorem retries_back_off_busyWorker :
    (BacksOff 7 1000 60000 ↔ 7 ≠ 64) ∧ ∃ r s', ∃ policy : RetryPolicy,
      (failAttempt "att_0000000000000004" "w" "busy" .retryable policy 3).Ok
        ⟨(script nullDigest Db.empty busyWorker).2, words [5]⟩ r s' ∧
      ∃ a ∈ (script nullDigest Db.empty busyWorker).2.actions,
        ∃ t ∈ (script nullDigest Db.empty busyWorker).2.attempts,
          t.id = "att_0000000000000004" ∧ t.actionId = a.id ∧
          (3 + min policy.maxDelayMs policy.baseDelayMs ≤ r.nextAttemptAtMs ↔
            if t.attemptNumber = 64 ∨
                3 + min policy.maxDelayMs (policy.baseDelayMs * 2 ^ (t.attemptNumber - 1)) ≤ 0
            then 3 + min policy.maxDelayMs policy.baseDelayMs ≤ a.nextAttemptAtMs
            else 3 + min policy.maxDelayMs policy.baseDelayMs ≤ i64Max) := by
  have hretried : (((failAttempt "att_0000000000000004" "w" "busy" .retryable {} 3).run
      ⟨(script nullDigest Db.empty busyWorker).2, words [5]⟩).toOption.any
        fun out => out.1.status = .retryWait) = true := by decide +kernel
  obtain ⟨out, hout, hstatus⟩ := (Option.any_eq_true _ _).1 hretried
  have hok : (failAttempt "att_0000000000000004" "w" "busy" .retryable {} 3).Ok
      ⟨(script nullDigest Db.empty busyWorker).2, words [5]⟩ out.1 out.2 := by
    unfold Tx.Ok
    cases hrun : (failAttempt "att_0000000000000004" "w" "busy" .retryable {} 3).run
        ⟨(script nullDigest Db.empty busyWorker).2, words [5]⟩ with
    | error e => rw [hrun] at hout; cases hout
    | ok r => rw [hrun] at hout; cases hout; rfl
  have hrun : (actionStore nullDigest).Run (script nullDigest Db.empty busyWorker).1
      (script nullDigest Db.empty busyWorker).2 := steps_script nullDigest Db.empty busyWorker
  generalize (script nullDigest Db.empty busyWorker).1 = calls at hrun
  generalize (script nullDigest Db.empty busyWorker).2 = db at hrun hok ⊢
  exact ⟨(retries_back_off nullDigest).1 7 1000 60000 (by decide) (by decide) (by decide)
      (by decide), out.1, out.2, {}, hok,
    (retries_back_off nullDigest).2 calls ⟨db, words [5]⟩ out.2 _ _ _ _ {} 3 out.1 hrun
      (by decide) (by decide) hok (of_decide_eq_true hstatus)⟩

/-- The attempt 64 is retried at once. -/
theorem attempt_64_not_backing_off : ¬BacksOff 64 1000 60000 := by
  intro h
  have hexact : retryDelayMs 64 1000 60000 = some (min 60000 (1000 * 2 ^ (64 - 1))) := h.exact
  exact absurd hexact (by decide)

end Majordomo

end U2os
