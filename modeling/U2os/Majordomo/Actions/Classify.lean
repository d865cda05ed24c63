import Mathlib.Tactic.Common

/-!
# Error classes and the retry policy

`actions/classify.rs`: what class an error of a capability has, how long a retry waits and what
a failed attempt turns into.  Milliseconds are `i64` in the source and saturate; here they are
integers with `satAdd` and `satMul`.
-/

namespace U2os.Majordomo

def i64Max : Int := 9223372036854775807

def i64Min : Int := -9223372036854775808

/-- An integer brought into the range of an `i64`. -/
def saturate (n : Int) : Int := max i64Min (min i64Max n)

/-- `i64::saturating_add`. -/
def satAdd (a b : Int) : Int := saturate (a + b)

/-- `i64::saturating_mul`. -/
def satMul (a b : Int) : Int := saturate (a * b)

/-- What kind of error an attempt failed with. -/
inductive ErrorClass where
  | retryable
  | nonRetryable
  | authenticationRequired
  | ownerAttentionRequired
  | recoveryReviewRequired
  | outcomeUncertain
  deriving DecidableEq, Repr

namespace ErrorClass

/-- The stored name. -/
def asStr : ErrorClass → String
  | retryable => "retryable"
  | nonRetryable => "non_retryable"
  | authenticationRequired => "authentication_required"
  | ownerAttentionRequired => "owner_attention_required"
  | recoveryReviewRequired => "recovery_review_required"
  | outcomeUncertain => "outcome_uncertain"

/-- The class with a stored name. -/
def parse (text : String) : Option ErrorClass :=
  [retryable, nonRetryable, authenticationRequired, ownerAttentionRequired,
    recoveryReviewRequired, outcomeUncertain].find? fun c => c.asStr = text

end ErrorClass

/-- The fields of an error that classification looks at. -/
structure ErrorInfo where
  /-- A class the error names itself. -/
  actionErrorClass : Option String := none
  /-- The error asks for the owner. -/
  ownerAttentionRequired : Bool := false
  /-- The error code. -/
  code : Option String := none
  /-- The response status. -/
  status : Option Int := none
  deriving DecidableEq, Repr

def retryableCodes : List String :=
  ["ETIMEDOUT", "ECONNRESET", "ECONNREFUSED", "ENETUNREACH", "EAI_AGAIN"]

def authCodes : List String := ["EAUTH", "UNAUTHENTICATED", "INVALID_CREDENTIALS"]

/-- The class of an error; `toUppercase` is the Unicode one of the standard library. -/
def classify (toUppercase : String → String) (info : ErrorInfo) : ErrorClass :=
  match info.actionErrorClass.bind ErrorClass.parse with
  | some c => c
  | none =>
    if info.ownerAttentionRequired then .ownerAttentionRequired
    else
      let code := toUppercase (info.code.getD "")
      let status := info.status.getD 0
      if code ∈ authCodes ∨ status = 401 ∨ status = 403 then .authenticationRequired
      else if code ∈ retryableCodes ∨ status = 408 ∨ status = 429 ∨ 500 ≤ status then .retryable
      else .nonRetryable

/-- `1i64.checked_shl(n).unwrap_or(i64::MAX)`: the shift by 63 reaches the sign bit. -/
def shiftFactor (n : ℕ) : Int :=
  if n < 63 then ((1 <<< n : ℕ) : Int) else if n = 63 then i64Min else i64Max

/-- `min(max, base * 2^(attempt-1))`, or nothing for invalid inputs. -/
def retryDelayMs (attemptNumber : ℕ) (baseMs maxMs : Int) : Option Int :=
  if attemptNumber < 1 ∨ baseMs ≤ 0 ∨ maxMs ≤ 0 then none
  else some (min maxMs (satMul baseMs (shiftFactor (attemptNumber - 1))))

/-- How often and how fast an attempt is repeated. -/
structure RetryPolicy where
  /-- The attempts before an action is a dead letter. -/
  maxAttempts : ℕ := 5
  /-- The first delay. -/
  baseDelayMs : Int := 1000
  /-- The largest delay. -/
  maxDelayMs : Int := 60000
  deriving DecidableEq, Repr

/-- What a failed attempt turns into. -/
inductive FailureOutcome where
  | retry
  | deadLetter
  | terminal
  | uncertain
  deriving DecidableEq, Repr

/-- The outcome of attempt `attemptNumber` failing with class `c`. -/
def failureOutcome (c : ErrorClass) (attemptNumber maxAttempts : ℕ) : FailureOutcome :=
  match c with
  | .retryable => if attemptNumber < maxAttempts then .retry else .deadLetter
  | .outcomeUncertain => .uncertain
  | _ => .terminal

theorem failureOutcome_eq_retry {c : ErrorClass} {n m : ℕ} :
    failureOutcome c n m = .retry ↔ c = .retryable ∧ n < m := by
  cases c <;> simp [failureOutcome]

end U2os.Majordomo
