import OlaCore.Core.Types

set_option relaxedAutoImplicit false
set_option autoImplicit false

/-!
# Policy evaluation

The engine (`core/policy`) selects the first rule that matches the method of the result and
checks the age and the confidence of the result, and the user that it is about. The clock reading
is an argument.

## Main definitions

* `OlaCore.PolicyRule`, `OlaCore.PolicyEngine`.
* `OlaCore.PolicyEngine.evaluate` — the decision.
-/

namespace OlaCore

/-- A rule: the method it is for (none for a wildcard) and what it demands of a result. -/
structure PolicyRule where
  method : Option AuthMethod
  minConfidence : Binary32
  maxAgeSecs : UInt64
  requireUidMatch : Bool
  deriving DecidableEq

/-- The rules in the order in which they are tried, and the cap on every rule's maximal age. -/
structure PolicyEngine where
  rules : List PolicyRule
  maxResultAgeSecs : UInt64
  deriving DecidableEq

/-- Does the rule apply to the method of the result? -/
def ruleMatches (rule : PolicyRule) (result : VerificationResult) : Bool :=
  match rule.method with
  | none => true
  | some m => m = result.method

/-- `0.0` as a single-precision number. -/
def f32Zero : Binary32 := ⟨0⟩

/-- `1.0` as a single-precision number. -/
def f32One : Binary32 := ⟨0x3f800000⟩

/-- The product by a thousand, if it fits in 64 bits. -/
def checkedMul1000 (secs : UInt64) : Option UInt64 :=
  if secs.toNat * 1000 < 2 ^ 64 then some (secs * 1000) else none

/-- The decision on a context at the time `nowMs`. -/
def PolicyEngine.evaluate (engine : PolicyEngine) (nowMs : UInt64) (context : AuthContext) :
    PolicyDecision :=
  let result := context.result
  let request := context.request
  match engine.rules.find? (ruleMatches · result) with
  | none => .deny .noMatchingRule
  | some rule =>
    if nowMs < result.timestampMs then .deny (.resultFromFuture (result.timestampMs - nowMs))
    else
      let ageMs := nowMs - result.timestampMs
      let maxAgeSecs := min rule.maxAgeSecs engine.maxResultAgeSecs
      match checkedMul1000 maxAgeSecs with
      | none => .deny .resultAgeWindowOverflow
      | some maxAgeMs =>
        if maxAgeMs < ageMs then .deny (.resultTooOld ageMs maxAgeMs)
        else if !result.confidence.isFinite ||
            !(f32Zero.le result.confidence && result.confidence.le f32One) then
          .deny (.invalidConfidence result.confidence)
        else if result.confidence.lt rule.minConfidence then
          .deny (.confidenceTooLow result.confidence rule.minConfidence)
        else if rule.requireUidMatch && result.uid ≠ request.uid then
          .deny (.uidMismatch request.uid result.uid)
        else .allow

end OlaCore
