import OlaCore.Lib.Binary32

set_option relaxedAutoImplicit false
set_option autoImplicit false

/-!
# Requests, results, contexts and decisions

The data that the daemon passes between its parts (`core/types`): the challenge sent to an
adapter, the evidence it returns, the context that policy evaluates and the decision.

Fixed-size arrays are `Vector`s, machine integers the `UInt` types, and an `f32` is its bit
pattern. Rust strings are Lean strings; their bytes are `ByteText.utf8`.

## Main definitions

* `OlaCore.validateName`, `OlaCore.validateMethodName`, `OlaCore.validateAdapterName` — the
  identifier rules.
* `OlaCore.AuthMethod` — authentication methods, with `asStr` and the parser `ofStr`.
* `OlaCore.VerificationRequest`, `OlaCore.VerificationResult`, `OlaCore.AuthContext`.
* `OlaCore.PolicyDecision`, `OlaCore.DenyReason` — decisions, with their debug text.
-/

namespace OlaCore

open ByteText

/-! ## Identifiers -/

/-- The longest accepted identifier, in bytes. -/
def maxNameLen : ℕ := 64

/-- Why an identifier is refused. -/
inductive NameError where
  | empty
  | whitespace
  | reservedAny
  | tooLong
  | invalidChars
  deriving DecidableEq

/-- The message of a refused identifier, for the given label. -/
def NameError.describe (label : String) : NameError → String
  | .empty => label ++ " must not be empty"
  | .whitespace => label ++ " must not contain leading or trailing whitespace"
  | .reservedAny => label ++ " 'any' is reserved"
  | .tooLong => label ++ " must be at most " ++ toString maxNameLen ++ " bytes"
  | .invalidChars => label ++ " must use ASCII letters, digits, '_', '-', or '.'"

/-- The Unicode property `White_Space`, which `str::trim` strips. -/
def isWhiteSpace (c : Char) : Bool :=
  let n := c.toNat
  (9 ≤ n && n ≤ 13) || n = 0x20 || n = 0x85 || n = 0xa0 || n = 0x1680 ||
    (0x2000 ≤ n && n ≤ 0x200a) || n = 0x2028 || n = 0x2029 || n = 0x202f || n = 0x205f || n = 0x3000

/-- A string without leading and trailing whitespace. -/
def trim (s : String) : String :=
  String.ofList ((s.toList.dropWhile isWhiteSpace).reverse.dropWhile isWhiteSpace).reverse

/-- An unsigned integer below `bound`, as `str::parse` reads it: an optional `+`, then decimal
digits only, at least one. -/
def parseUnsigned (bound : ℕ) (s : String) : Option ℕ :=
  let digits := if s.toList.head? = some '+' then s.toList.tail else s.toList
  if digits ≠ [] ∧ digits.all Char.isDigit ∧ Nat.ofDigitChars 10 digits 0 < bound then
    some (Nat.ofDigitChars 10 digits 0)
  else none

/-- ASCII letters and digits. -/
def isAsciiAlphanumeric (b : UInt8) : Bool :=
  (48 ≤ b && b ≤ 57) || (65 ≤ b && b ≤ 90) || (97 ≤ b && b ≤ 122)

/-- The bytes an identifier may hold. -/
def isNameByte (b : UInt8) : Bool := isAsciiAlphanumeric b || b = 95 || b = 45 || b = 46

/-- The identifier rules, in the order they are checked. -/
def validateName (value : String) (allowAny : Bool) : Except NameError Unit :=
  if value = "" then .error .empty
  else if trim value ≠ value then .error .whitespace
  else if value = "any" ∧ allowAny = false then .error .reservedAny
  else if maxNameLen < (utf8 value).length then .error .tooLong
  else if ¬ (utf8 value).all isNameByte then .error .invalidChars
  else .ok ()

/-- Method names; `any` only where it is a wildcard. -/
def validateMethodName (method : String) (allowAny : Bool) : Except String Unit :=
  (validateName method allowAny).mapError (NameError.describe "method")

/-- Adapter names. -/
def validateAdapterName (name : String) : Except String Unit :=
  (validateName name false).mapError (NameError.describe "adapter name")

/-! ## Requests and results -/

/-- A single-use challenge. -/
abbrev Nonce := Vector UInt8 32

/-- A request identifier. -/
abbrev Uuid := Vector UInt8 16

/-- Authentication methods. `other` is an adapter-declared name. -/
inductive AuthMethod where
  | libfprint
  | fido2
  | pin
  | other (value : String)
  deriving DecidableEq

/-- The name of a method. -/
def AuthMethod.asStr : AuthMethod → String
  | .libfprint => "libfprint"
  | .fido2 => "fido2"
  | .pin => "pin"
  | .other value => value

/-- The method of a name, as its deserialisation accepts it. -/
def AuthMethod.ofStr (raw : String) : Except String AuthMethod :=
  if raw = "libfprint" then .ok .libfprint
  else if raw = "fido2" then .ok .fido2
  else if raw = "pin" then .ok .pin
  else if raw = "any" then .error "'any' is only valid as a wildcard policy selector"
  else (validateMethodName raw false).map fun _ => .other raw

/-- The challenge that the daemon sends to an adapter. -/
structure VerificationRequest where
  version : UInt8
  id : Uuid
  uid : UInt32
  nonce : Nonce
  deadlineMs : UInt64
  deriving DecidableEq

/-- The evidence that an adapter returns. -/
structure VerificationResult where
  version : UInt8
  id : Uuid
  confidence : Binary32
  method : AuthMethod
  timestampMs : UInt64
  uid : UInt32
  nonce : Nonce
  evidenceHash : Vector UInt8 32
  deriving DecidableEq

/-! ## Decisions -/

/-- Why policy denies. -/
inductive DenyReason where
  | confidenceTooLow (got required : Binary32)
  | invalidConfidence (got : Binary32)
  | resultTooOld (ageMs maxAgeMs : UInt64)
  | resultAgeWindowOverflow
  | resultFromFuture (skewMs : UInt64)
  | uidMismatch (claimed resultUid : UInt32)
  | noMatchingRule
  deriving DecidableEq

/-- The debug text of a reason (`{reason:?}`), which the audit log and the client get. -/
def DenyReason.debug : DenyReason → String
  | .confidenceTooLow got required =>
    "ConfidenceTooLow \x7b got: " ++ got.debug ++ ", required: " ++ required.debug ++ " \x7d"
  | .invalidConfidence got => "InvalidConfidence \x7b got: " ++ got.debug ++ " \x7d"
  | .resultTooOld ageMs maxAgeMs =>
    "ResultTooOld \x7b age_ms: " ++ toString ageMs ++ ", max_age_ms: " ++ toString maxAgeMs ++
      " \x7d"
  | .resultAgeWindowOverflow => "ResultAgeWindowOverflow"
  | .resultFromFuture skewMs => "ResultFromFuture \x7b skew_ms: " ++ toString skewMs ++ " \x7d"
  | .uidMismatch claimed resultUid =>
    "UidMismatch \x7b claimed: " ++ toString claimed ++ ", result_uid: " ++ toString resultUid ++
      " \x7d"
  | .noMatchingRule => "NoMatchingRule"

/-- The outcome of policy evaluation. -/
inductive PolicyDecision where
  | allow
  | deny (reason : DenyReason)
  deriving DecidableEq

/-- What policy evaluates, and its decision once it has been made. -/
structure AuthContext where
  uid : UInt32
  method : String
  request : VerificationRequest
  result : VerificationResult
  decision : Option PolicyDecision

end OlaCore
