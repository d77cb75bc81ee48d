import OlaCore.Core.Types
import OlaCore.Lib.Checks

set_option relaxedAutoImplicit false
set_option autoImplicit false

/-!
# The configuration of the daemon

The daemon is configured by environment variables (`config`). A variable that is absent has a
default, and a number that cannot be used stops the daemon before it starts.

## Main definitions

* `OlaCore.Config`, `OlaCore.Config.fromEnv`.

## Main results

* `OlaCore.Config.fromEnv_empty` — the defaults pass the checks.
* `OlaCore.Config.maxResultAgeSecs_le` — the cap on the age of results is bounded.
-/

namespace OlaCore

/-- What the environment holds under a name. -/
inductive EnvVar where
  | notPresent
  | notUnicode
  | value (text : String)
  deriving DecidableEq

/-- The environment of the process. -/
abbrev Environment := String → EnvVar

/-- The configuration. -/
structure Config where
  socketPath : String
  runMode : String
  drainSecs : UInt64
  clientIdleTimeoutSecs : UInt64
  allowlistPath : String
  adaptersDir : String
  policyPath : String
  auditLogPath : String
  adapterKeysDir : String
  maxResultAgeSecs : UInt64
  requireAttestation : Bool
  deriving DecidableEq

/-- The largest cap, in seconds, whose milliseconds fit in 64 bits. -/
def maxResultAgeSecsUpperBound : UInt64 := 0xffffffffffffffff / 1000

namespace Config

/-- Is this a production daemon? -/
def isProdMode (config : Config) : Bool := config.runMode = "prod"

section FromEnv

variable (env : Environment)

/-- The text under a name; the default also when it is not Unicode. -/
def envOr (name default : String) : String :=
  match env name with
  | .value text => text
  | _ => default

/-- The number that a variable is set to. -/
def parseU64 (name text : String) : Except String UInt64 :=
  match parseUnsigned (2 ^ 64) text with
  | some n => .ok (UInt64.ofNat n)
  | none => .error (name ++ " must be an unsigned integer")

/-- A number, or its default when the variable is absent. -/
def parseEnvU64 (name : String) (default : UInt64) : Except String UInt64 :=
  match env name with
  | .value text => parseU64 name text
  | .notPresent => .ok default
  | .notUnicode => .error (name ++ " must be valid UTF-8")

/-- A number that is not zero. -/
def parseEnvNonzeroU64 (name : String) (default : UInt64) : Except String UInt64 := do
  let value ← parseEnvU64 env name default
  if value = 0 then .error (name ++ " must be greater than zero") else .ok value

/-- A number under the first name, or else under the second one. -/
def parseEnvU64WithFallback (primary fallback : String) (default : UInt64) :
    Except String UInt64 :=
  match env primary with
  | .value text => parseU64 primary text
  | .notPresent => parseEnvU64 env fallback default
  | .notUnicode => .error (primary ++ " must be valid UTF-8")

/-- Does the text say that attestation is off? The letters of `false` are the lower case of no
characters but themselves and their capitals. -/
def isFalse (text : String) : Bool :=
  text.toList.map Char.toLower = ['f', 'a', 'l', 's', 'e'] || text = "0"

/-- The configuration that the environment gives. -/
def fromEnv : Except String Config := do
  let runMode := envOr env "OLA_RUNMODE" "prod"
  if runMode ∉ ["prod", "dev"] then
    .error "Invalid OLA_RUNMODE: must be 'prod' or 'dev'"
  else
    let drainSecs ← parseEnvU64WithFallback env "OLA_DRAIN_SECS" "OLA_SHUTDOWN_TIMEOUT" 3
    let clientIdleTimeoutSecs ← parseEnvNonzeroU64 env "OLA_CLIENT_IDLE_TIMEOUT_SECS" 20
    let maxResultAgeSecs ← parseEnvU64 env "OLA_MAX_RESULT_AGE_SECS" 30
    if maxResultAgeSecsUpperBound < maxResultAgeSecs then
      .error ("OLA_MAX_RESULT_AGE_SECS must be <= " ++ toString maxResultAgeSecsUpperBound)
    else
      return {
        socketPath := envOr env "OLA_SOCKET_PATH" "/run/ola/ola.sock"
        runMode
        drainSecs
        clientIdleTimeoutSecs
        allowlistPath := envOr env "OLA_ALLOWLIST_PATH" "/etc/ola/allowlist"
        adaptersDir := envOr env "OLA_ADAPTERS_DIR" "/etc/ola/adapters.d"
        policyPath := envOr env "OLA_POLICY_PATH" "/etc/ola/policy.toml"
        auditLogPath := envOr env "OLA_AUDIT_LOG_PATH" "/var/log/ola/audit.log"
        adapterKeysDir := envOr env "OLA_ADAPTER_KEYS_DIR" "/etc/ola/adapter-keys"
        maxResultAgeSecs
        -- Attestation is on unless it is switched off: any other text leaves it on.
        requireAttestation := !isFalse (envOr env "OLA_REQUIRE_ATTESTATION" "true") }

end FromEnv

/-- The configuration of an empty environment: a production daemon that demands signatures. -/
def default : Config where
  socketPath := "/run/ola/ola.sock"
  runMode := "prod"
  drainSecs := 3
  clientIdleTimeoutSecs := 20
  allowlistPath := "/etc/ola/allowlist"
  adaptersDir := "/etc/ola/adapters.d"
  policyPath := "/etc/ola/policy.toml"
  auditLogPath := "/var/log/ola/audit.log"
  adapterKeysDir := "/etc/ola/adapter-keys"
  maxResultAgeSecs := 30
  requireAttestation := true

/-- The defaults pass the checks. -/
theorem fromEnv_empty : fromEnv (fun _ => .notPresent) = .ok default := by
  rfl

/-- **The cap on the age of results is bounded**: its milliseconds fit in 64 bits. -/
theorem maxResultAgeSecs_le {env : Environment} {config : Config}
    (h : fromEnv env = .ok config) : config.maxResultAgeSecs ≤ maxResultAgeSecsUpperBound := by
  unfold fromEnv at h
  dsimp only at h
  split at h
  · cases h
  obtain ⟨_, -, h⟩ := Checks.bind_eq_ok_iff.mp h
  obtain ⟨_, -, h⟩ := Checks.bind_eq_ok_iff.mp h
  obtain ⟨_, -, h⟩ := Checks.bind_eq_ok_iff.mp h
  split at h
  · cases h
  next hle =>
  obtain rfl := Except.ok.inj h
  exact UInt64.not_lt.mp hle

end Config

end OlaCore
