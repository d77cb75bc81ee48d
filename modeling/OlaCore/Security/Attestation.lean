import Mathlib.Data.List.AList
import Mathlib.Data.Set.Function
import OlaCore.Core.Serde

set_option relaxedAutoImplicit false
set_option autoImplicit false

/-!
# Attestation of adapter results

An adapter signs its result with a key that it shares with the daemon (`security/attestation`).
The signature commits to the nonce, the user, the method, the confidence and the timestamp.

## Main definitions

* `OlaCore.attestationMessage` — what the signature is taken over.
* `OlaCore.AttestationVerifier.verify` — the check.
* `OlaCore.AttestationVerifier.requireKeysForAdapters` — the check at startup.
* `OlaCore.VerificationResult.AgreeOnSigned` — agreement on the signed fields.

## Main results

* `OlaCore.AttestationVerifier.verify_eq_ok_iff` — what the check accepts.
* `OlaCore.AttestationVerifier.verify_sign` — it accepts what the adapter has signed.
* `OlaCore.AttestationVerifier.verify_binds` — a signature that is accepted binds the signed fields.
-/

namespace OlaCore

open ByteText

/-- Why a signature is refused. -/
inductive AttestationError where
  | unknownAdapter
  | hashMismatch
  deriving DecidableEq

/-- The keys of the adapters, by name. -/
structure AttestationVerifier where
  adapterKeys : AList fun _ : String => Vector UInt8 32

/-- The bytes of a number, the least significant one first. -/
def toLeBytes : ℕ → ℕ → Bytes
  | 0, _ => []
  | n + 1, v => UInt8.ofNat v :: toLeBytes n (v / 256)

/-- The digest of the method's name, which the signature commits to. -/
def methodCommitment (crates : Crates) (method : AuthMethod) : Vector UInt8 32 :=
  crates.sha256 (utf8 method.asStr)

/-- What the signature is taken over: nonce, user, method, confidence bits and timestamp. -/
def attestationMessage (crates : Crates) (result : VerificationResult) : Bytes :=
  result.nonce.toList ++ toLeBytes 4 result.uid.toNat ++
    (methodCommitment crates result.method).toList ++
    toLeBytes 4 result.confidence.bits.toNat ++ toLeBytes 8 result.timestampMs.toNat

/-- Every configured adapter must have a key. -/
def AttestationVerifier.requireKeysForAdapters (v : AttestationVerifier)
    (adapterNames : List String) : Except String Unit :=
  let missing := adapterNames.filter fun name => decide (name ∉ v.adapterKeys)
  if missing ≠ [] then
    .error ("missing HMAC key for configured adapter(s): " ++ ", ".intercalate missing)
  else .ok ()

/-- Check the signature of a result with the key of the named adapter. -/
def AttestationVerifier.verify (crates : Crates) (v : AttestationVerifier) (adapterName : String)
    (result : VerificationResult) : Except AttestationError Unit :=
  match v.adapterKeys.lookup adapterName with
  | none => .error .unknownAdapter
  | some key =>
    if crates.hmacSha256 key.toList (attestationMessage crates result) ≠ result.evidenceHash then
      .error .hashMismatch
    else .ok ()

/-- What the check accepts: a result that is signed with the adapter's key. -/
theorem AttestationVerifier.verify_eq_ok_iff {crates : Crates} {v : AttestationVerifier}
    {adapterName : String} {result : VerificationResult} :
    v.verify crates adapterName result = .ok () ↔
      ∃ key, v.adapterKeys.lookup adapterName = some key ∧
        result.evidenceHash = crates.hmacSha256 key.toList (attestationMessage crates result) := by
  unfold verify
  cases v.adapterKeys.lookup adapterName with
  | none => simp
  | some key => simp [eq_comm]

/-- The result as the holder of a key signs it. -/
def VerificationResult.sign (crates : Crates) (key : Vector UInt8 32) (r : VerificationResult) :
    VerificationResult :=
  { r with evidenceHash := crates.hmacSha256 key.toList (attestationMessage crates r) }

/-- A result that the adapter has signed is accepted. -/
theorem AttestationVerifier.verify_sign {crates : Crates} {v : AttestationVerifier}
    {adapterName : String} {key : Vector UInt8 32} (h : v.adapterKeys.lookup adapterName = some key)
    (r : VerificationResult) : v.verify crates adapterName (r.sign crates key) = .ok () :=
  verify_eq_ok_iff.mpr ⟨key, h, rfl⟩

/-! ## What a signature binds -/

/-- A number has as many bytes as asked for. -/
@[simp] theorem length_toLeBytes (n v : ℕ) : (toLeBytes n v).length = n := by
  induction n generalizing v with
  | zero => rfl
  | succ n ih => simp [toLeBytes, ih]

/-- A number that fits is determined by its bytes. -/
theorem toLeBytes_inj {n a b : ℕ} (ha : a < 256 ^ n) (hb : b < 256 ^ n)
    (h : toLeBytes n a = toLeBytes n b) : a = b := by
  induction n generalizing a b with
  | zero =>
    simp at ha hb
    omega
  | succ n ih =>
    simp only [toLeBytes, List.cons.injEq] at h
    have hmod : a % 256 = b % 256 := by
      simpa using congrArg UInt8.toNat h.1
    have hdiv : a / 256 = b / 256 := by
      rw [Nat.pow_succ] at ha hb
      exact ih (by omega) (by omega) h.2
    omega

/-- The two results agree on everything that the signature commits to. The confidence is compared
by its bits. -/
structure VerificationResult.AgreeOnSigned (r₁ r₂ : VerificationResult) : Prop where
  nonce : r₁.nonce = r₂.nonce
  uid : r₁.uid = r₂.uid
  method : r₁.method.asStr = r₂.method.asStr
  confidence : r₁.confidence.bits = r₂.confidence.bits
  timestampMs : r₁.timestampMs = r₂.timestampMs

/-- The parts of the signed message have fixed lengths, so it determines the signed fields as far
as the digest of the method does. -/
theorem agreeOnSigned_of_attestationMessage_eq {crates : Crates} {r₁ r₂ : VerificationResult}
    (hsha : crates.sha256 (utf8 r₁.method.asStr) = crates.sha256 (utf8 r₂.method.asStr) →
      utf8 r₁.method.asStr = utf8 r₂.method.asStr)
    (h : attestationMessage crates r₁ = attestationMessage crates r₂) : r₁.AgreeOnSigned r₂ := by
  unfold attestationMessage at h
  obtain ⟨h, htime⟩ := List.append_inj' h (by simp)
  obtain ⟨h, hconf⟩ := List.append_inj' h (by simp)
  obtain ⟨h, hmethod⟩ := List.append_inj' h (by simp)
  obtain ⟨hnonce, huid⟩ := List.append_inj' h (by simp)
  refine ⟨?_, ?_, ?_, ?_, ?_⟩
  · exact Vector.toList_inj.mp hnonce
  · exact UInt32.toNat_inj.mp (toLeBytes_inj r₁.uid.toNat_lt r₂.uid.toNat_lt huid)
  · exact utf8_injective (hsha (Vector.toList_inj.mp hmethod))
  · exact UInt32.toNat_inj.mp
      (toLeBytes_inj r₁.confidence.bits.toNat_lt r₂.confidence.bits.toNat_lt hconf)
  · exact UInt64.toNat_inj.mp (toLeBytes_inj r₁.timestampMs.toNat_lt r₂.timestampMs.toNat_lt htime)

/-- **Evidence binding.** Let SHA-256 be injective on the methods of some results, and HMAC-SHA256
under the adapter's key on their messages. Two of these results that are accepted for the adapter
with the same signature agree on every signed field. So when a signed field of an accepted result
is changed and the signature is not, the result is refused. -/
theorem AttestationVerifier.verify_binds {crates : Crates} {v : AttestationVerifier}
    {adapterName : String} {R : Set VerificationResult}
    (hsha : Set.InjOn crates.sha256 ((fun r => utf8 r.method.asStr) '' R))
    (hhmac : ∀ key, v.adapterKeys.lookup adapterName = some key →
      Set.InjOn (crates.hmacSha256 key.toList) (attestationMessage crates '' R)) :
    (∀ r₁ ∈ R, ∀ r₂ ∈ R, v.verify crates adapterName r₁ = .ok () →
      v.verify crates adapterName r₂ = .ok () → r₁.evidenceHash = r₂.evidenceHash →
      r₁.AgreeOnSigned r₂) ∧
    ∀ r₁ ∈ R, ∀ r₂ ∈ R, v.verify crates adapterName r₁ = .ok () →
      r₂.evidenceHash = r₁.evidenceHash → ¬ r₁.AgreeOnSigned r₂ →
      v.verify crates adapterName r₂ = .error .hashMismatch := by
  have hagree : ∀ r₁ ∈ R, ∀ r₂ ∈ R, v.verify crates adapterName r₁ = .ok () →
      v.verify crates adapterName r₂ = .ok () → r₁.evidenceHash = r₂.evidenceHash →
      r₁.AgreeOnSigned r₂ := by
    intro r₁ h₁ r₂ h₂ hok₁ hok₂ heq
    obtain ⟨key, hkey, hash₁⟩ := verify_eq_ok_iff.mp hok₁
    obtain ⟨key', hkey', hash₂⟩ := verify_eq_ok_iff.mp hok₂
    obtain rfl := Option.some.inj (hkey.symm.trans hkey')
    apply agreeOnSigned_of_attestationMessage_eq
    · exact hsha ⟨r₁, h₁, rfl⟩ ⟨r₂, h₂, rfl⟩
    · apply hhmac key hkey ⟨r₁, h₁, rfl⟩ ⟨r₂, h₂, rfl⟩
      rw [← hash₁, ← hash₂, heq]
  refine ⟨hagree, ?_⟩
  intro r₁ h₁ r₂ h₂ hok₁ heq hne
  -- The adapter has a key, so the only way to be refused is the signature.
  obtain ⟨key, hkey, -⟩ := verify_eq_ok_iff.mp hok₁
  cases hv : v.verify crates adapterName r₂ with
  | ok _ => exact absurd (hagree r₁ h₁ r₂ h₂ hok₁ hv heq.symm) hne
  | error e =>
    simp only [verify, hkey] at hv
    split at hv
    · exact hv.symm
    · cases hv

/-- A result of a custom method with the confidence `0.0`, signed with a key. -/
def VerificationResult.zeroConfidence : VerificationResult :=
  VerificationResult.sign .reference (Vector.replicate 32 7)
    { version := 1, id := Vector.replicate 16 2, confidence := ⟨0⟩, method := .other "custom_a",
      timestampMs := 1000, uid := 1000, nonce := Vector.replicate 32 1,
      evidenceHash := Vector.replicate 32 0 }

/-- That result with the confidence `-0.0`, which compares equal to `0.0`. -/
def VerificationResult.negativeZeroConfidence : VerificationResult :=
  { VerificationResult.zeroConfidence with confidence := ⟨0x80000000⟩ }

/-- With the sign of a zero confidence changed, the result is refused. -/
theorem AttestationVerifier.verify_binds_negative_zero :
    AttestationVerifier.verify .reference ⟨AList.singleton "adapter" (Vector.replicate 32 7)⟩
      "adapter" VerificationResult.negativeZeroConfidence = .error .hashMismatch := by
  have hkey : (AList.singleton "adapter" (Vector.replicate 32 7) :
      AList fun _ : String => Vector UInt8 32).lookup "adapter" =
        some (Vector.replicate 32 7) := by decide
  refine (verify_binds (R := {.zeroConfidence, .negativeZeroConfidence}) ?_ ?_).2
    .zeroConfidence (by simp) .negativeZeroConfidence (by simp) (verify_sign hkey _) rfl ?_
  · rintro _ ⟨r₁, h₁, rfl⟩ _ ⟨r₂, h₂, rfl⟩ -
    rcases h₁ with rfl | rfl <;> rcases h₂ with rfl | rfl <;> rfl
  · intro key hk
    obtain rfl := Option.some.inj (hkey.symm.trans hk)
    rw [Set.image_pair, Set.injOn_pair]
    intro h
    exact absurd h (by decide +kernel)
  · intro h
    exact absurd h.confidence (by decide)

end OlaCore
