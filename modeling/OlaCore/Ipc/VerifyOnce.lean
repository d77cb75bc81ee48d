import OlaCore.Adapters.Registry
import OlaCore.Core.Config
import OlaCore.Ipc.Protocol
import OlaCore.Ipc.World
import OlaCore.Policy.Evaluator
import OlaCore.Security.Allowlist
import OlaCore.Security.Attestation

set_option relaxedAutoImplicit false
set_option autoImplicit false

/-!
# The request path

`verify_once` is the critical path of the daemon (`ipc/unix_socket`). It resolves the method,
issues a nonce, sends it to the adapter and checks what comes back, gate after gate: the nonce,
the deadline, the use of the nonce, the signature, the method and the policy. Every exit writes
an audit entry, and the response is produced after the entry.

The adapter may reply anything, the clocks may read anything, and other tasks run between any two
operations.

## Main definitions

* `OlaCore.handleVerifyOnce` — the request path, with `OlaCore.checkResult` for what follows the
  adapter's reply and `OlaCore.evaluateAndAudit` for what follows the checks.

## Main results

* `OlaCore.handleVerifyOnce_allow` — what an execution that grants access has gone through.
-/

namespace OlaCore

open Program

/-! ## Configuration -/

/-- A production daemon does not start without attestation. -/
def validateAttestationMode (config : Config) : Except String Unit :=
  if config.isProdMode && !config.requireAttestation then
    .error "OLA_REQUIRE_ATTESTATION cannot be disabled in prod mode"
  else .ok ()

/-- What is fixed while the daemon runs. -/
structure ServerState where
  adapterRegistry : AdapterRegistry
  attester : AttestationVerifier
  config : Config

/-- What a hangup signal reloads. A request works with one snapshot of it. -/
structure ReloadableState where
  allowlist : Allowlist
  policyEngine : PolicyEngine

/-! ## Reasons -/

/-- The reason that is logged when the nonce store refuses. -/
def nonceReason : NonceError → String
  | .notFound => "nonce_not_found"
  | .expired => "nonce_expired"
  | .uidMismatch => "nonce_uid_mismatch"
  | .tableFull => "nonce_table_full"
  | .tooManyForUid => "nonce_uid_limit"
  | .statePoisoned => "nonce_store_unavailable"
  | .randomUnavailable => "nonce_random_unavailable"

/-- The reason that is logged when the signature is refused. -/
def attestationReason : AttestationError → String
  | .unknownAdapter => "attestation_unknown_adapter"
  | .hashMismatch => "attestation_hash_mismatch"

/-- The sum, or the largest 64-bit number if it does not fit. -/
def saturatingAdd (a b : UInt64) : UInt64 :=
  if a.toNat + b.toNat < 2 ^ 64 then a + b else 0xffffffffffffffff

/-! ## The path -/

/-- Log an entry. Without an audit entry the response is an error. -/
def writeAuditOrError (entry : AuditEntry) (responseId : Option String) :
    ServerProg (Except Response Unit) := do
  match ← ServerProg.log entry with
  | .error _ => return .error (.ofError responseId "audit failed")
  | .ok () => return .ok ()

/-- Log a refusal, and refuse. -/
def auditDeny (entry : AuditEntry) (responseId : Option String) (clientReason : String) :
    ServerProg Response := do
  match ← writeAuditOrError entry responseId with
  | .ok () => return .deny responseId clientReason
  | .error response => return response

/-- The decision of the policy. The clock is read when a rule applies. -/
def PolicyEngine.evaluateNow (engine : PolicyEngine) (context : AuthContext) :
    ServerProg PolicyDecision :=
  match engine.rules.find? (ruleMatches · context.result) with
  | none => return .deny .noMatchingRule
  | some _ => do
    let nowMs ← ServerProg.nowMs
    return engine.evaluate nowMs context

section Path

variable (crates : Crates) (state : ServerState) (reloadable : ReloadableState)
  (callerUid uid : UInt32) (reqId : Option String)

/-- An exit that refuses outside policy: the entry is stamped and logged. -/
def denyExit (method reason : String) (adapterName : Option String)
    (result : Option VerificationResult) (clientReason : String) : ServerProg Response := do
  let nowMs ← ServerProg.nowMs
  auditDeny (.deny nowMs callerUid uid method reason adapterName reqId result) reqId clientReason

/-- The signature of a result is checked if the configuration demands it. -/
def checkAttestation (adapterName : String) (result : VerificationResult) :
    Except AttestationError Unit :=
  if state.config.requireAttestation then state.attester.verify crates adapterName result
  else .ok ()

/-- Policy, then audit, then the response. -/
def evaluateAndAudit (resolved : ResolvedAdapter) (request : VerificationRequest)
    (result : VerificationResult) : ServerProg Response := do
  let context : AuthContext := ⟨uid, resolved.method, request, result, none⟩
  let decision ← reloadable.policyEngine.evaluateNow context
  let context := { context with decision := some decision }
  let nowMs ← ServerProg.nowMs
  let entry := AuditEntry.fromDecision nowMs context decision callerUid
    (some resolved.adapterName) reqId
  match ← writeAuditOrError entry reqId with
  | .error response => return response
  | .ok () =>
    match decision with
    | .allow => return .allow reqId context.result.method.asStr
    | .deny reason => return .deny reqId reason.debug

/-- The gates after the adapter's reply. -/
def checkResult (resolved : ResolvedAdapter) (request : VerificationRequest)
    (result : VerificationResult) : ServerProg Response := do
  let deny (reason clientReason : String) :=
    denyExit callerUid uid reqId resolved.method reason (some resolved.adapterName) (some result)
      clientReason
  if result.nonce ≠ request.nonce then
    let _ ← ServerProg.consume request.nonce uid
    deny "nonce_mismatch" "nonce mismatch detected"
  else
    -- Late work spends the nonce.
    let nowMs ← ServerProg.nowMs
    if request.deadlineMs < nowMs then
      let _ ← ServerProg.consume request.nonce uid
      deny "request_deadline_expired" "request deadline expired"
    else
      -- The nonce is spent before the signature is looked at.
      match ← ServerProg.consume request.nonce uid with
      | .error e => deny (nonceReason e) "nonce replay detected"
      | .ok () =>
        match checkAttestation crates state resolved.adapterName result with
        | .error e => deny (attestationReason e) "invalid evidence hash"
        | .ok () =>
          if result.method.asStr ≠ resolved.method then
            deny "method_mismatch" "method mismatch"
          else
            evaluateAndAudit reloadable callerUid uid reqId resolved request result

/-- The request path. -/
def handleVerifyOnce (method : String) : ServerProg Response := do
  match ← state.adapterRegistry.resolve ServerProg.adapterDown method with
  | .error e => denyExit callerUid uid reqId method e.toString none none e.toString
  | .ok resolved =>
    match ← ServerProg.generate uid with
    | .error e =>
      denyExit callerUid uid reqId resolved.method (nonceReason e) (some resolved.adapterName) none
        (nonceReason e)
    | .ok nonce =>
      let now ← ServerProg.instantNow
      let adapterDeadline := now + resolved.timeoutMs.toNat * 10 ^ 6
      let id ← ServerProg.newUuid
      let nowMs ← ServerProg.nowMs
      let request : VerificationRequest :=
        ⟨protocolVersion, id, uid, nonce, saturatingAdd nowMs resolved.timeoutMs⟩
      match ← dispatchResolved crates.serde resolved request adapterDeadline with
      | .error e =>
        let _ ← ServerProg.consume nonce uid
        denyExit callerUid uid reqId resolved.method e.toString (some resolved.adapterName) none
          e.toString
      | .ok result =>
        checkResult crates state reloadable callerUid uid reqId resolved request result

end Path

/-! ## Which operations the gates call -/

section Kinds

variable {crates : Crates} {state : ServerState} {reloadable : ReloadableState}
  {callerUid uid : UInt32} {reqId : Option String} {K : ServerOp → Prop}

/-- An exit reads the clock and logs. -/
theorem avoids_denyExit {method reason clientReason : String} {adapterName : Option String}
    {result : Option VerificationResult} (hnow : ¬ K .nowMs) (hlog : ∀ entry, ¬ K (.log entry)) :
    (denyExit callerUid uid reqId method reason adapterName result clientReason).Avoids K := by
  refine avoids_bind (avoids_call hnow) fun nowMs => ?_
  refine avoids_bind (avoids_bind (avoids_call (hlog _)) fun answer => ?_) fun written => ?_
  · rcases answer with _ | _ <;> exact avoids_pure _
  · rcases written with _ | _ <;> exact avoids_pure _

/-- Policy and audit read the clock and log. -/
theorem avoids_evaluateAndAudit {resolved : ResolvedAdapter} {request : VerificationRequest}
    {result : VerificationResult} (hnow : ¬ K .nowMs) (hlog : ∀ entry, ¬ K (.log entry)) :
    (evaluateAndAudit reloadable callerUid uid reqId resolved request result).Avoids K := by
  refine avoids_bind ?_ fun decision => avoids_bind (avoids_call hnow) fun nowMs =>
    avoids_bind (avoids_bind (avoids_call (hlog _)) fun answer => ?_) fun written => ?_
  · unfold PolicyEngine.evaluateNow
    split
    · exact avoids_pure _
    · exact avoids_bind (avoids_call hnow) fun _ => avoids_pure _
  · rcases answer with _ | _ <;> exact avoids_pure _
  · rcases written with _ | _
    · exact avoids_pure _
    · cases decision <;> exact avoids_pure _

/-- The gates read the clock, spend a nonce and log. -/
theorem avoids_checkResult {resolved : ResolvedAdapter} {request : VerificationRequest}
    {result : VerificationResult} (hnow : ¬ K .nowMs) (hlog : ∀ entry, ¬ K (.log entry))
    (hconsume : ¬ K (.consume request.nonce uid)) :
    (checkResult crates state reloadable callerUid uid reqId resolved request result).Avoids K := by
  unfold checkResult
  dsimp only
  split
  · exact avoids_bind (avoids_call hconsume) fun _ => avoids_denyExit hnow hlog
  refine avoids_bind (avoids_call hnow) fun nowMs => ?_
  split
  · exact avoids_bind (avoids_call hconsume) fun _ => avoids_denyExit hnow hlog
  refine avoids_bind (avoids_call hconsume) fun consumed => ?_
  rcases consumed with _ | _
  · exact avoids_denyExit hnow hlog
  dsimp only
  split
  · exact avoids_denyExit hnow hlog
  split
  · exact avoids_denyExit hnow hlog
  · exact avoids_evaluateAndAudit hnow hlog

end Kinds

/-! ## Executions that grant access -/

section Allow

variable {crates : Crates} {state : ServerState} {reloadable : ReloadableState}
  {callerUid uid : UInt32} {reqId : Option String} {resolved : ResolvedAdapter}
  {request : VerificationRequest} {result : VerificationResult} {W : Type}
  {step : W → (o : ServerOp) → o.Ans → W → Prop} {tr : List (Event W ServerOp ServerOp.Ans)}
  {response : Response}

/-- Logging an entry is one call. -/
theorem traces_writeAuditOrError {entry : AuditEntry} {written : Except Response Unit}
    (h : Traces step (writeAuditOrError entry reqId) tr written) :
    (∃ w w', tr = [⟨w, .log entry, .ok (), w'⟩] ∧ written = .ok ()) ∨
      written = .error (.ofError reqId "audit failed") := by
  obtain ⟨w, answer, w', _, rfl, -, h₁⟩ := traces_call_bind.mp h
  rcases answer with _ | _ <;> obtain ⟨rfl, rfl⟩ := traces_pure.mp h₁
  · exact .inr rfl
  · exact .inl ⟨w, w', rfl, rfl⟩

/-- An exit that refuses does not grant access. -/
theorem decision_of_traces_denyExit {method reason clientReason : String}
    {adapterName : Option String} {result : Option VerificationResult}
    (h : Traces step
      (denyExit callerUid uid reqId method reason adapterName result clientReason) tr response) :
    response.decision ≠ some "allow" := by
  obtain ⟨_, nowMs, _, -, -, h₁⟩ := traces_bind.mp h
  obtain ⟨_, written, _, -, hw, h₂⟩ := traces_bind.mp h₁
  obtain ⟨-, -, -, rfl⟩ | rfl := traces_writeAuditOrError hw <;>
    obtain ⟨-, rfl⟩ := traces_pure.mp h₂ <;> simp

/-- A grant after the checks: a rule applies, the policy allows at the time that was read, and
the entry of that decision is logged. -/
theorem traces_evaluateAndAudit_allow
    (h : Traces step (evaluateAndAudit reloadable callerUid uid reqId resolved request result) tr
      response) (hallow : response.decision = some "allow") :
    ∃ evaluatedMs loggedMs,
      tr.map Event.label =
        [⟨.nowMs, evaluatedMs⟩, ⟨.nowMs, loggedMs⟩,
          ⟨.log (.fromDecision loggedMs ⟨uid, resolved.method, request, result, some .allow⟩ .allow
            callerUid (some resolved.adapterName) reqId), .ok ()⟩] ∧
      reloadable.policyEngine.evaluate evaluatedMs
        ⟨uid, resolved.method, request, result, none⟩ = .allow ∧
      response = .allow reqId result.method.asStr := by
  obtain ⟨_, decision, _, rfl, hdecision, h₁⟩ := traces_bind.mp h
  obtain ⟨_, loggedMs, _, _, rfl, -, h₂⟩ := traces_call_bind.mp h₁
  obtain ⟨_, written, _, rfl, hwrite, h₃⟩ := traces_bind.mp h₂
  obtain ⟨w, w', rfl, rfl⟩ | rfl := traces_writeAuditOrError hwrite
  swap
  · obtain ⟨-, rfl⟩ := traces_pure.mp h₃
    simp at hallow
  cases decision with
  | deny reason =>
    obtain ⟨-, rfl⟩ := traces_pure.mp h₃
    simp at hallow
  | allow =>
    obtain ⟨rfl, rfl⟩ := traces_pure.mp h₃
    unfold PolicyEngine.evaluateNow at hdecision
    split at hdecision
    · cases (traces_pure.mp hdecision).2
    · obtain ⟨_, evaluatedMs, _, _, rfl, -, h₄⟩ := traces_call_bind.mp hdecision
      obtain ⟨rfl, hevaluate⟩ := traces_pure.mp h₄
      exact ⟨evaluatedMs, loggedMs, rfl, hevaluate.symm, rfl⟩

/-- A grant after the adapter's reply: the nonce is the issued one, the deadline has not passed,
the nonce is spent, the signature is accepted if one is demanded, and the method is the resolved
one. -/
theorem traces_checkResult_allow
    (h : Traces step (checkResult crates state reloadable callerUid uid reqId resolved request
      result) tr response) (hallow : response.decision = some "allow") :
    result.nonce = request.nonce ∧
      checkAttestation crates state resolved.adapterName result = .ok () ∧
      result.method.asStr = resolved.method ∧
      ∃ w₁ w₁' w₂ w₂' checkedMs trPolicy, checkedMs ≤ request.deadlineMs ∧
        tr = ⟨w₁, .nowMs, checkedMs, w₁'⟩ :: ⟨w₂, .consume request.nonce uid, .ok (), w₂'⟩ ::
          trPolicy ∧
        step w₂ (.consume request.nonce uid) (.ok ()) w₂' ∧
        Traces step (evaluateAndAudit reloadable callerUid uid reqId resolved request result)
          trPolicy response := by
  unfold checkResult at h
  dsimp only at h
  split at h
  · obtain ⟨_, _, _, -, -, h₁⟩ := traces_bind.mp h
    exact absurd hallow (decision_of_traces_denyExit h₁)
  next hnonce =>
  obtain ⟨w₁, checkedMs, w₁', _, rfl, -, h₁⟩ := traces_call_bind.mp h
  split at h₁
  · obtain ⟨_, _, _, -, -, h₂⟩ := traces_bind.mp h₁
    exact absurd hallow (decision_of_traces_denyExit h₂)
  next htime =>
  obtain ⟨w₂, consumed, w₂', _, rfl, hspent, h₂⟩ := traces_call_bind.mp h₁
  rcases consumed with e | _
  · exact absurd hallow (decision_of_traces_denyExit h₂)
  dsimp only at h₂
  split at h₂
  · exact absurd hallow (decision_of_traces_denyExit h₂)
  next hattested =>
  split at h₂
  · exact absurd hallow (decision_of_traces_denyExit h₂)
  next hmethod =>
  exact ⟨not_not.mp hnonce, hattested, not_not.mp hmethod, w₁, w₁', w₂, w₂', checkedMs, _,
    UInt64.not_lt.mp htime, rfl, hspent, h₂⟩

/-- The parts of an execution that grants access: the method is resolved, a nonce is issued, the
clocks are read, the adapter has replied, and the reply is checked. -/
theorem traces_handleVerifyOnce_allow {method : String}
    (h : Traces step (handleVerifyOnce crates state reloadable callerUid uid reqId method) tr
      response) (hallow : response.decision = some "allow") :
    ∃ trResolve trDispatch trCheck resolved nonce now id sentMs result w₁ w₁' w₂ w₂' w₃ w₃' w₄ w₄',
      tr = trResolve ++ ⟨w₁, .generate uid, .ok nonce, w₁'⟩ :: ⟨w₂, .instantNow, now, w₂'⟩ ::
        ⟨w₃, .newUuid, id, w₃'⟩ :: ⟨w₄, .nowMs, sentMs, w₄'⟩ :: (trDispatch ++ trCheck) ∧
      Traces step (state.adapterRegistry.resolve ServerProg.adapterDown method) trResolve
        (.ok resolved) ∧
      Traces step (dispatchResolved crates.serde resolved
        ⟨protocolVersion, id, uid, nonce, saturatingAdd sentMs resolved.timeoutMs⟩
        (now + resolved.timeoutMs.toNat * 10 ^ 6)) trDispatch (.ok result) ∧
      Traces step (checkResult crates state reloadable callerUid uid reqId resolved
        ⟨protocolVersion, id, uid, nonce, saturatingAdd sentMs resolved.timeoutMs⟩ result) trCheck
        response := by
  obtain ⟨trResolve, r, _, rfl, hresolve, h₁⟩ := traces_bind.mp h
  rcases r with e | resolved
  · exact absurd hallow (decision_of_traces_denyExit h₁)
  obtain ⟨w₁, generated, w₁', _, rfl, -, h₂⟩ := traces_call_bind.mp h₁
  rcases generated with e | nonce
  · exact absurd hallow (decision_of_traces_denyExit h₂)
  obtain ⟨w₂, now, w₂', _, rfl, -, h₃⟩ := traces_call_bind.mp h₂
  obtain ⟨w₃, id, w₃', _, rfl, -, h₄⟩ := traces_call_bind.mp h₃
  obtain ⟨w₄, sentMs, w₄', _, rfl, -, h₅⟩ := traces_call_bind.mp h₄
  obtain ⟨trDispatch, dispatched, trCheck, rfl, hdispatch, h₆⟩ := traces_bind.mp h₅
  rcases dispatched with e | result
  · obtain ⟨_, _, _, -, -, h₇⟩ := traces_bind.mp h₆
    exact absurd hallow (decision_of_traces_denyExit h₇)
  exact ⟨trResolve, trDispatch, trCheck, resolved, nonce, now, id, sentMs, result, w₁, w₁', w₂, w₂',
    w₃, w₃', w₄, w₄', rfl, hresolve, hdispatch, h₆⟩

/-- A production daemon that has started demands signatures. -/
theorem requireAttestation_of_isProdMode {config : Config}
    (h : validateAttestationMode config = .ok ()) (hprod : config.isProdMode) :
    config.requireAttestation := by
  unfold validateAttestationMode at h
  split at h
  · cases h
  · next hno => simpa [hprod] using hno

/-- A demanded signature that is accepted is made with the key of the adapter. -/
theorem evidenceHash_of_checkAttestation {adapterName : String}
    (h : checkAttestation crates state adapterName result = .ok ())
    (hreq : state.config.requireAttestation) :
    ∃ key, state.attester.adapterKeys.lookup adapterName = some key ∧
      result.evidenceHash = crates.hmacSha256 key.toList (attestationMessage crates result) := by
  rw [checkAttestation, if_pos hreq] at h
  exact AttestationVerifier.verify_eq_ok_iff.mp h

/-- What holds of the parts of an execution that grants access. The adapter offers the resolved
method, which is the requested one unless that is the wildcard. The result answers this request,
with its nonce and for the resolved method. It was looked at by the deadline, is signed with the
adapter's key if signatures are demanded, as they always are in production, and the policy allows
it at the time that was read. -/
structure AllowGates (crates : Crates) (state : ServerState) (reloadable : ReloadableState)
    (uid : UInt32) (method : String) (resolved : ResolvedAdapter) (request : VerificationRequest)
    (result : VerificationResult) (checkedMs evaluatedMs : UInt64) : Prop where
  offered : state.adapterRegistry.clients.lookup resolved.method = some resolved.client
  adapterName : resolved.adapterName = resolved.client.name
  requested : method ≠ "any" → resolved.method = method
  version : result.version = 1
  id : result.id = request.id
  nonce : result.nonce = request.nonce
  method : result.method.asStr = resolved.method
  inTime : checkedMs ≤ request.deadlineMs
  attested : state.config.requireAttestation →
    ∃ key, state.attester.adapterKeys.lookup resolved.adapterName = some key ∧
      result.evidenceHash = crates.hmacSha256 key.toList (attestationMessage crates result)
  attestedInProd : validateAttestationMode state.config = .ok () → state.config.isProdMode →
    state.config.requireAttestation
  allowed : reloadable.policyEngine.evaluate evaluatedMs
    ⟨uid, resolved.method, request, result, none⟩ = .allow

/-- **What an execution that grants access has gone through.** The method is resolved once. Then,
in this order and with nothing in between: a nonce is issued for the target user; the clocks are
read for the deadlines; the adapter is found not to be down, its permit is acquired, and it is
connected to; the user at the other end is the expected one; the request is sent and a line is
received; the wall clock is read; the nonce is spent, which was pending for the target user and at
most thirty seconds old, and is gone; policy is evaluated; and the entry of the decision is logged.
The result read from the line passes all gates, and the resolved method is the one in the result,
in the context, in the entry and in the response.

**Proof sketch.** Each operation of the program either continues, or leads to an exit whose
response does not grant access. So the execution took the one path that continues everywhere. -/
theorem handleVerifyOnce_allow {method : String}
    {tr : List (Event ServerWorld ServerOp ServerOp.Ans)}
    (h : Traces (ServerStep crates)
      (handleVerifyOnce crates state reloadable callerUid uid reqId method) tr response)
    (hallow : response.decision = some "allow") :
    ∃ (trResolve trRequest : List (Event ServerWorld ServerOp ServerOp.Ans))
      (resolved : ResolvedAdapter) (nonce : Nonce) (now : ℕ) (request : VerificationRequest)
      (sentMs checkedMs evaluatedMs loggedMs : UInt64) (responseLine : String)
      (result : VerificationResult) (entry : AuditEntry),
      tr = trResolve ++ trRequest ∧
      Traces (ServerStep crates) (state.adapterRegistry.resolve ServerProg.adapterDown method)
        trResolve (.ok resolved) ∧
      trRequest.map Event.label =
        [⟨.generate uid, .ok nonce⟩, ⟨.instantNow, now⟩, ⟨.newUuid, request.id⟩, ⟨.nowMs, sentMs⟩,
          ⟨.adapterDown resolved.client.name, false⟩,
          ⟨.acquire resolved.client.name, .ok ()⟩,
          ⟨.connect resolved.client.socketPath (now + resolved.timeoutMs.toNat * 10 ^ 6), .ok ()⟩,
          ⟨.peerUid, .ok resolved.client.expectedUid⟩,
          ⟨.send (crates.serde.toString request.serialize)
            (now + resolved.timeoutMs.toNat * 10 ^ 6), .ok ()⟩,
          ⟨.recv (now + resolved.timeoutMs.toNat * 10 ^ 6), some (.line responseLine)⟩,
          ⟨.nowMs, checkedMs⟩, ⟨.consume nonce uid, .ok ()⟩, ⟨.nowMs, evaluatedMs⟩,
          ⟨.nowMs, loggedMs⟩, ⟨.log entry, .ok ()⟩] ∧
      request = ⟨1, request.id, uid, nonce, saturatingAdd sentMs resolved.timeoutMs⟩ ∧
      (crates.serde.fromStr responseLine).bind (VerificationResult.deserialize crates.serde) =
        some result ∧
      (∃ w w' issuedAt, ⟨w, .consume nonce uid, .ok (), w'⟩ ∈ trRequest ∧
        w.nonces.pending.lookup nonce = some (issuedAt, uid) ∧
        w.instant - issuedAt ≤ nonceTtl ∧ w'.nonces.pending.lookup nonce = none) ∧
      AllowGates crates state reloadable uid method resolved request result checkedMs
        evaluatedMs ∧
      entry = .fromDecision loggedMs ⟨uid, resolved.method, request, result, some .allow⟩ .allow
        callerUid (some resolved.adapterName) reqId ∧
      entry.method = resolved.method ∧ entry.decision = "allow" ∧
      response = .allow reqId resolved.method := by
  obtain ⟨trResolve, _, _, resolved, nonce, now, id, sentMs, result, _, _, _, _, _, _, _, _, rfl,
    hresolve, hdispatch, hcheck⟩ := traces_handleVerifyOnce_allow h hallow
  obtain ⟨hoffered, hname, -, hrequested⟩ := AdapterRegistry.traces_resolve_ok hresolve
  -- The adapter has replied; what remains is the gates and the policy.
  obtain ⟨_, _, _, _, _, rfl, hverify⟩ := traces_dispatchResolved_ok hdispatch
  obtain ⟨_, _, _, _, _, _, _, _, responseLine, rfl, hreply⟩ :=
    AdapterClient.traces_verify_ok hverify
  obtain ⟨hread, hversion, hid⟩ := AdapterClient.readReply_eq_ok_iff.mp hreply
  obtain ⟨hnonce, hattested, hmethod, _, _, w, w', checkedMs, trPolicy, htime, rfl, hspent, h₇⟩ :=
    traces_checkResult_allow hcheck hallow
  obtain ⟨evaluatedMs, loggedMs, hlabels, hevaluate, rfl⟩ :=
    traces_evaluateAndAudit_allow h₇ hallow
  obtain ⟨issuedAt, hpending, hage, hgone⟩ := serverStep_consume_ok hspent
  refine ⟨trResolve, _, resolved, nonce, now,
    ⟨protocolVersion, id, uid, nonce, saturatingAdd sentMs resolved.timeoutMs⟩, sentMs, checkedMs,
    evaluatedMs, loggedMs, responseLine, result, _, rfl, hresolve, ?_, rfl, hread,
    ⟨w, w', issuedAt, by simp, hpending, hage, hgone⟩, ?_, rfl, rfl, rfl, by rw [hmethod]⟩
  · simp only [List.map_append, List.map_cons, List.map_nil, hlabels]
    rfl
  · exact {
      offered := hoffered
      adapterName := hname
      requested := hrequested
      version := hversion
      id := hid
      nonce := hnonce
      method := hmethod
      inTime := htime
      attested := evidenceHash_of_checkAttestation hattested
      attestedInProd := requireAttestation_of_isProdMode
      allowed := hevaluate }

end Allow

/-! ### A grant -/

namespace Sample

/-- An adapter. -/
def client : AdapterClient := ⟨"fido2-adapter", "/run/ola/fido2.sock", 990, 5000⟩

/-- What the method `fido2` resolves to. -/
def resolved : ResolvedAdapter := ⟨"fido2-adapter", "fido2", 5000, client⟩

/-- The key of the adapter. -/
def key : Vector UInt8 32 := Vector.replicate 32 7

/-- A production daemon with that adapter. -/
def state : ServerState where
  adapterRegistry := ⟨AList.singleton "fido2" client, ["fido2-adapter"]⟩
  attester := ⟨AList.singleton "fido2-adapter" key⟩
  config := .default

/-- One allowed user, and a policy with one wildcard rule. -/
def reloadable : ReloadableState := ⟨⟨{1000}⟩, ⟨[⟨none, f32One, 30, true⟩], 30⟩⟩

/-- A nonce. -/
def nonce : Nonce := Vector.replicate 32 1

/-- The request that carries the nonce. -/
def request : VerificationRequest := ⟨1, Vector.replicate 16 2, 1000, nonce, 6000⟩

/-- A result for that request, signed by the adapter. -/
def result : VerificationResult :=
  VerificationResult.sign .reference key
    { version := 1, id := request.id, confidence := f32One, method := .fido2, timestampMs := 1000,
      uid := 1000, nonce, evidenceHash := Vector.replicate 32 0 }

/-- The line that the adapter sends. -/
def line : String := Crates.reference.serde.toString (result.serialize Crates.reference.serde)

/-- The adapter is up, no nonce is pending and the log is empty. -/
def idle : ServerWorld where
  instant := 0
  health := some (AList.singleton "fido2-adapter" (recordProbe (newHealth .down 0) true 0))
  nonces := .new
  audit := freshWorld

/-- The nonce is pending. -/
def issued : ServerWorld :=
  { idle with nonces := (NonceStore.new.generate 1000 (fun _ => some nonce) 0).2 }

/-- The nonce is gone again. -/
def spent : ServerWorld := { idle with nonces := (issued.nonces.consume nonce 1000 0).2 }

/-- The entry of the decision, by the identifier of the request. -/
def grantEntry (id : String) : AuditEntry :=
  .fromDecision 1000 ⟨1000, "fido2", request, result, some .allow⟩ .allow 1000
    (some "fido2-adapter") (some id)

/-- The entry of the decision. -/
def entry : AuditEntry := grantEntry "req-1"

/-- The entry is in the log, by the identifier of the request. -/
def grantLogged (id : String) : ServerWorld :=
  let (_, fs, logger) :=
    AuditLogger.log .reference spent.audit.fs spent.audit.logger (grantEntry id) .ok
  { spent with audit := ⟨fs, logger⟩ }

/-- The entry is in the log. -/
def logged : ServerWorld := grantLogged "req-1"

/-- The nonce is issued. -/
theorem serverStep_generate : ServerStep .reference idle (.generate 1000) (.ok nonce) issued :=
  ⟨fun _ => some nonce, _, rfl, rfl⟩

/-- The nonce is spent. -/
theorem serverStep_consume :
    ServerStep .reference issued (.consume nonce 1000) (.ok ()) spent :=
  ⟨_, rfl, rfl⟩

/-- The method is resolved without asking anything. -/
theorem traces_resolve : Traces (ServerStep .reference)
    (state.adapterRegistry.resolve ServerProg.adapterDown "fido2") [] (.ok resolved) :=
  traces_bind.mpr ⟨[], .ok ("fido2", client), [], rfl, traces_pure.mpr ⟨rfl, rfl⟩,
    traces_pure.mpr ⟨rfl, rfl⟩⟩

/-- The adapter is reached and sends a line. -/
theorem completes_dispatchResolved {text : String} {result : VerificationResult}
    (h : AdapterClient.readReply Crates.reference.serde request text = .ok result) :
    Completes (ServerStep .reference)
      (dispatchResolved Crates.reference.serde resolved request 5000000000) [] (.ok result) := by
  refine completes_call_bind issued (ServerOp.adapterDown client.name) false ⟨rfl, rfl⟩ ?_
  refine completes_call_bind issued (ServerOp.acquire client.name) (.ok ()) rfl ?_
  refine completes_call_bind issued (ServerOp.connect client.socketPath 5000000000) (.ok ()) rfl ?_
  refine completes_call_bind issued ServerOp.peerUid (.ok 990) rfl ?_
  refine completes_call_bind issued
    (ServerOp.send (Crates.reference.serde.toString request.serialize) 5000000000) (.ok ()) rfl ?_
  refine completes_call_bind issued (ServerOp.recv 5000000000) (some (.line text)) rfl ?_
  exact completes_pure h.symm

/-- The request path gets as far as the gates when the adapter sends an acceptable line. -/
theorem completes_handleVerifyOnce {text : String} {result : VerificationResult}
    {tr : List (Event ServerWorld ServerOp ServerOp.Ans)} {response : Response}
    (h : AdapterClient.readReply Crates.reference.serde request text = .ok result)
    (hcheck : Completes (ServerStep .reference)
      (checkResult .reference state reloadable 1000 1000 (some "req-1") resolved request result)
      tr response) :
    Completes (ServerStep .reference)
      (handleVerifyOnce .reference state reloadable 1000 1000 (some "req-1") "fido2") tr
      response := by
  refine completes_bind ⟨[], traces_resolve⟩ ?_
  refine completes_call_bind idle (ServerOp.generate 1000) (.ok nonce) serverStep_generate ?_
  refine completes_call_bind issued ServerOp.instantNow (0 : ℕ) ⟨rfl, rfl⟩ ?_
  refine completes_call_bind issued ServerOp.newUuid request.id rfl ?_
  refine completes_call_bind issued ServerOp.nowMs (1000 : UInt64) rfl ?_
  exact completes_bind (completes_dispatchResolved h) hcheck

/-- The adapter's line is accepted, as the reply to any request with the same identifier. -/
theorem readReply_line {request : VerificationRequest} (hid : result.id = request.id) :
    AdapterClient.readReply Crates.reference.serde request line = .ok result :=
  AdapterClient.readReply_eq_ok_iff.mpr ⟨result.read_toString _ (by decide) (by rfl), rfl, hid⟩

/-- The signature is accepted. -/
theorem checkAttestation_result :
    checkAttestation .reference state resolved.adapterName result = .ok () := by
  rw [checkAttestation, if_pos (show state.config.requireAttestation = true from rfl)]
  exact AttestationVerifier.verify_sign rfl _

/-- The policy allows the result. -/
theorem evaluate_result : reloadable.policyEngine.evaluate 1000
    ⟨1000, resolved.method, request, result, none⟩ = .allow := by
  decide

/-- What a request asks the adapter and what it gets, in a state of the daemon. -/
def dispatchCalls (w : ServerWorld) (request : VerificationRequest) :
    List (Event ServerWorld ServerOp ServerOp.Ans) :=
  [⟨w, .adapterDown "fido2-adapter", false, w⟩, ⟨w, .acquire "fido2-adapter", .ok (), w⟩,
    ⟨w, .connect "/run/ola/fido2.sock" 5000000000, .ok (), w⟩, ⟨w, .peerUid, .ok 990, w⟩,
    ⟨w, .send (Crates.reference.serde.toString request.serialize) 5000000000, .ok (), w⟩,
    ⟨w, .recv 5000000000, some (.line line), w⟩]

/-- The calls of a request, from the issue of the nonce to the log entry, by its identifier. -/
def grantCallsOf (id : String) : List (Event ServerWorld ServerOp ServerOp.Ans) :=
  ⟨idle, .generate 1000, .ok nonce, issued⟩ :: ⟨issued, .instantNow, (0 : ℕ), issued⟩ ::
    ⟨issued, .newUuid, request.id, issued⟩ :: ⟨issued, .nowMs, (1000 : UInt64), issued⟩ ::
    (dispatchCalls issued request ++
      [⟨issued, .nowMs, (1000 : UInt64), issued⟩, ⟨issued, .consume nonce 1000, .ok (), spent⟩,
        ⟨spent, .nowMs, (1000 : UInt64), spent⟩, ⟨spent, .nowMs, (1000 : UInt64), spent⟩,
        ⟨spent, .log (grantEntry id), .ok (), grantLogged id⟩])

/-- The calls of the request. -/
def grantCalls : List (Event ServerWorld ServerOp ServerOp.Ans) := grantCallsOf "req-1"

/-- The adapter replies, while it is up. -/
theorem traces_dispatchCalls {w : ServerWorld} {request : VerificationRequest}
    (hup : w.health.adapterDown client.name = false) (hid : result.id = request.id) :
    Traces (ServerStep .reference)
      (dispatchResolved Crates.reference.serde resolved request 5000000000)
      (dispatchCalls w request) (.ok result) := by
  refine .head ⟨hup.symm, rfl⟩ (.head rfl (.head rfl (.head rfl (.head rfl (.head rfl ?_)))))
  exact traces_pure.mpr ⟨rfl, (readReply_line hid).symm⟩

/-- The request path up to the gates: a nonce is issued, and the adapter replies. -/
theorem traces_handleVerifyOnce_of_check {w w' : ServerWorld} {nonce : Nonce} {id : String}
    {checks : List (Event ServerWorld ServerOp ServerOp.Ans)} {response : Response}
    (hissued : ServerStep .reference w (.generate 1000) (.ok nonce) w') (hinstant : 0 = w'.instant)
    (hup : w'.health.adapterDown client.name = false)
    (hcheck : Traces (ServerStep .reference) (checkResult .reference state reloadable 1000 1000
      (some id) resolved { request with nonce } result) checks response) :
    Traces (ServerStep .reference)
      (handleVerifyOnce .reference state reloadable 1000 1000 (some id) "fido2")
      (⟨w, .generate 1000, .ok nonce, w'⟩ :: ⟨w', .instantNow, (0 : ℕ), w'⟩ ::
        ⟨w', .newUuid, request.id, w'⟩ :: ⟨w', .nowMs, (1000 : UInt64), w'⟩ ::
        (dispatchCalls w' { request with nonce } ++ checks)) response := by
  refine traces_bind.mpr ⟨[], .ok resolved, _, rfl, traces_resolve, ?_⟩
  refine traces_call_bind.mpr ⟨w, .ok nonce, w', _, rfl, hissued, ?_⟩
  refine traces_call_bind.mpr ⟨w', (0 : ℕ), w', _, rfl, ⟨hinstant, rfl⟩, ?_⟩
  refine traces_call_bind.mpr ⟨w', request.id, w', _, rfl, rfl, ?_⟩
  refine traces_call_bind.mpr ⟨w', (1000 : UInt64), w', _, rfl, rfl, ?_⟩
  exact traces_bind.mpr ⟨_, .ok result, checks, rfl, traces_dispatchCalls hup rfl, hcheck⟩

/-- A request is granted, whatever its identifier. -/
theorem traces_grantCallsOf (id : String) : Traces (ServerStep .reference)
    (handleVerifyOnce .reference state reloadable 1000 1000 (some id) "fido2") (grantCallsOf id)
    (.allow (some id) "fido2") := by
  refine traces_handleVerifyOnce_of_check serverStep_generate rfl rfl ?_
  refine traces_call_bind.mpr ⟨issued, (1000 : UInt64), issued, _, rfl, rfl, ?_⟩
  refine traces_call_bind.mpr ⟨issued, .ok (), spent, _, rfl, serverStep_consume, ?_⟩
  dsimp only
  rw [checkAttestation_result]
  refine traces_bind.mpr ⟨[⟨spent, .nowMs, (1000 : UInt64), spent⟩], .allow, _, rfl, ?_, ?_⟩
  · exact traces_call_bind.mpr ⟨spent, (1000 : UInt64), spent, _, rfl, rfl,
      traces_pure.mpr ⟨rfl, evaluate_result.symm⟩⟩
  refine traces_call_bind.mpr ⟨spent, (1000 : UInt64), spent, _, rfl, rfl, ?_⟩
  refine traces_bind.mpr ⟨_, .ok (), [], (List.append_nil _).symm, ?_, traces_pure.mpr ⟨rfl, rfl⟩⟩
  exact traces_call_bind.mpr ⟨spent, .ok (), grantLogged id, _, rfl, ⟨.ok, _, _, rfl, rfl⟩,
    traces_pure.mpr ⟨rfl, rfl⟩⟩

/-- The request is granted. -/
theorem traces_grantCalls : Traces (ServerStep .reference)
    (handleVerifyOnce .reference state reloadable 1000 1000 (some "req-1") "fido2") grantCalls
    (.allow (some "req-1") "fido2") :=
  traces_grantCallsOf "req-1"

/-- The request is granted, after its entry was logged. -/
theorem completes_allow : Completes (ServerStep .reference)
    (handleVerifyOnce .reference state reloadable 1000 1000 (some "req-1") "fido2")
    [⟨spent, .log entry, .ok (), logged⟩] (.allow (some "req-1") "fido2") :=
  ⟨grantCalls.dropLast, traces_grantCalls⟩

/-- No other task has changed the state in between. -/
theorem linked_grantCalls : Linked idle grantCalls logged := by
  simp [grantCalls, grantCallsOf, dispatchCalls, logged, Linked]

end Sample

/-- A request that is granted in production: the adapter's user was checked, and the entry of the
decision is in the log. -/
theorem handleVerifyOnce_allow_fido2 :
    ∃ (tr : List (Event ServerWorld ServerOp ServerOp.Ans)) (resolved : ResolvedAdapter)
      (entry : AuditEntry), Traces (ServerStep .reference)
        (handleVerifyOnce .reference Sample.state Sample.reloadable 1000 1000 (some "req-1")
          "fido2") tr (.allow (some "req-1") "fido2") ∧
      ⟨.peerUid, .ok resolved.client.expectedUid⟩ ∈ tr.map Event.label ∧
      ⟨.log entry, .ok ()⟩ ∈ tr.map Event.label ∧ entry.method = resolved.method := by
  obtain ⟨tr, h⟩ := Sample.completes_allow
  obtain ⟨trResolve, trRequest, resolved, nonce, now, request, sentMs, checkedMs, evaluatedMs,
    loggedMs, responseLine, result, entry, htr, -, hlabels, -, -, -, -, -, hmethod, -⟩ :=
    handleVerifyOnce_allow h rfl
  refine ⟨_, resolved, entry, h, ?_, ?_, hmethod⟩ <;> simp [htr, hlabels]

end OlaCore
