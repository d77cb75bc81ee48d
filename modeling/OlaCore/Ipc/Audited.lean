import OlaCore.Ipc.VerifyOnce

set_option relaxedAutoImplicit false
set_option autoImplicit false

/-!
# No audit, no decision

Every exit of the request path ends with one log call, and its response follows from the answer
of that call: a decision, which is the one in the entry, or an error. This is a property of the
program, so it holds of every request whatever else the daemon does.

The requests of all connections run concurrently. In every execution of any number of them, the
decisions are matched one-to-one with entries that were logged before.

## Main definitions

* `OlaCore.AuditedBy` — how a response follows from the log call of its request.
* `OlaCore.Records`, `OlaCore.DecidedBy` — the entries that are built from a result, and those of
  a request that is decided with a policy.
* `OlaCore.VerifyOnceCall` — the arguments of one request.

## Main results

* `OlaCore.ends_handleVerifyOnce` — every exit ends with one log call.
* `OlaCore.decisions_are_audited` — the decisions of concurrent requests are matched with logged
  entries.
-/

namespace OlaCore

open Program

/-! ## Every exit ends with one log call -/

/-- Is the operation a log call? -/
def ServerOp.isLog : ServerOp → Bool
  | .log _ => true
  | _ => false

/-- How the response to a request follows from its log call, which is about an entry of the kind
`B`: when the call has succeeded, the response carries the decision and the identifier of the
entry, which is about the users of the request; when it has failed, the response is an error. -/
def AuditedBy (B : AuditEntry → Prop) (callerUid uid : UInt32) (reqId : Option String) :
    (o : ServerOp) → o.Ans → Response → Prop
  | .log entry, .ok (), response =>
    B entry ∧ response.decision = some entry.decision ∧ response.id = entry.requestId ∧
      entry.requestId = reqId ∧ entry.callerUid = callerUid ∧ entry.uid = uid
  | .log entry, .error _, response => B entry ∧ response = .ofError reqId "audit failed"
  | _, _, _ => False

/-- The entries that record a result: refusals outside policy, and decisions of the policy. -/
inductive Records (result : VerificationResult) : AuditEntry → Prop
  | deny (nowMs : UInt64) (callerUid uid : UInt32) (method reason : String)
      (adapterName requestId : Option String) : Records result
        (.deny nowMs callerUid uid method reason adapterName requestId (some result))
  | fromDecision (nowMs : UInt64) (context : AuthContext) (decision : PolicyDecision)
      (callerUid : UInt32) (adapterName requestId : Option String) : context.result = result →
      Records result (.fromDecision nowMs context decision callerUid adapterName requestId)

/-- The entries of a request that is decided with the given policy: refusals outside policy, and
decisions of this policy. -/
inductive DecidedBy (engine : PolicyEngine) : AuditEntry → Prop
  | refused (nowMs : UInt64) (callerUid uid : UInt32) (method reason : String)
      (adapterName requestId : Option String) (result : Option VerificationResult) :
      DecidedBy engine (.deny nowMs callerUid uid method reason adapterName requestId result)
  | evaluated (nowMs evaluatedMs : UInt64) (context : AuthContext) (decision : PolicyDecision)
      (callerUid : UInt32) (adapterName requestId : Option String) :
      engine.evaluate evaluatedMs context = decision →
      DecidedBy engine (.fromDecision nowMs { context with decision := some decision } decision
        callerUid adapterName requestId)

/-- The log call of a request, whatever its answer, is about an entry of the kind `B`. -/
theorem AuditedBy.entry {B : AuditEntry → Prop} {callerUid uid : UInt32} {reqId : Option String}
    {entry : AuditEntry} {answer : Except String Unit} {response : Response}
    (h : AuditedBy B callerUid uid reqId (.log entry) answer response) : B entry := by
  rcases answer with _ | _ <;> exact h.1

/-- A weaker kind of entries. -/
theorem AuditedBy.mono {B B' : AuditEntry → Prop} {callerUid uid : UInt32} {reqId : Option String}
    {o : ServerOp} {answer : o.Ans} {response : Response} (hB : ∀ entry, B entry → B' entry)
    (h : AuditedBy B callerUid uid reqId o answer response) :
    AuditedBy B' callerUid uid reqId o answer response := by
  cases o with
  | log entry =>
    rcases answer with _ | _
    · exact ⟨hB entry h.1, h.2⟩
    · exact ⟨hB entry h.1, h.2⟩
  | _ => exact h.elim

section Exits

variable {crates : Crates} {state : ServerState} {reloadable : ReloadableState}
  {callerUid uid : UInt32} {reqId : Option String}

/-- A refusal that is logged. -/
theorem ends_auditDeny {B : AuditEntry → Prop} {entry : AuditEntry} {clientReason : String}
    (hB : B entry) (hdecision : entry.decision = "deny") (hid : entry.requestId = reqId)
    (hcaller : entry.callerUid = callerUid) (huid : entry.uid = uid) :
    (auditDeny entry reqId clientReason).Ends (fun o => o.isLog)
      (AuditedBy B callerUid uid reqId) := by
  refine .inl ⟨rfl, fun answer => ?_⟩
  rcases answer with text | _
  · exact ⟨_, rfl, hB, rfl⟩
  · exact ⟨_, rfl, hB, by rw [hdecision]; rfl, hid.symm, hid, hcaller, huid⟩

/-- An exit that refuses outside policy. -/
theorem ends_denyExit {method reason clientReason : String} {adapterName : Option String}
    {result : Option VerificationResult} :
    (denyExit callerUid uid reqId method reason adapterName result clientReason).Ends
      (fun o => o.isLog) (AuditedBy (fun entry => ∃ nowMs,
        entry = .deny nowMs callerUid uid method reason adapterName reqId result)
        callerUid uid reqId) :=
  ends_bind (avoids_call Bool.false_ne_true) fun _ => ends_auditDeny ⟨_, rfl⟩ rfl rfl rfl rfl

/-- An exit that refuses because of a result. -/
theorem ends_denyExit_result {method reason clientReason : String} {adapterName : Option String}
    {result : VerificationResult} {engine : PolicyEngine} :
    (denyExit callerUid uid reqId method reason adapterName (some result) clientReason).Ends
      (fun o => o.isLog) (AuditedBy (fun entry => Records result entry ∧ DecidedBy engine entry)
        callerUid uid reqId) := by
  refine ends_denyExit.mono fun _ _ _ => AuditedBy.mono ?_
  rintro _ ⟨nowMs, rfl⟩
  exact ⟨.deny .., .refused ..⟩

/-- The policy is asked without a log call, and its decision is the one at the time that was
read. -/
theorem ends_evaluateNow_bind {engine : PolicyEngine} {context : AuthContext}
    {f : PolicyDecision → ServerProg Response}
    {Q : (o : ServerOp) → o.Ans → Response → Prop}
    (hf : ∀ evaluatedMs, (f (engine.evaluate evaluatedMs context)).Ends (fun o => o.isLog) Q) :
    (engine.evaluateNow context >>= f).Ends (fun o => o.isLog) Q := by
  unfold PolicyEngine.evaluateNow
  split
  · next hnone =>
    have heq : ∀ evaluatedMs, engine.evaluate evaluatedMs context = .deny .noMatchingRule := by
      intro evaluatedMs
      simp [PolicyEngine.evaluate, hnone]
    rw [← heq 0]
    exact hf 0
  · exact .inr ⟨Bool.false_ne_true, hf⟩

/-- The exits after the checks, with a decision of the policy. -/
theorem ends_evaluateAndAudit {resolved : ResolvedAdapter} {request : VerificationRequest}
    {result : VerificationResult} :
    (evaluateAndAudit reloadable callerUid uid reqId resolved request result).Ends
      (fun o => o.isLog) (AuditedBy
        (fun entry => Records result entry ∧ DecidedBy reloadable.policyEngine entry)
        callerUid uid reqId) := by
  refine ends_evaluateNow_bind fun evaluatedMs => ?_
  refine ends_bind (avoids_call Bool.false_ne_true) fun nowMs => .inl ⟨rfl, fun answer => ?_⟩
  generalize hdecision : reloadable.policyEngine.evaluate evaluatedMs
    ⟨uid, resolved.method, request, result, none⟩ = decision
  have hrecords : Records result (.fromDecision nowMs
      ⟨uid, resolved.method, request, result, some decision⟩ decision callerUid
      (some resolved.adapterName) reqId) := .fromDecision _ _ _ _ _ _ rfl
  have hdecided := DecidedBy.evaluated nowMs evaluatedMs _ decision callerUid
    (some resolved.adapterName) reqId hdecision
  rcases answer with text | _
  · exact ⟨_, rfl, ⟨hrecords, hdecided⟩, rfl⟩
  · cases decision with
    | allow => exact ⟨_, rfl, ⟨hrecords, hdecided⟩, rfl, rfl, rfl, rfl, rfl⟩
    | deny reason => exact ⟨_, rfl, ⟨hrecords, hdecided⟩, rfl, rfl, rfl, rfl, rfl⟩

/-- The exits after the adapter's reply. All of them record the result. -/
theorem ends_checkResult {resolved : ResolvedAdapter} {request : VerificationRequest}
    {result : VerificationResult} :
    (checkResult crates state reloadable callerUid uid reqId resolved request result).Ends
      (fun o => o.isLog) (AuditedBy
        (fun entry => Records result entry ∧ DecidedBy reloadable.policyEngine entry)
        callerUid uid reqId) := by
  have hconsume : (ServerProg.consume request.nonce uid).Avoids (fun o => o.isLog) :=
    avoids_call Bool.false_ne_true
  unfold checkResult
  dsimp only
  split
  · exact ends_bind hconsume fun _ => ends_denyExit_result
  refine ends_bind (avoids_call Bool.false_ne_true) fun nowMs => ?_
  split
  · exact ends_bind hconsume fun _ => ends_denyExit_result
  refine ends_bind hconsume fun consumed => ?_
  rcases consumed with e | _
  · exact ends_denyExit_result
  dsimp only
  split
  · exact ends_denyExit_result
  split
  · exact ends_denyExit_result
  · exact ends_evaluateAndAudit

/-- A dispatch makes no log call. -/
theorem avoids_log_dispatchResolved {serde : SerdeJson} {resolved : ResolvedAdapter}
    {request : VerificationRequest} {deadline : ℕ} :
    (dispatchResolved serde resolved request deadline).Avoids (fun o => o.isLog) := by
  apply avoids_dispatchResolved <;> simp [ServerOp.isLog]

/-- Resolving makes no log call. -/
theorem avoids_log_resolve {reg : AdapterRegistry} {method : String} :
    (reg.resolve ServerProg.adapterDown method).Avoids (fun o => o.isLog) :=
  AdapterRegistry.avoids_resolve (by simp [ServerOp.isLog]) method

/-- **Every exit ends with one log call**, from which the response follows. -/
theorem ends_handleVerifyOnce {method : String} :
    (handleVerifyOnce crates state reloadable callerUid uid reqId method).Ends
      (fun o => o.isLog) (AuditedBy (DecidedBy reloadable.policyEngine) callerUid uid reqId) := by
  have hrefused : ∀ {method reason clientReason : String} {adapterName : Option String},
      (denyExit callerUid uid reqId method reason adapterName none clientReason).Ends
        (fun o => o.isLog) (AuditedBy (DecidedBy reloadable.policyEngine) callerUid uid reqId) := by
    intro method reason clientReason adapterName
    refine ends_denyExit.mono fun _ _ _ => AuditedBy.mono ?_
    rintro _ ⟨nowMs, rfl⟩
    exact .refused ..
  refine ends_bind avoids_log_resolve fun r => ?_
  rcases r with e | resolved
  · exact hrefused
  refine ends_bind (avoids_call Bool.false_ne_true) fun generated => ?_
  rcases generated with e | nonce
  · exact hrefused
  refine ends_bind (avoids_call Bool.false_ne_true) fun now => ?_
  refine ends_bind (avoids_call Bool.false_ne_true) fun id => ?_
  refine ends_bind (avoids_call Bool.false_ne_true) fun nowMs => ?_
  refine ends_bind avoids_log_dispatchResolved fun dispatched => ?_
  rcases dispatched with e | result
  · exact ends_bind (avoids_call Bool.false_ne_true) fun _ => hrefused
  · exact ends_checkResult.mono fun _ _ _ => AuditedBy.mono fun _ h => h.2

end Exits

/-! ## Concurrent requests -/

/-- The arguments of one request. -/
structure VerifyOnceCall where
  reloadable : ReloadableState
  callerUid : UInt32
  uid : UInt32
  reqId : Option String
  method : String

/-- The program of a request. -/
def VerifyOnceCall.program (crates : Crates) (state : ServerState) (call : VerifyOnceCall) :
    ServerProg Response :=
  handleVerifyOnce crates state call.reloadable call.callerUid call.uid call.reqId call.method

/-- **No audit, no decision.** In every execution of any number of concurrent requests, with any
steps of the environment in between, every response that carries a decision is matched with a log
call of the same request before it. That call has succeeded, so the line of the entry is in the
log, and the entry has the decision and the identifier of the response and is about the users of
the request. Different responses are matched with different calls. A request whose log call failed
is answered with an error, and no request makes more than one log call.

**Proof sketch.** Every exit of the program ends with its only log call. The calls of a request
in the history form an execution of its program, whatever happens in between. -/
theorem decisions_are_audited {crates : Crates} {state : ServerState} {calls : ℕ → VerifyOnceCall}
    {env : ServerWorld → ServerWorld → Prop} {w₀ w : ServerWorld}
    {procs : ℕ → ServerProg Response} {H : List (Entry ServerWorld ServerOp ServerOp.Ans Response)}
    (h : Exec (ServerStep crates) env (fun i => (calls i).program crates state) w₀ w procs H) :
    (∃ f : ℕ → ℕ,
      (∀ (j i : ℕ) (response : Response) (decision : String),
        H[j]? = some (.ret i response) → response.decision = some decision →
          f j < j ∧ ∃ w entry w', H[f j]? = some (.step i ⟨w, .log entry, .ok (), w'⟩) ∧
            w'.audit.fs = w.audit.fs.append w.audit.logger.file
              ((entry.seal crates w.audit.logger.prevHash).line crates.serde) ∧
            entry.decision = decision ∧ entry.requestId = response.id ∧
            entry.requestId = (calls i).reqId ∧ entry.callerUid = (calls i).callerUid ∧
            entry.uid = (calls i).uid) ∧
      Set.InjOn f {j | ∃ i response, H[j]? = some (.ret i response) ∧ response.decision ≠ none}) ∧
    (∀ i w entry text w' response, .step i ⟨w, .log entry, .error text, w'⟩ ∈ H →
      .ret i response ∈ H → response.error = some "audit failed" ∧ response.result = none) ∧
    ∀ i, (H.filterMap (Entry.callOf i)).countP (fun e => e.op.isLog) ≤ 1 := by
  have hprog : ∀ i, ((calls i).program crates state).Ends (fun o => o.isLog)
      (AuditedBy (DecidedBy (calls i).reloadable.policyEngine) (calls i).callerUid (calls i).uid
        (calls i).reqId) :=
    fun _ => ends_handleVerifyOnce
  refine ⟨?_, ?_, ?_⟩
  · obtain ⟨f, hf, hinj⟩ := h.exists_matching hprog
    refine ⟨f, fun j i response decision hj hd => ?_, ?_⟩
    · obtain ⟨hlt, ⟨w, o, answer, w'⟩, he, ho, hs, hq⟩ := hf j i response hj
      cases o with
      | log entry =>
        rcases answer with text | _
        · -- A failed call gives no decision.
          obtain rfl : response = .ofError (calls i).reqId "audit failed" := hq.2
          cases hd
        · obtain ⟨-, hdecision, hid, hreq, hcaller, huid⟩ := hq
          exact ⟨hlt, w, entry, w', he, serverStep_log_ok hs,
            Option.some.inj (hdecision.symm.trans hd), hid.symm, hreq, hcaller, huid⟩
      | _ => cases ho
    · rintro j ⟨i, r, hj, -⟩ j' ⟨i', r', hj', -⟩ hff
      exact hinj j j' i i' r r' hj hj' hff
  · intro i w entry text w' response hlog hret
    obtain ⟨H₁, H₂, hH⟩ := List.append_of_mem hret
    obtain ⟨e, -, -, -, hq, hunique⟩ := h.call_of_ret hprog hH
    obtain rfl := hunique _ hlog rfl
    obtain rfl : response = .ofError (calls i).reqId "audit failed" := hq.2
    exact ⟨rfl, rfl⟩
  · intro i
    simpa using h.countP_le_one hprog i

/-- A request for a method that no adapter offers. -/
def Sample.unknownMethod : VerifyOnceCall := ⟨Sample.reloadable, 1000, 1000, some "req-1", "pin"⟩

/-- The entry of its refusal. -/
def Sample.unknownMethodEntry : AuditEntry :=
  .deny 1000 1000 1000 "pin" "method not found: pin" none (some "req-1") none

/-- Two such requests at once, with the log reopened in between. The first one is refused, after
its entry; the log call of the second one fails, and it is answered with an error. -/
theorem decisions_are_audited_two :
    ∃ w procs H, Exec (ServerStep .reference) Background
        (fun _ => Sample.unknownMethod.program .reference Sample.state) Sample.idle w procs H ∧
      H[3]? = some (.ret 0 (.deny (some "req-1") "method not found: pin")) ∧
      H[5]? = some (.ret 1 (.ofError (some "req-1") "audit failed")) ∧
      ∃ k < 3, ∃ w entry w', H[k]? = some (.step 0 ⟨w, .log entry, .ok (), w'⟩) ∧
        entry.decision = "deny" := by
  have h₀ : Exec (ServerStep .reference) Background
      (fun _ => Sample.unknownMethod.program .reference Sample.state) Sample.idle Sample.idle _
      [] := .start
  have h₁ := h₀.call (i := 0) (a := (1000 : UInt64))
    (show _ = Prog.op ServerOp.nowMs _ from rfl) rfl
  have h₂ := h₁.call (i := 1) (a := (1000 : UInt64))
    (show _ = Prog.op ServerOp.nowMs _ from rfl) rfl
  have h₃ := h₂.environment (Background.reopen Sample.idle rfl)
  have h₄ := h₃.call (i := 0) (a := .ok ())
    (show _ = Prog.op (ServerOp.log Sample.unknownMethodEntry) _ from rfl) ⟨.ok, _, _, rfl, rfl⟩
  have h₅ := h₄.ret (i := 0) rfl (by simp)
  have h₆ := h₅.call (i := 1) (a := .error "audit sync failed")
    (show _ = Prog.op (ServerOp.log Sample.unknownMethodEntry) _ from rfl)
    ⟨.syncFailed, _, _, rfl, rfl⟩
  have h₇ := h₆.ret (i := 1) rfl (by simp)
  obtain ⟨⟨f, hf, -⟩, -, -⟩ := decisions_are_audited h₇
  obtain ⟨hlt, w, entry, w', hlog, -, hdecision, -⟩ := hf 3 0 _ "deny" rfl rfl
  exact ⟨_, _, _, h₇, rfl, rfl, f 3, hlt, w, entry, w', hlog, hdecision⟩

end OlaCore
