import OlaCore.Ipc.Audited

set_option relaxedAutoImplicit false
set_option autoImplicit false

/-!
# Are audit lines readable?

The line that the logger writes for an entry is read again by the verifier and, when the daemon
starts, by recovery. An entry that records a result carries its confidence, which no check has
looked at when a refusal outside policy is logged, and which the policy refuses without keeping
it out of the entry. A number in an adapter's reply that is too large for an `f32` is read as an
infinity; an infinity is written as `null`; and `null` is refused by both readers.

## Main definitions

* `OlaCore.ReadBack` — both readers read the line of an entry back.

## Main results

* `OlaCore.readBack_iff` — they do exactly when the confidence is finite.
* `OlaCore.broken_of_not_isFinite` — otherwise the log is refused and recovery fails.
* `OlaCore.handleVerifyOnce_readBack_iff` — when they do for the entries of the request path.
* `OlaCore.infinite_confidence_not_read_back` — a run in which they do not.
-/

namespace OlaCore

open ByteText Program

/-- Both readers read the line of an entry back, which is written after an entry with hash
`prevHash`: the line decodes to the entry as it was sealed, and passes the check of its hash in
the verifier and in recovery. -/
structure ReadBack (crates : Crates) (path : String) (lineNo : ℕ) (prevHash : String)
    (entry : AuditEntry) : Prop where
  parsed : readEntry crates.serde
    (crates.serde.toString ((entry.seal crates prevHash).serialize crates.serde)) =
      some (entry.seal crates prevHash)
  verified : verifyLine crates path lineNo prevHash
    ((entry.seal crates prevHash).line crates.serde) = .ok (entry.seal crates prevHash).entryHash
  recovered : recoverEntryHash crates path
    (crates.serde.toString ((entry.seal crates prevHash).serialize crates.serde)) =
      .ok (entry.seal crates prevHash).entryHash

section ReadBack

variable {crates : Crates} {path : String} {lineNo : ℕ} {prevHash : String} {entry : AuditEntry}

/-- The line of an entry is read back exactly when its confidence is finite. -/
theorem readBack_iff (hprev : isLowerHexHash prevHash) :
    ReadBack crates path lineNo prevHash entry ↔ entry.confidence.isFinite := by
  have hread := @AuditEntry.readEntry_seal crates entry prevHash hprev
  constructor
  · rintro ⟨hparsed, -, -⟩
    by_contra hfin
    rw [hread, if_neg hfin] at hparsed
    cases hparsed
  · intro hfin
    rw [if_pos hfin] at hread
    refine ⟨hread, ?_, ?_⟩
    · refine (verifyLine_eq_ok_iff hprev).mpr ⟨_, ?_, rfl, AuditEntry.seal_entryHash, rfl⟩
      rw [AuditEntry.line_eq, decodeFrame_eq_some_iff]
      simp [decodeEntry, hread]
    · exact recoverEntryHash_eq_ok_iff.mpr
        ⟨_, hread, hprev, AuditEntry.seal_entryHash, rfl⟩

/-- **A line that cannot be read breaks the log.** After the line of an entry whose confidence is
not finite, the verifier refuses the log, and recovery fails. -/
theorem broken_of_not_isFinite {content : Bytes} {report : AuditVerifyReport}
    (h : verifyReader crates path content = .ok report) (hprev : isLowerHexHash prevHash)
    (hfin : ¬ entry.confidence.isFinite) :
    (¬ ∃ r, verifyReader crates path
      (content ++ (entry.seal crates prevHash).line crates.serde) = .ok r) ∧
    ¬ ∃ x, lastEntryHash crates path
      (content ++ (entry.seal crates prevHash).line crates.serde) = .ok x := by
  have hread := @AuditEntry.readEntry_seal crates entry prevHash hprev
  rw [if_neg hfin] at hread
  obtain ⟨es, hes, -, -⟩ := verifyReader_eq_ok_iff.mp h
  rw [AuditEntry.line_eq]
  constructor
  · rintro ⟨r, hr⟩
    obtain ⟨fs, hfs, -, -⟩ := verifyReader_eq_ok_iff.mp hr
    rw [decodeLog] at hes hfs
    rw [decodeLines_append hes, decodeLines_line (crates.serde.newline_not_mem_toString _),
      decodeEntry, fromUtf8_utf8, Option.bind_some, hread] at hfs
    cases hfs
  · rintro ⟨x, hx⟩
    -- The accepted content is made of lines, so the new line is the last one.
    obtain ⟨ls, rfl, hls, -⟩ := decodeLines_eq_some_iff.mp hes
    have hjson := crates.serde.fromStr_toString _
      ((entry.seal crates prevHash).plain_of_mem_storedFields crates.serde)
    rw [← AuditEntry.serialize_eq crates.serde (ne_empty_of_isLowerHexHash hprev)
      (ne_empty_of_isLowerHexHash AuditEntry.isLowerHexHash_seal)] at hjson
    have hlines : ∀ s : String, unlines ls ++ (utf8 s ++ [newline]) = unlines (ls ++ [utf8 s]) := by
      intro s
      simp [unlines_append]
    rw [hlines, lastEntryHash_unlines hls (crates.serde.newline_not_mem_toString _)
      (not_blank_of_fromStr hjson)] at hx
    split at hx
    · obtain ⟨e, he, -⟩ := recoverEntryHash_eq_ok_iff.mp hx
      rw [hread] at he
      cases he
    · cases hx

/-- An entry that records a result carries its confidence. -/
theorem Records.confidence_eq {result : VerificationResult} (h : Records result entry) :
    entry.confidence = result.confidence := by
  cases h with
  | deny => rfl
  | fromDecision nowMs context decision callerUid adapterName requestId hresult =>
    rw [← hresult]
    rfl

end ReadBack

/-! ## The entries of the request path -/

section Path

variable {crates : Crates} {state : ServerState} {reloadable : ReloadableState}
  {callerUid uid : UInt32} {reqId : Option String}

/-- The entry of a log call after the adapter's reply records the result. -/
theorem records_of_mem_checkResult {resolved : ResolvedAdapter} {request : VerificationRequest}
    {result : VerificationResult} {W : Type} {step : W → (o : ServerOp) → o.Ans → W → Prop}
    {tr : List (Event W ServerOp ServerOp.Ans)} {response : Response}
    (h : Traces step
      (checkResult crates state reloadable callerUid uid reqId resolved request result) tr response)
    {w w' : W} {entry : AuditEntry} {answer : Except String Unit}
    (hlog : ⟨w, .log entry, answer, w'⟩ ∈ tr) : Records result entry :=
  (ends_checkResult.of_mem h hlog rfl).entry.1

/-- The entry that is logged at an exit without a result. -/
theorem eq_deny_of_mem_denyExit {method reason clientReason : String} {adapterName : Option String}
    {W : Type} {step : W → (o : ServerOp) → o.Ans → W → Prop}
    {tr : List (Event W ServerOp ServerOp.Ans)} {response : Response}
    (h : Traces step (denyExit callerUid uid reqId method reason adapterName none clientReason) tr
      response) {w w' : W} {entry : AuditEntry} {answer : Except String Unit}
    (hlog : ⟨w, .log entry, answer, w'⟩ ∈ tr) :
    ∃ nowMs method reason adapterName,
      entry = .deny nowMs callerUid uid method reason adapterName reqId none := by
  obtain ⟨nowMs, rfl⟩ := (ends_denyExit.of_mem h hlog rfl).entry
  exact ⟨nowMs, method, reason, adapterName, rfl⟩

/-- **Where the entries of the request path come from.** The entry that an execution logs records
no result, or it records the result that the adapter's client returned in that execution. -/
theorem entry_of_mem_handleVerifyOnce {method : String} {W : Type}
    {step : W → (o : ServerOp) → o.Ans → W → Prop} {tr : List (Event W ServerOp ServerOp.Ans)}
    {response : Response}
    (h : Traces step (handleVerifyOnce crates state reloadable callerUid uid reqId method) tr
      response) {w w' : W} {entry : AuditEntry} {answer : Except String Unit}
    (hlog : ⟨w, .log entry, answer, w'⟩ ∈ tr) :
    (∃ nowMs method reason adapterName,
      entry = .deny nowMs callerUid uid method reason adapterName reqId none) ∨
    ∃ (resolved : ResolvedAdapter) (request : VerificationRequest) (deadline : ℕ)
      (trVerify : List (Event W ServerOp ServerOp.Ans)) (result : VerificationResult),
      Traces step (resolved.client.verify crates.serde request deadline) trVerify (.ok result) ∧
        trVerify <:+: tr ∧ Records result entry := by
  have hcall : ∀ {o : ServerOp}, o.isLog = false →
      (call o : ServerProg o.Ans).Avoids (fun o => o.isLog) :=
    fun ho => avoids_call (by simp [ho])
  obtain ⟨tr₁, r, tr₂, rfl, -, h₂, hlog₂⟩ := traces_bind_of_mem avoids_log_resolve h hlog rfl
  rcases r with e | resolved
  · exact .inl (eq_deny_of_mem_denyExit h₂ hlog₂)
  obtain ⟨tr₃, generated, tr₄, rfl, -, h₄, hlog₄⟩ := traces_bind_of_mem (hcall rfl) h₂ hlog₂ rfl
  rcases generated with e | nonce
  · exact .inl (eq_deny_of_mem_denyExit h₄ hlog₄)
  obtain ⟨tr₅, now, tr₆, rfl, -, h₆, hlog₆⟩ := traces_bind_of_mem (hcall rfl) h₄ hlog₄ rfl
  obtain ⟨tr₇, id, tr₈, rfl, -, h₈, hlog₈⟩ := traces_bind_of_mem (hcall rfl) h₆ hlog₆ rfl
  obtain ⟨tr₉, nowMs, tr', rfl, -, h', hlog'⟩ := traces_bind_of_mem (hcall rfl) h₈ hlog₈ rfl
  obtain ⟨trDispatch, dispatched, trCheck, rfl, hdispatch, hcheck, hlogCheck⟩ :=
    traces_bind_of_mem avoids_log_dispatchResolved h' hlog' rfl
  rcases dispatched with e | result
  · obtain ⟨_, _, _, -, -, hdeny, hlogDeny⟩ := traces_bind_of_mem (hcall rfl) hcheck hlogCheck rfl
    exact .inl (eq_deny_of_mem_denyExit hdeny hlogDeny)
  obtain ⟨w₁, w₁', w₂, w₂', trVerify, rfl, hverify⟩ := traces_dispatchResolved_ok hdispatch
  refine .inr ⟨resolved, _, _, trVerify, result, hverify, ?_,
    records_of_mem_checkResult hcheck hlogCheck⟩
  exact ⟨tr₁ ++ tr₃ ++ tr₅ ++ tr₇ ++ tr₉ ++
    [⟨w₁, .adapterDown resolved.client.name, false, w₁'⟩,
      ⟨w₂, .acquire resolved.client.name, .ok (), w₂'⟩], trCheck, by simp⟩

/-- **Which audit lines are readable.** Let an execution of the request path log an entry. Whatever
the state of the logger, the line of an entry that records no result is read back by both readers
of the log. The line of an entry that records a result, which is the one that the adapter's client
returned in that execution, is read back exactly when the confidence of the result is finite. -/
theorem handleVerifyOnce_readBack_iff {method : String}
    {tr : List (Event ServerWorld ServerOp ServerOp.Ans)} {response : Response}
    (h : Traces (ServerStep crates)
      (handleVerifyOnce crates state reloadable callerUid uid reqId method) tr response)
    {w w' : ServerWorld} {entry : AuditEntry} {answer : Except String Unit}
    (hlog : ⟨w, .log entry, answer, w'⟩ ∈ tr) (path : String) (lineNo : ℕ) (logger : AuditState) :
    (∃ nowMs method reason adapterName,
      entry = .deny nowMs callerUid uid method reason adapterName reqId none ∧
        ReadBack crates path lineNo logger.prevHash entry) ∨
    ∃ (resolved : ResolvedAdapter) (request : VerificationRequest) (deadline : ℕ)
      (trVerify : List (Event ServerWorld ServerOp ServerOp.Ans)) (result : VerificationResult),
      Traces (ServerStep crates) (resolved.client.verify crates.serde request deadline) trVerify
          (.ok result) ∧
        trVerify <:+: tr ∧ Records result entry ∧
        (ReadBack crates path lineNo logger.prevHash entry ↔ result.confidence.isFinite) := by
  rcases entry_of_mem_handleVerifyOnce h hlog with
    ⟨nowMs, method, reason, adapterName, rfl⟩ |
      ⟨resolved, request, deadline, trVerify, result, hverify, hinfix, hrecords⟩
  · exact .inl ⟨nowMs, method, reason, adapterName, rfl, (readBack_iff logger.lowerHex).mpr rfl⟩
  · refine .inr ⟨resolved, request, deadline, trVerify, result, hverify, hinfix, hrecords, ?_⟩
    rw [← hrecords.confidence_eq]
    exact readBack_iff logger.lowerHex

end Path

/-- The line of an entry with a finite confidence, logged when a request is granted. -/
theorem handleVerifyOnce_readBack_iff_allow :
    ReadBack .reference "audit.log" 1 Sample.spent.audit.logger.prevHash Sample.entry := by
  obtain ⟨tr, h⟩ := Sample.completes_allow
  have hlog := List.mem_append_right tr (List.mem_singleton_self
    (⟨Sample.spent, .log Sample.entry, .ok (), Sample.logged⟩ :
      Event ServerWorld ServerOp ServerOp.Ans))
  rcases handleVerifyOnce_readBack_iff h hlog "audit.log" 1 Sample.spent.audit.logger with
    ⟨_, _, _, _, -, hread⟩ | ⟨_, _, _, _, result, -, -, hrecords, hiff⟩
  · exact hread
  · rw [hiff, ← hrecords.confidence_eq]
    decide

/-! ## A line that cannot be read -/

namespace Sample

/-- A reply whose confidence is beyond the range of an `f32`. -/
def overflowReply (id : Uuid) (nonce : Nonce) (evidenceHash : Vector UInt8 32) : Json :=
  .obj [("version", .num (natNumber 1)), ("id", serializeBytes id),
    ("confidence", .num ⟨false, 1, [], some 39⟩), ("method", .str "fido2"),
    ("timestamp_ms", .num (natNumber 1000)), ("uid", .num (natNumber 1000)),
    ("nonce", serializeBytes nonce), ("evidence_hash", serializeBytes evidenceHash)]

/-- What is made of such a reply: its confidence is an infinity. -/
def overflow (id : Uuid) (nonce : Nonce) (evidenceHash : Vector UInt8 32) : VerificationResult :=
  ⟨1, id, ⟨0x7f800000⟩, .fido2, 1000, 1000, nonce, evidenceHash⟩

/-- The reply is deserialised. -/
theorem deserialize_overflowReply (id : Uuid) (nonce : Nonce) (evidenceHash : Vector UInt8 32) :
    VerificationResult.deserialize Crates.reference.serde (overflowReply id nonce evidenceHash) =
      some (overflow id nonce evidenceHash) := by
  have hversion : deserializeU8 (.num (natNumber 1)) = some 1 := by decide
  have hconf : Crates.reference.serde.deserializeF32 (.num ⟨false, 1, [], some 39⟩) =
      some ⟨0x7f800000⟩ := by decide +kernel
  have hmethod : AuthMethod.ofStr "fido2" = .ok .fido2 := rfl
  have htimestamp : deserializeU64 (.num (natNumber 1000)) = some 1000 := by decide
  have huid : deserializeU32 (.num (natNumber 1000)) = some 1000 := by decide
  simp [VerificationResult.deserialize, overflowReply, overflow, structFields, requiredField,
    AuthMethod.deserialize, deserializeStr, hversion, hconf, hmethod, htimestamp, huid,
    Except.toOption, List.lookup_cons]

/-- The line of a reply with another nonce than the one in the request. -/
def overflowLine : String :=
  (overflowReply request.id (Vector.replicate 32 9) (Vector.replicate 32 0)).compact

/-- The result that is read from it. -/
def overflowResult : VerificationResult :=
  overflow request.id (Vector.replicate 32 9) (Vector.replicate 32 0)

/-- The line is accepted. -/
theorem readReply_overflowLine :
    AdapterClient.readReply Crates.reference.serde request overflowLine = .ok overflowResult := by
  have hparse : ∀ j : Json, Crates.reference.serde.fromStr j.compact = some j := Json.parse_compact
  refine AdapterClient.readReply_eq_ok_iff.mpr ⟨?_, rfl, rfl⟩
  rw [overflowLine, hparse, Option.bind_some, deserialize_overflowReply]
  rfl

/-- The entry of the refusal that follows. -/
def overflowEntry : AuditEntry :=
  .deny 1000 1000 1000 "fido2" "nonce_mismatch" (some "fido2-adapter") (some "req-1")
    (some overflowResult)

/-- The entry is in the log. -/
def overflowLogged : ServerWorld :=
  let (_, fs, logger) :=
    AuditLogger.log .reference spent.audit.fs spent.audit.logger overflowEntry .ok
  { spent with audit := ⟨fs, logger⟩ }

/-- The request is refused, after its entry was logged. -/
theorem completes_nonceMismatch : Completes (ServerStep .reference)
    (handleVerifyOnce .reference state reloadable 1000 1000 (some "req-1") "fido2")
    [⟨spent, .log overflowEntry, .ok (), overflowLogged⟩]
    (.deny (some "req-1") "nonce mismatch detected") := by
  refine completes_handleVerifyOnce readReply_overflowLine ?_
  unfold checkResult
  dsimp only
  rw [if_pos (by decide)]
  refine completes_call_bind issued (ServerOp.consume nonce 1000) (.ok ()) serverStep_consume ?_
  refine completes_call_bind spent ServerOp.nowMs (1000 : UInt64) rfl ?_
  exact completes_last ⟨.ok, _, _, rfl, rfl⟩ rfl

end Sample

/-- The adapter replies with a confidence of `1e39`. The client accepts the reply, the request is
refused and its entry is logged; but no reader reads the line back. The verifier refuses the log,
and a daemon that is started on it does not come up. -/
theorem infinite_confidence_not_read_back :
    AdapterClient.readReply Crates.reference.serde Sample.request Sample.overflowLine =
        .ok Sample.overflowResult ∧
      ∃ tr w w' content,
        Traces (ServerStep .reference)
          (handleVerifyOnce .reference Sample.state Sample.reloadable 1000 1000 (some "req-1")
            "fido2") tr (.deny (some "req-1") "nonce mismatch detected") ∧
        ⟨w, .log Sample.overflowEntry, .ok (), w'⟩ ∈ tr ∧
        Records Sample.overflowResult Sample.overflowEntry ∧
        ¬ ReadBack .reference "audit.log" 1 w.audit.logger.prevHash Sample.overflowEntry ∧
        w'.audit.fs.live = some content ∧
        (¬ ∃ r, verifyReader .reference "audit.log" content = .ok r) ∧
        ¬ ∃ r, AuditLogger.open .reference "audit.log" w'.audit.fs = .ok r := by
  have hfin : ¬ Sample.overflowEntry.confidence.isFinite := by decide
  obtain ⟨hverify, hrecover⟩ := broken_of_not_isFinite
    (verifyReader_nil .reference "audit.log") isLowerHexHash_zeroHash hfin
  obtain ⟨tr, h⟩ := Sample.completes_nonceMismatch
  refine ⟨Sample.readReply_overflowLine, _, Sample.spent, Sample.overflowLogged, _, h, by simp,
    .deny .., ?_, rfl, hverify, ?_⟩
  · rw [readBack_iff Sample.spent.audit.logger.lowerHex]
    exact hfin
  · rintro ⟨⟨fs, logger⟩, hopen⟩
    obtain ⟨hpath, hlast⟩ := AuditLogger.open_eq_ok_iff.mp hopen
    obtain ⟨ho, hget⟩ := AuditFs.openSecureAppend_of_live
      (show Sample.overflowLogged.audit.fs.live = some _ from rfl)
    obtain ⟨rfl, hfile⟩ := Prod.mk.inj (ho.symm.trans hpath)
    rw [← hfile, hget] at hlast
    exact hrecover ⟨_, hlast⟩

end OlaCore
