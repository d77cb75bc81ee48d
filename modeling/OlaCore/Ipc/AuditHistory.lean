import OlaCore.Ipc.Snapshot

set_option relaxedAutoImplicit false
set_option autoImplicit false

/-!
# The log as the history of decisions

What the daemon promises to an auditor is that its files tell the whole story. The abstract state
is a list of entries, to which every successful log call adds one. The files of the daemon refine
that list: in every run, with any number of connections and with rotations of the log at any time,
they are the lines of the sealed entries, and they verify. Every decision that was sent on a
connection has an entry of its own in that list, which was there before the decision was sent.

## Main definitions

* `OlaCore.loggedOf`, `OlaCore.failedLogOf` — the log calls of a history that have succeeded, and
  those that have failed.
* `OlaCore.sealAll` — the abstract list, as it is stored.

## Main results

* `OlaCore.exec_auditRun` — the log of the daemon is a run of the log alone.
* `OlaCore.files_of_exec` — the files are the list.
* `OlaCore.ends_handleVerifyOnce_method` — every exit logs the method that was asked for.
* `OlaCore.RequestRun.Decides.last_log` — the last call before a decision logs it.
* `OlaCore.exists_place_of_decision` — decisions and the entries of the log.
* `OlaCore.decisions_in_verified_log` — the files hold every decision that was sent.
-/

namespace OlaCore

open Program ByteText HashChain Runs

/-! ## The abstract list -/

/-- The entry of a log call that has succeeded. -/
def loggedOf : Entry DaemonWorld ClientOp ClientOp.Ans (Except String Unit) → Option AuditEntry
  | .step _ ⟨_, .server (.log entry), .ok (), _⟩ => some entry
  | _ => none

/-- The log before and after a log call that has failed. -/
def failedLogOf : Entry DaemonWorld ClientOp ClientOp.Ans (Except String Unit) →
    Option (AuditWorld × AuditWorld)
  | .step _ ⟨u, .server (.log _), .error _, u'⟩ => some (u.server.audit, u'.server.audit)
  | _ => none

/-- The entries as they are stored: each commits to the one before it, and the first one to the
given hash. -/
def sealAll (crates : Crates) : String → List AuditEntry → List AuditEntry
  | _, [] => []
  | h, e :: es => e.seal crates h :: sealAll crates (e.seal crates h).entryHash es

section SealAll

variable {crates : Crates} {h : String}

@[simp] theorem sealAll_nil : sealAll crates h [] = [] := rfl

@[simp] theorem length_sealAll (es : List AuditEntry) :
    (sealAll crates h es).length = es.length := by
  induction es generalizing h with
  | nil => rfl
  | cons e es ih => simp [sealAll, ih]

/-- One more entry at the end. -/
theorem sealAll_concat (es : List AuditEntry) (e : AuditEntry) :
    sealAll crates h (es ++ [e]) =
      sealAll crates h es ++ [e.seal crates (lastHash h (sealAll crates h es))] := by
  induction es generalizing h with
  | nil => rfl
  | cons e' es ih => simp [sealAll, ih, lastHash]

/-- An entry of the list is stored at its place. -/
theorem getElem?_sealAll {es : List AuditEntry} {n : ℕ} {e : AuditEntry} (he : es[n]? = some e) :
    ∃ prevHash, (sealAll crates h es)[n]? = some (e.seal crates prevHash) := by
  induction es generalizing h n with
  | nil => cases he
  | cons e' es ih =>
    cases n with
    | zero =>
      obtain rfl := Option.some.inj he
      exact ⟨h, rfl⟩
    | succ n => exact ih he

end SealAll

/-! ## The daemon refines the list -/

section Refinement

variable {crates : Crates} {path : String} {toml : String → Except String (List RawPolicyRule)}
  {config : Config}

/-- A log call that succeeds is one of the log. -/
theorem auditStep_of_log {w w' : ServerWorld} {entry : AuditEntry}
    (h : ServerStep crates w (.log entry) (.ok ()) w') :
    w.audit.step crates path (.log entry .ok) =
      some (w'.audit, [entry.seal crates w.audit.logger.prevHash]) := by
  obtain ⟨io, fs, logger, hlog, rfl⟩ := h
  cases io with
  | ok =>
    obtain ⟨rfl, rfl⟩ := Prod.mk.inj (Prod.mk.inj hlog).2
    rfl
  | _ => cases (Prod.mk.inj hlog).1

/-- The other operations leave the log alone. -/
theorem audit_of_serverStep {w w' : ServerWorld} {o : ServerOp} {answer : o.Ans}
    (h : ServerStep crates w o answer w') (ho : ¬ o.isLog) : w'.audit = w.audit := by
  cases o with
  | log entry => exact absurd rfl ho
  | adapterDown name =>
    obtain ⟨-, rfl⟩ := h
    rfl
  | generate uid =>
    obtain ⟨_, _, -, rfl⟩ := h
    rfl
  | consume nonce uid =>
    obtain ⟨_, -, rfl⟩ := h
    rfl
  | instantNow =>
    obtain ⟨-, rfl⟩ := h
    rfl
  | _ =>
    obtain rfl : w' = w := h
    rfl

/-- So do the calls of a task that are not log calls. -/
theorem audit_of_daemonStep {w w' : DaemonWorld} {o : ClientOp} {answer : o.Ans}
    (h : DaemonStep crates w o answer w') (ho : ∀ entry, o ≠ .server (.log entry)) :
    w'.server.audit = w.server.audit := by
  cases o with
  | server o =>
    obtain ⟨server, hs, rfl⟩ := h
    refine audit_of_serverStep hs fun hlog => ?_
    cases o with
    | log entry => exact ho entry rfl
    | _ => cases hlog
  | acquireConn =>
    obtain ⟨-, rfl⟩ := h
    rfl
  | loadReloadable =>
    obtain ⟨-, rfl⟩ := h
    rfl
  | releaseConn =>
    obtain rfl := h
    rfl
  | _ =>
    obtain rfl : w' = w := h
    rfl

/-- The environment rotates the log, or leaves it alone. -/
theorem auditStep_of_background {w w' : ServerWorld} (h : Background w w') :
    w'.audit = w.audit ∨ ∃ op : AuditOp, op.OneLifetime crates ∧
      w.audit.step crates path op = some (w'.audit, []) := by
  cases h with
  | rename hr => exact .inr ⟨.rename, trivial, by simp [AuditWorld.step, hr]⟩
  | create hc => exact .inr ⟨.create, trivial, by simp [AuditWorld.step, hc]⟩
  | reopen hr => exact .inr ⟨.reopen, trivial, by simp [AuditWorld.step, hr]⟩
  | _ => exact .inl rfl

/-- **The log of the daemon is a run of the log alone.** In every run of any programs in which a
failed log call leaves the log as it was and the logged entries decode back, the states of the log
are those of a run of log calls and rotations, which writes the sealed entries of the calls that
have succeeded, in their order. -/
theorem exec_auditRun {fs₀ : AuditFs} {prog procs : ℕ → ClientProg (Except String Unit)}
    {w₀ w : DaemonWorld} {H : List (Entry DaemonWorld ClientOp ClientOp.Ans (Except String Unit))}
    (hfs : ∀ f ∈ fs₀.files, f = [])
    (ho : AuditLogger.open crates path fs₀ = .ok (w₀.server.audit.fs, w₀.server.audit.logger))
    (h : Exec (DaemonStep crates) (DaemonEnv toml config) prog w₀ w procs H)
    (hfailed : ∀ p ∈ H.filterMap failedLogOf, p.2 = p.1)
    (hdecodes : ∀ entry ∈ H.filterMap loggedOf, entry.DecodesBack crates) :
    ∃ ops, Run (AuditWorld.step crates path) (fun _ op => op.OneLifetime crates) w₀.server.audit
      ops w.server.audit (sealAll crates zeroHash (H.filterMap loggedOf)) := by
  induction h with
  | start => exact ⟨[], .nil⟩
  | @call w w' procs H i o k answer _ _ hs ih =>
    rw [List.filterMap_append] at hfailed
    rw [List.filterMap_append, List.forall_mem_append] at hdecodes
    obtain ⟨ops, hrun⟩ := ih (List.forall_mem_append.mp hfailed).1 hdecodes.1
    -- Only a log call that succeeds adds to the list.
    have hother : loggedOf (.step i ⟨w, o, answer, w'⟩) = none →
        w'.server.audit = w.server.audit → ∃ ops, Run (AuditWorld.step crates path)
          (fun _ op => op.OneLifetime crates) w₀.server.audit ops w'.server.audit
          (sealAll crates zeroHash
            ((H ++ [Entry.step i ⟨w, o, answer, w'⟩]).filterMap loggedOf)) := by
      intro hnone haudit
      rw [List.filterMap_append, List.filterMap_cons, hnone, haudit]
      simpa using ⟨ops, hrun⟩
    by_cases hlog : ∃ entry, o = .server (.log entry)
    · obtain ⟨entry, rfl⟩ := hlog
      rcases answer with text | _
      · exact hother rfl ((List.forall_mem_append.mp hfailed).2 (w.server.audit, w'.server.audit)
          (List.mem_singleton_self _))
      · obtain ⟨server, hserver, rfl⟩ := hs
        have hprev := (LifetimeInv.of_run hfs ho hrun).prevHash
        have hstep : w.server.audit.step crates path (.log entry .ok) = _ :=
          auditStep_of_log hserver
        rw [hprev] at hstep
        refine ⟨ops ++ [.log entry .ok], ?_⟩
        rw [List.filterMap_append]
        change Run _ _ _ _ _ (sealAll crates zeroHash (H.filterMap loggedOf ++ [entry]))
        rw [sealAll_concat]
        exact hrun.snoc _ ⟨rfl, hdecodes.2 entry (List.mem_singleton_self entry)⟩ hstep
    · refine hother ?_ (audit_of_daemonStep hs fun entry heq => hlog ⟨entry, heq⟩)
      unfold loggedOf
      split
      · next heq =>
        obtain ⟨-, heq⟩ := Entry.step.inj heq
        obtain ⟨-, rfl, -⟩ := Event.mk.inj heq
        exact absurd ⟨_, rfl⟩ hlog
      · rfl
  | ret _ _ _ ih =>
    rw [List.filterMap_append] at hfailed hdecodes ⊢
    simp only [List.filterMap_cons, loggedOf, failedLogOf, List.filterMap_nil,
      List.append_nil] at hfailed hdecodes ⊢
    exact ih hfailed hdecodes
  | environment _ he ih =>
    obtain ⟨ops, hrun⟩ := ih hfailed hdecodes
    cases he with
    | background hb =>
      obtain haudit | ⟨op, hop, hstep⟩ :=
        (auditStep_of_background hb : _ ∨ ∃ op : AuditOp, op.OneLifetime crates ∧
          AuditWorld.step crates path _ op = _)
      · exact ⟨ops, haudit ▸ hrun⟩
      · refine ⟨ops ++ [op], ?_⟩
        have hnext := hrun.snoc op hop hstep
        rwa [List.append_nil] at hnext
    | reload files => exact ⟨ops, hrun⟩

/-- **The files are the list.** Under the same conditions the files, one after another, verify, and
they decode to the sealed entries of the log calls that have succeeded. -/
theorem files_of_exec {fs₀ : AuditFs} {prog procs : ℕ → ClientProg (Except String Unit)}
    {w₀ w : DaemonWorld} {H : List (Entry DaemonWorld ClientOp ClientOp.Ans (Except String Unit))}
    (hfs : ∀ f ∈ fs₀.files, f = [])
    (ho : AuditLogger.open crates path fs₀ = .ok (w₀.server.audit.fs, w₀.server.audit.logger))
    (h : Exec (DaemonStep crates) (DaemonEnv toml config) prog w₀ w procs H)
    (hfailed : ∀ p ∈ H.filterMap failedLogOf, p.2 = p.1)
    (hfinite : ∀ entry ∈ H.filterMap loggedOf, entry.confidence.isFinite) :
    verifyReader crates path w.server.audit.fs.files.flatten =
        .ok ⟨(H.filterMap loggedOf).length, w.server.audit.logger.prevHash⟩ ∧
      decodeLog crates.serde w.server.audit.fs.files.flatten =
        some (sealAll crates zeroHash (H.filterMap loggedOf)) := by
  obtain ⟨ops, hrun⟩ := exec_auditRun hfs ho h hfailed fun entry hmem =>
    AuditEntry.decodesBack_iff.mpr (hfinite entry hmem)
  have hinv := LifetimeInv.of_run hfs ho hrun
  rw [hinv.flatten_files]
  refine ⟨?_, decodeLog_logText hinv.decodes⟩
  rw [verifyReader_logText hinv.chain hinv.decodes, hinv.prevHash, length_sealAll]

end Refinement

/-! ## Decisions -/

section Decisions

variable {crates : Crates} {toml : String → Except String (List RawPolicyRule)}
  {state : ServerState} {ownUid callerUid : UInt32} {lines : ℕ → ℕ} {w₀ w : DaemonWorld}
  {procs : ℕ → ClientProg (Except String Unit)}
  {H : List (Entry DaemonWorld ClientOp ClientOp.Ans (Except String Unit))}

/-- What the log call of a request has to do with the decision that is sent: the entry is the one
that the request path has built, it has the decision and the identifier of the response, and it
names the peer, the user that the request is for, and the method that was asked for, unless that was
the wildcard. -/
structure RequestRun.Logs (callerUid : UInt32) (run : RequestRun) (response : Response)
    (entry : AuditEntry) : Prop where
  decidedBy : DecidedBy run.snapshot.policyEngine entry
  decision : response.decision = some entry.decision
  id : response.id = entry.requestId
  requestId : entry.requestId = run.req.id
  callerUid : entry.callerUid = callerUid
  uid : entry.uid = run.uid
  method : run.method ≠ "any" → entry.method = run.method

/-- A method other than the wildcard resolves to itself. -/
theorem returns_resolve {reg : AdapterRegistry} {method : String} (hany : method ≠ "any") :
    (reg.resolve ServerProg.adapterDown method).Returns
      fun r => ∀ resolved, r = .ok resolved → resolved.method = method := by
  unfold AdapterRegistry.resolve AdapterRegistry.resolveClient
  rw [if_neg hany]
  intro resolved hresolved
  cases hlookup : reg.clients.lookup method with
  | none =>
    rw [hlookup] at hresolved
    cases hresolved
  | some client =>
    rw [hlookup] at hresolved
    obtain rfl := Except.ok.inj hresolved
    rfl

section Method

variable {reloadable : ReloadableState} {uid : UInt32} {reqId : Option String}

/-- Every exit after the adapter's reply logs the method that was resolved. -/
theorem ends_checkResult_method {resolved : ResolvedAdapter} {request : VerificationRequest}
    {result : VerificationResult} :
    (checkResult crates state reloadable callerUid uid reqId resolved request result).Ends
      (fun o => o.isLog) (AuditedBy (fun entry => entry.method = resolved.method)
        callerUid uid reqId) := by
  have hrefused : ∀ reason clientReason,
      (denyExit callerUid uid reqId resolved.method reason (some resolved.adapterName)
        (some result) clientReason).Ends (fun o => o.isLog)
        (AuditedBy (fun entry => entry.method = resolved.method) callerUid uid reqId) := by
    intro reason clientReason
    refine ends_denyExit.mono fun _ _ _ => AuditedBy.mono ?_
    rintro _ ⟨nowMs, rfl⟩
    rfl
  have hconsume : (ServerProg.consume request.nonce uid).Avoids (fun o => o.isLog) :=
    avoids_call Bool.false_ne_true
  unfold checkResult
  dsimp only
  split
  · exact ends_bind hconsume fun _ => hrefused _ _
  refine ends_bind (avoids_call Bool.false_ne_true) fun nowMs => ?_
  split
  · exact ends_bind hconsume fun _ => hrefused _ _
  refine ends_bind hconsume fun consumed => ?_
  rcases consumed with e | _
  · exact hrefused _ _
  dsimp only
  split
  · exact hrefused _ _
  split
  · exact hrefused _ _
  refine ends_evaluateNow_bind fun evaluatedMs => ?_
  refine ends_bind (avoids_call Bool.false_ne_true) fun nowMs => .inl ⟨rfl, fun answer => ?_⟩
  generalize reloadable.policyEngine.evaluate evaluatedMs
    ⟨uid, resolved.method, request, result, none⟩ = decision
  rcases answer with text | _
  · exact ⟨_, rfl, rfl, rfl⟩
  · cases decision with
    | allow => exact ⟨_, rfl, rfl, rfl, rfl, rfl, rfl, rfl⟩
    | deny reason => exact ⟨_, rfl, rfl, rfl, rfl, rfl, rfl, rfl⟩

/-- **Every exit logs the method** that was asked for, unless it was the wildcard. -/
theorem ends_handleVerifyOnce_method {method : String} (hany : method ≠ "any") :
    (handleVerifyOnce crates state reloadable callerUid uid reqId method).Ends
      (fun o => o.isLog) (AuditedBy (fun entry => entry.method = method) callerUid uid reqId) := by
  have hrefused : ∀ reason adapterName clientReason,
      (denyExit callerUid uid reqId method reason adapterName none clientReason).Ends
        (fun o => o.isLog)
        (AuditedBy (fun entry => entry.method = method) callerUid uid reqId) := by
    intro reason adapterName clientReason
    refine ends_denyExit.mono fun _ _ _ => AuditedBy.mono ?_
    rintro _ ⟨nowMs, rfl⟩
    rfl
  refine ends_bind_of_returns avoids_log_resolve (returns_resolve hany) fun r hr => ?_
  rcases r with e | resolved
  · exact hrefused _ _ _
  have hmethod := hr resolved rfl
  refine ends_bind (avoids_call Bool.false_ne_true) fun generated => ?_
  rcases generated with e | nonce
  · exact hmethod ▸ hrefused _ _ _
  refine ends_bind (avoids_call Bool.false_ne_true) fun now => ?_
  refine ends_bind (avoids_call Bool.false_ne_true) fun id => ?_
  refine ends_bind (avoids_call Bool.false_ne_true) fun nowMs => ?_
  refine ends_bind avoids_log_dispatchResolved fun dispatched => ?_
  rcases dispatched with e | result
  · exact ends_bind (avoids_call Bool.false_ne_true) fun _ => hmethod ▸ hrefused _ _ _
  · rw [← hmethod]
    exact ends_checkResult_method

end Method

/-- **The last call before a decision logs it.** -/
theorem RequestRun.Decides.last_log {run : RequestRun} {response : Response}
    {calls : List ClientEvent} (h : run.Decides crates state ownUid callerUid response calls)
    (hdecision : response.decision ≠ none) :
    ∃ l u entry u', calls = l ++ [⟨u, .server (.log entry), .ok (), u'⟩] ∧
      run.Logs callerUid response entry := by
  obtain ⟨tr, hembeds, htraces⟩ := traces_of_server h.decided
  obtain ⟨tr', ⟨v, o, answer, v'⟩, rfl, -, hlog, -, haudited⟩ :=
    ends_handleVerifyOnce.traces htraces
  -- The request path ends with its log call, and the path is the end of the calls.
  obtain ⟨path, e, hpath, he⟩ := Checks.exists_concat_of_forall₂ hembeds
  obtain ⟨l, u₁, u₁', u₂, u₂', u₃, u₃', hcalls, -⟩ := h.calls_eq
  rw [hpath] at hcalls
  cases o with
  | log entry =>
    rcases answer with text | _
    · -- A failed log call gives no decision.
      obtain rfl : response = .ofError run.req.id "audit failed" := haudited.2
      exact absurd rfl hdecision
    · obtain ⟨hdecided, hresponse, hid, hreq, hcaller, huid⟩ := haudited
      have hmethod : run.method ≠ "any" → entry.method = run.method := fun hany =>
        ((ends_handleVerifyOnce_method hany).of_mem htraces
          (List.mem_append_right tr' (List.mem_singleton_self _)) rfl).entry
      cases he with
      | intro u _ _ u' =>
      refine ⟨l ++ ⟨u₁, .nextLine, .line run.line, u₁'⟩ ::
        ⟨u₂, .loadReloadable, run.snapshot, u₂'⟩ :: ⟨u₃, .checkRate callerUid, true, u₃'⟩ :: path,
        u, entry, u', ?_, hdecided, hresponse, hid, hreq, hcaller, huid, hmethod⟩
      rw [hcalls]
      simp
  | _ => cases hlog

/-- The entry of a log call, in the list of all logged entries. -/
private lemma getElem?_filterMap_take {α β : Type} {l : List α} {φ : α → Option β} {k : ℕ} {x : α}
    {y : β} (hk : l[k]? = some x) (hy : φ x = some y) :
    (l.filterMap φ)[((l.take k).filterMap φ).length]? = some y := by
  obtain ⟨hlt, rfl⟩ := List.getElem?_eq_some_iff.mp hk
  have hsplit : l = l.take k ++ l[k] :: l.drop (k + 1) := by simp
  have hmap : l.filterMap φ = (l.take k).filterMap φ ++ y :: (l.drop (k + 1)).filterMap φ := by
    conv_lhs => rw [hsplit]
    rw [List.filterMap_append, List.filterMap_cons, hy]
  rw [hmap]
  simp

/-- An earlier entry has an earlier place. -/
private lemma length_filterMap_take_lt {α β : Type} {l : List α} {φ : α → Option β} {k k' : ℕ}
    {x : α} (hk : l[k]? = some x) (hx : φ x ≠ none) (hlt : k < k') :
    ((l.take k).filterMap φ).length < ((l.take k').filterMap φ).length := by
  obtain ⟨y, hy⟩ := Option.ne_none_iff_exists'.mp hx
  have hget : (l.take k')[k]? = some x := by rw [List.getElem?_take, if_pos hlt, hk]
  have hplace := getElem?_filterMap_take hget hy
  rw [List.take_take, min_eq_left hlt.le] at hplace
  exact (List.getElem?_eq_some_iff.mp hplace).1

/-- **Every decision has a place of its own** among the entries of the log calls that have
succeeded, and the place was taken before the decision was sent. -/
theorem exists_place_of_decision
    (h : Exec (DaemonStep crates) (DaemonEnv toml state.config)
      (fun i => clientTask crates state ownUid (lines i)) w₀ w procs H) :
    ∃ place : ℕ → ℕ,
      (∀ j i u response sent u', H[j]? = some (.step i ⟨u, .respond response, sent, u'⟩) →
        response.decision ≠ none →
        place j < ((H.take j).filterMap loggedOf).length ∧
        ∃ (callerUid : UInt32) (run : RequestRun) (entry : AuditEntry),
          (∃ v v', .step i ⟨v, .peerCredentials, .ok callerUid, v'⟩ ∈ H.take j) ∧
          run.Decides crates state ownUid callerUid response
            ((H.take j).filterMap (Entry.callOf i)) ∧
          run.Logs callerUid response entry ∧ (H.filterMap loggedOf)[place j]? = some entry) ∧
      ∀ j j' i i' e e', H[j]? = some (.step i e) → e.op.SendsDecision →
        H[j']? = some (.step i' e') → e'.op.SendsDecision → place j = place j' → j = j' := by
  -- Each decision is matched with the log call before it.
  have hlogs : ∀ H₁ i e H₂, H = H₁ ++ .step i e :: H₂ → e.op.SendsDecision → ∃ l e' l',
      H₁.filterMap (Entry.callOf i) = l ++ e' :: l' ∧ (∀ x ∈ l', ¬ x.op.SendsDecision) ∧
        ∃ (callerUid : UInt32) (run : RequestRun) (response : Response) (entry : AuditEntry)
          (u u' : DaemonWorld), e' = ⟨u, .server (.log entry), .ok (), u'⟩ ∧
          e.op = .respond response ∧
          (∃ v v', .step i ⟨v, .peerCredentials, .ok callerUid, v'⟩ ∈ H₁) ∧
          run.Decides crates state ownUid callerUid response (H₁.filterMap (Entry.callOf i)) ∧
          run.Logs callerUid response entry := by
    intro H₁ i e H₂ hH hsends
    obtain ⟨callerUid, run, response, ⟨v, v', hpeer⟩, hop, hdecides⟩ :=
      reaches_clientTask (h.reaches hH) hsends
    obtain ⟨l, u, entry, u', hcalls, hlogs⟩ := hdecides.last_log (by rwa [hop] at hsends)
    exact ⟨l, _, [], hcalls, List.forall_mem_nil _, callerUid, run, response, entry, u, u', rfl,
      hop, ⟨v, v', mem_filterMap_callOf.mp hpeer⟩, hdecides, hlogs⟩
  obtain ⟨f, hf, hinj⟩ := exists_matching_of_split hlogs
  refine ⟨fun j => ((H.take (f j)).filterMap loggedOf).length, ?_, ?_⟩
  · intro j i u response sent u' hj hdecision
    obtain ⟨hlt, e', hget, callerUid, run, _, entry, v, v', rfl, hop, hpeer, hdecides, hlogs⟩ :=
      hf j i _ hj hdecision
    obtain rfl := ClientOp.respond.inj hop
    exact ⟨length_filterMap_take_lt hget (Option.some_ne_none entry) hlt, callerUid, run, entry,
      hpeer, hdecides, hlogs, getElem?_filterMap_take hget rfl⟩
  · intro j j' i i' e e' hj hsends hj' hsends' hplace
    obtain ⟨-, x, hget, _, _, _, entry, _, _, rfl, -⟩ := hf j i e hj hsends
    obtain ⟨-, x', hget', _, _, _, entry', _, _, rfl, -⟩ := hf j' i' e' hj' hsends'
    refine hinj j j' i i' e e' hj hsends hj' hsends' ?_
    -- Log calls at different positions have different places.
    rcases Nat.lt_trichotomy (f j) (f j') with hlt | heq | hlt
    · exact absurd hplace (length_filterMap_take_lt hget (Option.some_ne_none entry) hlt).ne
    · exact heq
    · exact absurd hplace (length_filterMap_take_lt hget' (Option.some_ne_none entry') hlt).ne'

/-- **The files hold every decision that was sent.** Start the daemon on a log without entries, and
take any run of it, with any number of connections, reloads and rotations. Suppose that a log call
which fails leaves the log as it was, and that every entry logged has a finite confidence. Then
the files of the log, one after another, verify, and they decode to the sealed entries of all log
calls that have succeeded, in the order of these calls.

Every decision that was sent on a connection has a place in this list, different decisions have
different places, and the place was taken before the decision was sent. The entry at this place has
the decision and the identifier of the response. It names the peer of the connection, the user that
the request is for, and the method that was asked for, unless that was the wildcard. It is a refusal
outside policy, or the decision of the policy that was live at a moment after the line of the
request was received.

**Proof sketch.** The states of the log are those of a run of the log alone, for which the files are
known to form a chain. The last call of a task before it sends a decision is the log call. -/
theorem decisions_in_verified_log {path : String} {fs₀ : AuditFs}
    (hfs : ∀ f ∈ fs₀.files, f = [])
    (ho : AuditLogger.open crates path fs₀ = .ok (w₀.server.audit.fs, w₀.server.audit.logger))
    (h : Exec (DaemonStep crates) (DaemonEnv toml state.config)
      (fun i => clientTask crates state ownUid (lines i)) w₀ w procs H)
    (hfailed : ∀ p ∈ H.filterMap failedLogOf, p.2 = p.1)
    (hfinite : ∀ entry ∈ H.filterMap loggedOf, entry.confidence.isFinite) :
    verifyReader crates path w.server.audit.fs.files.flatten =
        .ok ⟨(H.filterMap loggedOf).length, w.server.audit.logger.prevHash⟩ ∧
      decodeLog crates.serde w.server.audit.fs.files.flatten =
        some (sealAll crates zeroHash (H.filterMap loggedOf)) ∧
      ∃ place : ℕ → ℕ,
        (∀ j i u response sent u', H[j]? = some (.step i ⟨u, .respond response, sent, u'⟩) →
          response.decision ≠ none →
          place j < ((H.take j).filterMap loggedOf).length ∧
          ∃ (callerUid : UInt32) (run : RequestRun) (entry : AuditEntry) (prevHash : String),
            (∃ v v', .step i ⟨v, .peerCredentials, .ok callerUid, v'⟩ ∈ H.take j) ∧
            run.Decides crates state ownUid callerUid response
              ((H.take j).filterMap (Entry.callOf i)) ∧
            run.Logs callerUid response entry ∧
            (sealAll crates zeroHash (H.filterMap loggedOf))[place j]? =
              some (entry.seal crates prevHash)) ∧
        ∀ j j' i i' e e', H[j]? = some (.step i e) → e.op.SendsDecision →
          H[j']? = some (.step i' e') → e'.op.SendsDecision → place j = place j' → j = j' := by
  obtain ⟨hverified, hdecoded⟩ := files_of_exec hfs ho h hfailed hfinite
  obtain ⟨place, hplace, hinj⟩ := exists_place_of_decision h
  refine ⟨hverified, hdecoded, place, fun j i u response sent u' hj hdecision => ?_, hinj⟩
  obtain ⟨hlt, callerUid, run, entry, hpeer, hdecides, hlogs, hget⟩ :=
    hplace j i u response sent u' hj hdecision
  obtain ⟨prevHash, hsealed⟩ : ∃ prevHash, (sealAll crates zeroHash (H.filterMap loggedOf))[
      place j]? = some (entry.seal crates prevHash) := getElem?_sealAll hget
  exact ⟨hlt, callerUid, run, entry, prevHash, hpeer, hdecides, hlogs, hsealed⟩

end Decisions

/-- The grant of a connection, whose entry is the only one in the log. -/
theorem decisions_in_verified_log_connection :
    ∃ (w : DaemonWorld) (place : ℕ → ℕ),
      verifyReader .reference "audit.log" w.server.audit.fs.files.flatten =
        .ok ⟨1, w.server.audit.logger.prevHash⟩ ∧
      decodeLog Crates.reference.serde w.server.audit.fs.files.flatten =
        some (sealAll .reference zeroHash [Sample.entry]) ∧ place 21 < 1 := by
  obtain ⟨w, procs, h, -⟩ := Sample.exec_connectionHistory
  have hlogged : Sample.connectionHistory.filterMap loggedOf = [Sample.entry] := rfl
  have hfailed : Sample.connectionHistory.filterMap failedLogOf = [] := rfl
  have hfinite : ∀ entry ∈ Sample.connectionHistory.filterMap loggedOf,
      entry.confidence.isFinite := by
    rw [hlogged]
    exact List.forall_mem_singleton.mpr (by decide)
  obtain ⟨hverified, hdecoded, place, hplace, -⟩ := decisions_in_verified_log
    (by simp [emptyFs]) (open_emptyFs .reference "audit.log") h
    (by rw [hfailed]; exact List.forall_mem_nil _) hfinite
  rw [hlogged] at hverified hdecoded
  refine ⟨w, place, hverified, hdecoded, ?_⟩
  exact (hplace 21 0 Sample.served (.allow (some "req-1") "fido2") (.ok ()) Sample.served rfl
    (by simp)).1

end OlaCore
