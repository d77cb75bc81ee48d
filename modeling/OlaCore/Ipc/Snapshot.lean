import OlaCore.Ipc.Audited
import OlaCore.Ipc.Connection

set_option relaxedAutoImplicit false
set_option autoImplicit false

/-!
# One snapshot for each request

A reload replaces the allowlist and the policy together or not at all. A request takes one snapshot
of them after its line was received; the caller is checked against the allowlist of that snapshot,
and the request is decided by the policy of that snapshot, whatever is reloaded in the meantime.

## Main definitions

* `OlaCore.RequestRun`, `OlaCore.RequestRun.Decides` — a request in the calls of a task that is
  decided on one snapshot.

## Main results

* `OlaCore.reaches_clientTask` — every decision of a task is made on one snapshot.
* `OlaCore.live_of_exec` — the live state was loaded as a whole.
* `OlaCore.reload_atomic_snapshot` — the runs of the daemon with reloads.
-/

namespace OlaCore

open Program

/-- Does the operation send a response that carries a decision? -/
def ClientOp.SendsDecision : ClientOp → Prop
  | .respond response => response.decision ≠ none
  | _ => False

/-- A `verify_once` request of a task: its line, the snapshot that was taken for it, what was read
from the line, and the calls of the request path. -/
structure RequestRun where
  line : String
  snapshot : ReloadableState
  req : Request
  uid : UInt32
  method : String
  path : List ClientEvent

/-- **A request that is decided on one snapshot.** The calls of the task end with those of the
request: its line is received, a snapshot is taken of the live state, the rate limiter admits the
request, and then come the calls of the request path. The allowlist of the snapshot has the caller,
and the request path with the same snapshot has returned the response. -/
structure RequestRun.Decides (crates : Crates) (state : ServerState) (ownUid callerUid : UInt32)
    (run : RequestRun) (response : Response) (calls : List ClientEvent) : Prop where
  calls_eq : ∃ l u₁ u₁' u₂ u₂' u₃ u₃',
    calls = l ++ ⟨u₁, .nextLine, .line run.line, u₁'⟩ ::
      ⟨u₂, .loadReloadable, run.snapshot, u₂'⟩ :: ⟨u₃, .checkRate callerUid, true, u₃'⟩ ::
      run.path ∧ u₂.live = run.snapshot
  allowed : run.snapshot.allowlist.isAllowed ownUid callerUid = true
  parsed : (crates.serde.fromStr run.line).bind Request.deserialize = some run.req
  isVerifyOnce : run.req.method = "verify_once"
  uid : requestUid callerUid run.req.params = .ok run.uid
  method : requestMethod run.req.params = .ok run.method
  decided : Traces (DaemonStep crates) (ClientProg.server (handleVerifyOnce crates state
    run.snapshot callerUid run.uid run.req.id run.method)) run.path response

section Reaches

variable {crates : Crates} {state : ServerState} {ownUid callerUid : UInt32}
  {reloadable : ReloadableState} {l : List ClientEvent} {e : ClientEvent}

/-- More calls before the request. -/
theorem RequestRun.Decides.append {run : RequestRun} {response : Response}
    (h : run.Decides crates state ownUid callerUid response l) (l' : List ClientEvent) :
    run.Decides crates state ownUid callerUid response (l' ++ l) := by
  obtain ⟨l₀, u₁, u₁', u₂, u₂', u₃, u₃', rfl, hlive⟩ := h.calls_eq
  exact { h with
    calls_eq := ⟨l' ++ l₀, u₁, u₁', u₂, u₂', u₃, u₃', (List.append_assoc ..).symm, hlive⟩ }

/-- A response without a decision. -/
theorem avoids_respondThen {response : Response} {next : Option (Except String Unit)}
    (h : response.decision = none) :
    (respondThen response next).Avoids ClientOp.SendsDecision := by
  refine avoids_bind (avoids_call (not_not.mpr h)) fun answer => ?_
  rcases answer with _ | _ <;> exact avoids_pure _

/-- The response that is sent after the request path. -/
theorem reaches_respondThen {response : Response} {next : Option (Except String Unit)}
    (h : Reaches (DaemonStep crates) (respondThen response next) l e) :
    l = [] ∧ e.op = .respond response := by
  rcases reaches_call_bind h with hfirst | ⟨_, answer, _, l₁, -, -, hrest⟩
  · exact hfirst
  · rcases answer with _ | _ <;> exact absurd hrest not_reaches_pure

/-- A decision on a `verify_once` request is made by the request path. -/
theorem reaches_answerVerifyOnce {req : Request}
    (h : Reaches (DaemonStep crates) (answerVerifyOnce crates state callerUid reloadable req) l e)
    (he : e.op.SendsDecision) :
    ∃ uid method response, requestUid callerUid req.params = .ok uid ∧
      requestMethod req.params = .ok method ∧ e.op = .respond response ∧
      Traces (DaemonStep crates) (ClientProg.server
        (handleVerifyOnce crates state reloadable callerUid uid req.id method)) l response := by
  unfold answerVerifyOnce at h
  split at h
  · exact absurd he ((avoids_respondThen rfl).not_reaches h)
  next uid huid =>
  split at h
  · exact absurd he ((avoids_respondThen rfl).not_reaches h)
  next method hmethod =>
  rcases reaches_bind h with hpath | ⟨l₁, response, l₂, rfl, htraces, hsend⟩
  · exact absurd he ((avoids_server (fun _ => id) _).not_reaches hpath)
  · obtain ⟨rfl, hop⟩ := reaches_respondThen hsend
    rw [List.append_nil]
    exact ⟨uid, method, response, huid, hmethod, hop, htraces⟩

/-- A decision on a line is one on a `verify_once` request. -/
theorem reaches_answerLine {line : String}
    (h : Reaches (DaemonStep crates) (answerLine crates state callerUid reloadable line) l e)
    (he : e.op.SendsDecision) :
    ∃ req, (crates.serde.fromStr line).bind Request.deserialize = some req ∧
      req.method = "verify_once" ∧
      Reaches (DaemonStep crates) (answerVerifyOnce crates state callerUid reloadable req) l e := by
  unfold answerLine at h
  split at h
  · exact absurd he ((avoids_respondThen rfl).not_reaches h)
  next req hreq =>
  split at h
  · exact absurd he ((avoids_respondThen rfl).not_reaches h)
  unfold answerRequest at h
  split_ifs at h with h₁ h₂ h₃ h₄
  · exact absurd he ((avoids_respondThen rfl).not_reaches h)
  · refine absurd he (Prog.Avoids.not_reaches ?_ h)
    exact avoids_bind (avoids_server (fun _ => id) _) fun _ => avoids_respondThen rfl
  · refine absurd he (Prog.Avoids.not_reaches ?_ h)
    exact avoids_bind (avoids_server (fun _ => id) _) fun _ => avoids_respondThen rfl
  · exact ⟨req, hreq, h₄, h⟩
  · exact absurd he ((avoids_respondThen rfl).not_reaches h)

/-- A decision while a line is handled is made with the snapshot that was taken first. -/
theorem reaches_handleLine {line : String}
    (h : Reaches (DaemonStep crates) (handleLine crates state ownUid callerUid line) l e)
    (he : e.op.SendsDecision) (u₁ u₁' : DaemonWorld) :
    ∃ (run : RequestRun) (response : Response), e.op = .respond response ∧
      run.Decides crates state ownUid callerUid response
        (⟨u₁, .nextLine, .line line, u₁'⟩ :: l) := by
  obtain ⟨u₂, snapshot, u₂', l₁, rfl, ⟨hlive, -⟩, h₁⟩ := reaches_call_bind_of_not h he id
  split at h₁
  · exact absurd h₁ not_reaches_pure
  next hallowed =>
  obtain ⟨u₃, admitted, u₃', l₂, rfl, -, h₂⟩ := reaches_call_bind_of_not h₁ he id
  cases admitted
  · exact absurd he ((avoids_respondThen rfl).not_reaches h₂)
  obtain ⟨req, hparsed, hverify, h₃⟩ := reaches_answerLine h₂ he
  obtain ⟨uid, method, response, huid, hmethod, hop, hdecided⟩ := reaches_answerVerifyOnce h₃ he
  refine ⟨⟨line, snapshot, req, uid, method, l₂⟩, response, hop, ?_⟩
  exact {
    calls_eq := ⟨[], u₁, u₁', u₂, u₂', u₃, u₃', rfl, hlive.symm⟩
    allowed := by simpa using hallowed
    parsed := hparsed
    isVerifyOnce := hverify
    uid := huid
    method := hmethod
    decided := hdecided }

/-- A decision in the loop of a task. -/
theorem reaches_clientLoop {n : ℕ}
    (h : Reaches (DaemonStep crates) (clientLoop crates state ownUid callerUid n) l e)
    (he : e.op.SendsDecision) :
    ∃ (run : RequestRun) (response : Response), e.op = .respond response ∧
      run.Decides crates state ownUid callerUid response l := by
  induction n generalizing l with
  | zero => exact absurd h not_reaches_pure
  | succ n ih =>
    obtain ⟨u₁, input, u₁', l₁, rfl, -, h₁⟩ := reaches_call_bind_of_not h he id
    rcases input with _ | _ | _ | line
    · exact absurd h₁ not_reaches_pure
    · exact absurd h₁ not_reaches_pure
    · exact absurd h₁ not_reaches_pure
    rcases reaches_bind h₁ with hline | ⟨l₂, next, l₃, rfl, -, hrest⟩
    · exact reaches_handleLine hline he u₁ u₁'
    · -- The line was handled without a decision, or with an earlier one.
      rcases next with _ | r
      · obtain ⟨run, response, hop, hdecides⟩ := ih hrest
        exact ⟨run, response, hop, hdecides.append (⟨u₁, .nextLine, .line line, u₁'⟩ :: l₂)⟩
      · exact absurd hrest not_reaches_pure

/-- **Every decision of a task is made on one snapshot**, for the user at the other end of the
connection. -/
theorem reaches_clientTask {n : ℕ}
    (h : Reaches (DaemonStep crates) (clientTask crates state ownUid n) l e)
    (he : e.op.SendsDecision) :
    ∃ (callerUid : UInt32) (run : RequestRun) (response : Response),
      (∃ w w', ⟨w, .peerCredentials, .ok callerUid, w'⟩ ∈ l) ∧ e.op = .respond response ∧
      run.Decides crates state ownUid callerUid response l := by
  obtain ⟨u, _, u', l₁, rfl, -, h₁⟩ := reaches_call_bind_of_not h he id
  rcases reaches_bind h₁ with hclient | ⟨_, _, _, -, -, hrelease⟩
  swap
  · obtain ⟨_, _, _, _, -, -, hrest⟩ := reaches_call_bind_of_not hrelease he id
    exact absurd hrest not_reaches_pure
  obtain ⟨v, creds, v', l₂, rfl, -, h₂⟩ := reaches_call_bind_of_not hclient he id
  rcases creds with _ | callerUid
  · exact absurd h₂ not_reaches_pure
  obtain ⟨x, snapshot, x', l₃, rfl, -, h₃⟩ := reaches_call_bind_of_not h₂ he id
  split at h₃
  · exact absurd h₃ not_reaches_pure
  obtain ⟨run, response, hop, hdecides⟩ := reaches_clientLoop h₃ he
  refine ⟨callerUid, run, response, ⟨v, v', by simp⟩, hop, ?_⟩
  exact hdecides.append [_, _, _]

end Reaches

/-- **The decision is computed by the policy of the snapshot**: the request path has logged an entry
that is a refusal outside policy or a decision of that policy, and the response carries its
decision. -/
theorem RequestRun.Decides.exists_entry {crates : Crates} {state : ServerState}
    {ownUid callerUid : UInt32} {run : RequestRun} {response : Response}
    {calls : List ClientEvent} (h : run.Decides crates state ownUid callerUid response calls)
    (hdecision : response.decision ≠ none) :
    ∃ entry w w', ⟨w, .server (.log entry), .ok (), w'⟩ ∈ run.path ∧
      DecidedBy run.snapshot.policyEngine entry ∧ response.decision = some entry.decision ∧
      entry.callerUid = callerUid ∧ entry.uid = run.uid := by
  obtain ⟨tr, hembeds, htraces⟩ := traces_of_server h.decided
  obtain ⟨tr', ⟨w, o, answer, w'⟩, rfl, -, hlog, -, haudited⟩ :=
    ends_handleVerifyOnce.traces htraces
  obtain ⟨e, hmem, he⟩ := Checks.exists_mem_of_forall₂ hembeds (List.mem_append_right tr'
    List.mem_cons_self)
  cases o with
  | log entry =>
    rcases answer with text | _
    · -- A failed log call gives no decision.
      obtain rfl : response = .ofError run.req.id "audit failed" := haudited.2
      exact absurd rfl hdecision
    · obtain ⟨hdecided, hresponse, -, -, hcaller, huid⟩ := haudited
      cases he
      exact ⟨entry, _, _, hmem, hdecided, hresponse, hcaller, huid⟩
  | _ => cases hlog

section Runs

variable {crates : Crates} {toml : String → Except String (List RawPolicyRule)}
  {state : ServerState} {ownUid : UInt32} {lines : ℕ → ℕ} {w₀ w : DaemonWorld}
  {procs : ℕ → ClientProg (Except String Unit)}
  {H : List (Entry DaemonWorld ClientOp ClientOp.Ans (Except String Unit))}

/-- The calls of tasks do not change the live state. -/
theorem live_of_daemonStep {w w' : DaemonWorld} {o : ClientOp} {answer : o.Ans}
    (h : DaemonStep crates w o answer w') : w'.live = w.live := by
  cases o with
  | server o =>
    obtain ⟨server, -, rfl⟩ := h
    rfl
  | acquireConn =>
    obtain ⟨-, rfl⟩ := h
    rfl
  | loadReloadable =>
    obtain ⟨-, rfl⟩ := h
    rfl
  | releaseConn =>
    obtain rfl := h
    rfl
  | _ =>
    obtain rfl : w' = w := h
    rfl

/-- **The live state is always one that was loaded as a whole**: the first one, or what a start
would build from the files of some reload. -/
theorem live_of_exec {config : Config} {prog : ℕ → ClientProg (Except String Unit)}
    (h : Exec (DaemonStep crates) (DaemonEnv toml config) prog w₀ w procs H) :
    w.live = w₀.live ∨ ∃ files, ReloadableState.load toml config files = .ok w.live := by
  induction h with
  | start => exact .inl rfl
  | call _ _ hs ih =>
    rw [live_of_daemonStep hs]
    exact ih
  | ret _ _ _ ih => exact ih
  | environment _ he ih =>
    cases he with
    | background _ => exact ih
    | reload files =>
      unfold reloadState
      split
      · next newState hreload => exact .inr ⟨files, load_of_reload hreload⟩
      · exact ih

/-- **Reload is atomic and each request sees one snapshot.**

* A reload whose allowlist or policy cannot be loaded keeps the live state. One whose allowlist and
  policy can both be loaded installs them together, which is what a start would build from the same
  files.
* In every run of the daemon, with any reloads between any two calls, the live state is one that was
  loaded as a whole.
* Every response with a decision was decided on one snapshot, which was the live state at a moment
  after the line of the request was received. The allowlist of the snapshot has the user at the
  other end of the connection, and a decision that is not a refusal outside policy is the one of the
  snapshot's policy.

**Proof sketch.** Only a call of `verify_once` leads to a response with a decision, and the call
before it in the task takes the snapshot. -/
theorem reload_atomic_snapshot
    (h : Exec (DaemonStep crates) (DaemonEnv toml state.config)
      (fun i => clientTask crates state ownUid (lines i)) w₀ w procs H) :
    (∀ live files,
      ((∃ e, (Allowlist.new.loadFromFileWithOptions files.allowlist state.config.isProdMode).1 =
          .error e) ∨
        ∃ e, PolicyEngine.fromConfigWithOwner toml files.policy state.config.maxResultAgeSecs =
          .error e) →
      reloadState toml state.config live files = live) ∧
    (∀ live files allowlist policyEngine,
      Allowlist.new.loadFromFileWithOptions files.allowlist state.config.isProdMode =
        (.ok (), allowlist) →
      PolicyEngine.fromConfigWithOwner toml files.policy state.config.maxResultAgeSecs =
        .ok policyEngine →
      reloadState toml state.config live files = ⟨allowlist, policyEngine⟩ ∧
        ReloadableState.load toml state.config files = .ok ⟨allowlist, policyEngine⟩) ∧
    (w.live = w₀.live ∨ ∃ files, ReloadableState.load toml state.config files = .ok w.live) ∧
    ∀ H₁ i v response answer v' H₂, H = H₁ ++ .step i ⟨v, .respond response, answer, v'⟩ :: H₂ →
      response.decision ≠ none →
      ∃ (callerUid : UInt32) (run : RequestRun),
        (∃ u u', .step i ⟨u, .peerCredentials, .ok callerUid, u'⟩ ∈ H₁) ∧
        run.Decides crates state ownUid callerUid response (H₁.filterMap (Entry.callOf i)) ∧
        ∃ entry u u', ⟨u, .server (.log entry), .ok (), u'⟩ ∈ run.path ∧
          DecidedBy run.snapshot.policyEngine entry ∧ response.decision = some entry.decision ∧
          entry.callerUid = callerUid ∧ entry.uid = run.uid := by
  refine ⟨fun _ _ => reloadState_of_error, ?_, live_of_exec h, ?_⟩
  · intro live files allowlist policyEngine hallowlist hpolicy
    have hreload : ReloadableState.reload toml state.config files =
        .ok ⟨allowlist, policyEngine⟩ := reload_eq_ok_iff.mpr ⟨hallowlist, hpolicy⟩
    exact ⟨reloadState_of_ok hreload, load_of_reload hreload⟩
  · intro H₁ i v response answer v' H₂ hH hdecision
    obtain ⟨callerUid, run, response', ⟨u, u', hpeer⟩, hop, hdecides⟩ :=
      reaches_clientTask (h.reaches hH) hdecision
    obtain rfl : response = response' := ClientOp.respond.inj hop
    exact ⟨callerUid, run, ⟨u, u', mem_filterMap_callOf.mp hpeer⟩, hdecides,
      hdecides.exists_entry hdecision⟩

end Runs

/-- A grant on the first snapshot, although the daemon was reloaded before the nonce was issued and
the new state has no user and no rule. -/
theorem reload_atomic_snapshot_connection :
    ∃ (callerUid : UInt32) (run : RequestRun) (entry : AuditEntry),
      reloadState (fun _ => .ok []) Sample.state.config Sample.connected.live Sample.emptyFiles =
        ⟨⟨∅⟩, ⟨[], Sample.state.config.maxResultAgeSecs⟩⟩ ∧
      run.Decides .reference Sample.state 990 callerUid (.allow (some "req-1") "fido2")
        (Sample.openingCalls ++ Sample.pathCalls) ∧
      DecidedBy run.snapshot.policyEngine entry ∧ entry.decision = "allow" := by
  obtain ⟨w, procs, h, -⟩ := Sample.exec_connectionHistory
  obtain ⟨-, hreload, -, hdecisions⟩ := reload_atomic_snapshot h
  obtain ⟨callerUid, run, -, hdecides, entry, _, _, -, hdecided, hdecision, -⟩ :=
    hdecisions (Sample.openingCalls.map (.step 0) ++ Sample.pathCalls.map (.step 0)) 0
      Sample.served (.allow (some "req-1") "fido2") (.ok ()) Sample.served _
      (by simp [Sample.connectionHistory, Sample.closingCalls]; rfl) (by simp)
  rw [List.filterMap_append, filterMap_callOf_map_step, filterMap_callOf_map_step] at hdecides
  exact ⟨callerUid, run, entry, (hreload _ _ _ _ rfl rfl).1, hdecides, hdecided,
    (Option.some.inj hdecision).symm⟩

end OlaCore
