import OlaCore.Ipc.Connection
import OlaCore.Lib.Guards

set_option relaxedAutoImplicit false
set_option autoImplicit false

/-!
# One request at a time for each adapter

An adapter may talk to a fingerprint reader or to a security key, and it serves one request at a
time. The registry therefore has a semaphore with one permit for each adapter
(`adapters/registry`). A request waits for the permit, at most for a fixed time, and has it while it
is dispatched: the permit goes back to the semaphore when the dispatch ends, on every path.

Here the daemon is run with the semaphores, and with the returns of permits as steps of their own.
The permit is a guard value in the source, which gives it back when it is dropped;
`Program.Guards.scope` puts the return where the scope of the value ends.

The results are about the requests. The pings of the health monitor use the sockets too, on
connections of their own; the monitor looks at the semaphore first, but takes no permit, so a ping
may overlap a request.

## Main definitions

* `OlaCore.serverGuards`, `OlaCore.adapterGuards` — which call takes a permit, and which calls are
  made under it.
* `OlaCore.dispatchHolding` — a dispatch with the return of its permit.
* `OlaCore.AdapterRegistry.Needs` — which permit the calls on a socket need.

## Main results

* `OlaCore.scope_dispatchResolved` — the permit of a dispatch is returned where it should be.
* `OlaCore.guarded_clientTask` — a task talks to an adapter only under its permit.
* `OlaCore.one_request_per_adapter` — the runs of the daemon with its semaphores.
-/

namespace OlaCore

open Program

/-! ## Permits -/

/-- Is the call on the socket of an adapter? -/
def ServerOp.isWire : ServerOp → Bool
  | .connect _ _ => true
  | .peerUid => true
  | .send _ _ => true
  | .recv _ => true
  | _ => false

/-- The permit of an adapter is taken by its name, and it covers the calls on a socket. -/
def serverGuards : Guards ServerOp ServerOp.Ans String where
  takes
    | .acquire name, .ok () => some name
    | _, _ => none
  covers := ServerOp.isWire
  takes_of_covers o x ho := by
    cases o with
    | acquire name => cases ho
    | _ => rfl

/-- The same for the calls of a task. -/
def adapterGuards : Guards ClientOp ClientOp.Ans String where
  takes
    | .server o, x => serverGuards.takes o x
    | _, _ => none
  covers
    | .server o => o.isWire
    | _ => false
  takes_of_covers o x ho := by
    cases o with
    | server o => exact serverGuards.takes_of_covers o x ho
    | _ => rfl

/-- The permit that a call on a socket needs: a connection is opened to the socket of an adapter
with the name of the permit. -/
def AdapterRegistry.Needs (reg : AdapterRegistry) (name : String) : ServerOp → Prop
  | .connect path _ => ∃ method client, reg.clients.lookup method = some client ∧
      client.name = name ∧ client.socketPath = path
  | _ => True

/-- The same for the calls of a task. -/
def AdapterRegistry.NeedsTask (reg : AdapterRegistry) (name : String) : ClientOp → Prop
  | .server o => reg.Needs name o
  | _ => True

/-! ## A dispatch -/

/-- Programs of a task, with returns of permits. -/
abbrev HoldingProg := GuardProg ClientOp ClientOp.Ans String

/-- A request to an adapter, as a part of a task. -/
def holdingCalls {α : Type} (p : ServerProg α) : HoldingProg α :=
  (ClientProg.server p).embed GuardOp.call fun _ x => x

/-- One request to the resolved adapter, with the return of its permit. -/
def dispatchHolding (serde : SerdeJson) (resolved : ResolvedAdapter)
    (request : VerificationRequest) (deadline : ℕ) :
    HoldingProg (Except AdapterError VerificationResult) := do
  let client := resolved.client
  if ← holdingCalls (ServerProg.adapterDown client.name) then
    return .error (.adapterDown client.name)
  else
    match ← holdingCalls (ServerProg.acquire client.name) with
    | .error .timeout => return .error (.adapterBusy client.name)
    | .error .closed => return .error (.adapterDown client.name)
    | .ok () =>
      let result ← holdingCalls (client.verify serde request deadline)
      let _ ← call (.release client.name)
      return result

section Dispatch

variable {serde : SerdeJson} {request : VerificationRequest} {deadline : ℕ}

/-- The client makes calls on its socket only. -/
theorem AdapterClient.avoids_other {client : AdapterClient} :
    (client.verify serde request deadline).Avoids fun o => o.isWire = false :=
  AdapterClient.avoids_verify _ _ _ _ (by simp [ServerOp.isWire]) (by simp [ServerOp.isWire])
    (by simp [ServerOp.isWire]) (by simp [ServerOp.isWire])

/-- **The permit of a dispatch** is returned when the dispatch ends. -/
theorem scope_dispatchResolved {resolved : ResolvedAdapter} :
    adapterGuards.scope none
        (ClientProg.server (dispatchResolved serde resolved request deadline)) =
      dispatchHolding serde resolved request deadline := by
  refine congrArg (Prog.op (GuardOp.call (ClientOp.server (.adapterDown _))))
    (funext fun down => ?_)
  cases down
  swap
  · rfl
  refine congrArg (Prog.op (GuardOp.call (ClientOp.server (.acquire _))))
    (funext fun acquired => ?_)
  rcases acquired with (_ | _) | _
  · rfl
  · rfl
  · exact Guards.scope_some_of_avoids (AdapterClient.avoids_other.embed fun _ h => h)

variable {reg : AdapterRegistry} {client : AdapterClient} {method : String}

/-- Under the permit of its adapter a client may use its socket. -/
theorem obeys_verify (hclient : reg.clients.lookup method = some client) :
    (client.verify serde request deadline).Obeys (serverGuards.base reg.Needs) (fun _ _ => True)
      (some client.name) := by
  -- The permit is held throughout.
  have hwire : ∀ {o : ServerOp} {α : Type} {f : o.Ans → ServerProg α}, o.isWire = true →
      reg.Needs client.name o →
      (∀ x, (f x).Obeys (serverGuards.base reg.Needs) (fun _ _ => True) (some client.name)) →
      (call o >>= f).Obeys (serverGuards.base reg.Needs) (fun _ _ => True) (some client.name) := by
    intro o α f ho hneeds hf
    refine obeys_call_bind (fun _ => ⟨client.name, rfl, hneeds⟩) fun x => ?_
    have hnext : serverGuards.next (some client.name) o x = some client.name := if_pos ho
    change (f x).Obeys _ _ (serverGuards.next (some client.name) o x)
    rw [hnext]
    exact hf x
  refine hwire rfl ⟨method, client, hclient, rfl, rfl⟩ fun connected => ?_
  rcases connected with (_ | _) | _
  · exact obeys_pure trivial
  · exact obeys_pure trivial
  refine hwire rfl trivial fun peer => ?_
  rcases peer with _ | got
  · exact obeys_pure trivial
  dsimp only
  split
  · exact obeys_pure trivial
  refine hwire rfl trivial fun sent => ?_
  rcases sent with (_ | _) | _
  · exact obeys_pure trivial
  · exact obeys_pure trivial
  refine hwire rfl trivial fun received => ?_
  rcases received with _ | _ | _ | _ <;> exact obeys_pure trivial

/-- **A dispatch** talks to an adapter under its permit. -/
theorem guarded_dispatchResolved {resolved : ResolvedAdapter}
    (hclient : reg.clients.lookup method = some resolved.client) :
    serverGuards.Guarded reg.Needs (dispatchResolved serde resolved request deadline) := by
  refine Guards.guarded_call_bind rfl fun down => ?_
  split
  · exact Guards.guarded_pure _
  intro held
  refine obeys_call_bind (fun h => absurd h Bool.false_ne_true) fun acquired => ?_
  rcases acquired with (_ | _) | _
  · exact obeys_pure trivial
  · exact obeys_pure trivial
  · exact obeys_verify hclient

end Dispatch

/-! ## A task -/

section Task

variable {crates : Crates} {state : ServerState} {reloadable : ReloadableState}
  {ownUid callerUid uid : UInt32}

/-- **A request** talks to adapters under their permits. -/
theorem guarded_handleVerifyOnce {reqId : Option String} {method : String} :
    serverGuards.Guarded state.adapterRegistry.Needs
      (handleVerifyOnce crates state reloadable callerUid uid reqId method) := by
  have hother : ∀ {α : Type} {p : ServerProg α}, (p.Avoids fun o => o.isWire = true) →
      serverGuards.Guarded state.adapterRegistry.Needs p := fun hp => Guards.guarded_of_avoids hp
  have hdeny : ∀ {method reason clientReason : String} {adapterName : Option String},
      serverGuards.Guarded state.adapterRegistry.Needs
        (denyExit callerUid uid reqId method reason adapterName none clientReason) :=
    hother (avoids_denyExit Bool.false_ne_true fun _ => Bool.false_ne_true)
  refine Guards.guarded_bind_of_returns
    (hother (AdapterRegistry.avoids_resolve (fun _ => Bool.false_ne_true) method))
    (AdapterRegistry.returns_resolve method) fun resolved hresolved => ?_
  rcases resolved with e | resolved
  · exact hdeny
  refine Guards.guarded_call_bind rfl fun generated => ?_
  rcases generated with e | nonce
  · exact hdeny
  refine Guards.guarded_call_bind rfl fun now => Guards.guarded_call_bind rfl fun id =>
    Guards.guarded_call_bind rfl fun nowMs =>
      Guards.guarded_bind (guarded_dispatchResolved (hresolved.1 resolved rfl).1) fun result => ?_
  rcases result with e | result
  · exact Guards.guarded_call_bind rfl fun _ => hdeny
  · exact hother (avoids_checkResult Bool.false_ne_true (fun _ => Bool.false_ne_true)
      Bool.false_ne_true)

/-- **A task** talks to adapters under their permits. -/
theorem guarded_clientTask {n : ℕ} :
    adapterGuards.Guarded state.adapterRegistry.NeedsTask
      (clientTask crates state ownUid n) := by
  -- What holds of the request path holds of it as a part of a task.
  have hserver : ∀ {α : Type} {p : ServerProg α},
      serverGuards.Guarded state.adapterRegistry.Needs p →
      adapterGuards.Guarded state.adapterRegistry.NeedsTask (ClientProg.server p) := by
    intro α p hp held
    have hembed : (ClientProg.server p).Obeys
        (adapterGuards.base state.adapterRegistry.NeedsTask) _ (id held) :=
      (hp held).embed id (fun _ _ h => h) fun _ _ _ _ => rfl
    exact hembed.mono fun _ _ _ => trivial
  refine closed_clientTask (C := fun _ p => adapterGuards.Guarded state.adapterRegistry.NeedsTask p)
    (fun _ => Guards.guarded_pure) (fun _ _ _ _ => Guards.guarded_bind) ?_ ?_ ?_ n
  · intro o ho
    refine Guards.guarded_of_avoids (avoids_call ?_)
    cases o with
    | server o => exact absurd rfl (ho o)
    | _ => exact Bool.false_ne_true
  · exact hserver (Guards.guarded_of_avoids (avoids_bind
      (AdapterRegistry.avoids_filterAvailable (fun _ => Bool.false_ne_true) _)
      fun _ => avoids_pure _))
  · exact fun _ _ _ _ _ => hserver guarded_handleVerifyOnce

end Task

/-! ## Runs -/

/-- The history of a daemon with its semaphores. -/
abbrev PermitHistory := List (Entry (DaemonWorld × (String → ℕ)) (GuardOp ClientOp String)
  (GuardOp.Ans ClientOp.Ans) (Except String Unit))

/-- **One request at a time for each adapter.** Take any run of the daemon with its semaphores, with
any number of connections and reloads. Forget the returns of permits, and it is a run of the daemon.

Every call of a request on the socket of an adapter is made by a task that holds the permit of an
adapter, and a connection is opened only to the socket of the adapter whose permit is held. If one
task holds the permit of an adapter, and later another one, then the first one has returned it in
between: so requests to an adapter never overlap. No permit is lost: at every moment the permit of
an adapter is in its semaphore or in the hands of a task, and a task that has returned holds none.

**Proof sketch.** A task talks to an adapter only under its permit, so the phases of the tasks and
the semaphores add up. While a task holds a permit, each of its calls is covered by it or is
preceded by the return. -/
theorem one_request_per_adapter {crates : Crates} {state : ServerState} {ownUid : UInt32}
    {toml : String → Except String (List RawPolicyRule)} {lines : ℕ → ℕ} {w₀ w : DaemonWorld}
    {permits : String → ℕ} {procs : ℕ → HoldingProg (Except String Unit)} {H : PermitHistory}
    (h : adapterGuards.PoolExec (DaemonStep crates) (DaemonEnv toml state.config)
      (fun i => clientTask crates state ownUid (lines i)) (fun _ => 1) w₀ (w, permits) procs H) :
    (∃ procs', Exec (DaemonStep crates) (DaemonEnv toml state.config)
      (fun i => clientTask crates state ownUid (lines i)) w₀ w procs' (H.filterMap Guards.erase)) ∧
    (∀ k i v o x v', H[k]? = some (.step i ⟨v, .call (.server o), x, v'⟩) → o.isWire = true →
      ∃ name, adapterGuards.holding (H.take k) i = some name ∧
        state.adapterRegistry.Needs name o) ∧
    (∀ name j k i i', j ≤ k → i ≠ i' → adapterGuards.holding (H.take j) i = some name →
      adapterGuards.holding (H.take k) i' = some name →
      ∃ m, j ≤ m ∧ m < k ∧ ∃ v v', H[m]? = some (.step i ⟨v, .release name, (), v'⟩)) ∧
    (∀ name, (permits name = 1 ∧ ∀ i, adapterGuards.holding H i ≠ some name) ∨
      permits name = 0 ∧ ∃ i, adapterGuards.holding H i = some name) ∧
    ∀ i r, procs i = .pure r → adapterGuards.holding H i = none := by
  have hprog : ∀ i, adapterGuards.Guarded state.adapterRegistry.NeedsTask
      (clientTask crates state ownUid (lines i)) := fun _ => guarded_clientTask
  refine ⟨?_, ?_, ?_, ?_, ?_⟩
  · obtain ⟨procs', -, hexec⟩ := Guards.exec_erase h
    exact ⟨procs', hexec⟩
  · intro k i v o x v' hk hwire
    have hallowed := Guards.allowed_of_call hprog h hk
    change if adapterGuards.covers (.server o) then _ else _ at hallowed
    rwa [if_pos (show adapterGuards.covers (.server o) = true from hwire)] at hallowed
  · intro name j k i i' hjk hne hj hk
    exact Guards.release_between hprog h rfl hjk hne hj hk
  · exact fun name => (Guards.permitsCount hprog h).one rfl
  · exact fun i r hi => Guards.phases_of_pure hprog h hi

namespace Sample

/-- A run of the daemon with one connection, with its semaphores. -/
theorem exec_permitHistory : ∃ w procs H,
    adapterGuards.PoolExec (DaemonStep .reference) (DaemonEnv (fun _ => .ok []) state.config)
      (fun _ => clientTask .reference state 990 1) (fun _ => 1) daemon (w, fun _ => 1) procs H ∧
    procs 0 = .pure (.ok ()) ∧ H.filterMap Guards.erase = connectionHistory := by
  have hstart : adapterGuards.PoolExec (DaemonStep .reference)
      (DaemonEnv (fun _ => .ok []) state.config) (fun _ => clientTask .reference state 990 1)
      (fun _ => 1) daemon (daemon, fun _ => 1) _ [] := .start
  have hcap : ∀ name : String, 0 < (fun _ => 1 : String → ℕ) name := fun _ => Nat.one_pos
  obtain ⟨p, hopening, hrest⟩ := traces_clientTask.split
  have hlinked₁ : Linked daemon openingCalls connected := by simp [openingCalls, Linked]
  have hlinked₂ : Linked reloaded (pathCalls ++ closingCalls)
      { served with permits := maxConnections } := by
    have hserver : { reloaded with server := idle } = reloaded := rfl
    simp [pathCalls, grantCalls, grantCallsOf, dispatchCalls, closingCalls, served, logged, Linked,
      hserver]
  obtain ⟨tr₁, hsteps₁, hlinked₁, herase₁⟩ :=
    Guards.steps_scope (G := adapterGuards) hcap hopening hlinked₁ none 0
  obtain ⟨tr₂, hsteps₂, hlinked₂, herase₂⟩ :=
    Guards.steps_scope (G := adapterGuards) hcap hrest hlinked₂ none 0
  have hopened := hstart.append_steps (i := 0) hsteps₁ rfl hlinked₁
  have henv : Guards.poolEnv (DaemonEnv (fun _ => .ok []) state.config)
      (connected, fun _ : String => 1) (reloaded, fun _ => 1) :=
    ⟨.reload connected emptyFiles, rfl⟩
  have hreload := hopened.environment henv
  have hclosed := hreload.append_steps (i := 0) hsteps₂ (Function.update_self ..) hlinked₂
  refine ⟨_, _, _, hclosed, Function.update_self .., ?_⟩
  rw [List.filterMap_append, List.nil_append, herase₁, herase₂]
  rfl

end Sample

/-- The permit of the adapter is back after the connection. -/
theorem one_request_per_adapter_connection :
    ∃ H : PermitHistory, H.filterMap Guards.erase = Sample.connectionHistory ∧
      adapterGuards.holding H 0 = none := by
  obtain ⟨w, procs, H, h, hret, herase⟩ := Sample.exec_permitHistory
  obtain ⟨-, -, -, -, hreturned⟩ := one_request_per_adapter h
  exact ⟨H, herase, hreturned 0 _ hret⟩

end OlaCore
