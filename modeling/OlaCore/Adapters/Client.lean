import OlaCore.Core.Effects

set_option relaxedAutoImplicit false
set_option autoImplicit false

/-!
# The adapter client

The daemon talks to an adapter over a Unix socket, one connection for each request
(`adapters/client`). The adapter is outside the trust boundary: it may answer anything. The
client checks who is at the other end before it sends anything, and the version and the
identifier of the reply.

## Main definitions

* `OlaCore.AdapterError` — what can go wrong, with its message.
* `OlaCore.AdapterClient.readReply` — what is made of a line that an adapter sent.
* `OlaCore.AdapterClient.verify` — one request to an adapter.

## Main results

* `OlaCore.AdapterClient.readReply_eq_ok_iff` — the replies that are accepted.
* `OlaCore.AdapterClient.traces_verify_ok` — the course of a successful request.
-/

namespace OlaCore

open Program

/-- The version of the protocol between daemon, clients and adapters. -/
def protocolVersion : UInt8 := 1

/-- What can go wrong with an adapter. -/
inductive AdapterError where
  | timeout
  | connect (text : String)
  | uidMismatch (expected got : UInt32)
  | disconnected
  | versionMismatch (version : UInt8)
  | idMismatch
  | serde (text : String)
  | io (text : String)
  | codec (text : String)
  | nix (text : String)
  | methodNotFound (method : String)
  | adapterDown (name : String)
  | adapterBusy (name : String)
  deriving DecidableEq

/-- The message of an error, which the audit log and the client get. -/
def AdapterError.toString : AdapterError → String
  | .timeout => "adapter socket not found or timed out"
  | .connect text => "connect failed: " ++ text
  | .uidMismatch expected got =>
    "uid mismatch: expected " ++ ToString.toString expected ++ ", got " ++ ToString.toString got
  | .disconnected => "adapter disconnected"
  | .versionMismatch version => "protocol version mismatch: " ++ ToString.toString version
  | .idMismatch => "response id does not match request id"
  | .serde text => "serialization error: " ++ text
  | .io text => "io error: " ++ text
  | .codec text => "codec error: " ++ text
  | .nix text => "nix error: " ++ text
  | .methodNotFound method => "method not found: " ++ method
  | .adapterDown name => "adapter down: " ++ name
  | .adapterBusy name => "adapter busy: " ++ name

/-- A configured adapter. -/
structure AdapterClient where
  name : String
  socketPath : String
  expectedUid : UInt32
  timeoutMs : UInt64
  deriving DecidableEq

/-- What the client makes of the line that an adapter sent. -/
def AdapterClient.readReply (serde : SerdeJson) (request : VerificationRequest)
    (responseLine : String) : Except AdapterError VerificationResult :=
  match (serde.fromStr responseLine).bind (VerificationResult.deserialize serde) with
  | none => .error (.serde (serde.errorText responseLine))
  | some result =>
    if result.version ≠ protocolVersion then .error (.versionMismatch result.version)
    else if result.id ≠ request.id then .error .idMismatch
    else .ok result

/-- One request to an adapter, which has to be answered by the instant `deadline`. -/
def AdapterClient.verify (serde : SerdeJson) (client : AdapterClient)
    (request : VerificationRequest) (deadline : ℕ) :
    ServerProg (Except AdapterError VerificationResult) := do
  match ← ServerProg.connect client.socketPath deadline with
  | .error .timeout => return .error .timeout
  | .error (.error text) => return .error (.connect text)
  | .ok () =>
    -- The peer is checked before anything is sent.
    match ← ServerProg.peerUid with
    | .error text => return .error (.nix text)
    | .ok got =>
      if got ≠ client.expectedUid then
        return .error (.uidMismatch client.expectedUid got)
      else
        match ← ServerProg.send (serde.toString request.serialize) deadline with
        | .error .timeout => return .error .timeout
        | .error (.error text) => return .error (.codec text)
        | .ok () =>
          match ← ServerProg.recv deadline with
          | none => return .error .timeout
          | some .disconnected => return .error .disconnected
          | some (.error text) => return .error (.codec text)
          | some (.line responseLine) => return AdapterClient.readReply serde request responseLine

/-- The replies that are accepted: results of the protocol's version with the request's
identifier. -/
theorem AdapterClient.readReply_eq_ok_iff {serde : SerdeJson} {request : VerificationRequest}
    {responseLine : String} {result : VerificationResult} :
    AdapterClient.readReply serde request responseLine = .ok result ↔
      (serde.fromStr responseLine).bind (VerificationResult.deserialize serde) = some result ∧
        result.version = protocolVersion ∧ result.id = request.id := by
  unfold readReply
  cases (serde.fromStr responseLine).bind (VerificationResult.deserialize serde) with
  | none => simp
  | some r =>
    simp only [Option.some.injEq]
    constructor
    · intro h
      split_ifs at h with hv hid
      obtain rfl := Except.ok.inj h
      exact ⟨rfl, not_not.mp hv, not_not.mp hid⟩
    · rintro ⟨rfl, hv, hid⟩
      rw [if_neg (not_not.mpr hv), if_neg (not_not.mpr hid)]

/-- The calls of the client are on the adapter's socket only. -/
theorem AdapterClient.avoids_verify {P : ServerOp → Prop} (serde : SerdeJson)
    (client : AdapterClient) (request : VerificationRequest) (deadline : ℕ)
    (hconnect : ¬ P (.connect client.socketPath deadline)) (hpeer : ¬ P .peerUid)
    (hsend : ∀ line, ¬ P (.send line deadline)) (hrecv : ¬ P (.recv deadline)) :
    (client.verify serde request deadline).Avoids P := by
  refine avoids_bind (avoids_call hconnect) fun connected => ?_
  rcases connected with (_ | _) | _
  · exact avoids_pure _
  · exact avoids_pure _
  refine avoids_bind (avoids_call hpeer) fun peer => ?_
  rcases peer with _ | got
  · exact avoids_pure _
  dsimp only
  split
  · exact avoids_pure _
  refine avoids_bind (avoids_call (hsend _)) fun sent => ?_
  rcases sent with (_ | _) | _
  · exact avoids_pure _
  · exact avoids_pure _
  refine avoids_bind (avoids_call hrecv) fun received => ?_
  rcases received with _ | _ | _ | _ <;> exact avoids_pure _

/-- **The course of a successful request.** The client connects, finds the expected user at the
other end, sends the request and reads a line that is an acceptable reply. -/
theorem AdapterClient.traces_verify_ok {W : Type} {step : W → (o : ServerOp) → o.Ans → W → Prop}
    {serde : SerdeJson} {client : AdapterClient} {request : VerificationRequest} {deadline : ℕ}
    {tr : List (Event W ServerOp ServerOp.Ans)} {result : VerificationResult}
    (h : Traces step (client.verify serde request deadline) tr (.ok result)) :
    ∃ w₁ w₁' w₂ w₂' w₃ w₃' w₄ w₄' responseLine,
      tr = [⟨w₁, .connect client.socketPath deadline, .ok (), w₁'⟩,
        ⟨w₂, .peerUid, .ok client.expectedUid, w₂'⟩,
        ⟨w₃, .send (serde.toString request.serialize) deadline, .ok (), w₃'⟩,
        ⟨w₄, .recv deadline, some (.line responseLine), w₄'⟩] ∧
      AdapterClient.readReply serde request responseLine = .ok result := by
  obtain ⟨w₁, connected, w₁', _, rfl, -, h₁⟩ := traces_call_bind.mp h
  rcases connected with (_ | _) | _
  · cases (traces_pure.mp h₁).2
  · cases (traces_pure.mp h₁).2
  obtain ⟨w₂, peer, w₂', _, rfl, -, h₂⟩ := traces_call_bind.mp h₁
  rcases peer with _ | got
  · cases (traces_pure.mp h₂).2
  dsimp only at h₂
  split at h₂
  · cases (traces_pure.mp h₂).2
  next hgot =>
  obtain rfl := not_not.mp hgot
  obtain ⟨w₃, sent, w₃', _, rfl, -, h₃⟩ := traces_call_bind.mp h₂
  rcases sent with (_ | _) | _
  · cases (traces_pure.mp h₃).2
  · cases (traces_pure.mp h₃).2
  obtain ⟨w₄, received, w₄', _, rfl, -, h₄⟩ := traces_call_bind.mp h₃
  rcases received with _ | responseLine | _ | _
  · cases (traces_pure.mp h₄).2
  · obtain ⟨rfl, hreply⟩ := traces_pure.mp h₄
    exact ⟨w₁, w₁', w₂, w₂', w₃, w₃', w₄, w₄', responseLine, rfl, hreply.symm⟩
  · cases (traces_pure.mp h₄).2
  · cases (traces_pure.mp h₄).2

/-- A request that gets a line is decided by that line. -/
theorem AdapterClient.traces_verify_of_recv {W : Type}
    {step : W → (o : ServerOp) → o.Ans → W → Prop} {serde : SerdeJson} {client : AdapterClient}
    {request : VerificationRequest} {deadline : ℕ} {tr : List (Event W ServerOp ServerOp.Ans)}
    {out : Except AdapterError VerificationResult}
    (h : Traces step (client.verify serde request deadline) tr out) {w w' : W}
    {responseLine : String}
    (hrecv : (⟨w, .recv deadline, some (.line responseLine), w'⟩ : Event W ServerOp ServerOp.Ans) ∈
      tr) : out = AdapterClient.readReply serde request responseLine := by
  obtain ⟨w₁, connected, w₁', _, rfl, -, h₁⟩ := traces_call_bind.mp h
  replace hrecv := (List.mem_cons.mp hrecv).resolve_left (by rintro ⟨⟩)
  rcases connected with (_ | _) | _
  · exact absurd hrecv (notMem_of_traces_pure h₁)
  · exact absurd hrecv (notMem_of_traces_pure h₁)
  obtain ⟨w₂, peer, w₂', _, rfl, -, h₂⟩ := traces_call_bind.mp h₁
  replace hrecv := (List.mem_cons.mp hrecv).resolve_left (by rintro ⟨⟩)
  rcases peer with _ | got
  · exact absurd hrecv (notMem_of_traces_pure h₂)
  dsimp only at h₂
  split at h₂
  · exact absurd hrecv (notMem_of_traces_pure h₂)
  obtain ⟨w₃, sent, w₃', _, rfl, -, h₃⟩ := traces_call_bind.mp h₂
  replace hrecv := (List.mem_cons.mp hrecv).resolve_left (by rintro ⟨⟩)
  rcases sent with (_ | _) | _
  · exact absurd hrecv (notMem_of_traces_pure h₃)
  · exact absurd hrecv (notMem_of_traces_pure h₃)
  obtain ⟨w₄, received, w₄', _, rfl, -, h₄⟩ := traces_call_bind.mp h₃
  have hlast : ∀ tr' : List (Event W ServerOp ServerOp.Ans), tr' = [] →
      (⟨w, .recv deadline, some (.line responseLine), w'⟩ : Event W ServerOp ServerOp.Ans) ∈
        ⟨w₄, .recv deadline, received, w₄'⟩ :: tr' → received = some (.line responseLine) := by
    rintro _ rfl hmem
    cases List.mem_singleton.mp hmem
    rfl
  rcases received with _ | line | _ | _ <;> obtain ⟨htr, rfl⟩ := traces_pure.mp h₄
  · cases hlast _ htr hrecv
  · cases hlast _ htr hrecv
    rfl
  · cases hlast _ htr hrecv
  · cases hlast _ htr hrecv

end OlaCore
