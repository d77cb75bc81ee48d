import Mathlib.Data.List.Sort
import OlaCore.Adapters.Client
import OlaCore.Adapters.ConfigLoader

set_option relaxedAutoImplicit false
set_option autoImplicit false

/-!
# The adapter registry

The registry (`adapters/registry`) routes a method to the adapter that offers it. The wildcard
`any` is resolved once, to the first available method in byte order, and the request is then
dispatched to the adapter that was resolved.

Whether an adapter is down is asked anew for every method, so the routing functions are generic
in the monad in which that question is answered: a program when other tasks may run in between,
and the identity for a fixed state of the adapters.

## Main definitions

* `OlaCore.AdapterRegistry`, `OlaCore.ResolvedAdapter`.
* `OlaCore.AdapterRegistry.ofConfigs`, `OlaCore.AdapterRegistry.loadFromDirWithOwner` — the registry
  of a list of configurations, and of a directory.
* `OlaCore.AdapterRegistry.availableMethods`, `OlaCore.AdapterRegistry.resolve`.
* `OlaCore.dispatchResolved` — one request to the resolved adapter.

## Main results

* `OlaCore.AdapterRegistry.traces_resolve_ok`, `OlaCore.AdapterRegistry.returns_resolve` — what
  resolving returns.
* `OlaCore.traces_dispatchResolved_ok` — the course of a successful dispatch.
-/

namespace OlaCore

open ByteText Program

/-- The adapters, by the methods that they offer. -/
structure AdapterRegistry where
  clients : AList fun _ : String => AdapterClient
  adapterNames : List String

/-- A method and the adapter that it was resolved to. -/
structure ResolvedAdapter where
  adapterName : String
  method : String
  timeoutMs : UInt64
  client : AdapterClient
  deriving DecidableEq

/-- Strings in byte order. -/
def byteLe (a b : String) : Prop := utf8 a ≤ utf8 b

instance : DecidableRel byteLe := fun a b => inferInstanceAs (Decidable (utf8 a ≤ utf8 b))

/-- The client of a configured adapter. -/
def AdapterConfig.client (config : AdapterConfig) : AdapterClient :=
  ⟨config.name, config.socketPath, config.expectedUid, config.timeoutMs⟩

namespace AdapterRegistry

/-! ## Loading -/

/-- Enter the methods of an adapter. No method may have an adapter already. -/
def insertMethods (client : AdapterClient) :
    List String → (AList fun _ : String => AdapterClient) →
      Except String (AList fun _ : String => AdapterClient)
  | [], clients => .ok clients
  | method :: methods, clients =>
    match clients.lookup method with
    | some existing =>
      .error ("duplicate adapter method " ++ method ++ " owned by both " ++ existing.name ++
        " and " ++ client.name)
    | none => insertMethods client methods (clients.insert method client)

/-- Enter adapters, with the names and the methods entered so far. -/
def insertConfigs :
    List AdapterConfig → List String → (AList fun _ : String => AdapterClient) →
      Except String (List String × AList fun _ : String => AdapterClient)
  | [], names, clients => .ok (names, clients)
  | config :: configs, names, clients =>
    if config.name ∈ names then .error ("duplicate adapter name " ++ config.name)
    else do
      let clients ← insertMethods config.client config.methods clients
      insertConfigs configs (config.name :: names) clients

/-- The registry of a list of configurations. -/
def ofConfigs (configs : List AdapterConfig) : Except String AdapterRegistry := do
  let (names, clients) ← insertConfigs configs [] ∅
  return ⟨clients, names.insertionSort byteLe⟩

/-- The registry of a directory. -/
def loadFromDirWithOwner (toml : String → Except String AdapterConfig) (strict : Bool)
    (dirPath : String) (dir : Directory) : Except String AdapterRegistry := do
  let configs ← loadAdapterConfigs toml strict dirPath dir
  ofConfigs configs

/-! ## Routing -/

section Routing

variable {m : Type → Type} [Monad m]

/-- Is there an adapter for the method that is not down? -/
def isAvailable (reg : AdapterRegistry) (adapterDown : String → m Bool) (method : String) :
    m Bool :=
  match reg.clients.lookup method with
  | some client => do
    let down ← adapterDown client.name
    pure (!down)
  | none => pure false

/-- Those of the given methods whose adapter is not down. -/
def filterAvailable (reg : AdapterRegistry) (adapterDown : String → m Bool) :
    List String → m (List String)
  | [] => pure []
  | method :: methods => do
    let keep ← reg.isAvailable adapterDown method
    let rest ← reg.filterAvailable adapterDown methods
    pure (if keep then method :: rest else rest)

/-- The methods whose adapter is not down, in byte order. -/
def availableMethods (reg : AdapterRegistry) (adapterDown : String → m Bool) : m (List String) := do
  let methods ← reg.filterAvailable adapterDown reg.clients.keys
  pure (methods.insertionSort byteLe)

/-- The method and the adapter that a requested method stands for. -/
def resolveClient (reg : AdapterRegistry) (adapterDown : String → m Bool) (method : String) :
    m (Except AdapterError (String × AdapterClient)) :=
  if method = "any" then do
    let methods ← reg.availableMethods adapterDown
    pure (match methods.head?.bind fun name => (reg.clients.lookup name).map fun c => (name, c) with
      | some resolved => .ok resolved
      | none => .error (.methodNotFound method))
  else
    pure (match reg.clients.lookup method with
      | some client => .ok (method, client)
      | none => .error (.methodNotFound method))

/-- Resolve a requested method. -/
def resolve (reg : AdapterRegistry) (adapterDown : String → m Bool) (method : String) :
    m (Except AdapterError ResolvedAdapter) := do
  let resolved ← reg.resolveClient adapterDown method
  pure (resolved.map fun (resolvedMethod, client) =>
    ⟨client.name, resolvedMethod, client.timeoutMs, client⟩)

end Routing

section Programs

variable {reg : AdapterRegistry} {P : ServerOp → Prop}

/-- The only question that routing asks is whether an adapter is down. -/
theorem avoids_filterAvailable (hdown : ∀ name, ¬ P (.adapterDown name)) (methods : List String) :
    (reg.filterAvailable ServerProg.adapterDown methods).Avoids P := by
  induction methods with
  | nil => exact avoids_pure _
  | cons method methods ih =>
    refine avoids_bind ?_ fun _ => avoids_bind ih fun _ => avoids_pure _
    unfold isAvailable
    split
    · exact avoids_bind (avoids_call (hdown _)) fun _ => avoids_pure _
    · exact avoids_pure _

/-- The only question that resolving asks is whether an adapter is down. -/
theorem avoids_resolve (hdown : ∀ name, ¬ P (.adapterDown name)) (method : String) :
    (reg.resolve ServerProg.adapterDown method).Avoids P := by
  refine avoids_bind ?_ fun _ => avoids_pure _
  unfold resolveClient
  split
  · exact avoids_bind (avoids_bind (avoids_filterAvailable hdown _) fun _ => avoids_pure _)
      fun _ => avoids_pure _
  · exact avoids_pure _

variable {W : Type} {step : W → (o : ServerOp) → o.Ans → W → Prop}

/-- **What resolving returns**: the adapter that offers the resolved method. The resolved method
is the requested one, unless that is the wildcard. -/
theorem traces_resolve_ok {method : String} {tr : List (Event W ServerOp ServerOp.Ans)}
    {resolved : ResolvedAdapter}
    (h : Traces step (reg.resolve ServerProg.adapterDown method) tr (.ok resolved)) :
    reg.clients.lookup resolved.method = some resolved.client ∧
      resolved.adapterName = resolved.client.name ∧
      resolved.timeoutMs = resolved.client.timeoutMs ∧
      (method ≠ "any" → resolved.method = method) := by
  obtain ⟨tr₁, r, tr₂, rfl, h₁, h₂⟩ := traces_bind.mp h
  obtain ⟨-, hr⟩ := traces_pure.mp h₂
  rcases r with _ | ⟨name, client⟩
  · cases hr
  obtain rfl := Except.ok.inj hr
  refine ⟨?_, rfl, rfl, ?_⟩ <;> unfold resolveClient at h₁ <;> split at h₁
  · obtain ⟨_, methods, _, -, -, h₃⟩ := traces_bind.mp h₁
    obtain ⟨-, hok⟩ := traces_pure.mp h₃
    split at hok
    · next p hp =>
      obtain ⟨name', -, hname⟩ := Option.bind_eq_some_iff.mp hp
      obtain ⟨c, hc, rfl⟩ := Option.map_eq_some_iff.mp hname
      obtain ⟨rfl, rfl⟩ := Prod.mk.inj (Except.ok.inj hok)
      exact hc
    · cases hok
  · obtain ⟨-, hok⟩ := traces_pure.mp h₁
    split at hok
    · next c hc =>
      obtain ⟨rfl, rfl⟩ := Prod.mk.inj (Except.ok.inj hok)
      exact hc
    · cases hok
  · next hany => exact fun hne => absurd hany hne
  · intro _
    obtain ⟨-, hok⟩ := traces_pure.mp h₁
    split at hok
    · exact (Prod.mk.inj (Except.ok.inj hok)).1
    · cases hok

/-- What resolving may return: an adapter of the registry, or that there is none for the requested
method. -/
theorem returns_resolve (method : String) :
    (reg.resolve ServerProg.adapterDown method).Returns fun r =>
      (∀ resolved, r = .ok resolved →
        reg.clients.lookup resolved.method = some resolved.client ∧
          resolved.adapterName = resolved.client.name) ∧
      ∀ e, r = .error e → e = .methodNotFound method := by
  have hresolved : (reg.resolveClient ServerProg.adapterDown method).Returns fun r =>
      (∀ p, r = .ok p → reg.clients.lookup p.1 = some p.2) ∧
        ∀ e, r = .error e → e = .methodNotFound method := by
    unfold resolveClient
    split
    · refine returns_bind_of_forall fun methods => returns_pure ?_
      split
      · next p hp =>
        obtain ⟨name, -, hname⟩ := Option.bind_eq_some_iff.mp hp
        obtain ⟨c, hc, rfl⟩ := Option.map_eq_some_iff.mp hname
        exact ⟨fun _ h => Except.ok.inj h ▸ hc, nofun⟩
      · exact ⟨nofun, fun _ h => (Except.error.inj h).symm⟩
    · refine returns_pure ?_
      split
      · next c hc => exact ⟨fun _ h => Except.ok.inj h ▸ hc, nofun⟩
      · exact ⟨nofun, fun _ h => (Except.error.inj h).symm⟩
  refine returns_bind hresolved fun r hr => returns_pure ?_
  rcases r with e | ⟨name, client⟩
  · exact ⟨nofun, fun _ h => hr.2 _ (congrArg _ (Except.error.inj h))⟩
  · refine ⟨fun resolved h => ?_, nofun⟩
    obtain rfl := Except.ok.inj h
    exact ⟨hr.1 _ rfl, rfl⟩

end Programs

end AdapterRegistry

/-! ## Dispatch -/

/-- One request to the resolved adapter. An adapter that is down gets no nonce, and one request
at a time is sent to an adapter. -/
def dispatchResolved (serde : SerdeJson) (resolved : ResolvedAdapter)
    (request : VerificationRequest) (deadline : ℕ) :
    ServerProg (Except AdapterError VerificationResult) := do
  let client := resolved.client
  if ← ServerProg.adapterDown client.name then
    return .error (.adapterDown client.name)
  else
    match ← ServerProg.acquire client.name with
    | .error .timeout => return .error (.adapterBusy client.name)
    | .error .closed => return .error (.adapterDown client.name)
    | .ok () => client.verify serde request deadline

section Dispatch

variable {serde : SerdeJson} {resolved : ResolvedAdapter} {request : VerificationRequest}
  {deadline : ℕ}

/-- A dispatch asks about the adapter, waits for its permit and talks to it. -/
theorem avoids_dispatchResolved {P : ServerOp → Prop} (hdown : ∀ name, ¬ P (.adapterDown name))
    (hacquire : ∀ name, ¬ P (.acquire name)) (hconnect : ∀ path, ¬ P (.connect path deadline))
    (hpeer : ¬ P .peerUid) (hsend : ∀ line, ¬ P (.send line deadline))
    (hrecv : ¬ P (.recv deadline)) :
    (dispatchResolved serde resolved request deadline).Avoids P := by
  refine avoids_bind (avoids_call (hdown _)) fun down => ?_
  split
  · exact avoids_pure _
  refine avoids_bind (avoids_call (hacquire _)) fun acquired => ?_
  rcases acquired with (_ | _) | _
  · exact avoids_pure _
  · exact avoids_pure _
  · exact AdapterClient.avoids_verify _ _ _ _ (hconnect _) hpeer hsend hrecv

/-- **The course of a successful dispatch**: the adapter is not down, its permit is acquired, and
the request to it succeeds. -/
theorem traces_dispatchResolved_ok {W : Type} {step : W → (o : ServerOp) → o.Ans → W → Prop}
    {tr : List (Event W ServerOp ServerOp.Ans)} {result : VerificationResult}
    (h : Traces step (dispatchResolved serde resolved request deadline) tr (.ok result)) :
    ∃ w₁ w₁' w₂ w₂' tr', tr = ⟨w₁, .adapterDown resolved.client.name, false, w₁'⟩ ::
        ⟨w₂, .acquire resolved.client.name, .ok (), w₂'⟩ :: tr' ∧
      Traces step (resolved.client.verify serde request deadline) tr' (.ok result) := by
  obtain ⟨w₁, down, w₁', _, rfl, -, h₁⟩ := traces_call_bind.mp h
  cases down
  swap
  · cases (traces_pure.mp h₁).2
  obtain ⟨w₂, acquired, w₂', _, rfl, -, h₂⟩ := traces_call_bind.mp h₁
  rcases acquired with (_ | _) | _
  · cases (traces_pure.mp h₂).2
  · cases (traces_pure.mp h₂).2
  · exact ⟨w₁, w₁', w₂, w₂', _, rfl, h₂⟩

end Dispatch

end OlaCore
