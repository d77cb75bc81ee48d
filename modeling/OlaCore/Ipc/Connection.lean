import OlaCore.Ipc.Reload
import OlaCore.Lib.Protocols

set_option relaxedAutoImplicit false
set_option autoImplicit false

/-!
# Connections

Each connection is handled by a task of its own (`ipc/unix_socket`). The accept loop waits for a
permit before it starts the task, and the task gives the permit back when it ends. A task reads
lines and answers them one at a time: every line is checked against one snapshot of the reloadable
state, and a `verify_once` request is decided with the same snapshot.

A client may send anything and close the connection at any time, and the rate limiter may answer
anything. A task reads at most `n` lines, for any `n`, so that every finite run of the loop is a
run of the program for some `n`.

## Main definitions

* `OlaCore.ClientOp`, `OlaCore.DaemonWorld`, `OlaCore.DaemonStep` — the operations of a task and
  what they do.
* `OlaCore.DaemonEnv` — the steps between them: background tasks, and reloads.
* `OlaCore.handleClient`, `OlaCore.clientTask` — the task of a connection.

## Main results

* `OlaCore.traces_of_server` — the request path inside a task.
* `OlaCore.closed_clientTask` — how to show something of a task.
-/

namespace OlaCore

open Program

/-- How many connections are handled at once. -/
def maxConnections : ℕ := 16

/-- What waiting for the next line of a client gives: nothing for too long, the end of the
connection, an error, or a line. -/
inductive ClientInput where
  | idle
  | closed
  | error (text : String)
  | line (text : String)
  deriving DecidableEq

/-- The operations of the task of a connection. -/
inductive ClientOp where
  | server (o : ServerOp)
  | acquireConn
  | releaseConn
  | peerCredentials
  | loadReloadable
  | nextLine
  | checkRate (uid : UInt32)
  | respond (response : Response)

/-- The answers of an operation. -/
def ClientOp.Ans : ClientOp → Type
  | .server o => o.Ans
  | .acquireConn => Unit
  | .releaseConn => Unit
  | .peerCredentials => Except String UInt32
  | .loadReloadable => ReloadableState
  | .nextLine => ClientInput
  | .checkRate _ => Bool
  | .respond _ => Except String Unit

/-- Programs of a task. -/
abbrev ClientProg := Prog ClientOp ClientOp.Ans

namespace ClientProg

/-- A program of the request path, as a part of a task. -/
def server {α : Type} (p : ServerProg α) : ClientProg α := p.embed ClientOp.server fun _ x => x

/-- Wait for a permit. -/
def acquireConn : ClientProg Unit := call ClientOp.acquireConn

/-- Give the permit back. -/
def releaseConn : ClientProg Unit := call ClientOp.releaseConn

/-- The user at the other end of the connection. -/
def peerCredentials : ClientProg (Except String UInt32) := call ClientOp.peerCredentials

/-- A snapshot of the reloadable state. -/
def loadReloadable : ClientProg ReloadableState := call ClientOp.loadReloadable

/-- Wait for the next line. -/
def nextLine : ClientProg ClientInput := call ClientOp.nextLine

/-- Does the rate limiter admit a request of the user? -/
def checkRate (uid : UInt32) : ClientProg Bool := call (ClientOp.checkRate uid)

/-- Send a response, as one line. -/
def respond (response : Response) : ClientProg (Except String Unit) :=
  call (ClientOp.respond response)

end ClientProg

/-! ## The shared state -/

/-- The state of the request path, the live reloadable state, and the permits that are left. -/
structure DaemonWorld where
  server : ServerWorld
  live : ReloadableState
  permits : ℕ

/-- A call of a task. -/
abbrev ClientEvent := Event DaemonWorld ClientOp ClientOp.Ans

/-- `DaemonStep crates w o a w'`: in the state `w` the operation `o` may answer `a` and leave
`w'`. -/
def DaemonStep (crates : Crates) (w : DaemonWorld) :
    (o : ClientOp) → o.Ans → DaemonWorld → Prop
  | .server o, answer, w' => ∃ server,
      ServerStep crates w.server o answer server ∧ w' = { w with server }
  | .acquireConn, _, w' => 0 < w.permits ∧ w' = { w with permits := w.permits - 1 }
  | .releaseConn, _, w' => w' = { w with permits := w.permits + 1 }
  | .loadReloadable, snapshot, w' => snapshot = w.live ∧ w' = w
  | _, _, w' => w' = w

/-- What happens besides the operations of tasks: the steps of the background tasks, and reloads
with any files. After a reload the audit log is reopened, which is a step of its own. -/
inductive DaemonEnv (toml : String → Except String (List RawPolicyRule)) (config : Config) :
    DaemonWorld → DaemonWorld → Prop
  | background (w : DaemonWorld) {server : ServerWorld} : Background w.server server →
      DaemonEnv toml config w { w with server }
  | reload (w : DaemonWorld) (files : ReloadFiles) :
      DaemonEnv toml config w { w with live := reloadState toml config w.live files }

/-! ## The task of a connection -/

/-- The version of the package. -/
def cargoPkgVersion : String := "0.2.0"

/-- Send a response and go on as given: `none` to read the next line, `some r` to end the task with
`r`. A response that cannot be sent ends the task. -/
def respondThen (response : Response) (next : Option (Except String Unit)) :
    ClientProg (Option (Except String Unit)) := do
  match ← ClientProg.respond response with
  | .error text => return some (.error text)
  | .ok () => return next

section Task

variable (crates : Crates) (state : ServerState) (ownUid callerUid : UInt32)

/-- Answer a `verify_once` request. Bad parameters end the task. -/
def answerVerifyOnce (reloadable : ReloadableState) (req : Request) :
    ClientProg (Option (Except String Unit)) :=
  match requestUid callerUid req.params with
  | .error msg => respondThen (.ofError req.id msg) (some (.ok ()))
  | .ok uid =>
    match requestMethod req.params with
    | .error msg => respondThen (.ofError req.id msg) (some (.ok ()))
    | .ok method => do
      let response ← ClientProg.server
        (handleVerifyOnce crates state reloadable callerUid uid req.id method)
      respondThen response none

/-- Answer a request. -/
def answerRequest (reloadable : ReloadableState) (req : Request) :
    ClientProg (Option (Except String Unit)) :=
  if req.method = "ping" then
    respondThen (.ok req.id (.obj [("ok", .bool true), ("version", .str cargoPkgVersion)])) none
  else if req.method = "status" then do
    let methods ← ClientProg.server (state.adapterRegistry.availableMethods ServerProg.adapterDown)
    respondThen (.ok req.id (.obj [("methods", .arr (methods.map .str)),
      ("status", .str "running"), ("version", .str cargoPkgVersion)])) none
  else if req.method = "list_methods" then do
    let methods ← ClientProg.server (state.adapterRegistry.availableMethods ServerProg.adapterDown)
    respondThen (.ok req.id (.arr (methods.map .str))) none
  else if req.method = "verify_once" then
    answerVerifyOnce crates state callerUid reloadable req
  else respondThen (.ofError req.id "Unknown method") none

/-- Read a line as a request, and answer it. -/
def answerLine (reloadable : ReloadableState) (line : String) :
    ClientProg (Option (Except String Unit)) :=
  match (crates.serde.fromStr line).bind Request.deserialize with
  | none => respondThen (.ofError none ("Invalid JSON: " ++ crates.serde.errorText line)) none
  | some req =>
    if req.version ≠ protocolVersion then
      respondThen
        (.ofError req.id ("Unsupported protocol version " ++ toString req.version.toNat)) none
    else answerRequest crates state callerUid reloadable req

/-- Handle a line. The allowlist is checked again, then the rate limiter, and one snapshot of the
reloadable state serves the whole request. -/
def handleLine (line : String) : ClientProg (Option (Except String Unit)) := do
  let reloadable ← ClientProg.loadReloadable
  if !reloadable.allowlist.isAllowed ownUid callerUid then return some (.ok ())
  else
    match ← ClientProg.checkRate callerUid with
    | false => respondThen (.ofError none "Rate limit exceeded") (some (.ok ()))
    | true => answerLine crates state callerUid reloadable line

/-- The loop of a task, for at most `n` lines. -/
def clientLoop : ℕ → ClientProg (Except String Unit)
  | 0 => return .ok ()
  | n + 1 => do
    match ← ClientProg.nextLine with
    | .idle => return .ok ()
    | .closed => return .ok ()
    | .error text => return .error text
    | .line line =>
      match ← handleLine crates state ownUid callerUid line with
      | some r => return r
      | none => clientLoop n

end Task

/-- Handle a connection, on a daemon that runs as `ownUid`. The peer is identified and checked
before anything is read. -/
def handleClient (crates : Crates) (state : ServerState) (ownUid : UInt32) (n : ℕ) :
    ClientProg (Except String Unit) := do
  match ← ClientProg.peerCredentials with
  | .error text => return .error text
  | .ok callerUid =>
    let reloadable ← ClientProg.loadReloadable
    -- Silent close.
    if !reloadable.allowlist.isAllowed ownUid callerUid then return .ok ()
    else clientLoop crates state ownUid callerUid n

/-- The task of a connection. -/
def clientTask (crates : Crates) (state : ServerState) (ownUid : UInt32) (n : ℕ) :
    ClientProg (Except String Unit) := do
  let _ ← ClientProg.acquireConn
  let result ← handleClient crates state ownUid n
  let _ ← ClientProg.releaseConn
  return result

/-- **The request path inside a task**: an execution of it in the daemon is an execution of it. -/
theorem traces_of_server {crates : Crates} {α : Type} {p : ServerProg α} {a : α}
    {tr : List ClientEvent} (h : Traces (DaemonStep crates) (ClientProg.server p) tr a) :
    ∃ tr₀, List.Forall₂ (Embeds ClientOp.server (fun _ x => x) DaemonWorld.server) tr tr₀ ∧
      Traces (ServerStep crates) p tr₀ a := by
  refine Traces.of_embed ?_ h
  rintro w o x w' ⟨server, hs, rfl⟩
  exact hs

/-- An execution of the request path, as a part of a task in the daemon `w`. -/
theorem traces_server {crates : Crates} {α : Type} {p : ServerProg α} {a : α}
    {tr : List (Event ServerWorld ServerOp ServerOp.Ans)} (w : DaemonWorld)
    (h : Traces (ServerStep crates) p tr a) :
    Traces (DaemonStep crates) (ClientProg.server p) (tr.map fun e =>
      ⟨{ w with server := e.before }, .server e.op, e.answer, { w with server := e.after }⟩) a := by
  refine h.embed ClientOp.server (fun o (x : (ClientOp.server o).Ans) => x)
    (fun server => { w with server }) (fun _ x => x) (fun _ _ => rfl) ?_
  intro server o x server' hs
  exact ⟨server', hs, rfl⟩

/-- The request path makes no call of the task's own. -/
theorem avoids_server {K : ClientOp → Prop} {α : Type} (hK : ∀ o, ¬ K (.server o))
    (p : ServerProg α) : (ClientProg.server p).Avoids K := by
  induction p with
  | pure a => exact trivial
  | op o k ih => exact ⟨hK o, ih⟩

/-- **A property of a task** holds if it holds of its parts: it is kept by sequential composition
and by the calls of the task's own, and it holds of the request path. -/
theorem closed_clientTask {crates : Crates} {state : ServerState} {ownUid : UInt32}
    {C : ∀ α : Type, ClientProg α → Prop}
    (hpure : ∀ (α : Type) (a : α), C α (Pure.pure a))
    (hbind : ∀ (α β : Type) (p : ClientProg β) (f : β → ClientProg α), C β p → (∀ b, C α (f b)) →
      C α (p >>= f))
    (hcall : ∀ o : ClientOp, (∀ o' : ServerOp, o ≠ .server o') → C o.Ans (call o))
    (hmethods : C _ (ClientProg.server
      (state.adapterRegistry.availableMethods ServerProg.adapterDown)))
    (hverify : ∀ reloadable callerUid uid reqId method, C _ (ClientProg.server
      (handleVerifyOnce crates state reloadable callerUid uid reqId method))) (n : ℕ) :
    C _ (clientTask crates state ownUid n) := by
  have hrespond : ∀ response next, C _ (respondThen response next) := by
    refine fun response next => hbind _ _ _ _ (hcall (.respond response) nofun) fun sent => ?_
    rcases sent with _ | _ <;> exact hpure _ _
  have hverifyOnce : ∀ callerUid reloadable req,
      C _ (answerVerifyOnce crates state callerUid reloadable req) := by
    intro callerUid reloadable req
    unfold answerVerifyOnce
    split
    · exact hrespond _ _
    split
    · exact hrespond _ _
    · exact hbind _ _ _ _ (hverify _ _ _ _ _) fun _ => hrespond _ _
  have hline : ∀ callerUid line, C _ (handleLine crates state ownUid callerUid line) := by
    refine fun callerUid line => hbind _ _ _ _ (hcall .loadReloadable nofun) fun reloadable => ?_
    split
    · exact hpure _ _
    refine hbind _ _ _ _ (hcall (.checkRate callerUid) nofun) fun admitted => ?_
    cases admitted
    · exact hrespond _ _
    change C _ (answerLine crates state callerUid reloadable line)
    unfold answerLine
    split
    · exact hrespond _ _
    split
    · exact hrespond _ _
    unfold answerRequest
    split_ifs
    · exact hrespond _ _
    · exact hbind _ _ _ _ hmethods fun _ => hrespond _ _
    · exact hbind _ _ _ _ hmethods fun _ => hrespond _ _
    · exact hverifyOnce _ _ _
    · exact hrespond _ _
  have hloop : ∀ n callerUid, C _ (clientLoop crates state ownUid callerUid n) := by
    intro n callerUid
    induction n with
    | zero => exact hpure _ _
    | succ n ih =>
      refine hbind _ _ _ _ (hcall .nextLine nofun) fun input => ?_
      rcases input with _ | _ | _ | line
      · exact hpure _ _
      · exact hpure _ _
      · exact hpure _ _
      · refine hbind _ _ _ _ (hline _ _) fun next => ?_
        rcases next with _ | r
        · exact ih
        · exact hpure _ _
  refine hbind _ _ _ _ (hcall .acquireConn nofun) fun _ => hbind _ _ _ _ ?_ fun result =>
    hbind _ _ _ _ (hcall .releaseConn nofun) fun _ => hpure _ _
  refine hbind _ _ _ _ (hcall .peerCredentials nofun) fun creds => ?_
  rcases creds with _ | callerUid
  · exact hpure _ _
  refine hbind _ _ _ _ (hcall .loadReloadable nofun) fun reloadable => ?_
  split
  · exact hpure _ _
  · exact hloop _ _

/-! ### A connection -/

namespace Sample

/-- The daemon at its start. -/
def daemon : DaemonWorld := ⟨idle, reloadable, maxConnections⟩

/-- The daemon with one connection. -/
def connected : DaemonWorld := { daemon with permits := 15 }

/-- A request, as the client sends it. -/
def requestJson : Json :=
  .obj [("version", .num (natNumber 1)), ("id", .str "req-1"), ("method", .str "verify_once"),
    ("params", .obj [("method", .str "fido2")])]

/-- The line of the request. -/
def requestLine : String := Crates.reference.serde.toString requestJson

/-- What the daemon reads. -/
def req : Request := ⟨1, some "req-1", "verify_once", some (.obj [("method", .str "fido2")])⟩

/-- The line is read as the request. -/
theorem read_requestLine :
    (Crates.reference.serde.fromStr requestLine).bind Request.deserialize = some req := by
  have hfrom : Crates.reference.serde.fromStr = Json.parse := rfl
  have hto : Crates.reference.serde.toString = Json.compact := rfl
  rw [requestLine, hfrom, hto, Json.parse_compact]
  rfl

/-- A reload with empty files: no user is allowed, and no rule applies. -/
def emptyFiles : ReloadFiles := ⟨.ok "", .ok ""⟩

/-- The daemon after that reload. -/
def reloaded : DaemonWorld :=
  { connected with live := reloadState (fun _ => .ok []) .default connected.live emptyFiles }

/-- The calls of the connection up to the request path. -/
def openingCalls : List ClientEvent :=
  [⟨daemon, .acquireConn, (), connected⟩,
    ⟨connected, .peerCredentials, .ok 1000, connected⟩,
    ⟨connected, .loadReloadable, reloadable, connected⟩,
    ⟨connected, .nextLine, .line requestLine, connected⟩,
    ⟨connected, .loadReloadable, reloadable, connected⟩,
    ⟨connected, .checkRate 1000, true, connected⟩]

/-- The calls of the request path, after the reload. -/
def pathCalls : List ClientEvent :=
  grantCalls.map fun e =>
    ⟨{ reloaded with server := e.before }, .server e.op, e.answer,
      { reloaded with server := e.after }⟩

/-- The daemon after the request. -/
def served : DaemonWorld := { reloaded with server := logged }

/-- The calls after the request path. -/
def closingCalls : List ClientEvent :=
  [⟨served, .respond (.allow (some "req-1") "fido2"), .ok (), served⟩,
    ⟨served, .releaseConn, (), { served with permits := maxConnections }⟩]

/-- The caller is on the allowlist. -/
theorem isAllowed_caller : reloadable.allowlist.isAllowed 990 1000 = true := by decide

/-- The line is answered with a grant. -/
theorem traces_answerLine : Traces (DaemonStep .reference)
    (answerLine .reference state 1000 reloadable requestLine)
    (pathCalls ++ closingCalls.take 1) none := by
  have hversion : ¬ req.version ≠ protocolVersion := by decide
  have huid : requestUid 1000 req.params = .ok 1000 := rfl
  have hmethod : requestMethod req.params = .ok "fido2" := by rfl
  rw [answerLine, read_requestLine]
  dsimp only
  rw [if_neg hversion, answerRequest, if_neg (by decide), if_neg (by decide),
    if_neg (by decide), if_pos (by decide), answerVerifyOnce, huid]
  dsimp only
  rw [hmethod]
  refine traces_bind.mpr ⟨pathCalls, .allow (some "req-1") "fido2", closingCalls.take 1, rfl,
    traces_server reloaded traces_grantCalls, ?_⟩
  exact traces_call_bind.mpr ⟨_, .ok (), _, _, rfl, rfl, traces_pure.mpr ⟨rfl, rfl⟩⟩

/-- The line is handled. -/
theorem traces_handleLine : Traces (DaemonStep .reference)
    (handleLine .reference state 990 1000 requestLine)
    (⟨connected, .loadReloadable, reloadable, connected⟩ ::
      ⟨connected, .checkRate 1000, true, connected⟩ ::
      (pathCalls ++ closingCalls.take 1)) none := by
  refine traces_call_bind.mpr ⟨connected, reloadable, connected, _, rfl, ⟨rfl, rfl⟩, ?_⟩
  rw [isAllowed_caller]
  exact traces_call_bind.mpr ⟨connected, true, connected, _, rfl, rfl, traces_answerLine⟩

/-- The client is served, up to one line. -/
theorem traces_handleClient : Traces (DaemonStep .reference) (handleClient .reference state 990 1)
    (openingCalls.drop 1 ++ (pathCalls ++ closingCalls.take 1)) (.ok ()) := by
  refine traces_call_bind.mpr ⟨connected, .ok 1000, connected, _, rfl, rfl, ?_⟩
  refine traces_call_bind.mpr ⟨connected, reloadable, connected, _, rfl, ⟨rfl, rfl⟩, ?_⟩
  rw [isAllowed_caller]
  refine traces_call_bind.mpr ⟨connected, .line requestLine, connected, _, rfl, rfl, ?_⟩
  exact traces_bind.mpr ⟨_, none, [], (List.append_nil _).symm, traces_handleLine,
    traces_pure.mpr ⟨rfl, rfl⟩⟩

/-- The task of the connection. -/
theorem traces_clientTask : Traces (DaemonStep .reference) (clientTask .reference state 990 1)
    (openingCalls ++ (pathCalls ++ closingCalls)) (.ok ()) := by
  refine traces_call_bind.mpr ⟨daemon, (), connected, _, rfl, ⟨by decide, rfl⟩, ?_⟩
  refine traces_bind.mpr ⟨_, .ok (), closingCalls.drop 1, ?_, traces_handleClient, ?_⟩
  · simp [openingCalls, closingCalls]
  · exact traces_call_bind.mpr ⟨_, (), _, _, rfl, rfl, traces_pure.mpr ⟨rfl, rfl⟩⟩

/-- The history of the connection. -/
def connectionHistory : List (Entry DaemonWorld ClientOp ClientOp.Ans (Except String Unit)) :=
  openingCalls.map (.step 0) ++ (pathCalls ++ closingCalls).map (.step 0)

/-- A run of the daemon with the connection, and with the reload while the request is under way. -/
theorem exec_connectionHistory : ∃ w procs,
    Exec (DaemonStep .reference) (DaemonEnv (fun _ => .ok []) state.config)
      (fun _ => clientTask .reference state 990 1) daemon w procs connectionHistory ∧
    procs 0 = .pure (.ok ()) := by
  have hstart : Exec (DaemonStep .reference) (DaemonEnv (fun _ => .ok []) state.config)
      (fun _ => clientTask .reference state 990 1) daemon daemon _ [] := .start
  obtain ⟨p, hopening, hrest⟩ := traces_clientTask.split
  have hlinked₁ : Linked daemon openingCalls connected := by simp [openingCalls, Linked]
  have hlinked₂ : Linked reloaded (pathCalls ++ closingCalls)
      { served with permits := maxConnections } := by
    have hserver : { reloaded with server := idle } = reloaded := rfl
    simp [pathCalls, grantCalls, grantCallsOf, dispatchCalls, closingCalls, served, logged, Linked,
      hserver]
  have hopened := hstart.append_steps (i := 0) hopening rfl hlinked₁
  have hreload := hopened.environment (.reload connected emptyFiles)
  have hclosed := hreload.append_steps (i := 0) hrest (Function.update_self ..) hlinked₂
  exact ⟨_, _, hclosed, Function.update_self ..⟩

end Sample

end OlaCore
