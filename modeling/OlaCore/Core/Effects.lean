import OlaCore.Audit.Entry
import OlaCore.Lib.Program
import OlaCore.Security.Nonce

set_option relaxedAutoImplicit false
set_option autoImplicit false

/-!
# The operations of the daemon

The request path of the daemon is a program over the operations below: the shared state that it
locks (adapter health, the nonce store, the audit logger), the clocks and random sources that it
reads, and the socket of an adapter. What an adapter, the kernel or a clock answers is decided by
the environment.

## Main definitions

* `OlaCore.ServerOp`, `OlaCore.ServerOp.Ans` — the operations and the types of their answers.
* `OlaCore.ServerProg` — programs over them.
-/

namespace OlaCore

open Program

/-- Why no permit of an adapter was acquired: the queue timed out, or the semaphore is closed. -/
inductive AcquireFailure where
  | timeout
  | closed
  deriving DecidableEq

/-- Why an adapter's socket failed: the deadline passed, or the system reports an error. -/
inductive SocketFailure where
  | timeout
  | error (text : String)
  deriving DecidableEq

/-- What a read from an adapter's socket gave, when it did not time out. -/
inductive RecvOutcome where
  | line (text : String)
  | disconnected
  | error (text : String)
  deriving DecidableEq

/-- The operations. Instants are nanoseconds on the monotonic clock. -/
inductive ServerOp where
  | adapterDown (name : String)
  | generate (uid : UInt32)
  | consume (nonce : Nonce) (uid : UInt32)
  | log (entry : AuditEntry)
  | instantNow
  | nowMs
  | newUuid
  | acquire (name : String)
  | connect (socketPath : String) (deadline : ℕ)
  | peerUid
  | send (line : String) (deadline : ℕ)
  | recv (deadline : ℕ)
  deriving DecidableEq

/-- The answers of an operation. -/
def ServerOp.Ans : ServerOp → Type
  | .adapterDown _ => Bool
  | .generate _ => Except NonceError Nonce
  | .consume _ _ => Except NonceError Unit
  | .log _ => Except String Unit
  | .instantNow => ℕ
  | .nowMs => UInt64
  | .newUuid => Uuid
  | .acquire _ => Except AcquireFailure Unit
  | .connect _ _ => Except SocketFailure Unit
  | .peerUid => Except String UInt32
  | .send _ _ => Except SocketFailure Unit
  | .recv _ => Option RecvOutcome

/-- Programs of the daemon. -/
abbrev ServerProg := Prog ServerOp ServerOp.Ans

namespace ServerProg

/-- Is the adapter down, according to the last probes? -/
def adapterDown (name : String) : ServerProg Bool := call (ServerOp.adapterDown name)

/-- Issue a nonce. -/
def generate (uid : UInt32) : ServerProg (Except NonceError Nonce) := call (ServerOp.generate uid)

/-- Spend a nonce. -/
def consume (nonce : Nonce) (uid : UInt32) : ServerProg (Except NonceError Unit) :=
  call (ServerOp.consume nonce uid)

/-- Log an entry. -/
def log (entry : AuditEntry) : ServerProg (Except String Unit) := call (ServerOp.log entry)

/-- Read the monotonic clock. -/
def instantNow : ServerProg ℕ := call ServerOp.instantNow

/-- Read the wall clock, in milliseconds. -/
def nowMs : ServerProg UInt64 := call ServerOp.nowMs

/-- Draw a request identifier. -/
def newUuid : ServerProg Uuid := call ServerOp.newUuid

/-- Wait for the adapter's permit. -/
def acquire (name : String) : ServerProg (Except AcquireFailure Unit) :=
  call (ServerOp.acquire name)

/-- Connect to an adapter. -/
def connect (socketPath : String) (deadline : ℕ) : ServerProg (Except SocketFailure Unit) :=
  call (ServerOp.connect socketPath deadline)

/-- The user at the other end of the socket, as the kernel reports it. -/
def peerUid : ServerProg (Except String UInt32) := call ServerOp.peerUid

/-- Send a line to the adapter. -/
def send (line : String) (deadline : ℕ) : ServerProg (Except SocketFailure Unit) :=
  call (ServerOp.send line deadline)

/-- Read a line from the adapter; `none` when the deadline passed. -/
def recv (deadline : ℕ) : ServerProg (Option RecvOutcome) := call (ServerOp.recv deadline)

end ServerProg

end OlaCore
