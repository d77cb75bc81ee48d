import OlaCore.Core.Names
import OlaCore.Core.Serde
import OlaCore.Lib.Checks

set_option relaxedAutoImplicit false
set_option autoImplicit false

/-!
# The PAM module

The PAM module (`pam-ola`) asks the daemon about the user that logs in. It reads its arguments,
sends one request and reads one line, which it takes for an allow, a deny or an error.

The line is read byte by byte up to a newline or to the end of the stream, so it may be cut when the
connection is. A stream is given by the bytes that arrive and by how it ends: with end of file, or
with a read error. The messages of the library errors are parameters.

## Main definitions

* `OlaCore.PamOlaConfig`, `OlaCore.parseArgv` — the arguments of the module.
* `OlaCore.AuthOutcome`, `OlaCore.interpretResponse` — what a line means.
* `OlaCore.PamStream.readLine` — the line that is read.
-/

namespace OlaCore

open ByteText

/-! ## Arguments -/

/-- The default path of the daemon's socket. -/
def defaultSocketPath : String := "/run/ola/ola.sock"

/-- The default method. -/
def defaultMethod : String := "fido2"

/-- The default timeout. -/
def defaultTimeoutMs : UInt64 := 8000

/-- The shortest timeout. -/
def minTimeoutMs : UInt64 := 100

/-- The longest timeout. -/
def maxTimeoutMs : UInt64 := 30000

/-- The longest method, in bytes. -/
def maxMethodLen : ℕ := 64

/-- The configuration of the module. -/
structure PamOlaConfig where
  socketPath : String
  method : String
  timeoutMs : UInt64
  deriving DecidableEq

/-- The configuration without arguments. -/
def PamOlaConfig.default : PamOlaConfig := ⟨defaultSocketPath, defaultMethod, defaultTimeoutMs⟩

/-- A C string: bytes up to the terminating zero. -/
structure CStr where
  bytes : Bytes
  zero_not_mem : 0 ∉ bytes

/-- The checks on the method, in their order. -/
def validateMethodArg (method : String) : Except String Unit :=
  if method = "" then .error "method must not be empty"
  else if trim method ≠ method then
    .error "method must not contain leading or trailing whitespace"
  else if maxMethodLen < (utf8 method).length then
    .error ("method must be at most " ++ toString maxMethodLen ++ " bytes")
  else if ¬ (utf8 method).all isNameByte then
    .error "method must use ASCII letters, digits, '_', '-', or '.'"
  else .ok ()

/-- The message of a refused timeout. -/
def timeoutArgError : String := "timeout_ms must be between 100 and 30000"

/-- What follows the given beginning, if the text has it. -/
def afterPrefix (start s : String) : Option String :=
  if start.toList.isPrefixOf s.toList then
    some (String.ofList (s.toList.drop start.toList.length))
  else none

/-- The configuration after one more argument. -/
def parseArg (config : PamOlaConfig) (arg : String) : Except String PamOlaConfig :=
  match afterPrefix "socket=" arg with
  | some value => .ok { config with socketPath := value }
  | none =>
    match afterPrefix "method=" arg with
    | some value => do
      let _ ← validateMethodArg value
      return { config with method := value }
    | none =>
      match afterPrefix "timeout_ms=" arg with
      | some value =>
        match parseUnsigned (2 ^ 64) value with
        | none => .error timeoutArgError
        | some n =>
          let timeoutMs := UInt64.ofNat n
          if ¬ (minTimeoutMs ≤ timeoutMs ∧ timeoutMs ≤ maxTimeoutMs) then .error timeoutArgError
          else .ok { config with timeoutMs }
      | none =>
        let name := String.ofList (arg.toList.takeWhile fun c => c ≠ '=')
        .error ("unknown PAM argument: " ++ name)

/-- The configuration after the given arguments. Null pointers are skipped. -/
def parseArgs (config : PamOlaConfig) : List (Option CStr) → Except String PamOlaConfig
  | [] => .ok config
  | none :: args => parseArgs config args
  | some arg :: args =>
    match fromUtf8 arg.bytes with
    | none => .error "PAM argument is not utf-8"
    | some arg => do
      let config ← parseArg config arg
      parseArgs config args

/-- The configuration of `argc` arguments at `argv`, which may be null. -/
def parseArgv (argc : Int32) (argv : Option (ℕ → Option CStr)) : Except String PamOlaConfig :=
  match argv with
  | none => .ok .default
  | some argv =>
    if argc ≤ 0 then .ok .default
    else parseArgs .default ((List.range argc.toInt.toNat).map argv)

/-! ## Responses -/

/-- What the module makes of the daemon's answer. -/
inductive AuthOutcome where
  | allow
  | deny (reason : String)
  | error (message : String)
  deriving DecidableEq

/-- What a PAM call returns for an outcome. -/
def pamReturnForOutcome : AuthOutcome → Int32
  | .allow => 0
  | .deny _ => 7
  | .error _ => 9

/-- What a parsed response means. -/
def interpretValue (response : Json) (expectedId : String) : AuthOutcome :=
  if (response.get "version").bind (deserializeNat (2 ^ 64)) ≠ some 1 then
    .error "protocol version mismatch"
  else if (response.get "id").bind deserializeStr ≠ some expectedId then
    .error "response id mismatch"
  else
    match (response.get "error").bind deserializeStr with
    | some error => .error error
    | none =>
      match ((response.get "result").bind fun v => v.get "decision").bind deserializeStr with
      | some "allow" => .allow
      | some "deny" =>
        .deny ((((response.get "result").bind fun v => v.get "deny_reason").bind
          deserializeStr).getD "denied")
      | _ => .error "missing auth decision"

/-- What a response line means. -/
def interpretResponse (serde : SerdeJson) (responseLine expectedId : String) : AuthOutcome :=
  match serde.fromStr (trim responseLine) with
  | none => .error ("invalid response json: " ++ serde.errorText (trim responseLine))
  | some response => interpretValue response expectedId

/-! ## Reading the line -/

/-- What arrives from the daemon: bytes, and then end of file or a read error. -/
structure PamStream where
  bytes : Bytes
  readError : Option String

namespace PamStream

/-- The bytes of the line, with those read so far. A line longer than 64 KiB is refused. -/
def readBytes (readError : Option String) (buf : Bytes) : Bytes → Except String Bytes
  | [] =>
    match readError with
    | none => .ok buf
    | some e => .error ("read failed: " ++ e)
  | byte :: bytes =>
    if byte = newline then .ok buf
    else if 64 * 1024 < (buf ++ [byte]).length then .error "response too large"
    else readBytes readError (buf ++ [byte]) bytes

/-- The line that is read; `utf8Error` is the message of bytes that are not UTF-8. -/
def readLine (utf8Error : Bytes → String) (stream : PamStream) : Except String String := do
  let buf ← readBytes stream.readError [] stream.bytes
  match fromUtf8 buf with
  | none => .error ("response was not utf-8: " ++ utf8Error buf)
  | some line => .ok line

/-- What the module makes of what arrives. -/
def outcome (serde : SerdeJson) (utf8Error : Bytes → String) (stream : PamStream)
    (expectedId : String) : AuthOutcome :=
  match stream.readLine utf8Error with
  | .error e => .error e
  | .ok line => interpretResponse serde line expectedId

end PamStream

end OlaCore
