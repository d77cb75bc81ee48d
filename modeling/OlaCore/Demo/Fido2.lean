import OlaCore.Adapters.Client
import OlaCore.Core.Names
import OlaCore.Lib.Checks
import OlaCore.Policy.Parser
import OlaCore.Security.Attestation

set_option relaxedAutoImplicit false
set_option autoImplicit false

/-!
# The demo adapter

The demo adapter (`ola-adapter-demo-fido2`) answers every request with a signed result of the
configured method and confidence. It shares no code with the daemon: it has its own structures on
the wire, in which a method is any string, and computes its own signature. Its replies are what the
daemon expects.

A connection is given by the bytes that arrive before its end, and the two readings of the clock are
arguments.

## Main definitions

* `OlaCore.Demo.Config`, `OlaCore.Demo.Config.fromEnvAndArgs` — the configuration.
* `OlaCore.Demo.evidenceHash` — the signature.
* `OlaCore.Demo.handleClient` — one connection.

## Main results

* `OlaCore.Demo.handleClient_request` — the reply to a request of the daemon.
* `OlaCore.Demo.reply_accepted` — the daemon accepts that reply.
-/

namespace OlaCore.Demo

open ByteText

/-! ## Configuration -/

/-- The longest request, in bytes, with its newline. -/
def maxRequestBytes : ℕ := 64 * 1024

/-- The configuration of the adapter. -/
structure Config where
  socketPath : String
  keyPath : String
  method : String
  confidence : Binary32

/-- Why the adapter does not start: it was asked for help, or the arguments are wrong. -/
inductive ConfigExit where
  | help
  | error (message : String)
  deriving DecidableEq

/-- The variables that configure the adapter. -/
structure Env where
  socket : Option String
  key : Option String
  method : Option String
  confidence : Option String

namespace Config

variable (parseF32 : String → Option Binary32)

/-- The configuration without arguments. A confidence that is not a number counts as none. -/
def ofEnv (env : Env) : Config where
  socketPath := env.socket.getD "/tmp/ola-demo-fido2.sock"
  keyPath := env.key.getD "/tmp/ola-demo-fido2.key"
  method := env.method.getD "fido2"
  confidence := (env.confidence.bind parseF32).getD f32One

/-- The configuration after the given arguments. -/
def parseArgs (config : Config) : List String → Except ConfigExit Config
  | [] => .ok config
  | arg :: args =>
    if arg = "--socket" then
      match args with
      | [] => .error (.error "--socket requires a path")
      | path :: args => parseArgs { config with socketPath := path } args
    else if arg = "--key" then
      match args with
      | [] => .error (.error "--key requires a path")
      | path :: args => parseArgs { config with keyPath := path } args
    else if arg = "--method" then
      match args with
      | [] => .error (.error "--method requires a value")
      | value :: args => parseArgs { config with method := value } args
    else if arg = "--confidence" then
      match args with
      | [] => .error (.error "--confidence requires a value")
      | value :: args =>
        match parseF32 value with
        | none => .error (.error "--confidence must be a float")
        | some confidence => parseArgs { config with confidence } args
    else if arg = "--help" ∨ arg = "-h" then .error .help
    else .error (.error ("unknown argument: " ++ arg))

/-- The check of the confidence. -/
def checkConfidence (config : Config) : Except ConfigExit Unit :=
  if ¬ (f32Zero.le config.confidence && config.confidence.le f32One) then
    .error (.error "confidence must be between 0.0 and 1.0")
  else .ok ()

/-- The configuration of the adapter, from its environment and its arguments. -/
def fromEnvAndArgs (env : Env) (args : List String) : Except ConfigExit Config := do
  let config ← parseArgs parseF32 (ofEnv parseF32 env) args
  let _ ← checkConfidence config
  return config

end Config

/-! ## The wire -/

/-- A request, as the adapter reads it. -/
structure VerificationRequest where
  version : UInt8
  id : Uuid
  uid : UInt32
  nonce : Nonce
  deadlineMs : UInt64

/-- A request from a `serde_json::Value`. -/
def VerificationRequest.deserialize (j : Json) : Option VerificationRequest := do
  let fs ← valueFields ["version", "id", "uid", "nonce", "deadline_ms"] j
  return {
    version := ← requiredField fs "version" deserializeU8
    id := ← requiredField fs "id" (deserializeBytes 16)
    uid := ← requiredField fs "uid" deserializeU32
    nonce := ← requiredField fs "nonce" (deserializeBytes 32)
    deadlineMs := ← requiredField fs "deadline_ms" deserializeU64 }

/-- A result, as the adapter writes it. The method is any string. -/
structure VerificationResult where
  version : UInt8
  id : Uuid
  confidence : Binary32
  method : String
  timestampMs : UInt64
  uid : UInt32
  nonce : Nonce
  evidenceHash : Vector UInt8 32

/-- A result on the wire. -/
def VerificationResult.serialize (serde : SerdeJson) (r : VerificationResult) : Json :=
  .obj [("version", .num (natNumber r.version.toNat)),
    ("id", serializeBytes r.id),
    ("confidence", serde.serializeF32 r.confidence),
    ("method", .str r.method),
    ("timestamp_ms", .num (natNumber r.timestampMs.toNat)),
    ("uid", .num (natNumber r.uid.toNat)),
    ("nonce", serializeBytes r.nonce),
    ("evidence_hash", serializeBytes r.evidenceHash)]

/-! ## One connection -/

section Connection

variable (crates : Crates) (config : Config) (key : Vector UInt8 32)

/-- The digest of the method's name. -/
def methodCommitment (method : String) : Vector UInt8 32 := crates.sha256 (utf8 method)

/-- The signature of the adapter. -/
def evidenceHash (nonce : Nonce) (uid : UInt32) (method : String) (confidence : Binary32)
    (timestampMs : UInt64) : Vector UInt8 32 :=
  crates.hmacSha256 key.toList (nonce.toList ++ toLeBytes 4 uid.toNat ++
    (methodCommitment crates method).toList ++ toLeBytes 4 confidence.bits.toNat ++
    toLeBytes 8 timestampMs.toNat)

/-- The line that is read, with its newline if it has one; nothing when the stream is empty. -/
def readCappedLine (bytes : Bytes) : Except String (Option String) :=
  match (frames (bytes.take (maxRequestBytes + 1))).head? with
  | none => .ok none
  | some buf =>
    if maxRequestBytes < buf.length then .error "request too large"
    else
      match fromUtf8 buf with
      | none => .error "request was not utf-8"
      | some line => .ok (some line)

/-- The answer to a probe. -/
def pong : Json := .obj [("ok", .bool true), ("version", .num (natNumber protocolVersion.toNat))]

/-- The result for a request, at the given time. -/
def resultFor (request : VerificationRequest) (timestampMs : UInt64) : VerificationResult where
  version := protocolVersion
  id := request.id
  confidence := config.confidence
  method := config.method
  timestampMs := timestampMs
  uid := request.uid
  nonce := request.nonce
  evidenceHash :=
    evidenceHash crates key request.nonce request.uid config.method config.confidence timestampMs

/-- One connection: what arrives, and the two readings of the clock, give what is written or why the
request fails. -/
def handleClient (bytes : Bytes) (nowMs nowMs' : UInt64) : Except String (Option Bytes) := do
  match ← readCappedLine bytes with
  | none => return none
  | some line =>
    if trim line = "" then return none
    else
      match crates.serde.fromStr (trim line) with
      | none => .error "parse request"
      | some value =>
        if (value.get "method").bind deserializeStr = some "ping" then
          return some (utf8 (crates.serde.toString pong) ++ [newline])
        else
          match VerificationRequest.deserialize value with
          | none => .error "parse verification request"
          | some request =>
            if request.version ≠ protocolVersion then
              .error ("unsupported protocol version " ++ toString request.version)
            else if request.deadlineMs < nowMs then .error "request deadline expired"
            else
              let result := resultFor crates config key request nowMs'
              return some
                (utf8 (crates.serde.toString (result.serialize crates.serde)) ++ [newline])

end Connection

/-! ## Requests of the daemon -/

section Request

variable {request : OlaCore.VerificationRequest}

/-- A request of the daemon is not too long for the adapter. -/
theorem length_request (r : OlaCore.VerificationRequest) :
    (utf8 r.serialize.compact).length < maxRequestBytes := by
  have hkeys := Json.escapedLength_keys_le ["version", "id", "uid", "nonce", "deadline_ms"]
    (n := 11) (by decide)
  have hobj := Json.byteLength_print_obj_le (l := [("version", .num (natNumber r.version.toNat)),
    ("id", serializeBytes r.id), ("uid", .num (natNumber r.uid.toNat)),
    ("nonce", serializeBytes r.nonce), ("deadline_ms", .num (natNumber r.deadlineMs.toNat))])
    (a := 66) (by simpa using hkeys)
  have hversion := byteLength_print_num_le (r.version.toNat_lt.trans (by norm_num))
  have hid := byteLength_print_serializeBytes_le r.id
  have huid := byteLength_print_num_le (r.uid.toNat_lt.trans (by norm_num))
  have hnonce := byteLength_print_serializeBytes_le r.nonce
  have hdeadline := byteLength_print_num_le r.deadlineMs.toNat_lt
  have hmax : maxRequestBytes = 64 * 1024 := rfl
  simp only [List.foldr_cons, List.foldr_nil] at hobj
  rw [Json.length_utf8_compact, OlaCore.VerificationRequest.serialize, hmax]
  linarith

/-- A line of the daemon is read. -/
theorem readCappedLine_line {text : String} (hnl : newline ∉ utf8 text)
    (hlen : (utf8 text).length < maxRequestBytes) (rest : Bytes) :
    readCappedLine (utf8 text ++ newline :: rest) = .ok (some (text ++ "\n")) := by
  have htake : (utf8 text ++ newline :: rest).take (maxRequestBytes + 1) =
      utf8 text ++ newline :: rest.take (maxRequestBytes - (utf8 text).length) := by
    rw [List.take_append, List.take_of_length_le (by omega),
      show maxRequestBytes + 1 - (utf8 text).length = maxRequestBytes - (utf8 text).length + 1 by
        omega, List.take_succ_cons]
  have hbuf : utf8 text ++ [newline] = utf8 (text ++ "\n") := by
    rw [utf8_append]
    rfl
  unfold readCappedLine
  rw [htake, frames_line_append _ _ hnl]
  simp only [List.head?_cons, List.length_append, List.length_singleton]
  rw [if_neg (by omega), hbuf, fromUtf8_utf8]

/-- The adapter reads a request of the daemon as it was. -/
theorem deserialize_request (r : OlaCore.VerificationRequest) :
    VerificationRequest.deserialize r.serialize =
      some ⟨r.version, r.id, r.uid, r.nonce, r.deadlineMs⟩ := by
  simp [VerificationRequest.deserialize, OlaCore.VerificationRequest.serialize, valueFields,
    Json.get, requiredField, List.lookup_cons]

/-- The fields of a request are plain. -/
theorem fromStr_request (serde : SerdeJson) (r : OlaCore.VerificationRequest) :
    serde.fromStr (serde.toString r.serialize) = some r.serialize := by
  have hversion : r.version.toNat < 2 ^ 64 := r.version.toNat_lt.trans (by decide)
  have huid : r.uid.toNat < 2 ^ 64 := r.uid.toNat_lt.trans (by decide)
  apply serde.fromStr_toString
  simp only [List.forall_mem_cons, List.not_mem_nil, false_implies, implies_true, and_true]
  exact ⟨.nat _ hversion, .bytes _, .nat _ huid, .bytes _, .nat _ r.deadlineMs.toNat_lt⟩

/-- **The reply to a request of the daemon**: the signed result. -/
theorem handleClient_request {crates : Crates} {config : Config} {key : Vector UInt8 32}
    (hprint : ∀ j, crates.serde.toString j = Json.compact j)
    {r : OlaCore.VerificationRequest} (hversion : r.version = protocolVersion)
    {nowMs : UInt64} (hnow : nowMs ≤ r.deadlineMs) (nowMs' : UInt64) (rest : Bytes) :
    handleClient crates config key (utf8 (crates.serde.toString r.serialize) ++ newline :: rest)
        nowMs nowMs' =
      .ok (some (utf8 (crates.serde.toString ((resultFor crates config key
        ⟨r.version, r.id, r.uid, r.nonce, r.deadlineMs⟩ nowMs').serialize crates.serde)) ++
          [newline])) := by
  have hnl : newline ∉ utf8 (crates.serde.toString r.serialize) :=
    crates.serde.newline_not_mem_toString _
  have hlen : (utf8 (crates.serde.toString r.serialize)).length < maxRequestBytes := by
    rw [hprint]
    exact length_request r
  have htrim : trim (crates.serde.toString r.serialize ++ "\n") =
      crates.serde.toString r.serialize := by
    rw [trim_append_newline, hprint]
    exact trim_compact_obj _
  have hne : crates.serde.toString r.serialize ≠ "" := by
    intro hempty
    have hblank := crates.serde.fromStr_blank "" (by simp [utf8])
    rw [← hempty, fromStr_request] at hblank
    cases hblank
  have hping : (r.serialize.get "method").bind deserializeStr ≠ some "ping" := by
    simp [OlaCore.VerificationRequest.serialize, Json.get, List.lookup_cons]
  unfold handleClient
  rw [readCappedLine_line hnl hlen]
  simp only [bind, Except.bind, htrim, hne, if_false, fromStr_request, hping, deserialize_request]
  rw [if_neg (not_not.mpr hversion), if_neg (UInt64.not_lt.mpr hnow)]
  rfl

end Request

/-! ## The daemon accepts the reply -/

section Reply

variable {crates : Crates} {config : Config} {key : Vector UInt8 32}

/-- A confidence that the adapter starts with is finite. -/
theorem isFinite_of_checkConfidence (h : config.checkConfidence = .ok ()) :
    config.confidence.isFinite := by
  apply Binary32.isFinite_of_inUnit
  unfold Config.checkConfidence at h
  split at h
  · cases h
  · next hrange => exact PolicyParser.inUnitRange_iff.mp (not_not.mp hrange)

/-- The adapter does not start with another one. -/
theorem checkConfidence_of_fromEnvAndArgs {parseF32 : String → Option Binary32} {env : Env}
    {args : List String} (h : Config.fromEnvAndArgs parseF32 env args = .ok config) :
    config.checkConfidence = .ok () := by
  obtain ⟨parsed, -, h⟩ := Checks.bind_eq_ok_iff.mp h
  obtain ⟨_, hcheck, h⟩ := Checks.bind_eq_ok_iff.mp h
  obtain rfl := Except.ok.inj h
  exact hcheck

/-- The result of the adapter, as the daemon reads it when the method is `m`. -/
def expectedResult (crates : Crates) (config : Config) (key : Vector UInt8 32) (m : AuthMethod)
    (r : OlaCore.VerificationRequest) (timestampMs : UInt64) : OlaCore.VerificationResult :=
  OlaCore.VerificationResult.sign crates key
    ⟨protocolVersion, r.id, config.confidence, m, timestampMs, r.uid, r.nonce, r.nonce⟩

/-- The two sides agree on the wire: what the adapter writes is what the daemon would write for the
method that the name denotes, and both compute the same signature. -/
theorem serialize_resultFor (r : OlaCore.VerificationRequest) (timestampMs : UInt64)
    {m : AuthMethod} (hm : m.asStr = config.method) :
    (resultFor crates config key ⟨r.version, r.id, r.uid, r.nonce, r.deadlineMs⟩
      timestampMs).serialize crates.serde =
      (expectedResult crates config key m r timestampMs).serialize crates.serde := by
  have hhash : evidenceHash crates key r.nonce r.uid config.method config.confidence timestampMs =
      (expectedResult crates config key m r timestampMs).evidenceHash := by
    rw [evidenceHash, methodCommitment, ← hm]
    rfl
  simp only [VerificationResult.serialize, OlaCore.VerificationResult.serialize, resultFor, hhash,
    AuthMethod.serialize, expectedResult, OlaCore.VerificationResult.sign, hm]

end Reply

/-- **Adapter and daemon speak the same protocol.** To a request of the daemon, read before its
deadline, the adapter replies with a line that the daemon accepts, in every course of the client's
request in which it gets that line. The result has the nonce and the user of the request, its
signature is accepted with the shared key, and its method is the configured one. -/
theorem reply_accepted (crates : Crates) (hprint : ∀ j, crates.serde.toString j = Json.compact j)
    (config : Config) (hmethod : IsIdentifier config.method ∧ config.method ≠ "any")
    (hconf : config.checkConfidence = .ok ()) (key : Vector UInt8 32)
    (request : OlaCore.VerificationRequest) (hversion : request.version = protocolVersion)
    (nowMs nowMs' : UInt64) (hnow : nowMs ≤ request.deadlineMs) (rest : Bytes) :
    ∃ line result,
      handleClient crates config key
          (utf8 (crates.serde.toString request.serialize) ++ newline :: rest) nowMs nowMs' =
        .ok (some (utf8 line ++ [newline])) ∧
      newline ∉ utf8 line ∧
      AdapterClient.readReply crates.serde request line = .ok result ∧
      (∀ {W : Type} (step : W → (o : ServerOp) → o.Ans → W → Prop) (client : AdapterClient)
        (deadline : ℕ) tr out,
          Program.Traces step (client.verify crates.serde request deadline) tr out →
          ∀ w w', ⟨w, .recv deadline, some (.line line), w'⟩ ∈ tr → out = .ok result) ∧
      result.nonce = request.nonce ∧ result.uid = request.uid ∧
      (∀ (verifier : AttestationVerifier) (adapterName : String),
        verifier.adapterKeys.lookup adapterName = some key →
          verifier.verify crates adapterName result = .ok ()) ∧
      ∀ resolvedMethod, result.method.asStr = resolvedMethod ↔ config.method = resolvedMethod := by
  obtain ⟨m, hm⟩ := AuthMethod.exists_ofStr_iff.mpr hmethod
  have hstr : m.asStr = config.method := (AuthMethod.ofStr_eq_ok_iff.mp hm).2.1
  let result := expectedResult crates config key m request nowMs'
  have hread : AdapterClient.readReply crates.serde request
      (crates.serde.toString (result.serialize crates.serde)) = .ok result := by
    rw [AdapterClient.readReply_eq_ok_iff]
    refine ⟨OlaCore.VerificationResult.read_toString _ (isFinite_of_checkConfidence hconf) ?_,
      rfl, rfl⟩
    change AuthMethod.ofStr m.asStr = .ok m
    rw [hstr, hm]
  refine ⟨crates.serde.toString (result.serialize crates.serde), result, ?_,
    crates.serde.newline_not_mem_toString _, hread, ?_, rfl, rfl, ?_, ?_⟩
  · rw [handleClient_request hprint hversion hnow, serialize_resultFor request nowMs' hstr]
  · intro W step client deadline tr out htraces w w' hrecv
    rw [AdapterClient.traces_verify_of_recv htraces hrecv, hread]
  · intro verifier adapterName hkey
    exact AttestationVerifier.verify_sign hkey _
  · intro resolvedMethod
    change m.asStr = resolvedMethod ↔ _
    rw [hstr]

namespace Sample

/-- The configuration without variables and arguments. -/
def config : Config := .ofEnv (fun _ => none) ⟨none, none, none, none⟩

/-- A request. -/
def request : OlaCore.VerificationRequest :=
  ⟨1, .replicate 16 7, 1000, .replicate 32 9, 1700000010000⟩

end Sample

/-- The adapter without variables and arguments answers a request just before its deadline. -/
theorem reply_accepted_default : ∃ line result,
    handleClient .reference Sample.config (.replicate 32 1)
        (utf8 (SerdeJson.rfc8259.toString Sample.request.serialize) ++ [newline]) 1700000009999
          1700000010000 = .ok (some (utf8 line ++ [newline])) ∧
      AdapterClient.readReply .rfc8259 Sample.request line = .ok result ∧
      result.method.asStr = "fido2" := by
  obtain ⟨line, result, hreply, -, hread, -, -, -, -, hmethod⟩ :=
    reply_accepted .reference (fun _ => rfl) Sample.config ⟨by decide, by decide⟩
      (by decide +kernel) (.replicate 32 1) Sample.request rfl 1700000009999 1700000010000
      (by decide +kernel) []
  exact ⟨line, result, hreply, hread, (hmethod "fido2").mpr rfl⟩

end OlaCore.Demo
