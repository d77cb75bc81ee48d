import OlaCore.Adapters.Client

set_option relaxedAutoImplicit false
set_option autoImplicit false

/-!
# Requests and responses

The daemon answers every request of a client with one response (`ipc/protocol`). A response
carries a result or an error, and a result of `verify_once` carries a decision.

The parameters of a request are any JSON value. What `verify_once` reads from them, the user and
the method, is checked here (`ipc/unix_socket`).

## Main definitions

* `OlaCore.Request`, `OlaCore.Request.deserialize`.
* `OlaCore.requestUid`, `OlaCore.requestMethod` — the user and the method of a request.
* `OlaCore.Response`, with `ok`, `ofError`, `deny` and `allow`.
* `OlaCore.Response.decision` — the decision that a response carries.
-/

namespace OlaCore

/-- The member of an object under a key. -/
def Json.member? (key : String) : Json → Option Json
  | .obj ms => ms.lookup key
  | _ => none

/-! ## Requests -/

/-- What a client asks. -/
structure Request where
  version : UInt8
  id : Option String
  method : String
  params : Option Json

/-- A request. Unknown fields are ignored. -/
def Request.deserialize (j : Json) : Option Request := do
  let fs ← structFields ["version", "id", "method", "params"] false j
  return {
    version := ← requiredField fs "version" deserializeU8
    id := ← optionalStr fs "id"
    method := ← requiredField fs "method" deserializeStr
    params := optionalValue fs "params" }

/-- The user that a request is about: the caller, unless the caller is root, who names one. -/
def requestUid (callerUid : UInt32) (params : Option Json) : Except String UInt32 :=
  if callerUid ≠ 0 then .ok callerUid
  else
    match params.bind fun p => p.get "uid" with
    | none => .error "root caller must supply params.uid"
    | some value =>
      match deserializeNat (2 ^ 64) value with
      | none => .error "uid must be an unsigned integer"
      | some uid => if 2 ^ 32 - 1 < uid then .error "uid out of range" else .ok (UInt32.ofNat uid)

/-- The method that a request asks for; the wildcard when it names none. -/
def requestMethod (params : Option Json) : Except String String :=
  match params with
  | none => .ok "any"
  | some (.obj ms) =>
    match (Json.obj ms).get "method" with
    | none => .ok "any"
    | some value =>
      match deserializeStr value with
      | none => .error "params.method must be a string"
      | some method =>
        match validateMethodName method true with
        | .error _ => .error "params.method is invalid"
        | .ok () => .ok method
  | some _ => .error "params must be an object"

/-! ## Responses -/

/-- What the daemon answers. -/
structure Response where
  version : UInt8
  id : Option String
  result : Option Json
  error : Option String

namespace Response

/-- A result. -/
def ok (id : Option String) (result : Json) : Response := ⟨protocolVersion, id, some result, none⟩

/-- An error (`Response::error`). -/
def ofError (id : Option String) (msg : String) : Response := ⟨protocolVersion, id, none, some msg⟩

/-- A refusal. -/
def deny (id : Option String) (reason : String) : Response :=
  ok id (.obj [("decision", .str "deny"), ("deny_reason", .str reason)])

/-- A grant. -/
def allow (id : Option String) (method : String) : Response :=
  ok id (.obj [("decision", .str "allow"), ("method", .str method)])

/-- A response as it is sent. What is absent is written as `null`. -/
def serialize (response : Response) : Json :=
  .obj [("version", .num (natNumber response.version.toNat)),
    ("id", serializeOptionStr response.id),
    ("result", response.result.getD .null),
    ("error", serializeOptionStr response.error)]

/-- The decision in the result, if there is one. -/
def decision (response : Response) : Option String :=
  (response.result.bind (Json.member? "decision")).bind deserializeStr

@[simp] theorem decision_ofError (id : Option String) (msg : String) :
    (ofError id msg).decision = none := rfl

@[simp] theorem decision_deny (id : Option String) (reason : String) :
    (deny id reason).decision = some "deny" := rfl

@[simp] theorem decision_allow (id : Option String) (method : String) :
    (allow id method).decision = some "allow" := rfl

end Response

end OlaCore
