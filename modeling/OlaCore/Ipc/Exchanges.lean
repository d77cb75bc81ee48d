import OlaCore.Ipc.Connection

set_option relaxedAutoImplicit false
set_option autoImplicit false

/-!
# The exchanges of a connection

A client sends lines and reads responses. It matches them by their order alone, since an identifier
is optional. So the task of a connection must not skip a line, must not answer a line twice, and
must not answer a line with what belongs to another one, whatever is reloaded and whatever the rate
limiter says between two lines.

The calls of a task are divided into an opening, the exchanges, a line that is not answered yet, and
the end. A line that is never answered was received after its sender had lost the allowlist entry.

## Main definitions

* `OlaCore.Response.Answers` — a response to a request with an identifier.
* `OlaCore.Exchange`, `OlaCore.Exchange.Answers` — a line and its response, with the calls of both.
* `OlaCore.Exchange.Refused` — the lines after which a connection is closed.
* `OlaCore.Unanswered` — the calls after the last response.
* `OlaCore.Conversation.Describes` — a task as a sequence of exchanges.

## Main results

* `OlaCore.returns_handleVerifyOnce` — the request path answers its request.
* `OlaCore.steps_handleLine`, `OlaCore.steps_clientLoop` — one line, and the loop.
* `OlaCore.connection_protocol` — the lines and the responses of every task of the daemon.
-/

namespace OlaCore

open Program

/-! ## Responses -/

/-- A response to a request with the identifier `id`, if the request has one: it has the version of
the protocol, and either a result or an error. -/
structure Response.Answers (id : Option String) (response : Response) : Prop where
  version : response.version = 1
  either : response.result.isSome ≠ response.error.isSome
  id : response.id = id

/-- A result answers. -/
theorem Response.answers_ok (id : Option String) (result : Json) : (ok id result).Answers id :=
  ⟨rfl, Bool.false_ne_true.symm, rfl⟩

/-- An error answers. -/
theorem Response.answers_ofError (id : Option String) (msg : String) :
    (ofError id msg).Answers id :=
  ⟨rfl, Bool.false_ne_true, rfl⟩

section Path

variable {crates : Crates} {state : ServerState} {reloadable : ReloadableState}
  {callerUid uid : UInt32} {reqId : Option String}

/-- A log call that fails is answered with an error. -/
theorem returns_writeAuditOrError {entry : AuditEntry} :
    (writeAuditOrError entry reqId).Returns
      fun written => ∀ response, written = .error response → response.Answers reqId := by
  refine returns_bind_of_forall fun answer => ?_
  rcases answer with _ | _
  · refine returns_pure fun response h => ?_
    obtain rfl := Except.error.inj h
    exact Response.answers_ofError reqId _
  · exact returns_pure fun response h => nomatch h

/-- An exit answers. -/
theorem returns_denyExit {method reason clientReason : String} {adapterName : Option String}
    {result : Option VerificationResult} :
    (denyExit callerUid uid reqId method reason adapterName result clientReason).Returns
      (Response.Answers reqId) := by
  refine returns_bind_of_forall fun nowMs => returns_bind returns_writeAuditOrError ?_
  rintro (response | _) hwritten
  · exact returns_pure (hwritten response rfl)
  · exact returns_pure (Response.answers_ok reqId _)

/-- Policy and audit answer. -/
theorem returns_evaluateAndAudit {resolved : ResolvedAdapter} {request : VerificationRequest}
    {result : VerificationResult} :
    (evaluateAndAudit reloadable callerUid uid reqId resolved request result).Returns
      (Response.Answers reqId) := by
  refine returns_bind_of_forall fun decision => returns_bind_of_forall fun nowMs =>
    returns_bind returns_writeAuditOrError ?_
  rintro (response | _) hwritten
  · exact returns_pure (hwritten response rfl)
  · cases decision <;> exact returns_pure (Response.answers_ok reqId _)

/-- The gates answer. -/
theorem returns_checkResult {resolved : ResolvedAdapter} {request : VerificationRequest}
    {result : VerificationResult} :
    (checkResult crates state reloadable callerUid uid reqId resolved request result).Returns
      (Response.Answers reqId) := by
  unfold checkResult
  dsimp only
  split
  · exact returns_bind_of_forall fun _ => returns_denyExit
  refine returns_bind_of_forall fun nowMs => ?_
  split
  · exact returns_bind_of_forall fun _ => returns_denyExit
  refine returns_bind_of_forall fun consumed => ?_
  rcases consumed with _ | _
  · exact returns_denyExit
  dsimp only
  split
  · exact returns_denyExit
  split
  · exact returns_denyExit
  · exact returns_evaluateAndAudit

/-- **The request path answers its request.** -/
theorem returns_handleVerifyOnce {method : String} :
    (handleVerifyOnce crates state reloadable callerUid uid reqId method).Returns
      (Response.Answers reqId) := by
  refine returns_bind_of_forall fun resolution => ?_
  rcases resolution with _ | resolved
  · exact returns_denyExit
  refine returns_bind_of_forall fun generated => ?_
  rcases generated with _ | nonce
  · exact returns_denyExit
  refine returns_bind_of_forall fun now => returns_bind_of_forall fun id =>
    returns_bind_of_forall fun nowMs => returns_bind_of_forall fun reply => ?_
  rcases reply with _ | result
  · exact returns_bind_of_forall fun _ => returns_denyExit
  · exact returns_checkResult

end Path

/-! ## Exchanges -/

/-- A line of a client and the response to it: the snapshot and the answer of the rate limiter, the
calls that were needed to work the response out, what sending it gave, and all calls from the
receipt of the line to the response. -/
structure Exchange where
  line : String
  snapshot : ReloadableState
  admitted : Bool
  path : List ClientEvent
  response : Response
  sent : Except String Unit
  calls : List ClientEvent

/-- A request that is read from a line. -/
def readRequest (crates : Crates) (line : String) : Option Request :=
  (crates.serde.fromStr line).bind Request.deserialize

/-- A `verify_once` request with bad parameters. -/
def BadParams (crates : Crates) (callerUid : UInt32) (line : String) : Prop :=
  ∃ req, readRequest crates line = some req ∧ req.version = protocolVersion ∧
    req.method = "verify_once" ∧ ((∃ msg, requestUid callerUid req.params = .error msg) ∨
      ∃ msg, requestMethod req.params = .error msg)

/-- The lines after which a connection is closed: the rate limiter has refused, or the parameters of
a `verify_once` request are bad. -/
def Exchange.Refused (crates : Crates) (callerUid : UInt32) (x : Exchange) : Prop :=
  x.admitted = false ∨ BadParams crates callerUid x.line

/-- An admitted line is refused for its parameters only. -/
theorem Exchange.refused_iff_badParams {crates : Crates} {callerUid : UInt32} {x : Exchange}
    (h : x.admitted = true) : x.Refused crates callerUid ↔ BadParams crates callerUid x.line := by
  rw [Exchange.Refused, h]
  exact or_iff_right nofun

/-- How a response was worked out: without any further call, from the methods that the registry
offers, or by the request path with the same snapshot. -/
inductive WorkedOut (crates : Crates) (state : ServerState) (callerUid : UInt32) (line : String)
    (snapshot : ReloadableState) : List ClientEvent → Response → Prop
  | directly (response : Response) : WorkedOut crates state callerUid line snapshot [] response
  | fromMethods {path : List ClientEvent} {methods : List String} (response : Response) :
      Traces (DaemonStep crates) (ClientProg.server
        (state.adapterRegistry.availableMethods ServerProg.adapterDown)) path methods →
      WorkedOut crates state callerUid line snapshot path response
  | byRequestPath {path : List ClientEvent} {response : Response} {req : Request} {uid : UInt32}
      {method : String} : readRequest crates line = some req → req.version = protocolVersion →
      req.method = "verify_once" → requestUid callerUid req.params = .ok uid →
      requestMethod req.params = .ok method →
      Traces (DaemonStep crates) (ClientProg.server
        (handleVerifyOnce crates state snapshot callerUid uid req.id method)) path response →
      WorkedOut crates state callerUid line snapshot path response

/-- **An exchange.** The line is received, a snapshot is taken of the live state, whose allowlist
has the sender, and the rate limiter is asked; then the response is worked out and sent. It answers
the request of the line, with its identifier when the line was admitted and is a request. Nothing is
worked out for a line that was not admitted, and a line after which the connection is closed gets an
error. -/
structure Exchange.Answers (crates : Crates) (state : ServerState) (ownUid callerUid : UInt32)
    (x : Exchange) : Prop where
  calls_eq : ∃ u₁ u₁' u₂ u₂' u₃ u₃' u₄ u₄',
    x.calls = ⟨u₁, .nextLine, .line x.line, u₁'⟩ :: ⟨u₂, .loadReloadable, x.snapshot, u₂'⟩ ::
      ⟨u₃, .checkRate callerUid, x.admitted, u₃'⟩ ::
      (x.path ++ [⟨u₄, .respond x.response, x.sent, u₄'⟩]) ∧ x.snapshot = u₂.live
  allowed : x.snapshot.allowlist.isAllowed ownUid callerUid = true
  answers : x.response.Answers
    (if x.admitted then (readRequest crates x.line).bind Request.id else none)
  refused : x.Refused crates callerUid → x.response.error.isSome
  notAdmitted : x.admitted = false → x.path = []
  path_server : ∀ e ∈ x.path, ∃ o, e.op = .server o
  workedOut : WorkedOut crates state callerUid x.line x.snapshot x.path x.response

/-- **The calls after the last response**, for a task that goes on or has ended: none; the
connection was closed or failed; a line was received and is being worked on; or the line was
received after its sender had lost the allowlist entry, and the task has ended. -/
inductive Unanswered (ownUid callerUid : UInt32) : Bool → List ClientEvent → Prop
  | nothing (ended : Bool) : Unanswered ownUid callerUid ended []
  | closed {u u' : DaemonWorld} {input : ClientInput} : (∀ line, input ≠ .line line) →
      Unanswered ownUid callerUid true [⟨u, .nextLine, input, u'⟩]
  | received (line : String) (u₁ u₁' : DaemonWorld) :
      Unanswered ownUid callerUid false [⟨u₁, .nextLine, .line line, u₁'⟩]
  | dropped {line : String} {snapshot : ReloadableState} {u₁ u₁' u₂ u₂' : DaemonWorld} :
      snapshot = u₂.live → snapshot.allowlist.isAllowed ownUid callerUid = false →
      Unanswered ownUid callerUid true
        [⟨u₁, .nextLine, .line line, u₁'⟩, ⟨u₂, .loadReloadable, snapshot, u₂'⟩]
  | allowed {line : String} {snapshot : ReloadableState} {u₁ u₁' u₂ u₂' : DaemonWorld} :
      snapshot = u₂.live → snapshot.allowlist.isAllowed ownUid callerUid = true →
      Unanswered ownUid callerUid false
        [⟨u₁, .nextLine, .line line, u₁'⟩, ⟨u₂, .loadReloadable, snapshot, u₂'⟩]
  | working {line : String} {snapshot : ReloadableState} {admitted : Bool}
      {u₁ u₁' u₂ u₂' u₃ u₃' : DaemonWorld} {path : List ClientEvent} : snapshot = u₂.live →
      snapshot.allowlist.isAllowed ownUid callerUid = true →
      (∀ e ∈ path, admitted = true ∧ ∃ o, e.op = .server o) →
      Unanswered ownUid callerUid false (⟨u₁, .nextLine, .line line, u₁'⟩ ::
        ⟨u₂, .loadReloadable, snapshot, u₂'⟩ :: ⟨u₃, .checkRate callerUid, admitted, u₃'⟩ :: path)

/-! ### A line -/

section Line

variable {crates : Crates} {state : ServerState} {ownUid callerUid : UInt32} {line : String}
  {reloadable : ReloadableState} {tr : List ClientEvent}

/-- The request path and the registry make calls of the request path only. -/
theorem server_of_steps {α : Type} {p : ServerProg α} {q : ClientProg α}
    (h : Steps (DaemonStep crates) (ClientProg.server p) tr q) :
    ∀ e ∈ tr, ∃ o, e.op = .server o := by
  have hp : (ClientProg.server p).Avoids fun o => ¬ ∃ o', o = .server o' :=
    avoids_server (fun o h => h ⟨o, rfl⟩) p
  exact fun e he => not_not.mp (hp.steps h e he)

/-- What remains after a response was sent: nothing but the next line, or nothing at all if the
connection is closed after it or the response could not be sent. -/
def GoesOn (closes : Prop) (sent : Except String Unit)
    (q : ClientProg (Option (Except String Unit))) : Prop :=
  (sent = .ok () ∧ ¬ closes ∧ q = .pure none) ∨
    ((closes ∨ sent ≠ .ok ()) ∧ ∃ r, q = .pure (some r))

/-- A partial execution that answers an admitted line: the response is being worked out, or it was
worked out and sent. -/
def AnswersLine (crates : Crates) (state : ServerState) (callerUid : UInt32) (line : String)
    (snapshot : ReloadableState) (tr : List ClientEvent)
    (q : ClientProg (Option (Except String Unit))) : Prop :=
  ((∃ o k, q = .op o k) ∧ ∀ e ∈ tr, ∃ o, e.op = .server o) ∨
    ∃ path response sent u u', tr = path ++ [⟨u, .respond response, sent, u'⟩] ∧
      (∀ e ∈ path, ∃ o, e.op = .server o) ∧
      WorkedOut crates state callerUid line snapshot path response ∧
      response.Answers ((readRequest crates line).bind Request.id) ∧
      (BadParams crates callerUid line → response.error.isSome) ∧
      GoesOn (BadParams crates callerUid line) sent q

/-- A response is sent. -/
theorem steps_respondThen {response : Response} {next : Option (Except String Unit)}
    {q : ClientProg (Option (Except String Unit))}
    (h : Steps (DaemonStep crates) (respondThen response next) tr q) :
    (tr = [] ∧ ∃ o k, q = .op o k) ∨
      ∃ u sent u', tr = [⟨u, .respond response, sent, u'⟩] ∧
        ((sent = .ok () ∧ q = .pure next) ∨ sent ≠ .ok () ∧ ∃ r, q = .pure (some r)) := by
  rcases steps_call_bind h with ⟨rfl, rfl⟩ | ⟨u, sent, u', tr', rfl, -, hrest⟩
  · exact .inl ⟨rfl, _, _, rfl⟩
  · rcases sent with text | _ <;> obtain ⟨rfl, rfl⟩ := steps_pure hrest
    · exact .inr ⟨u, .error text, u', rfl, .inr ⟨nofun, _, rfl⟩⟩
    · exact .inr ⟨u, .ok (), u', rfl, .inl ⟨rfl, rfl⟩⟩

/-- The response has been worked out and is sent, on a connection that goes on or is closed. -/
theorem AnswersLine.of_respondThen {path : List ClientEvent} {response : Response}
    {next : Option (Except String Unit)} {q : ClientProg (Option (Except String Unit))}
    (hpath : ∀ e ∈ path, ∃ o, e.op = .server o)
    (hworked : WorkedOut crates state callerUid line reloadable path response)
    (hanswers : response.Answers ((readRequest crates line).bind Request.id))
    (hnext : (next = none ∧ ¬ BadParams crates callerUid line) ∨
      (∃ r, next = some r) ∧ BadParams crates callerUid line ∧ response.error.isSome)
    (h : Steps (DaemonStep crates) (respondThen response next) tr q) :
    AnswersLine crates state callerUid line reloadable (path ++ tr) q := by
  rcases steps_respondThen h with ⟨rfl, hq⟩ | ⟨u, sent, u', rfl, hsent⟩
  · rw [List.append_nil]
    exact .inl ⟨hq, hpath⟩
  refine .inr ⟨path, response, sent, u, u', rfl, hpath, hworked, hanswers, ?_, ?_⟩
  · intro hbad
    rcases hnext with ⟨-, hgood⟩ | ⟨-, -, herror⟩
    · exact absurd hbad hgood
    · exact herror
  · rcases hsent with ⟨rfl, rfl⟩ | ⟨hunsent, hq⟩
    · rcases hnext with ⟨rfl, hgood⟩ | ⟨⟨r, rfl⟩, hbad, -⟩
      · exact .inl ⟨rfl, hgood, rfl⟩
      · exact .inr ⟨.inl hbad, r, rfl⟩
    · exact .inr ⟨.inr hunsent, hq⟩

/-- A response that needs no further call. -/
theorem AnswersLine.of_directly {response : Response} {q : ClientProg (Option (Except String Unit))}
    (hanswers : response.Answers ((readRequest crates line).bind Request.id))
    (hgood : ¬ BadParams crates callerUid line)
    (h : Steps (DaemonStep crates) (respondThen response none) tr q) :
    AnswersLine crates state callerUid line reloadable tr q :=
  .of_respondThen (List.forall_mem_nil _) (.directly response) hanswers (.inl ⟨rfl, hgood⟩) h

/-- A response that is worked out by calls. -/
theorem AnswersLine.of_server {α : Type} {p : ServerProg α} {f : α → Response}
    {q : ClientProg (Option (Except String Unit))}
    (hworked : ∀ path a, Traces (DaemonStep crates) (ClientProg.server p) path a →
      WorkedOut crates state callerUid line reloadable path (f a))
    (hanswers : p.Returns fun a => (f a).Answers ((readRequest crates line).bind Request.id))
    (hgood : ¬ BadParams crates callerUid line)
    (h : Steps (DaemonStep crates) (ClientProg.server p >>= fun a => respondThen (f a) none) tr q) :
    AnswersLine crates state callerUid line reloadable tr q := by
  rcases steps_bind h with ⟨o, k, hpath, rfl⟩ | ⟨path, a, tr', rfl, hpath, hsend⟩
  · exact .inl ⟨⟨_, _, rfl⟩, server_of_steps hpath⟩
  · obtain ⟨path₀, -, htraces⟩ := traces_of_server hpath
    exact .of_respondThen (server_of_steps hpath) (hworked path a hpath) (hanswers.traces htraces)
      (.inl ⟨rfl, hgood⟩) hsend

/-- A `verify_once` request is answered. -/
theorem steps_answerVerifyOnce {req : Request} {q : ClientProg (Option (Except String Unit))}
    (hread : readRequest crates line = some req) (hversion : req.version = protocolVersion)
    (hverify : req.method = "verify_once")
    (h : Steps (DaemonStep crates) (answerVerifyOnce crates state callerUid reloadable req) tr q) :
    AnswersLine crates state callerUid line reloadable tr q := by
  have hid : (readRequest crates line).bind Request.id = req.id := by rw [hread]; rfl
  -- Bad parameters get an error, and the connection is closed.
  have hbad : ∀ msg, ((∃ msg, requestUid callerUid req.params = .error msg) ∨
      ∃ msg, requestMethod req.params = .error msg) →
      Steps (DaemonStep crates) (respondThen (.ofError req.id msg) (some (.ok ()))) tr q →
      AnswersLine crates state callerUid line reloadable tr q := by
    intro msg hparams hsend
    refine .of_respondThen (List.forall_mem_nil _) (.directly _) ?_ (.inr ⟨⟨_, rfl⟩, ?_, rfl⟩) hsend
    · rw [hid]
      exact Response.answers_ofError req.id msg
    · exact ⟨req, hread, hversion, hverify, hparams⟩
  unfold answerVerifyOnce at h
  split at h
  · next msg huid => exact hbad msg (.inl ⟨msg, huid⟩) h
  next uid huid =>
  split at h
  · next msg hmethod => exact hbad msg (.inr ⟨msg, hmethod⟩) h
  next method hmethod =>
  refine .of_server (fun path response hpath => ?_) (hid ▸ returns_handleVerifyOnce) ?_ h
  · exact .byRequestPath hread hversion hverify huid hmethod hpath
  · rintro ⟨req', hread', -, -, ⟨msg, huid'⟩ | ⟨msg, hmethod'⟩⟩ <;>
      obtain rfl := Option.some.inj (hread.symm.trans hread')
    · exact nomatch huid.symm.trans huid'
    · exact nomatch hmethod.symm.trans hmethod'

/-- A request is answered. -/
theorem steps_answerRequest {req : Request} {q : ClientProg (Option (Except String Unit))}
    (hread : readRequest crates line = some req) (hversion : req.version = protocolVersion)
    (h : Steps (DaemonStep crates) (answerRequest crates state callerUid reloadable req) tr q) :
    AnswersLine crates state callerUid line reloadable tr q := by
  have hid : (readRequest crates line).bind Request.id = req.id := by rw [hread]; rfl
  have hgood : req.method ≠ "verify_once" → ¬ BadParams crates callerUid line := by
    rintro hmethod ⟨req', hread', -, hverify, -⟩
    obtain rfl := Option.some.inj (hread.symm.trans hread')
    exact hmethod hverify
  have hresult : ∀ j, (Response.ok req.id j).Answers ((readRequest crates line).bind Request.id) :=
    fun j => hid ▸ Response.answers_ok req.id j
  have hmethods : ∀ f : List String → Json, (state.adapterRegistry.availableMethods
      ServerProg.adapterDown).Returns fun methods => (Response.ok req.id (f methods)).Answers
        ((readRequest crates line).bind Request.id) :=
    fun f => returns_bind_of_forall fun methods => returns_pure (hresult _)
  unfold answerRequest at h
  split_ifs at h with hping hstatus hlist hverify
  · exact .of_directly (hresult _) (hgood (by rw [hping]; decide)) h
  · exact .of_server (fun _ _ => .fromMethods _) (hmethods _) (hgood (by rw [hstatus]; decide)) h
  · exact .of_server (fun _ _ => .fromMethods _) (hmethods _) (hgood (by rw [hlist]; decide)) h
  · exact steps_answerVerifyOnce hread hversion hverify h
  · exact .of_directly (hid ▸ Response.answers_ofError req.id _) (hgood hverify) h

/-- An admitted line is answered. -/
theorem steps_answerLine {q : ClientProg (Option (Except String Unit))}
    (h : Steps (DaemonStep crates) (answerLine crates state callerUid reloadable line) tr q) :
    AnswersLine crates state callerUid line reloadable tr q := by
  unfold answerLine at h
  split at h
  · next hread =>
    have hread : readRequest crates line = none := hread
    refine .of_directly ?_ ?_ h
    · rw [hread]
      exact Response.answers_ofError none _
    · rintro ⟨req, hread', -⟩
      exact nomatch hread.symm.trans hread'
  next req hread =>
  have hread : readRequest crates line = some req := hread
  split at h
  · next hversion =>
    refine .of_directly ?_ ?_ h
    · rw [hread]
      exact Response.answers_ofError req.id _
    · rintro ⟨req', hread', hversion', -⟩
      obtain rfl := Option.some.inj (hread.symm.trans hread')
      exact hversion hversion'
  · next hversion => exact steps_answerRequest hread (not_not.mp hversion) h

/-- **A line that was received**: it is being worked on, it is dropped because its sender has lost
the allowlist entry, or it has been answered. -/
theorem steps_handleLine {q : ClientProg (Option (Except String Unit))}
    (h : Steps (DaemonStep crates) (handleLine crates state ownUid callerUid line) tr q)
    (u₁ u₁' : DaemonWorld) :
    (Unanswered ownUid callerUid false (⟨u₁, .nextLine, .line line, u₁'⟩ :: tr) ∧
        ∃ o k, q = .op o k) ∨
      (Unanswered ownUid callerUid true (⟨u₁, .nextLine, .line line, u₁'⟩ :: tr) ∧
        ∃ r, q = .pure (some r)) ∨
      ∃ x : Exchange, x.Answers crates state ownUid callerUid ∧
        x.calls = ⟨u₁, .nextLine, .line line, u₁'⟩ :: tr ∧
        GoesOn (x.Refused crates callerUid) x.sent q := by
  rcases steps_call_bind h with ⟨rfl, rfl⟩ | ⟨u₂, snapshot, u₂', tr₁, rfl, ⟨hlive, -⟩, h₁⟩
  · exact .inl ⟨.received line u₁ u₁', _, _, rfl⟩
  split at h₁
  · next hallowed =>
    obtain ⟨rfl, rfl⟩ := steps_pure h₁
    exact .inr (.inl ⟨.dropped hlive (by simpa using hallowed), _, rfl⟩)
  next hallowed =>
  have hallowed : snapshot.allowlist.isAllowed ownUid callerUid = true := by simpa using hallowed
  rcases steps_call_bind h₁ with ⟨rfl, rfl⟩ | ⟨u₃, admitted, u₃', tr₂, rfl, -, h₂⟩
  · exact .inl ⟨.allowed hlive hallowed, _, _, rfl⟩
  cases admitted with
  | false =>
    rcases steps_respondThen h₂ with ⟨rfl, hq⟩ | ⟨u₄, sent, u₄', rfl, hsent⟩
    · exact .inl ⟨.working hlive hallowed (List.forall_mem_nil _), hq⟩
    refine .inr (.inr ⟨⟨line, snapshot, false, [], .ofError none "Rate limit exceeded", sent, _⟩,
      ?_, rfl, ?_⟩)
    · exact {
        calls_eq := ⟨u₁, u₁', u₂, u₂', u₃, u₃', u₄, u₄', rfl, hlive⟩
        allowed := hallowed
        answers := Response.answers_ofError none _
        refused := fun _ => rfl
        notAdmitted := fun _ => rfl
        path_server := List.forall_mem_nil _
        workedOut := .directly _ }
    · refine .inr ⟨.inl (.inl rfl), ?_⟩
      rcases hsent with ⟨-, rfl⟩ | ⟨-, hq⟩
      · exact ⟨_, rfl⟩
      · exact hq
  | true =>
    rcases steps_answerLine h₂ with ⟨hq, hpath⟩ | ⟨path, response, sent, u₄, u₄', rfl, hpath,
      hworked, hanswers, hbad, hq⟩
    · exact .inl ⟨.working hlive hallowed fun e he => ⟨rfl, hpath e he⟩, hq⟩
    refine .inr (.inr ⟨⟨line, snapshot, true, path, response, sent, _⟩, ?_, rfl, ?_⟩)
    · exact {
        calls_eq := ⟨u₁, u₁', u₂, u₂', u₃, u₃', u₄, u₄', rfl, hlive⟩
        allowed := hallowed
        answers := hanswers
        refused := fun hrefused => hbad ((Exchange.refused_iff_badParams rfl).mp hrefused)
        notAdmitted := nofun
        path_server := hpath
        workedOut := hworked }
    · rw [Exchange.refused_iff_badParams rfl]
      exact hq

end Line

/-! ## Conversations -/

/-- What is said on a connection: the exchanges, and the calls after the last response. -/
structure Conversation where
  exchanges : List Exchange
  rest : List ClientEvent

/-- **The calls of a task as a sequence of exchanges**, for a task that goes on or has ended. An
exchange after which the connection is closed, or whose response could not be sent, is the last
thing that happens. -/
structure Conversation.Describes (crates : Crates) (state : ServerState)
    (ownUid callerUid : UInt32) (c : Conversation) (ended : Bool) (calls : List ClientEvent) :
    Prop where
  calls_eq : calls = c.exchanges.flatMap Exchange.calls ++ c.rest
  answers : ∀ x ∈ c.exchanges, x.Answers crates state ownUid callerUid
  closes : ∀ xs x ys, c.exchanges = xs ++ x :: ys →
    x.Refused crates callerUid ∨ x.sent ≠ .ok () → ys = [] ∧ c.rest = [] ∧ ended = true
  unanswered : Unanswered ownUid callerUid ended c.rest

section Conversations

variable {crates : Crates} {state : ServerState} {ownUid callerUid : UInt32} {ended : Bool}
  {calls : List ClientEvent}

/-- Nothing has been answered. -/
theorem describes_of_unanswered (h : Unanswered ownUid callerUid ended calls) :
    Conversation.Describes crates state ownUid callerUid ⟨[], calls⟩ ended calls where
  calls_eq := rfl
  answers := List.forall_mem_nil _
  closes := by
    intro xs x ys hxs
    simp at hxs
  unanswered := h

/-- One more exchange at the front, after which the task goes on. -/
theorem Conversation.Describes.cons {c : Conversation} {x : Exchange}
    (h : c.Describes crates state ownUid callerUid ended calls)
    (hx : x.Answers crates state ownUid callerUid) (hrefused : ¬ x.Refused crates callerUid)
    (hsent : x.sent = .ok ()) :
    Conversation.Describes crates state ownUid callerUid ⟨x :: c.exchanges, c.rest⟩ ended
      (x.calls ++ calls) where
  calls_eq := by rw [h.calls_eq, List.flatMap_cons, List.append_assoc]
  answers := List.forall_mem_cons.mpr ⟨hx, h.answers⟩
  closes := by
    rintro (_ | ⟨x', xs⟩) y ys heq hcloses
    · obtain ⟨rfl, -⟩ := List.cons.inj heq
      exact absurd hcloses (not_or.mpr ⟨hrefused, not_not.mpr hsent⟩)
    · exact h.closes xs y ys (List.cons.inj heq).2 hcloses
  unanswered := h.unanswered

/-- The last exchange. -/
theorem describes_singleton {x : Exchange} (hx : x.Answers crates state ownUid callerUid) :
    Conversation.Describes crates state ownUid callerUid ⟨[x], []⟩ true x.calls where
  calls_eq := by simp
  answers := List.forall_mem_singleton.mpr hx
  closes := by
    intro xs y ys heq _
    have hlength := congrArg List.length heq
    rw [List.length_singleton, List.length_append, List.length_cons] at hlength
    exact ⟨List.eq_nil_of_length_eq_zero (by omega), rfl, rfl⟩
  unanswered := .nothing true

/-- **The loop** is a sequence of exchanges. -/
theorem steps_clientLoop {n : ℕ} {tr : List ClientEvent} {q : ClientProg (Except String Unit)}
    (h : Steps (DaemonStep crates) (clientLoop crates state ownUid callerUid n) tr q) :
    ∃ c ended, Conversation.Describes crates state ownUid callerUid c ended tr ∧
      (ended = true ↔ ∃ r, q = .pure r) := by
  induction n generalizing tr with
  | zero =>
    obtain ⟨rfl, rfl⟩ := steps_pure h
    exact ⟨_, true, describes_of_unanswered (.nothing true), by simp⟩
  | succ n ih =>
    rcases steps_call_bind h with ⟨rfl, rfl⟩ | ⟨u, input, u', tr₁, rfl, -, h₁⟩
    · exact ⟨_, false, describes_of_unanswered (.nothing false), by simp⟩
    have hclosed : ∀ r, (∀ line, input ≠ .line line) →
        Steps (DaemonStep crates) (pure r : ClientProg (Except String Unit)) tr₁ q →
        ∃ c ended, Conversation.Describes crates state ownUid callerUid c ended
          (⟨u, .nextLine, input, u'⟩ :: tr₁) ∧ (ended = true ↔ ∃ r, q = .pure r) := by
      intro r hinput hpure
      obtain ⟨rfl, rfl⟩ := steps_pure hpure
      exact ⟨_, true, describes_of_unanswered (.closed hinput), by simp⟩
    rcases input with _ | _ | text | line
    · exact hclosed _ nofun h₁
    · exact hclosed _ nofun h₁
    · exact hclosed _ nofun h₁
    -- The line is being handled, or has been handled and the loop has gone on or ended.
    rcases steps_bind h₁ with ⟨o, k, hline, rfl⟩ | ⟨tr₂, next, tr₃, rfl, hline, hrest⟩
    · rcases steps_handleLine hline u u' with ⟨hun, -⟩ | ⟨-, r, hr⟩ | ⟨x, -, -, hgoes⟩
      · exact ⟨_, false, describes_of_unanswered hun, by simp⟩
      · cases hr
      · rcases hgoes with ⟨-, -, hq⟩ | ⟨-, r, hq⟩ <;> cases hq
    · rcases steps_handleLine hline u u' with ⟨-, o, k, hq⟩ | ⟨hun, r, hr⟩ | ⟨x, hx, hcalls, hgoes⟩
      · cases hq
      · obtain rfl := Prog.pure.inj hr
        obtain ⟨rfl, rfl⟩ := steps_pure hrest
        rw [List.append_nil]
        exact ⟨_, true, describes_of_unanswered hun, by simp⟩
      · rw [← List.cons_append, ← hcalls]
        rcases hgoes with ⟨hsent, hrefused, hq⟩ | ⟨-, r, hq⟩
        · obtain rfl := Prog.pure.inj hq
          obtain ⟨c, ended, hc, hended⟩ := ih hrest
          exact ⟨_, ended, hc.cons hx hrefused hsent, hended⟩
        · obtain rfl := Prog.pure.inj hq
          obtain ⟨rfl, rfl⟩ := steps_pure hrest
          rw [List.append_nil]
          exact ⟨_, true, describes_singleton hx, by simp⟩

/-- Is the operation a part of a conversation? -/
def ClientOp.Talks : ClientOp → Prop
  | .server _ => True
  | .nextLine => True
  | .checkRate _ => True
  | .respond _ => True
  | _ => False

/-- The peer is identified, and the allowlist of a snapshot has it. -/
def Opened (ownUid callerUid : UInt32) (opening : List ClientEvent) : Prop :=
  (∃ u u', ⟨u, .peerCredentials, .ok callerUid, u'⟩ ∈ opening) ∧
    ∃ u snapshot u', ⟨u, .loadReloadable, snapshot, u'⟩ ∈ opening ∧ snapshot = u.live ∧
      snapshot.allowlist.isAllowed ownUid callerUid = true

/-- More calls before. -/
theorem Opened.cons {opening : List ClientEvent} (h : Opened ownUid callerUid opening)
    (e : ClientEvent) : Opened ownUid callerUid (e :: opening) := by
  obtain ⟨⟨u, u', hpeer⟩, v, snapshot, v', hload, hallowed⟩ := h
  exact ⟨⟨u, u', List.mem_cons_of_mem e hpeer⟩, v, snapshot, v', List.mem_cons_of_mem e hload,
    hallowed⟩

/-- A connection is a conversation with a peer that was identified before. -/
theorem steps_handleClient {n : ℕ} {tr : List ClientEvent} {q : ClientProg (Except String Unit)}
    (h : Steps (DaemonStep crates) (handleClient crates state ownUid n) tr q) :
    ∃ opening talk callerUid c ended, tr = opening ++ talk ∧ (∀ e ∈ opening, ¬ e.op.Talks) ∧
      (talk ≠ [] → Opened ownUid callerUid opening) ∧
      Conversation.Describes crates state ownUid callerUid c ended talk ∧
      (ended = true ↔ ∃ r, q = .pure r) := by
  -- Nothing is said unless the peer is allowed.
  have hsilent : ∀ (opening : List ClientEvent) (ended : Bool),
      (∀ e ∈ opening, ¬ e.op.Talks) → (ended = true ↔ ∃ r, q = .pure r) → tr = opening →
      ∃ opening talk callerUid c ended, tr = opening ++ talk ∧ (∀ e ∈ opening, ¬ e.op.Talks) ∧
        (talk ≠ [] → Opened ownUid callerUid opening) ∧
        Conversation.Describes crates state ownUid callerUid c ended talk ∧
        (ended = true ↔ ∃ r, q = .pure r) := by
    intro opening ended hopening hended htr
    exact ⟨opening, [], 0, ⟨[], []⟩, ended, by rw [htr, List.append_nil], hopening,
      fun hne => absurd rfl hne, describes_of_unanswered (.nothing ended), hended⟩
  rcases steps_call_bind h with ⟨rfl, rfl⟩ | ⟨u, creds, u', tr₁, rfl, -, h₁⟩
  · exact hsilent [] false (List.forall_mem_nil _) (by simp) rfl
  rcases creds with text | callerUid
  · obtain ⟨rfl, rfl⟩ := steps_pure h₁
    exact hsilent _ true (by simp [ClientOp.Talks]) (by simp) rfl
  rcases steps_call_bind h₁ with ⟨rfl, rfl⟩ | ⟨v, snapshot, v', tr₂, rfl, ⟨hlive, -⟩, h₂⟩
  · exact hsilent _ false (by simp [ClientOp.Talks]) (by simp) rfl
  split at h₂
  · obtain ⟨rfl, rfl⟩ := steps_pure h₂
    exact hsilent _ true (by simp [ClientOp.Talks]) (by simp) rfl
  next hallowed =>
  obtain ⟨c, ended, hc, hended⟩ := steps_clientLoop h₂
  refine ⟨[⟨u, .peerCredentials, .ok callerUid, u'⟩, ⟨v, .loadReloadable, snapshot, v'⟩], tr₂,
    callerUid, c, ended, rfl, by simp [ClientOp.Talks], fun _ => ⟨⟨u, u', by simp⟩, ?_⟩, hc, hended⟩
  exact ⟨v, snapshot, v', by simp, hlive, by simpa using hallowed⟩

/-- The task of a connection, with the permit around the conversation. -/
theorem steps_clientTask {n : ℕ} {tr : List ClientEvent} {q : ClientProg (Except String Unit)}
    (h : Steps (DaemonStep crates) (clientTask crates state ownUid n) tr q) :
    ∃ opening talk closing callerUid c ended, tr = opening ++ talk ++ closing ∧
      (∀ e ∈ opening ++ closing, ¬ e.op.Talks) ∧ (talk ≠ [] → Opened ownUid callerUid opening) ∧
      Conversation.Describes crates state ownUid callerUid c ended talk ∧
      (closing ≠ [] ∨ (∃ r, q = .pure r) → ended = true) := by
  rcases steps_call_bind h with ⟨rfl, rfl⟩ | ⟨u, x, u', tr₁, rfl, -, h₁⟩
  · exact ⟨[], [], [], 0, ⟨[], []⟩, false, rfl, by simp, by simp,
      describes_of_unanswered (.nothing false), by simp⟩
  have hacquire : ¬ ClientOp.acquireConn.Talks := id
  rcases steps_bind h₁ with ⟨o, k, hclient, rfl⟩ | ⟨tr₂, r, tr₃, rfl, hclient, hrelease⟩
  · obtain ⟨opening, talk, callerUid, c, ended, rfl, hopening, hopened, hc, hended⟩ :=
      steps_handleClient hclient
    refine ⟨⟨u, .acquireConn, x, u'⟩ :: opening, talk, [], callerUid, c, ended, by simp, ?_, ?_, hc,
      by simp⟩
    · rw [List.append_nil]
      exact List.forall_mem_cons.mpr ⟨hacquire, hopening⟩
    · exact fun hne => (hopened hne).cons _
  · obtain ⟨opening, talk, callerUid, c, ended, rfl, hopening, hopened, hc, hended⟩ :=
      steps_handleClient hclient
    have hclosing : ∀ e ∈ tr₃, ¬ e.op.Talks := by
      rcases steps_call_bind hrelease with ⟨rfl, -⟩ | ⟨v, _, v', tr₄, rfl, -, hpure⟩
      · exact List.forall_mem_nil _
      · obtain ⟨rfl, -⟩ := steps_pure hpure
        simp [ClientOp.Talks]
    refine ⟨⟨u, .acquireConn, x, u'⟩ :: opening, talk, tr₃, callerUid, c, ended, by simp, ?_, ?_,
      hc, ?_⟩
    · exact List.forall_mem_append.mpr
        ⟨List.forall_mem_cons.mpr ⟨hacquire, hopening⟩, hclosing⟩
    · exact fun hne => (hopened hne).cons _
    · exact fun _ => hended.mpr ⟨r, rfl⟩

/-! ## Lines and responses -/

/-- The line that a call receives. -/
def lineOf : ClientEvent → Option String
  | ⟨_, .nextLine, .line line, _⟩ => some line
  | _ => none

/-- The response that a call sends. -/
def responseOf : ClientEvent → Option Response
  | ⟨_, .respond response, _, _⟩ => some response
  | _ => none

/-- The request path neither receives a line nor sends a response. -/
theorem filterMap_of_server {α : Type} {f : ClientEvent → Option α} {path : List ClientEvent}
    (hf : ∀ u o a u', f ⟨u, .server o, a, u'⟩ = none) (h : ∀ e ∈ path, ∃ o, e.op = .server o) :
    path.filterMap f = [] := by
  refine List.filterMap_eq_nil_iff.mpr fun ⟨u, o, a, u'⟩ he => ?_
  obtain ⟨o', rfl⟩ := h _ he
  exact hf u o' a u'

/-- The opening and the end of a task neither receive a line nor send a response. -/
theorem filterMap_of_not_talks {α : Type} {f : ClientEvent → Option α} {l : List ClientEvent}
    (hf : ∀ e : ClientEvent, ¬ e.op.Talks → f e = none) (h : ∀ e ∈ l, ¬ e.op.Talks) :
    l.filterMap f = [] :=
  List.filterMap_eq_nil_iff.mpr fun e he => hf e (h e he)

/-- An opening call receives no line. -/
theorem lineOf_of_not_talks (e : ClientEvent) (h : ¬ e.op.Talks) : lineOf e = none := by
  obtain ⟨u, o, a, u'⟩ := e
  cases o with
  | nextLine => exact absurd trivial h
  | _ => rfl

/-- An opening call sends no response. -/
theorem responseOf_of_not_talks (e : ClientEvent) (h : ¬ e.op.Talks) : responseOf e = none := by
  obtain ⟨u, o, a, u'⟩ := e
  cases o with
  | respond response => exact absurd trivial h
  | _ => rfl

/-- An exchange has one line. -/
theorem Exchange.Answers.lines {x : Exchange} (h : x.Answers crates state ownUid callerUid) :
    x.calls.filterMap lineOf = [x.line] := by
  obtain ⟨u₁, u₁', u₂, u₂', u₃, u₃', u₄, u₄', hcalls, -⟩ := h.calls_eq
  have hpath := filterMap_of_server (f := lineOf) (fun _ _ _ _ => rfl) h.path_server
  rw [hcalls]
  change x.line :: (x.path ++ _).filterMap lineOf = _
  rw [List.filterMap_append, hpath]
  rfl

/-- An exchange has one response. -/
theorem Exchange.Answers.responses {x : Exchange} (h : x.Answers crates state ownUid callerUid) :
    x.calls.filterMap responseOf = [x.response] := by
  obtain ⟨u₁, u₁', u₂, u₂', u₃, u₃', u₄, u₄', hcalls, -⟩ := h.calls_eq
  have hpath := filterMap_of_server (f := responseOf) (fun _ _ _ _ => rfl) h.path_server
  rw [hcalls]
  change (x.path ++ _).filterMap responseOf = _
  rw [List.filterMap_append, hpath]
  rfl

/-- No response is sent after the last one. -/
theorem Unanswered.responses (h : Unanswered ownUid callerUid ended calls) :
    calls.filterMap responseOf = [] := by
  cases h with
  | @working line snapshot admitted u₁ u₁' u₂ u₂' u₃ u₃' path _ _ hpath =>
    change path.filterMap responseOf = []
    exact filterMap_of_server (fun _ _ _ _ => rfl) fun e he => (hpath e he).2
  | _ => rfl

/-- After the last response at most one line is received. If the task has ended, the sender of that
line had lost the allowlist entry. -/
theorem Unanswered.lines (h : Unanswered ownUid callerUid ended calls) :
    calls.filterMap lineOf = [] ∨
      ∃ line, calls.filterMap lineOf = [line] ∧ (ended = true →
        ∃ u snapshot u', ⟨u, .loadReloadable, snapshot, u'⟩ ∈ calls ∧ snapshot = u.live ∧
          snapshot.allowlist.isAllowed ownUid callerUid = false) := by
  cases h with
  | nothing => exact .inl rfl
  | @closed u u' input hinput =>
    cases input with
    | line line => exact absurd rfl (hinput line)
    | _ => exact .inl rfl
  | received line => exact .inr ⟨line, rfl, nofun⟩
  | @dropped line snapshot u₁ u₁' u₂ u₂' hlive hallowed =>
    exact .inr ⟨line, rfl, fun _ => ⟨u₂, snapshot, u₂', by simp, hlive, hallowed⟩⟩
  | @allowed line => exact .inr ⟨line, rfl, nofun⟩
  | @working line _ _ _ _ _ _ _ _ _ _ _ hpath =>
    have hnone := filterMap_of_server (f := lineOf) (fun _ _ _ _ => rfl) fun e he =>
      (hpath e he).2
    exact .inr ⟨line, congrArg (line :: ·) hnone, nofun⟩

/-- What a conversation says of a kind, exchange by exchange. -/
theorem Conversation.Describes.filterMap_eq {α : Type} {c : Conversation}
    {f : ClientEvent → Option α} {g : Exchange → α}
    (h : c.Describes crates state ownUid callerUid ended calls)
    (hg : ∀ x ∈ c.exchanges, x.calls.filterMap f = [g x]) :
    calls.filterMap f = c.exchanges.map g ++ c.rest.filterMap f := by
  rw [h.calls_eq, List.filterMap_append, List.filterMap_flatMap, List.flatMap_congr hg,
    List.map_eq_flatMap]

end Conversations

/-- **The protocol of a connection.** In every run of the daemon, with any reloads and any answers
of the rate limiter between any two calls, the calls of every task are an opening, a conversation
with the peer that was identified in it, and an end.

* The responses are those of the exchanges, in their order, and the lines are those of the exchanges
  followed by at most one more. If the task has ended, that line was received after its sender had
  lost the allowlist entry.
* A response has version 1 and either a result or an error. Its identifier is the one of the request
  when the line was admitted and is a request, and none otherwise.
* Every call of the request path is made for a line whose sender is on the allowlist of a snapshot
  that was taken after the line was received, and which the rate limiter has admitted.
* A line that is refused gets an error as its response, and it is the last line that is received.

**Proof sketch.** Each line leads through the checks to one response, or to the end of the task. The
rest is an induction over the lines. -/
theorem connection_protocol {crates : Crates}
    {toml : String → Except String (List RawPolicyRule)} {state : ServerState} {ownUid : UInt32}
    {n : ℕ → ℕ} {w₀ w : DaemonWorld} {procs : ℕ → ClientProg (Except String Unit)}
    {H : List (Entry DaemonWorld ClientOp ClientOp.Ans (Except String Unit))}
    (h : Exec (DaemonStep crates) (DaemonEnv toml state.config)
      (fun i => clientTask crates state ownUid (n i)) w₀ w procs H) (i : ℕ) :
    ∃ opening talk closing callerUid c ended,
      H.filterMap (Entry.callOf i) = opening ++ talk ++ closing ∧
      (∀ e ∈ opening ++ closing, ¬ e.op.Talks) ∧ (talk ≠ [] → Opened ownUid callerUid opening) ∧
      (closing ≠ [] ∨ (∃ r, .ret i r ∈ H) → ended = true) ∧
      Conversation.Describes crates state ownUid callerUid c ended talk ∧
      (H.filterMap (Entry.callOf i)).filterMap responseOf = c.exchanges.map Exchange.response ∧
      (H.filterMap (Entry.callOf i)).filterMap lineOf =
        c.exchanges.map Exchange.line ++ c.rest.filterMap lineOf ∧
      (c.rest.filterMap lineOf = [] ∨ ∃ line, c.rest.filterMap lineOf = [line] ∧ (ended = true →
        ∃ u snapshot u', ⟨u, .loadReloadable, snapshot, u'⟩ ∈ c.rest ∧ snapshot = u.live ∧
          snapshot.allowlist.isAllowed ownUid callerUid = false)) := by
  obtain ⟨opening, talk, closing, callerUid, c, ended, hcalls, hsilent, hopened, hc, hended⟩ :=
    steps_clientTask (h.project i)
  -- Only the conversation has lines and responses.
  have htalk : ∀ {α : Type} {f : ClientEvent → Option α},
      (∀ e : ClientEvent, ¬ e.op.Talks → f e = none) →
      (H.filterMap (Entry.callOf i)).filterMap f = talk.filterMap f := by
    intro α f hf
    obtain ⟨hopening, hclosing⟩ := List.forall_mem_append.mp hsilent
    rw [hcalls, List.filterMap_append, List.filterMap_append, filterMap_of_not_talks hf hopening,
      filterMap_of_not_talks hf hclosing, List.nil_append, List.append_nil]
  refine ⟨opening, talk, closing, callerUid, c, ended, hcalls, hsilent, hopened, ?_, hc, ?_, ?_,
    hc.unanswered.lines⟩
  · rintro (hne | ⟨r, hr⟩)
    · exact hended (.inl hne)
    · exact hended (.inr ⟨r, h.procs_of_ret hr⟩)
  · rw [htalk responseOf_of_not_talks, hc.filterMap_eq fun x hx => (hc.answers x hx).responses,
      hc.unanswered.responses, List.append_nil]
  · rw [htalk lineOf_of_not_talks, hc.filterMap_eq fun x hx => (hc.answers x hx).lines]

/-- A connection with one line, whose request is granted. -/
theorem connection_protocol_grant :
    ∃ (callerUid : UInt32) (x : Exchange), x.Answers .reference Sample.state 990 callerUid ∧
      x.line = Sample.requestLine ∧ x.response = .allow (some "req-1") "fido2" ∧
      x.admitted = true := by
  obtain ⟨w, procs, h, -⟩ := Sample.exec_connectionHistory
  obtain ⟨opening, talk, closing, callerUid, c, ended, -, -, -, -, hc, hresponses, hlines, -⟩ :=
    connection_protocol h 0
  have hsent : (Sample.connectionHistory.filterMap (Entry.callOf 0)).filterMap responseOf =
      [.allow (some "req-1") "fido2"] := by
    rw [Sample.connectionHistory, List.filterMap_append, filterMap_callOf_map_step,
      filterMap_callOf_map_step]
    rfl
  have hread : (Sample.connectionHistory.filterMap (Entry.callOf 0)).filterMap lineOf =
      [Sample.requestLine] := by
    rw [Sample.connectionHistory, List.filterMap_append, filterMap_callOf_map_step,
      filterMap_callOf_map_step]
    rfl
  obtain ⟨x, hx, hresponse⟩ := List.map_eq_singleton_iff.mp (hresponses.symm.trans hsent)
  have hanswers := hc.answers x (by rw [hx]; exact List.mem_singleton_self x)
  rw [hread, hx] at hlines
  refine ⟨callerUid, x, hanswers, (List.cons.inj hlines).1.symm, hresponse, ?_⟩
  -- A line that was not admitted would have been answered with an error.
  by_contra hadmitted
  have herror := hanswers.refused (.inl (Bool.not_eq_true _ ▸ hadmitted))
  rw [hresponse] at herror
  exact nomatch herror

end OlaCore
