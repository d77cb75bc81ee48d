import OlaCore.Ipc.AuditHistory
import OlaCore.Ipc.LineSize
import OlaCore.Pam.Answers
import OlaCore.Pam.System

set_option relaxedAutoImplicit false
set_option autoImplicit false

/-!
# From a login to the audit log

If a session of the PAM module lets a user in, then the log of the daemon holds a grant for that
session alone. The module and the daemon are connected by a socket only, which may be cut at any
time, and other clients may do what they want on theirs.

## Main definitions

* `OlaCore.Login`, `OlaCore.Login.AskedBy` — what a session asks for.
* `OlaCore.Login.GrantedBy` — the entry of a session.
* `OlaCore.loggedIn` — the entries that were logged.

## Main results

* `OlaCore.lines_of_writes` — who writes one line sends one line.
* `OlaCore.exists_response_of_success` — a session that succeeds was sent a grant.
* `OlaCore.logins_in_log` — successful sessions and the audit log.
-/

namespace OlaCore

open ByteText Program HashChain

section Connection

variable {crates : Crates} {toml : String → Except String (List RawPolicyRule)}
  {state : ServerState} {ownUid : UInt32} {lines : ℕ → ℕ} {uids : ℕ → UInt32}
  {tasks : ℕ → ClientProg (Except String Unit)} {peers : ℕ → PamProg Int32} {w₀ w : SystemWorld}
  {procs : ℕ → SystemProg} {H : SystemHistory} {i : ℕ}

/-! ## One line -/

/-- The line is the next one, when one line was written and nothing was taken. -/
theorem Pipe.nextLine_of_line {pipe : Pipe} {text : String} (hnl : newline ∉ utf8 text)
    (hcr : (utf8 text).getLast? ≠ some 13) (hwritten : pipe.written = utf8 text ++ [newline])
    (htaken : pipe.taken = 0) : pipe.nextLine =
      some (utf8 text, { pipe with taken := (utf8 text).length + 1 }) := by
  have hrest : pipe.rest = utf8 text ++ [newline] := by
    rw [rest, hwritten, htaken, List.drop_zero]
  have htake := (PamStream.takeWhile_of_part hnl (List.prefix_refl (utf8 text ++ [newline]))).2.mpr
    (List.prefix_append _ _)
  unfold nextLine
  rw [hrest, if_pos (by simp), htake]
  dsimp only
  rw [withoutCarriageReturn_of_ne hcr, htaken, Nat.zero_add]

/-- There is no next line when everything was taken. -/
theorem Pipe.nextLine_of_rest {pipe : Pipe} (h : pipe.rest = []) : pipe.nextLine = none := by
  simp [nextLine, h]

/-- **Who writes one line sends one line.** -/
theorem lines_of_writes {text : String} (hnl : newline ∉ utf8 text)
    (hcr : (utf8 text).getLast? ≠ some 13) (h : Exec (SystemStep crates uids)
      (SystemEnv toml state.config) (systemProgs tasks peers) w₀ w procs H)
    (hw₀ : w₀.sockets i = .new) (hwrites : (peerPart.callsOf H i).filterMap writeOf <+:
      [(utf8 text ++ [newline], .ok ())]) :
    (daemonPart.callsOf H i).filterMap lineOf <+: [text] := by
  -- Nothing was written, or the line was; it was not received, or it was and nothing else is left.
  let J : Socket → List ClientEvent → List PamEvent → Prop := fun s calls sent =>
    (s.toDaemon.written = [] ∧ sent.filterMap writeOf = [] ∨
        s.toDaemon.written = utf8 text ++ [newline] ∧
          sent.filterMap writeOf = [(utf8 text ++ [newline], .ok ())]) ∧
      (s.toDaemon.taken = 0 ∧ calls.filterMap lineOf = [] ∨
        s.toDaemon.taken = (utf8 text).length + 1 ∧ calls.filterMap lineOf = [text])
  let I : Socket → List ClientEvent → List PamEvent → Prop := fun s calls sent =>
    sent.filterMap writeOf <+: [(utf8 text ++ [newline], .ok ())] → J s calls sent
  have hI : J (w.sockets i) (daemonPart.callsOf H i) (peerPart.callsOf H i) := by
    refine socket_invariant (I := I) ?_ ?_ ?_ h hw₀ hwrites
    · exact fun _ => ⟨.inl ⟨rfl, rfl⟩, .inl ⟨rfl, rfl⟩⟩
    · rintro s s' calls sent u o x u' hJ hs hpre
      obtain ⟨hwritten, htaken⟩ := hJ hpre
      change (s'.toDaemon.written = [] ∧ _ ∨ s'.toDaemon.written = _ ∧ _) ∧
        (s'.toDaemon.taken = 0 ∧ (calls ++ [(⟨u, o, x, u'⟩ : ClientEvent)]).filterMap lineOf = [] ∨
          s'.toDaemon.taken = _ ∧
            (calls ++ [(⟨u, o, x, u'⟩ : ClientEvent)]).filterMap lineOf = [text])
      rw [List.filterMap_append]
      obtain ⟨hnone, heq⟩ | ⟨line, text', hsome, hnext, htext⟩ := hs.toDaemon u u'
      · rw [List.filterMap_cons, hnone, heq]
        rw [List.filterMap_nil, List.append_nil]
        exact ⟨hwritten, htaken⟩
      · have hrest : s.toDaemon.rest ≠ [] := by
          intro hrest
          cases (Pipe.nextLine_of_rest hrest).symm.trans hnext
        obtain ⟨hnil, -⟩ | ⟨hline, hsent⟩ := hwritten
        · exact absurd (by rw [Pipe.rest, hnil, List.drop_nil]) hrest
        obtain ⟨hzero, hlines⟩ | ⟨hall, -⟩ := htaken
        · rw [Pipe.nextLine_of_line hnl hcr hline hzero] at hnext
          obtain ⟨rfl, htoDaemon⟩ := Prod.mk.inj (Option.some.inj hnext)
          rw [fromUtf8_utf8] at htext
          obtain rfl := Option.some.inj htext
          rw [List.filterMap_cons, hsome, hlines, ← htoDaemon]
          exact ⟨.inr ⟨hline, hsent⟩, .inr ⟨rfl, rfl⟩⟩
        · exact absurd (by rw [Pipe.rest, hline, hall, List.drop_eq_nil_of_le (by simp)]) hrest
    · rintro s s' calls sent u o x u' hJ hs hpre
      change (sent ++ [(⟨u, o, x, u'⟩ : PamEvent)]).filterMap writeOf <+: _ at hpre
      change (s'.toDaemon.written = [] ∧
          (sent ++ [(⟨u, o, x, u'⟩ : PamEvent)]).filterMap writeOf = [] ∨
        s'.toDaemon.written = _ ∧
          (sent ++ [(⟨u, o, x, u'⟩ : PamEvent)]).filterMap writeOf = _) ∧ _
      rw [List.filterMap_append] at hpre ⊢
      obtain ⟨hwritten, htaken⟩ := hJ ((List.prefix_append _ _).trans hpre)
      obtain ⟨hnone, hsame, hkeep⟩ | ⟨bytes, answer, part, hsome, -, hok, heq⟩ := hs.toDaemon u u'
      · rw [List.filterMap_cons, hnone, hsame, hkeep]
        rw [List.filterMap_nil, List.append_nil]
        exact ⟨hwritten, htaken⟩
      · -- The only write is the one of the line, and it has succeeded.
        rw [List.filterMap_cons, hsome] at hpre ⊢
        obtain ⟨hnil, hsent⟩ | ⟨-, hsent⟩ := hwritten
        · rw [hsent] at hpre ⊢
          obtain ⟨rfl, rfl⟩ := Prod.mk.inj (List.cons.inj (hpre.eq_of_length rfl)).1
          rw [heq, Pipe.write, hnil, hok rfl]
          exact ⟨.inr ⟨rfl, rfl⟩, htaken⟩
        · have hlength := hpre.length_le
          simp [hsent] at hlength
  obtain ⟨-, ⟨-, hlines⟩ | ⟨-, hlines⟩⟩ := hI
  · rw [hlines]
    exact List.nil_prefix
  · rw [hlines]

/-! ## One session -/

/-- What a session asks for: its arguments, the user that PAM names, the id that the user database
has for the user, and the identifier of the request. -/
structure Login where
  config : PamOlaConfig
  name : String
  uid : UInt32
  id : String

/-- The calls of a session ask for the login. -/
structure Login.AskedBy (login : Login) (argc : Int32) (argv : Option (ℕ → Option CStr))
    (calls : List PamEvent) : Prop where
  config : parseArgv argc argv = .ok login.config
  name : ∃ user u u', ⟨u, .getUser, some user, u'⟩ ∈ calls ∧ fromUtf8 user.bytes = some login.name
  uid : ∃ bufLen u u', ⟨u, .getpwnam login.name bufLen, .found login.uid, u'⟩ ∈ calls
  id : ∃ bytes u u', ⟨u, .fill, some bytes, u'⟩ ∈ calls ∧
    login.id = "pam-" ++ encodeHex bytes.toList

/-- The line of the request, without its newline. -/
def Login.line (login : Login) (serde : SerdeJson) : String :=
  pamRequestLine serde login.config (some login.uid) login.id

/-- A client that has received nothing has not been let in. -/
theorem outcome_of_nil {serde : SerdeJson} {utf8Error : Bytes → String}
    {readError : Option String} {expectedId : String} :
    PamStream.outcome serde utf8Error ⟨[], readError⟩ expectedId ≠ .allow := by
  intro h
  obtain ⟨response, ⟨line, hline, hholds⟩, -⟩ := PamStream.outcome_eq_allow_iff.mp h
  cases readError with
  | some e => cases hline
  | none =>
    obtain rfl : "" = line := Except.ok.inj hline
    have hblank := serde.fromStr_blank (trim "") (by simp [trim, utf8])
    cases hblank.symm.trans hholds

/-- **A session that succeeds was sent a grant** for its request, and no other line than the one of
its request was received on its connection. -/
theorem exists_response_of_success (hparse : ∀ s, crates.serde.fromStr s = Json.parse s)
    (hprint : ∀ j, crates.serde.toString j = Json.compact j) {utf8Error : Bytes → String}
    {argc : Int32} {argv : Option (ℕ → Option CStr)}
    (hpeer : peers i = pamSmAuthenticate crates.serde utf8Error argc argv)
    (h : Exec (SystemStep crates uids) (SystemEnv toml state.config)
      (systemProgs (fun i => clientTask crates state ownUid (lines i)) peers) w₀ w procs H)
    (hw₀ : w₀.sockets i = .new) (hret : .ret (peerPart.index i) (.inr 0) ∈ H) :
    ∃ (login : Login) (method : String), login.AskedBy argc argv (peerPart.callsOf H i) ∧
      (daemonPart.callsOf H i).filterMap lineOf <+: [login.line crates.serde] ∧
      Response.allow (some login.id) method ∈ (daemonPart.callsOf H i).filterMap responseOf := by
  have htraces := traces_peer h hret
  rw [hpeer] at htraces
  obtain ⟨config, user, name, uid, bytes, id, readError, hconfig, hname, ⟨u, u', huser⟩,
    ⟨bufLen, v, v', hfound⟩, hid, ⟨x, x', hfill⟩, hwrites, hout⟩ :=
    traces_pamSmAuthenticate_success htraces
  refine ⟨⟨config, name, uid, id⟩, ?_⟩
  let login : Login := ⟨config, name, uid, id⟩
  -- One line was received.
  have hlines : (daemonPart.callsOf H i).filterMap lineOf <+: [login.line crates.serde] := by
    refine lines_of_writes (crates.serde.newline_not_mem_toString _) ?_ h hw₀ ?_
    · intro hcr
      cases (getLast?_pamRequestLine hprint).symm.trans hcr
    · rw [hwrites]
      exact List.prefix_rfl
  -- So at most one response was sent, and it answers the request.
  obtain ⟨procs', hdaemon⟩ := exec_daemon h
  obtain ⟨opening, talk, closing, callerUid, c, ended, hcalls, hsilent, -, hc, -⟩ :=
    steps_clientTask (hdaemon.project i)
  have htalk : ∀ {α : Type} {f : ClientEvent → Option α},
      (∀ e : ClientEvent, ¬ e.op.Talks → f e = none) →
      (daemonPart.callsOf H i).filterMap f = talk.filterMap f := by
    intro α f hf
    obtain ⟨hopening, hclosing⟩ := List.forall_mem_append.mp hsilent
    unfold Part.callsOf
    rw [hcalls, List.filterMap_append, List.filterMap_append, filterMap_of_not_talks hf hopening,
      filterMap_of_not_talks hf hclosing, List.nil_append, List.append_nil]
  have hexchanges : c.exchanges.length ≤ 1 := by
    have hle := hlines.length_le
    rw [htalk lineOf_of_not_talks, hc.filterMap_eq fun x hx => (hc.answers x hx).lines,
      List.length_append, List.length_map, List.length_singleton] at hle
    omega
  have hresponses : (daemonPart.callsOf H i).filterMap responseOf =
      c.exchanges.map Exchange.response := by
    rw [htalk responseOf_of_not_talks, hc.filterMap_eq fun x hx => (hc.answers x hx).responses,
      hc.unanswered.responses, List.append_nil]
  have hanswers : ∀ response ∈ (daemonPart.callsOf H i).filterMap responseOf,
      AnswersVerifyOnce id response := by
    have hasks : ∀ e ∈ daemonPart.callsOf H i, AsksWithId crates id e.op e.answer := by
      rintro ⟨v, o, answer, v'⟩ he
      cases o with
      | nextLine =>
        cases answer with
        | line line =>
          have hline := hlines.subset (List.mem_filterMap.mpr ⟨_, he, rfl⟩)
          obtain rfl := List.mem_singleton.mp hline
          exact ⟨_, readRequest_pamRequestLine hparse hprint, rfl, rfl⟩
        | _ => exact trivial
      | _ => exact trivial
    have hguaranteed := ((guarantees_clientTask_answers (lines i)).steps (hdaemon.project i)
      hasks).1
    intro response hresponse
    obtain ⟨⟨v, o, answer, v'⟩, he, hsome⟩ := List.mem_filterMap.mp hresponse
    cases o with
    | respond r =>
      obtain rfl := Option.some.inj hsome
      exact hguaranteed _ he
    | _ => cases hsome
  -- What the session has read is a part of this response.
  obtain ⟨parts, hparts, hwritten⟩ := written_toPeer h hw₀
  rw [filterMap_byteOf h hw₀, hwritten] at hout
  rw [hresponses] at hparts hanswers ⊢
  cases hxs : c.exchanges with
  | nil =>
    rw [hxs] at hparts
    cases hparts
    exact absurd hout (by simpa using outcome_of_nil)
  | cons y ys =>
    obtain rfl : ys = [] := by
      rw [hxs, List.length_cons] at hexchanges
      exact List.eq_nil_of_length_eq_zero (by omega)
    rw [hxs] at hparts hanswers
    obtain ⟨part, parts, hpart, hnil, rfl⟩ := List.forall₂_cons_left_iff.mp hparts
    cases hnil
    rw [List.flatten_cons, List.flatten_nil, List.append_nil] at hout
    let stream : PamStream := ⟨part.take (w.sockets i).toPeer.taken, readError⟩
    have hstream : stream.outcome crates.serde utf8Error id = .allow := hout
    have hpre : stream.bytes <+: y.response.wire crates.serde ++ [newline] :=
      (List.take_prefix _ part).trans hpart
    obtain ⟨e, he⟩ | ⟨-, hvalue⟩ := PamStream.outcome_of_part hparse hprint hpre
    · cases he.symm.trans hstream
    · have hanswer := hanswers y.response (List.mem_singleton_self _)
      obtain ⟨method, hallow⟩ := hanswer.eq_allow (hvalue.symm.trans hstream)
      refine ⟨method, ⟨hconfig, ⟨user, u, u', huser, hname⟩, ⟨bufLen, v, v', hfound⟩,
        ⟨bytes, x, x', hfill, hid⟩⟩, hlines, ?_⟩
      exact List.mem_singleton.mpr hallow.symm

/-! ## The log -/

/-- The entry of a login by a client that runs as the given user: it is a grant, with the identifier
of the request, for the user of the login if the client is root and for the client otherwise. -/
structure Login.GrantedBy (login : Login) (peerUid : UInt32) (entry : AuditEntry) : Prop where
  decision : entry.decision = "allow"
  requestId : entry.requestId = some login.id
  callerUid : entry.callerUid = peerUid
  uid : entry.uid = if peerUid = 0 then login.uid else peerUid
  method : login.config.method ≠ "any" → entry.method = login.config.method

/-- The log call of a grant for the request of a login. -/
theorem RequestRun.Logs.grantedBy {login : Login} {run : RequestRun} {calls : List ClientEvent}
    {method : String} {callerUid : UInt32} {entry : AuditEntry}
    (hparse : ∀ s, crates.serde.fromStr s = Json.parse s)
    (hprint : ∀ j, crates.serde.toString j = Json.compact j)
    (hlines : calls.filterMap lineOf <+: [login.line crates.serde])
    (hdecides : run.Decides crates state ownUid callerUid (.allow (some login.id) method) calls)
    (hlogs : run.Logs callerUid (.allow (some login.id) method) entry) :
    login.GrantedBy callerUid entry := by
  -- The request that was decided is the one of the login.
  have hline : run.line = login.line crates.serde := by
    obtain ⟨l, u₁, u₁', u₂, u₂', u₃, u₃', hcalls, -⟩ := hdecides.calls_eq
    refine List.mem_singleton.mp (hlines.subset (List.mem_filterMap.mpr
      ⟨⟨u₁, .nextLine, .line run.line, u₁'⟩, ?_, rfl⟩))
    rw [hcalls]
    simp
  have hreq : run.req = ⟨protocolVersion, some login.id, "verify_once",
      some (pamParams login.config (some login.uid))⟩ := by
    have hread : readRequest crates (login.line crates.serde) = _ :=
      readRequest_pamRequestLine hparse hprint
    have hparsed := hdecides.parsed
    rw [hline] at hparsed
    exact Option.some.inj (hparsed.symm.trans hread)
  have huid := hdecides.uid
  have hmethod := hdecides.method
  rw [hreq] at huid hmethod
  have hname := requestMethod_pamParams hmethod
  exact {
    decision := (Option.some.inj ((Response.decision_allow _ _).symm.trans hlogs.decision)).symm
    requestId := hlogs.id.symm
    callerUid := hlogs.callerUid
    uid := by
      rw [hlogs.uid]
      exact Except.ok.inj (huid.symm.trans (requestUid_pamParams callerUid))
    method := fun hany => (hlogs.method (hname ▸ hany)).trans hname }

/-- More calls. -/
theorem Login.AskedBy.mono {login : Login} {argc : Int32} {argv : Option (ℕ → Option CStr)}
    {calls calls' : List PamEvent} (h : login.AskedBy argc argv calls) (hsub : calls ⊆ calls') :
    login.AskedBy argc argv calls' := by
  obtain ⟨user, u, u', huser, hname⟩ := h.name
  obtain ⟨bufLen, v, v', hfound⟩ := h.uid
  obtain ⟨bytes, x, x', hfill, hid⟩ := h.id
  exact {
    config := h.config
    name := ⟨user, u, u', hsub huser, hname⟩
    uid := ⟨bufLen, v, v', hsub hfound⟩
    id := ⟨bytes, x, x', hsub hfill, hid⟩ }

/-- The entries of the log calls that have succeeded. -/
def loggedIn (H : SystemHistory) : List AuditEntry :=
  (H.filterMap daemonPart.entry).filterMap loggedOf

/-- **A session that succeeds was sent a grant before it returned**: a call of its task has sent a
grant for its request, and the calls of the task up to then have received no line but the one of the
request. -/
theorem exists_grant_of_success (hparse : ∀ s, crates.serde.fromStr s = Json.parse s)
    (hprint : ∀ j, crates.serde.toString j = Json.compact j) {utf8Error : Bytes → String}
    {argc : Int32} {argv : Option (ℕ → Option CStr)}
    (hpeer : peers i = pamSmAuthenticate crates.serde utf8Error argc argv)
    (h : Exec (SystemStep crates uids) (SystemEnv toml state.config)
      (systemProgs (fun i => clientTask crates state ownUid (lines i)) peers) w₀ w procs H)
    (hw₀ : w₀.sockets i = .new) {j : ℕ} (hj : H[j]? = some (.ret (peerPart.index i) (.inr 0))) :
    ∃ (k : ℕ) (login : Login) (method : String) (u u' : DaemonWorld) (sent : Except String Unit),
      k < ((H.take j).filterMap daemonPart.entry).length ∧
      (H.filterMap daemonPart.entry)[k]? =
        some (.step i ⟨u, .respond (.allow (some login.id) method), sent, u'⟩) ∧
      login.AskedBy argc argv (peerPart.callsOf H i) ∧
      (((H.filterMap daemonPart.entry).take k).filterMap (Entry.callOf i)).filterMap lineOf <+:
        [login.line crates.serde] := by
  have hsplit := eq_take_append_cons_drop hj
  have htake : H.take (j + 1) = H.take j ++ [.ret (peerPart.index i) (.inr 0)] := by
    rw [List.take_add_one, hj]
    rfl
  obtain ⟨v, procs₁, hprefix⟩ := h.take (j + 1)
  obtain ⟨login, method, hasked, hlines, hsent⟩ := exists_response_of_success hparse hprint hpeer
    hprefix hw₀ (by rw [htake]; simp)
  -- The return of the session is not a call of the daemon.
  have hentries : (H.take (j + 1)).filterMap daemonPart.entry =
      (H.take j).filterMap daemonPart.entry := by
    rw [htake, List.filterMap_append]
    exact List.append_nil _
  obtain ⟨⟨u, o, sent, u'⟩, he, hresponse⟩ := List.mem_filterMap.mp hsent
  cases o with
  | respond r =>
    obtain rfl := Option.some.inj hresponse
    obtain ⟨k, hk⟩ := List.mem_iff_getElem?.mp (mem_filterMap_callOf.mp he)
    rw [hentries] at hk
    have hlt : k < ((H.take j).filterMap daemonPart.entry).length :=
      (List.getElem?_eq_some_iff.mp hk).1
    have hall : H.filterMap daemonPart.entry = (H.take j).filterMap daemonPart.entry ++
        (H.drop j).filterMap daemonPart.entry := by
      rw [← List.filterMap_append, List.take_append_drop]
    refine ⟨k, login, method, u, u', sent, hlt, ?_, hasked.mono ?_, ?_⟩
    · rw [hall, List.getElem?_append_left hlt]
      exact hk
    · exact (((List.take_prefix (j + 1) H).sublist.filterMap _).filterMap _).subset
    · refine List.IsPrefix.trans ?_ hlines
      unfold Part.callsOf
      rw [hentries, hall, List.take_append_of_le_length (Nat.le_of_lt hlt)]
      exact ((List.take_prefix k _).filterMap _).filterMap _
  | _ => cases hresponse

end Connection

/-! ### A login -/

namespace Sample

/-- What the session draws. -/
def drawn : Vector UInt8 16 := Vector.replicate 16 7

/-- The login of a session without arguments. -/
def login : Login := ⟨.default, "alice", 1000, "pam-" ++ encodeHex drawn.toList⟩

/-- The line of its request. -/
def loginLine : String := login.line Crates.reference.serde

/-- The grant. -/
def loginGrant : Response := .allow (some login.id) "fido2"

/-- The entry of the grant. -/
def loginEntry : AuditEntry := grantEntry login.id

/-- The entry is in the log. -/
def loginLogged : ServerWorld := grantLogged login.id

/-- The calls of the request. -/
def loginGrantCalls : List (Event ServerWorld ServerOp ServerOp.Ans) := grantCallsOf login.id

/-- The daemon after the request. -/
def loginServed : DaemonWorld := { connected with server := loginLogged }

/-- The daemon after the connection. -/
def loginClosed : DaemonWorld := { loginServed with permits := maxConnections }

/-- The calls of the task before the line. -/
def loginOpening : List ClientEvent :=
  [⟨daemon, .acquireConn, (), connected⟩, ⟨connected, .peerCredentials, .ok 1000, connected⟩,
    ⟨connected, .loadReloadable, reloadable, connected⟩]

/-- The call that receives the line. -/
def loginReceives : ClientEvent := ⟨connected, .nextLine, .line loginLine, connected⟩

/-- The calls of the task that are about the line. -/
def loginPath : List ClientEvent :=
  ⟨connected, .loadReloadable, reloadable, connected⟩ ::
    ⟨connected, .checkRate 1000, true, connected⟩ ::
    loginGrantCalls.map fun e =>
      ⟨{ connected with server := e.before }, .server e.op, e.answer,
        { connected with server := e.after }⟩

/-- The call that sends the grant. -/
def loginResponds : ClientEvent := ⟨loginServed, .respond loginGrant, .ok (), loginServed⟩

/-- The call after that. -/
def loginClosing : List ClientEvent := [⟨loginServed, .releaseConn, (), loginClosed⟩]

/-- All calls of the task. -/
def loginTask : List ClientEvent :=
  loginOpening ++ loginReceives :: (loginPath ++ loginResponds :: loginClosing)

/-- The task of the connection. -/
theorem traces_loginTask : Traces (DaemonStep .reference) (clientTask .reference state 990 1)
    loginTask (.ok ()) := by
  have hread : (Crates.reference.serde.fromStr loginLine).bind Request.deserialize =
      some ⟨protocolVersion, some login.id, "verify_once",
        some (pamParams .default (some 1000))⟩ :=
    readRequest_pamRequestLine (fun _ => rfl) (fun _ => rfl)
  have hmethod : requestMethod (some (pamParams .default (some 1000))) = .ok "fido2" := by rfl
  have hanswer : Traces (DaemonStep .reference)
      (answerLine .reference state 1000 reloadable loginLine)
      (loginPath.drop 2 ++ [loginResponds]) none := by
    rw [answerLine, hread]
    dsimp only
    rw [if_neg (not_not.mpr rfl), answerRequest, if_neg (by decide), if_neg (by decide),
      if_neg (by decide), if_pos rfl, answerVerifyOnce, requestUid_pamParams]
    dsimp only
    rw [if_neg (by decide), hmethod]
    refine traces_bind.mpr
      ⟨_, loginGrant, _, rfl, traces_server connected (traces_grantCallsOf login.id), ?_⟩
    exact traces_call_bind.mpr ⟨_, .ok (), _, _, rfl, rfl, traces_pure.mpr ⟨rfl, rfl⟩⟩
  have hline : Traces (DaemonStep .reference) (handleLine .reference state 990 1000 loginLine)
      (loginPath ++ [loginResponds]) none := by
    refine traces_call_bind.mpr ⟨connected, reloadable, connected, _, rfl, ⟨rfl, rfl⟩, ?_⟩
    rw [isAllowed_caller]
    exact traces_call_bind.mpr ⟨connected, true, connected, _, rfl, rfl, hanswer⟩
  have hclient : Traces (DaemonStep .reference) (handleClient .reference state 990 1)
      (loginOpening.drop 1 ++ loginReceives :: (loginPath ++ [loginResponds])) (.ok ()) := by
    refine traces_call_bind.mpr ⟨connected, .ok 1000, connected, _, rfl, rfl, ?_⟩
    refine traces_call_bind.mpr ⟨connected, reloadable, connected, _, rfl, ⟨rfl, rfl⟩, ?_⟩
    rw [isAllowed_caller]
    refine traces_call_bind.mpr ⟨connected, .line loginLine, connected, _, rfl, rfl, ?_⟩
    exact traces_bind.mpr ⟨_, none, [], (List.append_nil _).symm, hline, traces_pure.mpr ⟨rfl, rfl⟩⟩
  refine traces_call_bind.mpr ⟨daemon, (), connected, _, rfl, ⟨by decide, rfl⟩, ?_⟩
  refine traces_bind.mpr ⟨_, .ok (), loginClosing, ?_, hclient, ?_⟩
  · simp [loginOpening]
  · exact traces_call_bind.mpr ⟨_, (), _, _, rfl, rfl, traces_pure.mpr ⟨rfl, rfl⟩⟩

/-- The bytes of the request. -/
def askedBytes : Bytes := utf8 loginLine ++ [newline]

/-- The bytes of the response. -/
def answeredBytes : Bytes := loginGrant.wire Crates.reference.serde ++ [newline]

/-- The socket after the request was written. -/
def asked : Socket := ⟨⟨askedBytes, 0, false⟩, .empty⟩

/-- The socket after the request was received. -/
def received : Socket := ⟨⟨askedBytes, (utf8 loginLine).length + 1, false⟩, .empty⟩

/-- The socket after the response was written and `n` bytes of it were read. -/
def answered (n : ℕ) : Socket :=
  ⟨⟨askedBytes, (utf8 loginLine).length + 1, false⟩, ⟨answeredBytes, n, false⟩⟩

/-- The socket after the session. -/
def finished : Socket :=
  ⟨⟨askedBytes, (utf8 loginLine).length + 1, true⟩, ⟨answeredBytes, answeredBytes.length, false⟩⟩

/-- The daemon, and the socket of the first connection. -/
def system (d : DaemonWorld) (s : Socket) : SystemWorld := ⟨d, Function.update (fun _ => .new) 0 s⟩

/-- All clients run as one user. -/
def loginUids (_ : ℕ) : UInt32 := 1000

/-- A step of the task. -/
theorem systemStep_task {d d' : DaemonWorld} {s s' : Socket} {o : ClientOp} {x : o.Ans}
    (hd : DaemonStep .reference d o x d')
    (hs : s.TaskStep Crates.reference.serde 1000 o x s') :
    SystemStep .reference loginUids (system d s) (.task 0 o) x (system d' s') :=
  ⟨hd, s', by simpa [system, loginUids] using hs, by simp [system]⟩

/-- A step of the session. -/
theorem systemStep_peer {d : DaemonWorld} {s s' : Socket} {o : PamOp} {x : o.Ans}
    (hs : s.PeerStep o x s') :
    SystemStep .reference loginUids (system d s) (.peer 0 o) x (system d s') :=
  ⟨rfl, s', by simpa [system] using hs, by simp [system]⟩

/-- The calls of the session up to the request. -/
def sessionOpening : List PamEvent :=
  let w := system daemon .new
  [⟨w, .getUser, some ⟨utf8 "alice", by decide⟩, w⟩, ⟨w, .getpwnam "alice" 16384, .found 1000, w⟩,
    ⟨w, .connect defaultSocketPath defaultTimeoutMs, .ok (), w⟩,
    ⟨w, .setReadTimeout defaultTimeoutMs, .ok (), w⟩,
    ⟨w, .setWriteTimeout defaultTimeoutMs, .ok (), w⟩, ⟨w, .fill, some drawn, w⟩,
    ⟨w, .writeAll askedBytes, .ok (), system daemon asked⟩]

/-- The last call of the session. -/
def sessionClose : PamEvent :=
  ⟨system loginClosed (answered answeredBytes.length), .close, (), system loginClosed finished⟩

/-- The request is written. -/
theorem peerStep_asked : Socket.new.PeerStep (.writeAll askedBytes) (.ok ()) asked := by
  change asked = _
  simp [asked, Socket.new, Pipe.write, Pipe.empty]

/-- The response is short. -/
theorem length_wire_loginGrant : (loginGrant.wire Crates.reference.serde).length ≤ 64 * 1024 := by
  have hserialize : loginGrant.serialize = .obj [("version", .num (natNumber 1)),
      ("id", .str login.id),
      ("result", .obj [("decision", .str "allow"), ("method", .str "fido2")]),
      ("error", .null)] := rfl
  have hkeys := Json.escapedLength_keys_le ["version", "id", "result", "error"] (n := 13)
    (by decide)
  have hobj := Json.byteLength_print_obj_le (l := [("version", .num (natNumber 1)),
    ("id", .str login.id), ("result", .obj [("decision", .str "allow"), ("method", .str "fido2")]),
    ("error", .null)]) (a := 78) (by simpa using hkeys)
  have hresultKeys := Json.escapedLength_keys_le ["decision", "method"] (n := 13) (by decide)
  have hresult := Json.byteLength_print_obj_le (l := [("decision", Json.str "allow"),
    ("method", Json.str "fido2")]) (a := 78) (by simpa using hresultKeys)
  have hversion := byteLength_print_num_le (n := 1) (by norm_num)
  have hidLength : login.id.length ≤ 36 := by
    rw [login, String.length_append, length_encodeHex]
    decide
  have hid := Json.byteLength_print_str_le hidLength
  have hallow := Json.byteLength_print_str_le (s := "allow") (n := 20) (by decide)
  have hmethod := Json.byteLength_print_str_le (s := "fido2") (n := 20) (by decide)
  have hnull : byteLength Json.null.print = 4 := by decide
  simp only [List.foldr_cons, List.foldr_nil] at hobj hresult
  rw [Response.wire, length_toString_reference, hserialize]
  linarith

/-- The response is taken for an allow. -/
theorem interpretResponse_loginGrant : interpretResponse Crates.reference.serde
    (Crates.reference.serde.toString loginGrant.serialize) login.id = .allow := by
  have hto : Crates.reference.serde.toString = Json.compact := rfl
  have hfrom : Crates.reference.serde.fromStr = Json.parse := rfl
  rw [interpretResponse, hto, hfrom, Response.serialize, trim_compact_obj, Json.parse_compact]
  exact (interpretValue_allow (some login.id) "fido2").trans (if_pos rfl)

/-- What a step of the session does. -/
def sessionStep (w : SystemWorld) (o : PamOp) (x : o.Ans) (w' : SystemWorld) : Prop :=
  SystemStep .reference loginUids w (.peer 0 o) x w'

/-- The response is read. -/
theorem traces_sessionRead : Traces sessionStep (pamReadLine fun _ => "invalid utf-8 sequence")
    (reads (fun n => system loginClosed (answered n)) 0 answeredBytes)
    (.ok (Crates.reference.serde.toString loginGrant.serialize)) := by
  refine traces_pamReadLine_reads (SerdeJson.newline_not_mem_toString _ _)
    length_wire_loginGrant fun m byte hm => systemStep_peer ⟨?_, rfl⟩
  rw [Pipe.rest, List.head?_drop]
  exact hm

section Session

variable {closing : List PamEvent}

/-- The exchange ends with an allow. -/
theorem traces_sessionExchange (hread : Traces sessionStep
      (pamReadLine fun _ => "invalid utf-8 sequence") closing
      (.ok (Crates.reference.serde.toString loginGrant.serialize))) :
    Traces sessionStep
      (exchange Crates.reference.serde (fun _ => "invalid utf-8 sequence") .default (some 1000))
      (sessionOpening.drop 3 ++ closing) .allow := by
  refine traces_call_bind.mpr ⟨_, .ok (), _, _, rfl, systemStep_peer rfl, ?_⟩
  refine traces_call_bind.mpr ⟨_, .ok (), _, _, rfl, systemStep_peer rfl, ?_⟩
  refine traces_bind.mpr ⟨[_], .ok login.id, _, rfl, ?_, ?_⟩
  · exact traces_call_bind.mpr ⟨_, some drawn, _, _, rfl, systemStep_peer rfl,
      traces_pure.mpr ⟨rfl, rfl⟩⟩
  refine (traces_call_bind (o := PamOp.writeAll askedBytes)).mpr
    ⟨system daemon .new, Except.ok (), system daemon asked, _, rfl,
      systemStep_peer peerStep_asked, ?_⟩
  refine traces_bind.mpr ⟨_, _, [], (List.append_nil _).symm, hread, ?_⟩
  exact traces_pure.mpr ⟨rfl, interpretResponse_loginGrant.symm⟩

/-- The session succeeds. -/
theorem traces_session (hexchange : Traces sessionStep
      (exchange Crates.reference.serde (fun _ => "invalid utf-8 sequence") .default (some 1000))
      (sessionOpening.drop 3 ++ closing) .allow) :
    Traces sessionStep
      (pamSmAuthenticate Crates.reference.serde (fun _ => "invalid utf-8 sequence") 0 none)
      (sessionOpening ++ (closing ++ [sessionClose])) 0 := by
  have hargs : parseArgv 0 none = .ok .default := rfl
  have hname : fromUtf8 (utf8 "alice") = some "alice" := fromUtf8_utf8 _
  have hzero : 0 ∉ utf8 "alice" := by decide
  unfold pamSmAuthenticate
  rw [hargs]
  refine traces_bind.mpr ⟨[_], some "alice", _, rfl, ?_, ?_⟩
  · exact traces_call_bind.mpr ⟨_, some ⟨utf8 "alice", hzero⟩, _, _, rfl, systemStep_peer rfl,
      traces_pure.mpr ⟨rfl, hname.symm⟩⟩
  refine traces_bind.mpr ⟨[_], some 1000, _, rfl, ?_, ?_⟩
  · rw [uidForUser, if_neg hzero]
    exact traces_call_bind.mpr ⟨_, .found 1000, _, _, rfl, systemStep_peer rfl,
      traces_pure.mpr ⟨rfl, rfl⟩⟩
  refine traces_bind.mpr ⟨_, .allow, [], (List.append_nil _).symm, ?_, traces_pure.mpr ⟨rfl, rfl⟩⟩
  refine traces_call_bind.mpr ⟨_, .ok (), _, _, rfl, systemStep_peer rfl, ?_⟩
  refine traces_bind.mpr ⟨_, .allow, [sessionClose], ?_, hexchange, ?_⟩
  · exact (List.append_assoc (sessionOpening.drop 3) _ _).symm
  · exact traces_call_bind.mpr ⟨_, (), _, _, rfl, systemStep_peer rfl, traces_pure.mpr ⟨rfl, rfl⟩⟩

end Session

/-- The calls of the session after the response. -/
def sessionClosing : List PamEvent :=
  reads (fun n => system loginClosed (answered n)) 0 answeredBytes ++ [sessionClose]

/-- A call of the session, in the system. -/
def sessionCall (e : PamEvent) : Event SystemWorld SystemOp SystemOp.Ans :=
  ⟨e.before, .peer 0 e.op, e.answer, e.after⟩

/-- A call of the task, in the system with the given socket. -/
def taskCall (s : Socket) (e : ClientEvent) : Event SystemWorld SystemOp SystemOp.Ans :=
  ⟨system e.before s, .task 0 e.op, e.answer, system e.after s⟩

/-- The calls of the task, in the system. -/
def systemTask : List (Event SystemWorld SystemOp SystemOp.Ans) :=
  loginOpening.map (taskCall asked) ++
    ⟨system connected asked, .task 0 .nextLine, .line loginLine, system connected received⟩ ::
    (loginPath.map (taskCall received) ++
      ⟨system loginServed received, .task 0 (.respond loginGrant), .ok (),
        system loginServed (answered 0)⟩ :: loginClosing.map (taskCall (answered 0)))

/-- The calls of the session are calls in the system. -/
theorem lifts_session {tr : List PamEvent}
    (h : ∀ e ∈ tr, sessionStep e.before e.op e.answer e.after) :
    List.Forall₂ (peerPart.Lifts (SystemStep .reference loginUids) 0) tr (tr.map sessionCall) := by
  rw [List.forall₂_map_right_iff, List.forall₂_same]
  rintro ⟨w, o, x, w'⟩ he
  exact Part.Lifts.intro (P := peerPart) w o x w' (h _ he)

/-- A call of the task is a call in the system. -/
theorem lifts_call {s s' : Socket} {d d' : DaemonWorld} {o : ClientOp} {x : o.Ans}
    (hd : DaemonStep .reference d o x d') (hs : s.TaskStep Crates.reference.serde 1000 o x s') :
    daemonPart.Lifts (SystemStep .reference loginUids) 0 ⟨d, o, x, d'⟩
      ⟨system d s, .task 0 o, x, system d' s'⟩ :=
  Part.Lifts.intro (P := daemonPart) (system d s) o x (system d' s') (systemStep_task hd hs)

/-- Calls of the task that leave its socket alone are calls in the system. -/
theorem lifts_task {s : Socket} {tr : List ClientEvent}
    (hd : ∀ e ∈ tr, DaemonStep .reference e.before e.op e.answer e.after)
    (hs : ∀ e ∈ tr, s.TaskStep Crates.reference.serde 1000 e.op e.answer s) :
    List.Forall₂ (daemonPart.Lifts (SystemStep .reference loginUids) 0) tr
      (tr.map (taskCall s)) := by
  rw [List.forall₂_map_right_iff, List.forall₂_same]
  exact fun e he => lifts_call (hd e he) (hs e he)

/-- The calls of the task are calls in the system. -/
theorem lifts_systemTask : List.Forall₂
    (daemonPart.Lifts (SystemStep .reference loginUids) 0) loginTask systemTask := by
  have hd : ∀ e ∈ loginTask, DaemonStep .reference e.before e.op e.answer e.after :=
    traces_loginTask.step_of_mem
  rw [loginTask, List.forall_mem_append, List.forall_mem_cons, List.forall_mem_append,
    List.forall_mem_cons] at hd
  obtain ⟨hopening, hreceives, hpath, hresponds, hclosing⟩ := hd
  have hbrace : (utf8 loginLine).getLast? = some 125 := getLast?_pamRequestLine fun _ => rfl
  have hnext : asked.toDaemon.nextLine = some (utf8 loginLine, received.toDaemon) :=
    Pipe.nextLine_of_line (SerdeJson.newline_not_mem_toString _ _) (by simp [hbrace]) rfl rfl
  have hanswered : answered 0 =
      { received with toPeer := received.toPeer.write answeredBytes } := by
    simp [answered, received, Pipe.write, Pipe.empty]
  refine List.rel_append (lifts_task hopening ?_) (.cons (lifts_call hreceives ?_)
    (List.rel_append (lifts_task hpath ?_) (.cons (lifts_call hresponds hanswered)
      (lifts_task hclosing ?_))))
  · exact List.forall_mem_cons.mpr ⟨rfl, List.forall_mem_cons.mpr
      ⟨⟨fun uid huid => (Except.ok.inj huid).symm, rfl⟩, List.forall_mem_singleton.mpr rfl⟩⟩
  · exact ⟨_, _, hnext, fromUtf8_utf8 _, rfl⟩
  · refine List.forall_mem_cons.mpr ⟨rfl, List.forall_mem_cons.mpr ⟨rfl, fun e he => ?_⟩⟩
    obtain ⟨e', -, rfl⟩ := List.mem_map.mp he
    exact rfl
  · exact List.forall_mem_singleton.mpr rfl

/-- The history of a login. -/
def loginHistory : SystemHistory :=
  (sessionOpening.map sessionCall).map (.step (peerPart.index 0)) ++
    systemTask.map (.step (daemonPart.index 0)) ++
    (sessionClosing.map sessionCall).map (.step (peerPart.index 0)) ++
    [.ret (peerPart.index 0) (.inr 0)]

/-- The calls of the session follow one another. -/
theorem linked_reads (σ : ℕ → SystemWorld) (k : ℕ) (bytes : Bytes) :
    Program.Linked (σ k) (reads σ k bytes) (σ (k + bytes.length)) := by
  induction bytes generalizing k with
  | nil => exact rfl
  | cons byte bytes ih =>
    refine ⟨rfl, ?_⟩
    rw [List.length_cons, show k + (bytes.length + 1) = k + 1 + bytes.length by omega]
    exact ih (k + 1)

/-- The calls of the task follow one another. -/
theorem linked_systemTask :
    Program.Linked (system daemon asked) systemTask (system loginClosed (answered 0)) := by
  have hmap : ∀ (s : Socket) {d d' : DaemonWorld} {tr : List ClientEvent}, Program.Linked d tr d' →
      Program.Linked (system d s) (tr.map (taskCall s)) (system d' s) :=
    fun s _ _ _ h => linked_map (g := fun d => system d s) (fun _ => rfl) (fun _ => rfl) h
  have hopening : Program.Linked daemon loginOpening connected := ⟨rfl, rfl, rfl, rfl⟩
  have hpath : Program.Linked connected loginPath loginServed := by
    have hserver : { connected with server := idle } = connected := rfl
    simp [loginPath, loginGrantCalls, grantCallsOf, dispatchCalls, loginServed, loginLogged,
      Program.Linked, hserver]
  refine linked_append (hmap asked hopening) ⟨rfl, linked_append (hmap received hpath) ⟨rfl, ?_⟩⟩
  exact ⟨rfl, rfl⟩

/-- The number of the arguments. -/
def argc (_ : ℕ) : Int32 := 0

/-- There are none. -/
def argv (_ : ℕ) : Option (ℕ → Option CStr) := none

/-- All clients are sessions. -/
def sessions (i : ℕ) : PamProg Int32 :=
  pamSmAuthenticate Crates.reference.serde (fun _ => "invalid utf-8 sequence") (argc i) (argv i)

/-- A run of the system in which a user logs in. -/
theorem exec_loginHistory : ∃ w procs, Exec (SystemStep .reference loginUids)
    (SystemEnv (fun _ => .ok []) state.config)
    (systemProgs (fun _ => clientTask .reference state 990 1) sessions)
    (system daemon .new) w procs loginHistory := by
  have hsession := traces_session (traces_sessionExchange traces_sessionRead)
  obtain ⟨p, hopening, hclosing⟩ := hsession.split
  have hstart : Exec (SystemStep .reference loginUids) (SystemEnv (fun _ => .ok []) state.config)
      (systemProgs (fun _ => clientTask .reference state 990 1) sessions) (system daemon .new)
      (system daemon .new) _ [] := .start
  have hwrites : Program.Linked (system daemon .new) (sessionOpening.map sessionCall)
      (system daemon asked) := ⟨rfl, rfl, rfl, rfl, rfl, rfl, rfl, rfl⟩
  have hreads : Program.Linked (system loginClosed (answered 0)) (sessionClosing.map sessionCall)
      (system loginClosed finished) := by
    refine linked_map (f := sessionCall) (g := id) (fun _ => rfl) (fun _ => rfl) ?_
    have hread := linked_reads (fun n => system loginClosed (answered n)) 0 answeredBytes
    rw [Nat.zero_add] at hread
    exact linked_append hread ⟨rfl, rfl⟩
  have hasked := hstart.append_steps (i := peerPart.index 0)
    (Part.steps_lift hopening (lifts_session hopening.step_of_mem)) (systemProgs_peer 0) hwrites
  have hserved := hasked.append_steps (i := daemonPart.index 0)
    (Part.steps_lift traces_loginTask lifts_systemTask)
    ((Function.update_of_ne (index_ne 0 0) _ _).trans (systemProgs_task 0)) linked_systemTask
  have hdone := hserved.append_steps (i := peerPart.index 0)
    (Part.steps_lift hclosing (lifts_session hclosing.step_of_mem))
    ((Function.update_of_ne (index_ne 0 0).symm _ _).trans (Function.update_self ..)) hreads
  exact ⟨_, _, hdone.ret (i := peerPart.index 0) (Function.update_self ..) (by simp)⟩

/-- What the daemon does in this run. -/
theorem filterMap_entry_loginHistory :
    loginHistory.filterMap daemonPart.entry = loginTask.map (.step 0) := by
  have hsession : ¬ daemonPart.Inside (peerPart.index 0) :=
    fun ⟨i, hi⟩ => index_ne i 0 hi.symm
  rw [loginHistory, List.filterMap_append, List.filterMap_append, List.filterMap_append,
    Part.filterMap_entry_of_not_inside hsession, Part.filterMap_entry_of_not_inside hsession,
    Part.filterMap_entry_of_lifts lifts_systemTask, List.nil_append, List.append_nil]
  exact List.append_nil _

end Sample

end OlaCore
