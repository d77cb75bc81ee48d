import OlaCore.Ipc.Exchanges
import OlaCore.Pam.Session

set_option relaxedAutoImplicit false
set_option autoImplicit false

/-!
# The daemon's answers to the PAM module

The daemon reads the request of the PAM module back as it was written. As long as the lines of a
client are requests with one identifier, the task of its connection answers them with grants,
refusals and errors that have this identifier or none.

## Main definitions

* `OlaCore.AsksVerifyOnce` — a `verify_once` request with an identifier.

## Main results

* `OlaCore.readRequest_pamRequestLine` — the request of the PAM module is read back.
* `OlaCore.guarantees_clientTask_answers` — the answers to requests with one identifier.
-/

namespace OlaCore

open ByteText Program

/-! ## The request -/

section Request

variable {crates : Crates} {config : PamOlaConfig} {uid : UInt32} {id : String}

/-- **The request of the PAM module is read back** by the daemon as it was written. -/
theorem readRequest_pamRequestLine (hparse : ∀ s, crates.serde.fromStr s = Json.parse s)
    (hprint : ∀ j, crates.serde.toString j = Json.compact j) :
    readRequest crates (pamRequestLine crates.serde config (some uid) id) =
      some ⟨protocolVersion, some id, "verify_once", some (pamParams config (some uid))⟩ := by
  have hdocument : crates.serde.fromStr (pamRequestLine crates.serde config (some uid) id) =
      some (pamRequest config (some uid) id) := by
    rw [pamRequestLine, hparse, hprint, Json.parse_compact]
  rw [readRequest, hdocument]
  simp [pamRequest, pamParams, Request.deserialize, structFields, requiredField, optionalStr,
    optionalValue, deserializeU8, deserializeNat, deserializeStr, natNumber, protocolVersion,
    List.lookup_cons]

/-- The user that the request is for: the client's own, unless the client is root. -/
theorem requestUid_pamParams (callerUid : UInt32) :
    requestUid callerUid (some (pamParams config (some uid))) =
      .ok (if callerUid = 0 then uid else callerUid) := by
  have hlt : uid.toNat < 2 ^ 32 := uid.toNat_lt
  have huid : (some (pamParams config (some uid))).bind (fun p => p.get "uid") =
      some (.num (natNumber uid.toNat)) := by
    simp [pamParams, Json.get]
  unfold requestUid
  by_cases hroot : callerUid = 0
  · rw [if_neg (not_not.mpr hroot), if_pos hroot, huid]
    dsimp only
    rw [deserializeNat_natNumber (by omega)]
    dsimp only
    rw [if_neg (by omega), UInt32.ofNat_toNat]
  · rw [if_pos hroot, if_neg hroot]

/-- The method that the request asks for. -/
theorem requestMethod_pamParams {method : String}
    (h : requestMethod (some (pamParams config (some uid))) = .ok method) :
    method = config.method := by
  have hmethod : (pamParams config (some uid)).get "method" = some (.str config.method) := by
    simp [pamParams, Json.get, List.lookup_cons]
  unfold requestMethod pamParams at h
  rw [pamParams] at hmethod
  simp only [hmethod, deserializeStr] at h
  split at h
  · cases h
  · exact (Except.ok.inj h).symm

/-- The line of the request ends with a brace. -/
theorem getLast?_pamRequestLine (hprint : ∀ j, crates.serde.toString j = Json.compact j) :
    (utf8 (pamRequestLine crates.serde config (some uid) id)).getLast? = some 125 := by
  obtain ⟨cs, hcs⟩ := List.getLast?_eq_some_iff.mp (Json.getLast?_print_obj
    [("id", .str id), ("method", .str "verify_once"), ("params", pamParams config (some uid)),
      ("version", .num (natNumber 1))])
  rw [pamRequestLine, hprint, pamRequest, Json.compact, hcs, utf8_ofList, List.flatMap_append]
  have hbrace : ['\x7d'].flatMap String.utf8EncodeChar = [125] := by decide
  rw [hbrace, List.getLast?_append]
  rfl

end Request

/-! ## The answers -/

/-- A line that holds a `verify_once` request with the identifier. -/
def AsksVerifyOnce (crates : Crates) (i line : String) : Prop :=
  ∃ req, readRequest crates line = some req ∧ req.method = "verify_once" ∧ req.id = some i

/-- A line of the client asks with the identifier. -/
def AsksWithId (crates : Crates) (i : String) : (o : ClientOp) → o.Ans → Prop
  | .nextLine, .line line => AsksVerifyOnce crates i line
  | _, _ => True

/-- A response answers the request with the identifier. -/
def AnswersWithId (i : String) : ClientOp → Prop
  | .respond response => AnswersVerifyOnce i response
  | _ => True

section Path

variable {crates : Crates} {state : ServerState} {reloadable : ReloadableState} {i : String}
  {ownUid callerUid uid : UInt32}

/-- An exit refuses, or fails. -/
theorem returns_denyExit_answers {method reason clientReason : String} {adapterName : Option String}
    {result : Option VerificationResult} :
    (denyExit callerUid uid (some i) method reason adapterName result clientReason).Returns
      (AnswersVerifyOnce i) := by
  intro nowMs answer
  rcases answer with _ | _
  · exact .error _ _ (.inl rfl)
  · exact .deny _ _ (.inl rfl)

/-- So do the gates, or they allow. -/
theorem returns_checkResult_answers {resolved : ResolvedAdapter} {request : VerificationRequest}
    {result : VerificationResult} :
    (checkResult crates state reloadable callerUid uid (some i) resolved request result).Returns
      (AnswersVerifyOnce i) := by
  unfold checkResult
  dsimp only
  split
  · exact returns_bind_of_forall fun _ => returns_denyExit_answers
  refine returns_bind_of_forall fun nowMs => ?_
  split
  · exact returns_bind_of_forall fun _ => returns_denyExit_answers
  refine returns_bind_of_forall fun consumed => ?_
  rcases consumed with _ | _
  · exact returns_denyExit_answers
  dsimp only
  split
  · exact returns_denyExit_answers
  split
  · exact returns_denyExit_answers
  refine returns_bind_of_forall fun decision nowMs answer => ?_
  rcases answer with _ | _
  · exact .error _ _ (.inl rfl)
  · cases decision with
    | allow => exact .allow _ _ (.inl rfl)
    | deny reason => exact .deny _ _ (.inl rfl)

/-- **The request path** answers with a grant, a refusal or an error. -/
theorem returns_handleVerifyOnce_answers {method : String} :
    (handleVerifyOnce crates state reloadable callerUid uid (some i) method).Returns
      (AnswersVerifyOnce i) := by
  refine returns_bind_of_forall fun resolution => ?_
  rcases resolution with _ | resolved
  · exact returns_denyExit_answers
  refine returns_bind_of_forall fun generated => ?_
  rcases generated with _ | nonce
  · exact returns_denyExit_answers
  refine returns_bind_of_forall fun now => returns_bind_of_forall fun id =>
    returns_bind_of_forall fun nowMs => returns_bind_of_forall fun reply => ?_
  rcases reply with _ | result
  · exact returns_bind_of_forall fun _ => returns_denyExit_answers
  · exact returns_checkResult_answers

/-- An answer is sent. -/
theorem guarantees_respondThen_answers {response : Response} {next : Option (Except String Unit)}
    (h : AnswersVerifyOnce i response) :
    (respondThen response next).Guarantees (AsksWithId crates i) (AnswersWithId i)
      fun _ => True := by
  refine guarantees_call_bind h fun sent _ => ?_
  rcases sent with _ | _ <;> exact guarantees_pure trivial

/-- A request is answered. -/
theorem guarantees_answerLine_answers {line : String} (hline : AsksVerifyOnce crates i line) :
    (answerLine crates state callerUid reloadable line).Guarantees (AsksWithId crates i)
      (AnswersWithId i) fun _ => True := by
  obtain ⟨req, hread, hverify, hid⟩ := hline
  unfold readRequest at hread
  unfold answerLine
  rw [hread]
  dsimp only
  split
  · exact guarantees_respondThen_answers (.error _ _ (.inl hid))
  unfold answerRequest
  rw [hverify, if_neg (by decide), if_neg (by decide), if_neg (by decide), if_pos rfl]
  unfold answerVerifyOnce
  split
  · exact guarantees_respondThen_answers (.error _ _ (.inl hid))
  split
  · exact guarantees_respondThen_answers (.error _ _ (.inl hid))
  rw [hid]
  have hserver : ∀ p : ServerProg Response, p.Returns (AnswersVerifyOnce i) →
      (ClientProg.server p).Guarantees (AsksWithId crates i) (AnswersWithId i)
        (AnswersVerifyOnce i) := by
    intro p hp
    induction p with
    | pure response => exact hp
    | op o k ih => exact ⟨trivial, fun x _ => ih x (hp x)⟩
  exact guarantees_bind (hserver _ returns_handleVerifyOnce_answers) fun response hresponse =>
    guarantees_respondThen_answers hresponse

/-- **The answers to requests with one identifier.** As long as all lines of a client are
`verify_once` requests with the identifier, the task of the connection sends grants, refusals and
errors only, and these have the identifier or none. -/
theorem guarantees_clientTask_answers (n : ℕ) :
    (clientTask crates state ownUid n).Guarantees (AsksWithId crates i) (AnswersWithId i)
      fun _ => True := by
  have hloop : ∀ callerUid, (clientLoop crates state ownUid callerUid n).Guarantees
      (AsksWithId crates i) (AnswersWithId i) fun _ => True := by
    intro callerUid
    induction n with
    | zero => exact guarantees_pure trivial
    | succ n ih =>
      refine guarantees_call_bind trivial fun input hinput => ?_
      rcases input with _ | _ | _ | line
      · exact guarantees_pure trivial
      · exact guarantees_pure trivial
      · exact guarantees_pure trivial
      refine guarantees_bind (R := fun _ => True) ?_ fun r _ => ?_
      · refine guarantees_call_bind trivial fun reloadable _ => ?_
        split
        · exact guarantees_pure trivial
        refine guarantees_call_bind trivial fun admitted _ => ?_
        cases admitted
        · exact guarantees_respondThen_answers (.error _ _ (.inr rfl))
        · exact guarantees_answerLine_answers hinput
      · cases r with
        | none => exact ih
        | some r => exact guarantees_pure trivial
  refine guarantees_call_bind trivial fun _ _ => guarantees_bind (R := fun _ => True) ?_
    fun _ _ => guarantees_call_bind trivial fun _ _ => guarantees_pure trivial
  refine guarantees_call_bind trivial fun peer _ => ?_
  rcases peer with _ | callerUid
  · exact guarantees_pure trivial
  refine guarantees_call_bind trivial fun reloadable _ => ?_
  split
  · exact guarantees_pure trivial
  · exact hloop callerUid

end Path

end OlaCore
