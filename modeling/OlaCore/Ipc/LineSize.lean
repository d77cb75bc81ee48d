import OlaCore.Ipc.AuditLines
import OlaCore.Ipc.Connection
import OlaCore.Lib.JsonSize

set_option relaxedAutoImplicit false
set_option autoImplicit false

/-!
# Do audit lines fit in the recovery window?

Recovery reads the last `auditRecoveryWindowBytes` bytes of the log, and finds the last line only if
it is whole in there. Two texts from outside reach an audit line: the identifier of a request, which
is a part of a line of at most `maxLineBytes`, and the error text of an adapter's reply of at most
`maxResponseBytes`. Both are escaped when they are written.

## Main definitions

* `OlaCore.SizedTexts` — what the size of the texts of `serde_json` depends on.
* `OlaCore.AnswersWithinLimits` — the answers of sockets that the limits allow.
* `OlaCore.AuditEntry.Fits` — entries whose texts are short enough.

## Main results

* `OlaCore.AuditEntry.Fits.length_line_lt` — the lines of such entries are shorter than the window.
* `OlaCore.guarantees_handleVerifyOnce` — the entries of the request path are such entries.
* `OlaCore.audit_line_fits_recovery_window` — the last line can always be found.
-/

open ByteText Program Json

namespace OlaCore

/-- The longest line of a client. -/
def maxLineBytes : ℕ := 512 * 1024

/-- The longest line of an adapter. -/
def maxResponseBytes : ℕ := 64 * 1024

/-- What the size of the texts of `serde_json` depends on: a text that is read is a text of the
grammar, the output is compact and escapes character by character, a number is written in a bounded
number of digits, and an error text quotes at most a part of what was read. -/
structure SizedTexts (serde : SerdeJson) : Prop where
  parse : ∀ {s j}, serde.fromStr s = some j → Json.parse s = some j
  compact : ∀ j, serde.toString j = j.compact
  f32Number : ∀ x : Binary32, x.isFinite → byteLength (serde.f32Number x).chars ≤ 1024
  errorText : ∀ s, escapedLength (serde.errorText s) ≤ 7 * (utf8 s).length + 1024

/-- The names in a registry have at most `maxNameLen` bytes. -/
def AdapterRegistry.ShortNames (reg : AdapterRegistry) : Prop :=
  ∀ method client, reg.clients.lookup method = some client →
    (utf8 method).length ≤ maxNameLen ∧ (utf8 client.name).length ≤ maxNameLen

/-- The longest error text of a socket, escaped. -/
def maxErrorText : ℕ := 1024

/-- The answers that the limits allow: an adapter's line has at most `maxResponseBytes`, and the
error texts of sockets at most `maxErrorText`. -/
def AnswersWithinLimits : (o : ServerOp) → o.Ans → Prop
  | .connect _ _, answer => ∀ text, answer = Except.error (.error text) →
      escapedLength text ≤ maxErrorText
  | .peerUid, answer => ∀ text, answer = Except.error text → escapedLength text ≤ maxErrorText
  | .send _ _, answer => ∀ text, answer = Except.error (.error text) →
      escapedLength text ≤ maxErrorText
  | .recv _, answer => (∀ text, answer = some (.line text) →
      (utf8 text).length ≤ maxResponseBytes) ∧
      ∀ text, answer = some (.error text) → escapedLength text ≤ maxErrorText
  | _, _ => True

/-! ## The size of a stored entry -/

/-- The longest name, escaped. -/
def maxEscapedName : ℕ := 6 * maxNameLen

/-- The longest reason of a refusal, escaped. -/
def maxEscapedReason : ℕ := 7 * maxResponseBytes + 8192

/-- A text of a thousand characters is short enough for a reason. -/
theorem escapedLength_le_maxEscapedReason {s : String} (h : s.length ≤ 1000) :
    escapedLength s ≤ maxEscapedReason := by
  have hesc := escapedLength_le s
  have hlongest : maxEscapedReason = 466944 := rfl
  omega

/-- An entry whose texts are short enough. -/
structure AuditEntry.Fits (e : AuditEntry) : Prop where
  requestId : ∀ s, e.requestId = some s → escapedLength s ≤ maxLineBytes
  adapterName : ∀ s, e.adapterName = some s → escapedLength s ≤ maxEscapedName
  method : escapedLength e.method ≤ maxEscapedName
  decision : escapedLength e.decision ≤ maxEscapedName
  denyReason : ∀ s, e.denyReason = some s → escapedLength s ≤ maxEscapedReason
  evidenceHash : escapedLength e.evidenceHash ≤ maxEscapedName
  noncePrefix : escapedLength e.noncePrefix ≤ maxEscapedName

section Size

variable {crates : Crates} {e : AuditEntry}

/-- The hexadecimal form has two characters for each byte. -/
theorem length_encodeHex (bytes : Bytes) : (encodeHex bytes).length = 2 * bytes.length := by
  rw [encodeHex, String.length_ofList]
  induction bytes with
  | nil => rfl
  | cons b bs ih =>
    rw [List.flatMap_cons, List.length_append, ih, List.length_cons, List.length_cons,
      List.length_cons, List.length_nil]
    omega

/-- The hexadecimal form of at most 32 bytes is short. -/
theorem escapedLength_encodeHex_le {bytes : Bytes} (h : bytes.length ≤ 32) :
    escapedLength (encodeHex bytes) ≤ maxEscapedName := by
  have hesc := escapedLength_le (encodeHex bytes)
  rw [length_encodeHex] at hesc
  simp only [maxEscapedName, maxNameLen]
  omega

/-- The text of a single-precision number. -/
theorem SizedTexts.byteLength_serializeF32_le (hserde : SizedTexts crates.serde) (x : Binary32) :
    byteLength (crates.serde.serializeF32 x).print ≤ 1024 := by
  unfold SerdeJson.serializeF32
  split
  · next hfin => exact hserde.f32Number x hfin
  · decide

/-- **The line of an entry with short texts is shorter than the recovery window.** -/
theorem AuditEntry.Fits.length_line_lt (h : e.Fits) (hserde : SizedTexts crates.serde)
    {prevHash : String} (hprev : isLowerHexHash prevHash) :
    ((e.seal crates prevHash).line crates.serde).length < auditRecoveryWindowBytes := by
  have hsize := AuditEntry.length_line_seal_le (e := e) hserde.compact hprev
  have hid := byteLength_print_serializeOptionStr_le h.requestId
  have hname := byteLength_print_serializeOptionStr_le h.adapterName
  have hreason := byteLength_print_serializeOptionStr_le h.denyReason
  have hconf := hserde.byteLength_serializeF32_le e.confidence
  have hmethod := h.method
  have hdecision := h.decision
  have hevidence := h.evidenceHash
  have hnonce := h.noncePrefix
  have hline : maxLineBytes = 524288 := rfl
  have hlongest : maxEscapedReason = 466944 := rfl
  have hnames : maxEscapedName = 384 := rfl
  have hwindow : auditRecoveryWindowBytes = 1048576 := rfl
  omega

end Size

/-! ## Where the texts come from -/

/-- A string that is a field of a value takes no more bytes than the value. -/
theorem escapedLength_le_of_optionalStr {names : List String} {deny : Bool} {j : Json}
    {fs : List (String × Json)} (hfs : structFields names deny j = some fs) {name s : String}
    (hs : optionalStr fs name = some (some s)) : escapedLength s ≤ byteLength j.print := by
  have hmem : (name, Json.str s) ∈ fs := by
    unfold optionalStr at hs
    split at hs
    · cases hs
    · cases hs
    · next hlookup =>
      obtain rfl := Option.some.inj (Option.some.inj hs)
      obtain ⟨l₁, l₂, rfl, -⟩ := List.lookup_eq_some_iff.mp hlookup
      simp
    · cases hs
  have hquote : escapedLength s + 2 = byteLength (Json.str s).print := (byteLength_quote s).symm
  cases j with
  | obj ms =>
    simp only [structFields] at hfs
    split at hfs
    · obtain rfl := Option.some.inj hfs
      have hle := byteLength_print_of_mem_obj (List.mem_filter.mp hmem).1
      dsimp only at hle
      omega
    · cases hfs
  | arr vs =>
    simp only [structFields] at hfs
    split at hfs
    · obtain rfl := Option.some.inj hfs
      have hle := byteLength_print_of_mem_arr (List.of_mem_zip hmem).2
      omega
    · cases hfs
  | _ => cases hfs

/-- **The identifier of a request** takes, escaped, no more bytes than the line it came in. -/
theorem SizedTexts.escapedLength_id_le {serde : SerdeJson} (hserde : SizedTexts serde)
    {line : String} {req : Request}
    (h : (serde.fromStr line).bind Request.deserialize = some req) {s : String}
    (hs : req.id = some s) : escapedLength s ≤ (utf8 line).length := by
  obtain ⟨j, hj, hreq⟩ := Option.bind_eq_some_iff.mp h
  have hprint := byteLength_print_of_parse (hserde.parse hj)
  unfold Request.deserialize at hreq
  obtain ⟨fs, hfs, hreq⟩ := Option.bind_eq_some_iff.mp hreq
  obtain ⟨version, -, hreq⟩ := Option.bind_eq_some_iff.mp hreq
  obtain ⟨id, hid, hreq⟩ := Option.bind_eq_some_iff.mp hreq
  obtain ⟨method, -, hreq⟩ := Option.bind_eq_some_iff.mp hreq
  obtain rfl := Option.some.inj hreq
  obtain rfl : id = some s := hs
  rw [length_utf8]
  exact (escapedLength_le_of_optionalStr hfs hid).trans hprint

/-- The method of a request is a short name. -/
theorem length_requestMethod_le {params : Option Json} {method : String}
    (h : requestMethod params = .ok method) : (utf8 method).length ≤ maxNameLen := by
  have hany : (utf8 "any").length ≤ maxNameLen := by decide
  unfold requestMethod at h
  split at h
  · obtain rfl := Except.ok.inj h
    exact hany
  · split at h
    · obtain rfl := Except.ok.inj h
      exact hany
    · split at h
      · cases h
      · split at h
        · cases h
        · next hvalid =>
          obtain rfl := Except.ok.inj h
          exact (isIdentifier_iff.mp (validateMethodName_eq_ok_iff.mp hvalid).1).2.2.1
  · cases h

/-- A 64-bit number is displayed in at most twenty characters. -/
theorem length_toString_le {n : ℕ} (hn : n < 2 ^ 64) : (toString n).length ≤ 20 := by
  have hdigits : (Nat.toDigits 10 n).length ≤ 20 :=
    (Nat.length_toDigits_le_iff (by decide) (by decide)).mpr (by omega)
  rwa [Nat.toString_eq_repr, Nat.repr, String.length_ofList]

/-- The reasons of the policy are short. -/
theorem DenyReason.length_debug_le (reason : DenyReason) : reason.debug.length ≤ 600 := by
  have h64 : ∀ x : UInt64, (toString x).length ≤ 20 := fun x => length_toString_le x.toNat_lt
  have h32 : ∀ x : UInt32, (toString x).length ≤ 20 := fun x =>
    length_toString_le (x.toNat_lt.trans (by norm_num))
  have hone : ∀ {pre value suf : String}, value.length ≤ 200 → pre.length ≤ 30 →
      suf.length ≤ 30 → (pre ++ value ++ suf).length ≤ 260 := by
    intro pre value suf hvalue hpre hsuf
    simp only [String.length_append]
    omega
  have htwo : ∀ {pre a mid b suf : String}, a.length ≤ 200 → b.length ≤ 200 → pre.length ≤ 30 →
      mid.length ≤ 30 → suf.length ≤ 30 → (pre ++ a ++ mid ++ b ++ suf).length ≤ 600 := by
    intro pre a mid b suf ha hb hpre hmid hsuf
    simp only [String.length_append]
    omega
  cases reason with
  | confidenceTooLow got required =>
    exact htwo got.length_debug_le required.length_debug_le (by decide) (by decide) (by decide)
  | invalidConfidence got =>
    exact (hone got.length_debug_le (by decide) (by decide)).trans (by decide)
  | resultTooOld ageMs maxAgeMs =>
    exact htwo ((h64 ageMs).trans (by decide)) ((h64 maxAgeMs).trans (by decide)) (by decide)
      (by decide) (by decide)
  | resultAgeWindowOverflow => decide
  | resultFromFuture skewMs =>
    exact (hone ((h64 skewMs).trans (by decide)) (by decide) (by decide)).trans (by decide)
  | uidMismatch claimed resultUid =>
    exact htwo ((h32 claimed).trans (by decide)) ((h32 resultUid).trans (by decide)) (by decide)
      (by decide) (by decide)
  | noMatchingRule => decide

/-! ## The entries of the request path -/

section Entries

variable {nowMs : UInt64} {callerUid uid : UInt32} {reqId adapterName : Option String}
  {method reason : String}

/-- The entry of a refusal is short if its texts are. -/
theorem AuditEntry.fits_deny {result : Option VerificationResult}
    (hid : ∀ s, reqId = some s → escapedLength s ≤ maxLineBytes)
    (hname : ∀ s, adapterName = some s → escapedLength s ≤ maxEscapedName)
    (hmethod : escapedLength method ≤ maxEscapedName)
    (hreason : escapedLength reason ≤ maxEscapedReason) :
    (AuditEntry.deny nowMs callerUid uid method reason adapterName reqId result).Fits := by
  have hempty : escapedLength "" ≤ maxEscapedName := Nat.zero_le _
  have hdecision : escapedLength "deny" ≤ maxEscapedName := escapedLength_le_of_utf8 (by decide)
  refine ⟨hid, hname, hmethod, hdecision, ?_, ?_, ?_⟩
  · rintro s ⟨⟩
    exact hreason
  · cases result with
    | none => exact hempty
    | some result => exact escapedLength_encodeHex_le (by simp)
  · cases result with
    | none => exact hempty
    | some result => exact escapedLength_encodeHex_le (by simp)

/-- The entry of a decision of the policy is short if its names are. -/
theorem AuditEntry.fits_fromDecision {context : AuthContext} {decision : PolicyDecision}
    (hid : ∀ s, reqId = some s → escapedLength s ≤ maxLineBytes)
    (hname : ∀ s, adapterName = some s → escapedLength s ≤ maxEscapedName)
    (hmethod : escapedLength context.method ≤ maxEscapedName) :
    (AuditEntry.fromDecision nowMs context decision callerUid adapterName reqId).Fits := by
  have hevidence : escapedLength (encodeHex context.result.evidenceHash.toList) ≤
      maxEscapedName := escapedLength_encodeHex_le (by simp)
  have hnonce : escapedLength (encodeHex (context.result.nonce.toList.take 8)) ≤
      maxEscapedName := escapedLength_encodeHex_le (by simp)
  cases decision with
  | allow =>
    have hdecision : escapedLength "allow" ≤ maxEscapedName :=
      escapedLength_le_of_utf8 (by decide)
    exact ⟨hid, hname, hmethod, hdecision, nofun, hevidence, hnonce⟩
  | deny reason =>
    have hdecision : escapedLength "deny" ≤ maxEscapedName := escapedLength_le_of_utf8 (by decide)
    refine ⟨hid, hname, hmethod, hdecision, ?_, hevidence, hnonce⟩
    rintro s ⟨⟩
    exact escapedLength_le_maxEscapedReason (reason.length_debug_le.trans (by decide))

end Entries

/-- The operation logs no entry that is too long. -/
def ServerOp.Short (o : ServerOp) : Prop := ∀ entry, o = .log entry → entry.Fits

section Path

variable {crates : Crates} {state : ServerState} {reloadable : ReloadableState}
  {callerUid uid : UInt32} {reqId : Option String}

/-- An exit that refuses with a short reason logs a short entry. -/
theorem guarantees_denyExit (hid : ∀ s, reqId = some s → escapedLength s ≤ maxLineBytes)
    {method reason clientReason : String} {adapterName : Option String}
    {result : Option VerificationResult}
    (hname : ∀ s, adapterName = some s → escapedLength s ≤ maxEscapedName)
    (hmethod : escapedLength method ≤ maxEscapedName)
    (hreason : escapedLength reason ≤ maxEscapedReason) :
    (denyExit callerUid uid reqId method reason adapterName result clientReason).Guarantees
      AnswersWithinLimits ServerOp.Short fun _ => True := by
  refine guarantees_call_bind nofun fun nowMs _ => ?_
  refine guarantees_bind (guarantees_call_bind (Q := fun _ => True) ?_ fun answer _ => ?_)
    fun written _ => ?_
  · rintro _ ⟨⟩
    exact AuditEntry.fits_deny hid hname hmethod hreason
  · rcases answer with _ | _ <;> exact guarantees_pure trivial
  · rcases written with _ | _ <;> exact guarantees_pure trivial

/-- The policy logs a short entry. -/
theorem guarantees_evaluateAndAudit
    (hid : ∀ s, reqId = some s → escapedLength s ≤ maxLineBytes) {resolved : ResolvedAdapter}
    {request : VerificationRequest} {result : VerificationResult}
    (hname : escapedLength resolved.adapterName ≤ maxEscapedName)
    (hmethod : escapedLength resolved.method ≤ maxEscapedName) :
    (evaluateAndAudit reloadable callerUid uid reqId resolved request result).Guarantees
      AnswersWithinLimits ServerOp.Short fun _ => True := by
  refine guarantees_bind (R := fun _ => True) ?_ fun decision _ => ?_
  · unfold PolicyEngine.evaluateNow
    split
    · exact guarantees_pure trivial
    · exact guarantees_call_bind nofun fun _ _ => guarantees_pure trivial
  refine guarantees_call_bind nofun fun nowMs _ => ?_
  refine guarantees_bind (guarantees_call_bind (Q := fun _ => True) ?_ fun answer _ => ?_)
    fun written _ => ?_
  · rintro _ ⟨⟩
    refine AuditEntry.fits_fromDecision hid ?_ hmethod
    rintro s ⟨⟩
    exact hname
  · rcases answer with _ | _ <;> exact guarantees_pure trivial
  · rcases written with _ | _
    · exact guarantees_pure trivial
    · cases decision <;> exact guarantees_pure trivial

/-- The gates log short entries: their reasons are fixed texts. -/
theorem guarantees_checkResult (hid : ∀ s, reqId = some s → escapedLength s ≤ maxLineBytes)
    {resolved : ResolvedAdapter} {request : VerificationRequest} {result : VerificationResult}
    (hname : escapedLength resolved.adapterName ≤ maxEscapedName)
    (hmethod : escapedLength resolved.method ≤ maxEscapedName) :
    (checkResult crates state reloadable callerUid uid reqId resolved request result).Guarantees
      AnswersWithinLimits ServerOp.Short fun _ => True := by
  have hdeny : ∀ {reason clientReason : String}, reason.length ≤ 1000 →
      (denyExit callerUid uid reqId resolved.method reason (some resolved.adapterName)
        (some result) clientReason).Guarantees AnswersWithinLimits ServerOp.Short
          fun _ => True := by
    intro reason clientReason hreason
    refine guarantees_denyExit hid ?_ hmethod (escapedLength_le_maxEscapedReason hreason)
    rintro s ⟨⟩
    exact hname
  unfold checkResult
  dsimp only
  split
  · exact guarantees_call_bind nofun fun _ _ => hdeny (by decide)
  refine guarantees_call_bind nofun fun nowMs _ => ?_
  split
  · exact guarantees_call_bind nofun fun _ _ => hdeny (by decide)
  refine guarantees_call_bind nofun fun consumed _ => ?_
  rcases consumed with e | _
  · exact hdeny (by cases e <;> decide)
  dsimp only
  split
  · next e _ => exact hdeny (by cases e <;> decide)
  split
  · exact hdeny (by decide)
  · exact guarantees_evaluateAndAudit hid hname hmethod

/-- **The errors of an adapter's client are short**, whatever the adapter sends. -/
theorem guarantees_verify (hserde : SizedTexts crates.serde) (client : AdapterClient)
    (request : VerificationRequest) (deadline : ℕ) :
    (client.verify crates.serde request deadline).Guarantees AnswersWithinLimits ServerOp.Short
      fun out => ∀ e, out = .error e → escapedLength e.toString ≤ maxEscapedReason := by
  have hfixed : ∀ {label text : String}, label.length ≤ 100 →
      escapedLength text ≤ 459776 → escapedLength (label ++ text) ≤ maxEscapedReason := by
    intro label text hlabel htext
    have hesc := escapedLength_le label
    have hlongest : maxEscapedReason = 466944 := rfl
    rw [escapedLength_append]
    omega
  have hsocket : ∀ {label text : String}, label.length ≤ 100 →
      escapedLength text ≤ maxErrorText → escapedLength (label ++ text) ≤ maxEscapedReason := by
    intro label text hlabel htext
    have hmax : maxErrorText = 1024 := rfl
    exact hfixed hlabel (by omega)
  have hshort : ∀ {e : AdapterError}, e.toString.length ≤ 1000 →
      (Pure.pure (.error e) : ServerProg (Except AdapterError VerificationResult)).Guarantees
        AnswersWithinLimits ServerOp.Short
        fun out => ∀ e, out = .error e → escapedLength e.toString ≤ maxEscapedReason := by
    intro e he
    refine guarantees_pure ?_
    rintro _ ⟨⟩
    exact escapedLength_le_maxEscapedReason he
  have huid : ∀ x : UInt32, (toString x).length ≤ 20 := fun x =>
    length_toString_le (x.toNat_lt.trans (by norm_num))
  refine guarantees_call_bind nofun fun connected hconnected => ?_
  rcases connected with (_ | text) | _
  · exact hshort (by decide)
  · refine guarantees_pure ?_
    rintro _ ⟨⟩
    exact hsocket (by decide) (hconnected text rfl)
  refine guarantees_call_bind nofun fun peer hpeer => ?_
  rcases peer with text | got
  · refine guarantees_pure ?_
    rintro _ ⟨⟩
    exact hsocket (by decide) (hpeer text rfl)
  dsimp only
  split
  · refine hshort ?_
    have hexpected := huid client.expectedUid
    have hgot := huid got
    change ("uid mismatch: expected " ++ toString client.expectedUid ++ ", got " ++
      toString got).length ≤ 1000
    have hlabel : "uid mismatch: expected ".length = 23 := by decide
    have hmiddle : ", got ".length = 6 := by decide
    simp only [String.length_append]
    omega
  refine guarantees_call_bind nofun fun sent hsent => ?_
  rcases sent with (_ | text) | _
  · exact hshort (by decide)
  · refine guarantees_pure ?_
    rintro _ ⟨⟩
    exact hsocket (by decide) (hsent text rfl)
  refine guarantees_call_bind nofun fun received hreceived => ?_
  rcases received with _ | responseLine | _ | text
  · exact hshort (by decide)
  · have hreply := hreceived.1 responseLine rfl
    have hmax : maxResponseBytes = 65536 := rfl
    have htext := hserde.errorText responseLine
    refine guarantees_pure ?_
    intro e he
    unfold AdapterClient.readReply at he
    split at he
    · cases he
      exact hfixed (by decide) (by omega)
    · next result _ =>
      split at he
      · cases he
        have hversion : (toString result.version).length ≤ 20 :=
          length_toString_le (result.version.toNat_lt.trans (by norm_num))
        refine escapedLength_le_maxEscapedReason ?_
        change ("protocol version mismatch: " ++ toString result.version).length ≤ 1000
        have hlabel : "protocol version mismatch: ".length = 27 := by decide
        rw [String.length_append]
        omega
      split at he
      · cases he
        exact escapedLength_le_maxEscapedReason (by decide)
      · cases he
  · exact hshort (by decide)
  · refine guarantees_pure ?_
    rintro _ ⟨⟩
    exact hsocket (by decide) (hreceived.2 text rfl)

/-- A dispatch fails with a short error. -/
theorem guarantees_dispatchResolved (hserde : SizedTexts crates.serde) {resolved : ResolvedAdapter}
    (hname : escapedLength resolved.client.name ≤ maxEscapedName) (request : VerificationRequest)
    (deadline : ℕ) : (dispatchResolved crates.serde resolved request deadline).Guarantees
      AnswersWithinLimits ServerOp.Short
        fun out => ∀ e, out = .error e → escapedLength e.toString ≤ maxEscapedReason := by
  have hnamed : ∀ {label : String}, label.length ≤ 100 →
      escapedLength (label ++ resolved.client.name) ≤ maxEscapedReason := by
    intro label hlabel
    have hesc := escapedLength_le label
    have hlongest : maxEscapedReason = 466944 := rfl
    have hnames : maxEscapedName = 384 := rfl
    rw [escapedLength_append]
    omega
  refine guarantees_call_bind nofun fun down _ => ?_
  cases down
  swap
  · refine guarantees_pure ?_
    rintro _ ⟨⟩
    exact hnamed (by decide)
  refine guarantees_call_bind nofun fun acquired _ => ?_
  rcases acquired with (_ | _) | _
  · refine guarantees_pure ?_
    rintro _ ⟨⟩
    exact hnamed (by decide)
  · refine guarantees_pure ?_
    rintro _ ⟨⟩
    exact hnamed (by decide)
  · exact guarantees_verify hserde _ _ _

/-- **The entries of the request path are short**: as long as the answers are within the limits, the
path logs no entry that is too long. -/
theorem guarantees_handleVerifyOnce (hserde : SizedTexts crates.serde)
    (hnames : state.adapterRegistry.ShortNames)
    (hid : ∀ s, reqId = some s → escapedLength s ≤ maxLineBytes) {method : String}
    (hmethod : (utf8 method).length ≤ maxNameLen) :
    (handleVerifyOnce crates state reloadable callerUid uid reqId method).Guarantees
      AnswersWithinLimits ServerOp.Short fun _ => True := by
  have hresolve : (state.adapterRegistry.resolve ServerProg.adapterDown method).Guarantees
      AnswersWithinLimits ServerOp.Short _ :=
    (AdapterRegistry.avoids_resolve (fun _ h => h nofun) method).guarantees
      (AdapterRegistry.returns_resolve method)
  have hnotFound : escapedLength (AdapterError.methodNotFound method).toString ≤
      maxEscapedReason := by
    have hlongest : maxEscapedReason = 466944 := rfl
    have hlen : maxNameLen = 64 := rfl
    have hesc := escapedLength_le_of_utf8 hmethod
    have hlabel := escapedLength_le "method not found: "
    have hlabelLen : "method not found: ".length = 18 := by decide
    change escapedLength ("method not found: " ++ method) ≤ maxEscapedReason
    rw [escapedLength_append]
    omega
  refine guarantees_bind hresolve fun r hr => ?_
  rcases r with e | resolved
  · obtain rfl := hr.2 e rfl
    exact guarantees_denyExit hid nofun (escapedLength_le_of_utf8 hmethod) hnotFound
  obtain ⟨hlookup, hname⟩ := hr.1 resolved rfl
  obtain ⟨hshortMethod, hshortName⟩ := hnames _ _ hlookup
  replace hshortMethod : escapedLength resolved.method ≤ maxEscapedName :=
    escapedLength_le_of_utf8 hshortMethod
  replace hshortName : escapedLength resolved.client.name ≤ maxEscapedName :=
    escapedLength_le_of_utf8 hshortName
  have hnameEntry : ∀ s, some resolved.adapterName = some s →
      escapedLength s ≤ maxEscapedName := by
    rintro s ⟨⟩
    rwa [hname]
  refine guarantees_call_bind nofun fun generated _ => ?_
  rcases generated with e | nonce
  · exact guarantees_denyExit hid hnameEntry hshortMethod
      (escapedLength_le_maxEscapedReason (by cases e <;> decide))
  refine guarantees_call_bind nofun fun now _ => guarantees_call_bind nofun fun id _ =>
    guarantees_call_bind nofun fun nowMs _ => ?_
  refine guarantees_bind (guarantees_dispatchResolved hserde hshortName _ _)
    fun dispatched hdispatched => ?_
  rcases dispatched with e | result
  · exact guarantees_call_bind nofun fun _ _ =>
      guarantees_denyExit hid hnameEntry hshortMethod (hdispatched e rfl)
  · exact guarantees_checkResult hid (hnameEntry _ rfl) hshortMethod

end Path

/-! ## The entries of a connection -/

/-- The answers of a client and of the request path that the limits allow: a client's line has at
most `maxLineBytes`. -/
def ClientAnswersWithinLimits : (o : ClientOp) → o.Ans → Prop
  | .server o, answer => AnswersWithinLimits o answer
  | .nextLine, answer => ∀ line, answer = ClientInput.line line →
      (utf8 line).length ≤ maxLineBytes
  | _, _ => True

/-- The operation logs no entry that is too long. -/
def ClientOp.Short (o : ClientOp) : Prop := ∀ entry, o = .server (.log entry) → entry.Fits

section Task

variable {crates : Crates} {state : ServerState} {ownUid callerUid : UInt32}

/-- Sending a response logs nothing. -/
theorem guarantees_respondThen {response : Response} {next : Option (Except String Unit)} :
    (respondThen response next).Guarantees ClientAnswersWithinLimits ClientOp.Short
      fun _ => True := by
  refine guarantees_call_bind nofun fun sent _ => ?_
  rcases sent with _ | _ <;> exact guarantees_pure trivial

/-- Listing the methods logs nothing. -/
theorem guarantees_availableMethods {f : List String → ClientProg (Option (Except String Unit))}
    (hf : ∀ methods, (f methods).Guarantees ClientAnswersWithinLimits ClientOp.Short
      fun _ => True) :
    (ClientProg.server (state.adapterRegistry.availableMethods ServerProg.adapterDown) >>=
      f).Guarantees ClientAnswersWithinLimits ClientOp.Short fun _ => True := by
  have hlist : (state.adapterRegistry.availableMethods ServerProg.adapterDown).Avoids
      fun o => ¬ ServerOp.Short o :=
    avoids_bind (AdapterRegistry.avoids_filterAvailable (fun _ h => h nofun) _)
      fun _ => avoids_pure _
  have htrue : (state.adapterRegistry.availableMethods ServerProg.adapterDown).Returns
      fun _ => True := returns_bind_of_forall fun _ => returns_pure trivial
  refine guarantees_bind ((hlist.guarantees htrue).embed (A := AnswersWithinLimits)
    (fun _ _ h => h) ?_) fun methods _ => hf methods
  rintro o ho entry ⟨⟩
  exact ho entry rfl

/-- **The entries of a line** are short. -/
theorem guarantees_answerLine (hserde : SizedTexts crates.serde)
    (hnames : state.adapterRegistry.ShortNames) {reloadable : ReloadableState} {line : String}
    (hline : (utf8 line).length ≤ maxLineBytes) :
    (answerLine crates state callerUid reloadable line).Guarantees ClientAnswersWithinLimits
      ClientOp.Short fun _ => True := by
  unfold answerLine
  split
  · exact guarantees_respondThen
  next req hread =>
  split
  · exact guarantees_respondThen
  unfold answerRequest
  split_ifs
  · exact guarantees_respondThen
  · exact guarantees_availableMethods fun _ => guarantees_respondThen
  · exact guarantees_availableMethods fun _ => guarantees_respondThen
  · unfold answerVerifyOnce
    split
    · exact guarantees_respondThen
    split
    · exact guarantees_respondThen
    next method hmethod =>
    have hid : ∀ s, req.id = some s → escapedLength s ≤ maxLineBytes :=
      fun s hs => (hserde.escapedLength_id_le hread hs).trans hline
    refine guarantees_bind ((guarantees_handleVerifyOnce hserde hnames hid
      (length_requestMethod_le hmethod)).embed (fun _ _ h => h) ?_) fun _ _ =>
        guarantees_respondThen
    rintro o ho entry ⟨⟩
    exact ho entry rfl
  · exact guarantees_respondThen

/-- The entries of a connection are short, however many lines it reads. -/
theorem guarantees_clientTask (hserde : SizedTexts crates.serde)
    (hnames : state.adapterRegistry.ShortNames) (n : ℕ) :
    (clientTask crates state ownUid n).Guarantees ClientAnswersWithinLimits ClientOp.Short
      fun _ => True := by
  have hloop : ∀ callerUid, (clientLoop crates state ownUid callerUid n).Guarantees
      ClientAnswersWithinLimits ClientOp.Short fun _ => True := by
    intro callerUid
    induction n with
    | zero => exact guarantees_pure trivial
    | succ n ih =>
      refine guarantees_call_bind nofun fun input hinput => ?_
      rcases input with _ | _ | _ | line
      · exact guarantees_pure trivial
      · exact guarantees_pure trivial
      · exact guarantees_pure trivial
      refine guarantees_bind (R := fun _ => True) ?_ fun r _ => ?_
      · refine guarantees_call_bind nofun fun reloadable _ => ?_
        split
        · exact guarantees_pure trivial
        refine guarantees_call_bind nofun fun admitted _ => ?_
        cases admitted
        · exact guarantees_respondThen
        · exact guarantees_answerLine hserde hnames (hinput line rfl)
      · cases r with
        | none => exact ih
        | some r => exact guarantees_pure trivial
  refine guarantees_call_bind nofun fun _ _ => guarantees_bind (R := fun _ => True) ?_
    fun _ _ => guarantees_call_bind nofun fun _ _ => guarantees_pure trivial
  refine guarantees_call_bind nofun fun peer _ => ?_
  rcases peer with _ | callerUid
  · exact guarantees_pure trivial
  refine guarantees_call_bind nofun fun reloadable _ => ?_
  split
  · exact guarantees_pure trivial
  · exact hloop callerUid

/-- **No request can write a line that recovery cannot find.** Let a connection be served, with any
lines and adapter replies within their limits. The line of every entry that is logged on the way is
shorter than the recovery window, whatever the state of the logger; so recovery finds it whole in a
file of lines that ends with it.

**Proof sketch.** The identifier takes no more bytes than the line it came in, a reason no more than
seven for each byte of a reply, and everything else is bounded. The sum is less than the window. -/
theorem audit_line_fits_recovery_window (hserde : SizedTexts crates.serde)
    (hnames : state.adapterRegistry.ShortNames) {n : ℕ} {tr : List ClientEvent}
    {q : ClientProg (Except String Unit)}
    (h : Steps (DaemonStep crates) (clientTask crates state ownUid n) tr q)
    (hlimits : ∀ e ∈ tr, ClientAnswersWithinLimits e.op e.answer) {w w' : DaemonWorld}
    {entry : AuditEntry} {answer : Except String Unit}
    (hlog : ⟨w, .server (.log entry), answer, w'⟩ ∈ tr) (logger : AuditState) (path : String)
    {ms : List Bytes} (hms : ∀ m ∈ ms, newline ∉ m) :
    ((entry.seal crates logger.prevHash).line crates.serde).length < auditRecoveryWindowBytes ∧
      lastEntryHash crates path
          (unlines ms ++ (entry.seal crates logger.prevHash).line crates.serde) =
        recoverEntryHash crates path
          (crates.serde.toString ((entry.seal crates logger.prevHash).serialize crates.serde)) := by
  have hfits : entry.Fits :=
    ((guarantees_clientTask hserde hnames n).steps h hlimits).1 _ hlog entry rfl
  have hlen := hfits.length_line_lt hserde logger.lowerHex
  refine ⟨hlen, ?_⟩
  have hjson := crates.serde.fromStr_toString _
    ((entry.seal crates logger.prevHash).plain_of_mem_storedFields crates.serde)
  rw [← AuditEntry.serialize_eq crates.serde (ne_empty_of_isLowerHexHash logger.lowerHex)
    (ne_empty_of_isLowerHexHash AuditEntry.isLowerHexHash_seal)] at hjson
  have hlines : ∀ s : String, unlines ms ++ (utf8 s ++ [newline]) = unlines (ms ++ [utf8 s]) := by
    intro s
    simp [unlines_append]
  rw [AuditEntry.line_eq] at hlen ⊢
  rw [List.length_append, List.length_singleton] at hlen
  rw [hlines, lastEntryHash_unlines hms (crates.serde.newline_not_mem_toString _)
    (not_blank_of_fromStr hjson), if_pos (.inr hlen)]

end Task

/-! ### A grant -/

namespace Sample

/-- The reference functions are such functions. -/
theorem sizedTexts_reference : SizedTexts Crates.reference.serde where
  parse h := h
  compact _ := rfl
  f32Number x hx := by
    have hlen := Binary32.length_chars_toNumber_le hx
    exact (byteLength_le _).trans (by change 4 * x.toNumber.chars.length ≤ 1024; omega)
  errorText s := by
    have hlen : "expected value at line 1 column 1".length = 33 := by decide
    have hesc := escapedLength_le "expected value at line 1 column 1"
    change escapedLength "expected value at line 1 column 1" ≤ _
    omega

/-- The names of the adapter are short. -/
theorem shortNames_state : state.adapterRegistry.ShortNames := by
  intro method c h
  have hclients : state.adapterRegistry.clients = AList.singleton "fido2" client := rfl
  have hmem : method ∈
      (AList.singleton "fido2" client : AList fun _ : String => AdapterClient) :=
    AList.lookup_isSome.mp (by rw [← hclients, h]; rfl)
  obtain rfl : method = "fido2" := by
    rw [AList.mem_keys, AList.keys_singleton] at hmem
    exact List.mem_singleton.mp hmem
  obtain rfl : client = c := Option.some.inj h
  decide

/-- The bytes of a written text. -/
theorem length_toString_reference (j : Json) :
    (utf8 (Crates.reference.serde.toString j)).length = byteLength j.print :=
  Json.length_utf8_compact j

/-- The line of the request is within its limit. -/
theorem length_requestLine_le : (utf8 requestLine).length ≤ maxLineBytes := by
  have hkeys := escapedLength_keys_le ["version", "id", "method", "params"] (n := 13) (by decide)
  have hobj := byteLength_print_obj_le (l := [("version", .num (natNumber 1)),
    ("id", .str "req-1"), ("method", .str "verify_once"),
    ("params", .obj [("method", .str "fido2")])]) (a := 78) (by simpa using hkeys)
  have hparams := byteLength_print_obj_le (l := [("method", Json.str "fido2")]) (a := 78)
    (by simpa using hkeys "method" (by simp))
  have hversion := byteLength_print_num_le (n := 1) (by norm_num)
  have hid := byteLength_print_str_le (s := "req-1") (n := 20) (by decide)
  have hverify := byteLength_print_str_le (s := "verify_once") (n := 20) (by decide)
  have hmethod := byteLength_print_str_le (s := "fido2") (n := 20) (by decide)
  have hmax : maxLineBytes = 524288 := rfl
  simp only [List.foldr_cons, List.foldr_nil] at hobj hparams
  rw [requestLine, length_toString_reference, requestJson, hmax]
  linarith

/-- The line of the adapter is within its limit. -/
theorem length_line_le : (utf8 line).length ≤ maxResponseBytes := by
  have hkeys := escapedLength_keys_le ["version", "id", "confidence", "method", "timestamp_ms",
    "uid", "nonce", "evidence_hash"] (n := 13) (by decide)
  have hobj := byteLength_print_obj_le (l := [("version", .num (natNumber result.version.toNat)),
    ("id", serializeBytes result.id),
    ("confidence", Crates.reference.serde.serializeF32 result.confidence),
    ("method", .str "fido2"),
    ("timestamp_ms", .num (natNumber result.timestampMs.toNat)),
    ("uid", .num (natNumber result.uid.toNat)),
    ("nonce", serializeBytes result.nonce),
    ("evidence_hash", serializeBytes result.evidenceHash)]) (a := 78) (by simpa using hkeys)
  have hversion := byteLength_print_num_le (result.version.toNat_lt.trans (by norm_num))
  have hid := byteLength_print_serializeBytes_le result.id
  have hconf := sizedTexts_reference.byteLength_serializeF32_le result.confidence
  have hmethod := byteLength_print_str_le (s := "fido2") (n := 20) (by decide)
  have htimestamp := byteLength_print_num_le result.timestampMs.toNat_lt
  have huid := byteLength_print_num_le (result.uid.toNat_lt.trans (by norm_num))
  have hnonce := byteLength_print_serializeBytes_le result.nonce
  have hevidence := byteLength_print_serializeBytes_le result.evidenceHash
  have hmax : maxResponseBytes = 65536 := rfl
  have hfields : result.serialize Crates.reference.serde = .obj [
      ("version", .num (natNumber result.version.toNat)), ("id", serializeBytes result.id),
      ("confidence", Crates.reference.serde.serializeF32 result.confidence),
      ("method", .str "fido2"), ("timestamp_ms", .num (natNumber result.timestampMs.toNat)),
      ("uid", .num (natNumber result.uid.toNat)), ("nonce", serializeBytes result.nonce),
      ("evidence_hash", serializeBytes result.evidenceHash)] := rfl
  simp only [List.foldr_cons, List.foldr_nil] at hobj
  rw [line, length_toString_reference, hfields, hmax]
  linarith

/-- The calls of the request path are answered within the limits. -/
theorem answersWithinLimits_grantCalls :
    ∀ e ∈ grantCalls, AnswersWithinLimits e.op e.answer := by
  have hrecv : AnswersWithinLimits (.recv 5000000000) (some (.line line)) := by
    refine ⟨?_, nofun⟩
    rintro text h
    obtain rfl := RecvOutcome.line.inj (Option.some.inj h)
    exact length_line_le
  have hconnect : AnswersWithinLimits (.connect "/run/ola/fido2.sock" 5000000000) (.ok ()) := nofun
  have hpeer : AnswersWithinLimits .peerUid (.ok 990) := nofun
  have hsend : AnswersWithinLimits
      (.send (Crates.reference.serde.toString request.serialize) 5000000000) (.ok ()) := nofun
  simp only [grantCalls, grantCallsOf, dispatchCalls, List.cons_append, List.nil_append,
    List.forall_mem_cons, List.not_mem_nil, false_implies, implies_true, and_true]
  exact ⟨trivial, trivial, trivial, trivial, trivial, trivial, hconnect, hpeer, hsend, hrecv,
    trivial, trivial, trivial, trivial, trivial⟩

/-- The calls of the connection are answered within the limits. -/
theorem answersWithinLimits : ∀ e ∈ openingCalls ++ (pathCalls ++ closingCalls),
    ClientAnswersWithinLimits e.op e.answer := by
  have hline : ClientAnswersWithinLimits .nextLine (.line requestLine) := by
    rintro text h
    obtain rfl := ClientInput.line.inj h
    exact length_requestLine_le
  have hopening : ∀ e ∈ openingCalls, ClientAnswersWithinLimits e.op e.answer := by
    simp only [openingCalls, List.forall_mem_cons, List.not_mem_nil, false_implies, implies_true,
      and_true]
    exact ⟨trivial, trivial, trivial, hline, trivial, trivial⟩
  have hclosing : ∀ e ∈ closingCalls, ClientAnswersWithinLimits e.op e.answer := by
    simp only [closingCalls, List.forall_mem_cons, List.not_mem_nil, false_implies, implies_true,
      and_true]
    exact ⟨trivial, trivial⟩
  intro e he
  rcases List.mem_append.mp he with he | he
  · exact hopening e he
  rcases List.mem_append.mp he with he | he
  · obtain ⟨e', he', rfl⟩ := List.mem_map.mp he
    exact answersWithinLimits_grantCalls e' he'
  · exact hclosing e he

end Sample

/-- The entry of a grant. -/
theorem audit_line_fits_recovery_window_grant :
    ((Sample.entry.seal .reference zeroHash).line Crates.reference.serde).length <
      auditRecoveryWindowBytes :=
  (audit_line_fits_recovery_window Sample.sizedTexts_reference Sample.shortNames_state
    Sample.traces_clientTask Sample.answersWithinLimits
    (List.mem_append_right _ (List.mem_append_left _ (List.mem_map_of_mem
      (show (⟨Sample.spent, .log Sample.entry, .ok (), Sample.logged⟩ :
        Event ServerWorld ServerOp ServerOp.Ans) ∈ Sample.grantCalls by
        simp [Sample.grantCalls, Sample.grantCallsOf, Sample.entry, Sample.logged]))))
    Sample.spent.audit.logger "audit.log" (show ∀ m ∈ ([] : List Bytes), newline ∉ m from nofun)).1

end OlaCore
