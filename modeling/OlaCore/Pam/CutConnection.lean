import Mathlib.Data.List.DropRight
import OlaCore.Core.Names
import OlaCore.Ipc.Protocol
import OlaCore.Lib.JsonCut
import OlaCore.Pam.Bridge

set_option relaxedAutoImplicit false
set_option autoImplicit false

/-!
# The PAM module on a cut connection

The PAM module takes the end of the stream for the end of the line. When the connection is cut, it
interprets the part of the response that has arrived. A part of an object is not JSON, so it is an
error; a response is taken for an allow or a deny only when all of its object has arrived.

`serde_json` is assumed to read exactly the grammar of RFC 8259 and to print compactly.

## Main definitions

* `OlaCore.AnswersVerifyOnce` — the answers of the daemon to a request.
* `OlaCore.Response.wire` — the text of a response on the wire.

## Main results

* `OlaCore.PamStream.readBytes_eq_ok_iff` — the line that is read.
* `OlaCore.PamStream.outcome_of_part` — a part of a response is an error, or it is the response.
* `OlaCore.outcome_of_cut_response` — what the module makes of a response that may be cut.
-/

namespace OlaCore

open ByteText

/-! ## The line that is read -/

namespace PamStream

/-- **The line that is read**: what comes before the first newline, or everything at end of file,
unless it is too long. -/
theorem readBytes_eq_ok_iff {readError : Option String} {buf bytes line : Bytes}
    (hbuf : buf.length ≤ 64 * 1024) : readBytes readError buf bytes = .ok line ↔
      line = buf ++ bytes.takeWhile (· ≠ newline) ∧ line.length ≤ 64 * 1024 ∧
        (newline ∈ bytes ∨ readError = none) := by
  induction bytes generalizing buf with
  | nil =>
    cases readError with
    | none =>
      simp only [readBytes, Except.ok.injEq, List.takeWhile_nil, List.append_nil, or_true, and_true]
      constructor
      · rintro rfl
        exact ⟨rfl, hbuf⟩
      · rintro ⟨rfl, -⟩
        rfl
    | some e => simp [readBytes]
  | cons byte bytes ih =>
    rw [readBytes]
    by_cases hnl : byte = newline
    · subst hnl
      simp only [if_true, Except.ok.injEq, List.takeWhile_cons, ne_eq, not_true, decide_false,
        Bool.false_eq_true, if_false, List.append_nil, List.mem_cons, true_or, and_true]
      constructor
      · rintro rfl
        exact ⟨rfl, hbuf⟩
      · rintro ⟨rfl, -⟩
        rfl
    rw [if_neg hnl]
    have htake : (byte :: bytes).takeWhile (· ≠ newline) =
        byte :: bytes.takeWhile (· ≠ newline) := by simp [hnl]
    have hmem : newline ∈ byte :: bytes ↔ newline ∈ bytes := by simp [Ne.symm hnl]
    rw [htake, hmem]
    by_cases hlong : 64 * 1024 < (buf ++ [byte]).length
    · rw [if_pos hlong]
      refine iff_of_false (by simp) ?_
      rintro ⟨rfl, hlen, -⟩
      simp only [List.length_append, List.length_cons, List.length_nil] at hlong hlen
      omega
    · rw [if_neg hlong, ih (by omega), List.append_assoc, List.singleton_append]

/-- What comes before the newline, in a part of a line. -/
theorem takeWhile_of_part {text bytes : Bytes} (htext : newline ∉ text)
    (h : bytes <+: text ++ [newline]) : bytes.takeWhile (· ≠ newline) <+: text ∧
      (bytes.takeWhile (· ≠ newline) = text ↔ text <+: bytes) := by
  have hall : ∀ b ∈ text, decide (b ≠ newline) = true := by
    intro b hb
    simpa using fun heq : b = newline => htext (heq ▸ hb)
  rcases List.prefix_concat_iff.mp h with rfl | hpre
  · have htake : (text ++ [newline]).takeWhile (· ≠ newline) = text := by
      rw [List.takeWhile_append_of_pos hall]
      simp
    rw [htake]
    exact ⟨List.prefix_rfl, iff_of_true rfl (List.prefix_append _ _)⟩
  · have htake : bytes.takeWhile (· ≠ newline) = bytes :=
      List.takeWhile_eq_self_iff.mpr fun b hb => hall b (hpre.subset hb)
    rw [htake]
    refine ⟨hpre, fun heq => heq ▸ List.prefix_rfl, fun htext => ?_⟩
    exact hpre.eq_of_length (le_antisymm hpre.length_le htext.length_le)

end PamStream

/-! ## Texts of objects -/

/-- What is left of a text that does not begin with whitespace is its beginning. -/
theorem toList_trim_of_head {s : String}
    (h : ∀ c, s.toList.head? = some c → isWhiteSpace c = false) :
    (trim s).toList <+: s.toList := by
  have hdrop : s.toList.dropWhile isWhiteSpace = s.toList := by
    cases hs : s.toList with
    | nil => rfl
    | cons c cs => simp [h c (by rw [hs]; rfl)]
  rw [trim, String.toList_ofList, hdrop]
  exact List.rdropWhile_prefix isWhiteSpace s.toList

/-- **A document is read from all of the text only**: what begins the text of an object, and is a
JSON text itself, is all of it. -/
theorem eq_compact_of_parse_trim {ms : List (String × Json)} {line : String} {j : Json}
    (hline : utf8 line <+: utf8 (Json.obj ms).compact) (h : Json.parse (trim line) = some j) :
    line = (Json.obj ms).compact := by
  have hbegins := toList_prefix_of_utf8 hline
  rw [Json.compact, String.toList_ofList] at hbegins
  obtain ⟨e, he⟩ := hbegins
  obtain ⟨cs, hcs⟩ := Json.print_obj_cons ms
  have hhead : ∀ c, line.toList.head? = some c → isWhiteSpace c = false := by
    intro c hc
    cases hl : line.toList with
    | nil =>
      rw [hl] at hc
      cases hc
    | cons d ds =>
      rw [hl] at hc he
      obtain rfl := Option.some.inj hc
      rw [hcs, List.cons_append] at he
      rw [(List.cons.inj he).1]
      decide
  obtain ⟨e', he'⟩ := toList_trim_of_head hhead
  rw [← String.ofList_toList (s := trim line)] at h
  have hcut : (trim line).toList ++ (e' ++ e) = (Json.obj ms).print := by
    rw [← List.append_assoc, he', he]
  have hnil := Json.eq_nil_of_parse_cut hcut h
  obtain rfl := (List.append_eq_nil_iff.mp hnil).2
  rw [List.append_nil] at he
  calc line = String.ofList line.toList := String.ofList_toList.symm
    _ = (Json.obj ms).compact := congrArg String.ofList he

/-! ## Responses -/

/-- The daemon's answers to a `verify_once` request: a grant, a refusal or an error, with the id of
the request or none. -/
inductive AnswersVerifyOnce (i : String) : Response → Prop
  | allow (id : Option String) (method : String) (h : id = some i ∨ id = none) :
    AnswersVerifyOnce i (.allow id method)
  | deny (id : Option String) (reason : String) (h : id = some i ∨ id = none) :
    AnswersVerifyOnce i (.deny id reason)
  | error (id : Option String) (msg : String) (h : id = some i ∨ id = none) :
    AnswersVerifyOnce i (.ofError id msg)

/-- The text of a response on the wire, without its newline. -/
def Response.wire (serde : SerdeJson) (response : Response) : Bytes :=
  utf8 (serde.toString response.serialize)

/-- A response has a text. -/
theorem Response.wire_ne_nil {serde : SerdeJson} (response : Response)
    (hprint : ∀ j, serde.toString j = Json.compact j) : response.wire serde ≠ [] := by
  intro h
  rw [wire, hprint] at h
  have hempty : response.serialize.compact = "" := utf8_injective h
  rw [serialize, Json.compact] at hempty
  obtain ⟨cs, hcs⟩ := Json.print_obj_cons [("version", .num (natNumber response.version.toNat)),
    ("id", serializeOptionStr response.id), ("result", response.result.getD .null),
    ("error", serializeOptionStr response.error)]
  rw [hcs] at hempty
  simp at hempty

section Interpret

variable {i : String}

/-- A grant is taken for an allow, if it has the id. -/
theorem interpretValue_allow (id : Option String) (method : String) :
    interpretValue (Response.allow id method).serialize i =
      if id = some i then .allow else .error "response id mismatch" := by
  cases id <;>
    simp [interpretValue, Response.allow, Response.ok, Response.serialize, serializeOptionStr,
      Json.get, List.lookup_cons, deserializeStr, protocolVersion]

/-- A refusal is taken for a deny with its reason, if it has the id. -/
theorem interpretValue_deny (id : Option String) (reason : String) :
    interpretValue (Response.deny id reason).serialize i =
      if id = some i then .deny reason else .error "response id mismatch" := by
  cases id <;>
    simp [interpretValue, Response.deny, Response.ok, Response.serialize, serializeOptionStr,
      Json.get, List.lookup_cons, deserializeStr, protocolVersion]

/-- An error is taken for one. -/
theorem interpretValue_ofError (id : Option String) (msg : String) :
    interpretValue (Response.ofError id msg).serialize i =
      if id = some i then .error msg else .error "response id mismatch" := by
  cases id <;>
    simp [interpretValue, Response.ofError, Response.serialize, serializeOptionStr, Json.get,
      List.lookup_cons, deserializeStr, protocolVersion]

/-- Only a grant for the request is taken for an allow. -/
theorem AnswersVerifyOnce.eq_allow {response : Response} (hanswer : AnswersVerifyOnce i response)
    (h : interpretValue response.serialize i = .allow) :
    ∃ method, response = .allow (some i) method := by
  cases hanswer with
  | allow id method _ =>
    rw [interpretValue_allow] at h
    split at h
    · next hid => exact ⟨method, by rw [hid]⟩
    · cases h
  | deny id reason _ =>
    rw [interpretValue_deny] at h
    split at h <;> cases h
  | error id msg _ =>
    rw [interpretValue_ofError] at h
    split at h <;> cases h

/-- Only a refusal for the request is taken for a deny. -/
theorem AnswersVerifyOnce.eq_deny {response : Response} (hanswer : AnswersVerifyOnce i response)
    {reason : String} (h : interpretValue response.serialize i = .deny reason) :
    response = .deny (some i) reason := by
  cases hanswer with
  | allow id method _ =>
    rw [interpretValue_allow] at h
    split at h <;> cases h
  | deny id reason' _ =>
    rw [interpretValue_deny] at h
    split at h
    · next hid => rw [hid, AuthOutcome.deny.inj h]
    · cases h
  | error id msg _ =>
    rw [interpretValue_ofError] at h
    split at h <;> cases h

end Interpret

section Outcome

variable {serde : SerdeJson} {utf8Error : Bytes → String} {response : Response} {i : String}
  {stream : PamStream}

/-- A response that has arrived, and is not too long, is interpreted. -/
theorem PamStream.outcome_of_complete (hparse : ∀ s, serde.fromStr s = Json.parse s)
    (hprint : ∀ j, serde.toString j = Json.compact j)
    (hpart : stream.bytes <+: response.wire serde ++ [newline])
    (hcomplete : response.wire serde <+: stream.bytes)
    (hend : newline ∈ stream.bytes ∨ stream.readError = none)
    (hlen : (response.wire serde).length ≤ 64 * 1024) :
    stream.outcome serde utf8Error i = interpretValue response.serialize i := by
  have hnl : newline ∉ response.wire serde := serde.newline_not_mem_toString _
  have htake := (takeWhile_of_part hnl hpart).2.mpr hcomplete
  have hbytes : readBytes stream.readError [] stream.bytes = .ok (response.wire serde) := by
    rw [readBytes_eq_ok_iff (by simp)]
    exact ⟨by rw [htake, List.nil_append], hlen, hend⟩
  have hline : stream.readLine utf8Error = .ok response.serialize.compact := by
    rw [readLine, hbytes]
    simp only [Response.wire, hprint, bind, Except.bind, fromUtf8_utf8]
  rw [outcome, hline]
  simp only [interpretResponse, hparse, Response.serialize, trim_compact_obj, Json.parse_compact]

/-- A response that has not arrived is an error. -/
theorem PamStream.outcome_of_cut (hparse : ∀ s, serde.fromStr s = Json.parse s)
    (hprint : ∀ j, serde.toString j = Json.compact j)
    (hpart : stream.bytes <+: response.wire serde ++ [newline])
    (hcut : ¬ response.wire serde <+: stream.bytes) :
    ∃ e, stream.outcome serde utf8Error i = .error e := by
  have hnl : newline ∉ response.wire serde := serde.newline_not_mem_toString _
  obtain ⟨hbegins, hall⟩ := takeWhile_of_part hnl hpart
  unfold outcome
  cases hline : stream.readLine utf8Error with
  | error e => exact ⟨e, rfl⟩
  | ok line =>
    obtain ⟨buf, hbuf, hutf8⟩ := Checks.bind_eq_ok_iff.mp hline
    rw [readBytes_eq_ok_iff (by simp), List.nil_append] at hbuf
    have hbytes : utf8 line = stream.bytes.takeWhile (· ≠ newline) := by
      split at hutf8
      · cases hutf8
      · next s hs =>
        obtain rfl := Except.ok.inj hutf8
        rw [fromUtf8_eq_some_iff.mp hs, hbuf.1]
    dsimp only
    unfold interpretResponse
    rw [hparse]
    cases hdoc : Json.parse (trim line) with
    | none => exact ⟨_, rfl⟩
    | some j =>
      refine absurd (hall.mp ?_) hcut
      rw [← hbytes] at hbegins ⊢
      rw [Response.wire, hprint] at hbegins ⊢
      rw [eq_compact_of_parse_trim hbegins hdoc]
      rfl

/-- Whatever has arrived of a response, it is interpreted or an error. -/
theorem PamStream.outcome_of_part (hparse : ∀ s, serde.fromStr s = Json.parse s)
    (hprint : ∀ j, serde.toString j = Json.compact j)
    (hpart : stream.bytes <+: response.wire serde ++ [newline]) :
    (∃ e, stream.outcome serde utf8Error i = .error e) ∨
      (response.wire serde <+: stream.bytes ∧
        stream.outcome serde utf8Error i = interpretValue response.serialize i) := by
  by_cases hcomplete : response.wire serde <+: stream.bytes
  swap
  · exact .inl (outcome_of_cut hparse hprint hpart hcomplete)
  by_cases hread : (newline ∈ stream.bytes ∨ stream.readError = none) ∧
      (response.wire serde).length ≤ 64 * 1024
  · exact .inr ⟨hcomplete, outcome_of_complete hparse hprint hpart hcomplete hread.1 hread.2⟩
  · -- The line is not read at all.
    left
    have hnl : newline ∉ response.wire serde := serde.newline_not_mem_toString _
    have htake := (takeWhile_of_part hnl hpart).2.mpr hcomplete
    have hline : ∃ e, stream.readLine utf8Error = .error e := by
      unfold readLine
      cases hbytes : readBytes stream.readError [] stream.bytes with
      | error e => exact ⟨e, rfl⟩
      | ok buf =>
        rw [readBytes_eq_ok_iff (by simp), htake, List.nil_append] at hbytes
        obtain ⟨rfl, hlen, hend⟩ := hbytes
        exact absurd ⟨hend, hlen⟩ hread
    obtain ⟨e, he⟩ := hline
    exact ⟨e, by rw [outcome, he]⟩

end Outcome

/-- **A response that may be cut.** Of any part of the daemon's answer that arrives, the module
makes an allow only if the answer is a grant for the request and all of its object has arrived, a
deny only if it is a refusal for the request and all of its object has arrived, with its reason, and
an error otherwise. When the whole line arrives and is not too long, a grant for the request is an
allow, a refusal is a deny with the same reason, and an error is an error. -/
theorem outcome_of_cut_response (serde : SerdeJson) (hparse : ∀ s, serde.fromStr s = Json.parse s)
    (hprint : ∀ j, serde.toString j = Json.compact j) (utf8Error : Bytes → String) {i : String}
    {response : Response} (hanswer : AnswersVerifyOnce i response) (stream : PamStream)
    (hpart : stream.bytes <+: response.wire serde ++ [newline]) :
    let complete := response.wire serde <+: stream.bytes
    let outcome := stream.outcome serde utf8Error i
    (outcome = .allow → (∃ method, response = .allow (some i) method) ∧ complete) ∧
    (∀ reason, outcome = .deny reason → response = .deny (some i) reason ∧ complete) ∧
    (¬ ((∃ method, response = .allow (some i) method) ∧ complete) →
      ¬ ((∃ reason, response = .deny (some i) reason) ∧ complete) → ∃ e, outcome = .error e) ∧
    (stream.bytes = response.wire serde ++ [newline] →
      (response.wire serde).length ≤ 64 * 1024 →
        (∀ method, response = .allow (some i) method → outcome = .allow) ∧
        (∀ reason, response = .deny (some i) reason → outcome = .deny reason) ∧
        ∀ id msg, response = .ofError id msg → ∃ e, outcome = .error e) := by
  intro complete outcome
  have hallow : outcome = .allow → (∃ method, response = .allow (some i) method) ∧ complete := by
    intro h
    rcases PamStream.outcome_of_part hparse hprint hpart with ⟨e, he⟩ | ⟨hcomplete, hout⟩
    · cases he.symm.trans h
    · exact ⟨hanswer.eq_allow (hout.symm.trans h), hcomplete⟩
  have hdeny : ∀ reason, outcome = .deny reason → response = .deny (some i) reason ∧ complete := by
    intro reason h
    rcases PamStream.outcome_of_part hparse hprint hpart with ⟨e, he⟩ | ⟨hcomplete, hout⟩
    · cases he.symm.trans h
    · exact ⟨hanswer.eq_deny (hout.symm.trans h), hcomplete⟩
  refine ⟨hallow, hdeny, ?_, ?_⟩
  · intro hnotAllow hnotDeny
    cases h : outcome with
    | allow => exact absurd (hallow h) hnotAllow
    | deny reason =>
      obtain ⟨hresponse, hcomplete⟩ := hdeny reason h
      exact absurd ⟨⟨reason, hresponse⟩, hcomplete⟩ hnotDeny
    | error e => exact ⟨e, rfl⟩
  · intro hwhole hlen
    have hobject : complete := by
      change response.wire serde <+: stream.bytes
      rw [hwhole]
      exact List.prefix_append _ _
    have hout : outcome = interpretValue response.serialize i :=
      PamStream.outcome_of_complete hparse hprint hpart hobject (.inl (by rw [hwhole]; simp)) hlen
    refine ⟨?_, ?_, ?_⟩
    · rintro method rfl
      rw [hout, interpretValue_allow, if_pos rfl]
    · rintro reason rfl
      rw [hout, interpretValue_deny, if_pos rfl]
    · rintro id msg rfl
      rw [hout, interpretValue_ofError]
      split <;> exact ⟨_, rfl⟩

/-- A grant that is cut right before its last brace is an error. -/
theorem outcome_of_cut_response_brace :
    let wire := (Response.allow (some "pam-1") "fido2").wire .rfc8259
    ∃ e, PamStream.outcome .rfc8259 (fun _ => "invalid utf-8 sequence") ⟨wire.dropLast, none⟩
      "pam-1" = .error e := by
  have hpart : (Response.wire .rfc8259 (Response.allow (some "pam-1") "fido2")).dropLast <+:
      Response.wire .rfc8259 (Response.allow (some "pam-1") "fido2") ++ [newline] :=
    (List.dropLast_prefix _).trans (List.prefix_append _ _)
  have hcut : ¬ Response.wire .rfc8259 (Response.allow (some "pam-1") "fido2") <+:
      (Response.wire .rfc8259 (Response.allow (some "pam-1") "fido2")).dropLast := by
    intro h
    have hle := h.length_le
    have hpos : 0 < (Response.wire .rfc8259 (Response.allow (some "pam-1") "fido2")).length :=
      List.length_pos_of_ne_nil (Response.wire_ne_nil _ fun _ => rfl)
    rw [List.length_dropLast] at hle
    omega
  obtain ⟨-, -, herror, -⟩ := outcome_of_cut_response .rfc8259 (fun _ => rfl) (fun _ => rfl)
    (fun _ => "invalid utf-8 sequence") (.allow (some "pam-1") "fido2" (.inl rfl)) ⟨_, none⟩ hpart
  exact herror (fun h => hcut h.2) (fun h => hcut h.2)

end OlaCore
