import OlaCore.Core.Serde

set_option relaxedAutoImplicit false
set_option autoImplicit false

/-!
# Audit entries

One audit entry is one authorisation fact (`audit/entry`, `audit/hex`). Its hash is taken over
a length-prefixed payload of twelve of its thirteen fields; JSON is only the storage format.

## Main definitions

* `OlaCore.encodeHex`, `OlaCore.hexSha256`, `OlaCore.isLowerHexHash`, `OlaCore.zeroHash`.
* `OlaCore.AuditEntry` — the entry, with `hashPayloadV1`, `deny` and `fromDecision`.
* `OlaCore.AuditEntry.serialize`, `OlaCore.AuditEntry.deserialize`, `OlaCore.readEntry` — the
  stored form.

## Main results

* `OlaCore.AuditEntry.hashPayloadV1_eq_iff` — the payload determines the hashed fields.
* `OlaCore.readEntry_toString` — what a reader makes of the stored form.
* `OlaCore.AuditEntry.length_line_seal_le` — the length of a line.
-/

namespace OlaCore

open ByteText

/-! ## Hexadecimal hashes -/

/-- The lowercase hexadecimal digit of a number below sixteen. -/
def hexDigit (n : ℕ) : Char := "0123456789abcdef".toList.getD n '0'

/-- Two digits for each byte, the high nibble first. -/
def encodeHex (bytes : Bytes) : String :=
  String.ofList (bytes.flatMap fun b => [hexDigit (b.toNat / 16), hexDigit (b.toNat % 16)])

/-- The SHA-256 digest in hexadecimal. -/
def hexSha256 (crates : Crates) (bytes : Bytes) : String := encodeHex (crates.sha256 bytes).toList

/-- Is the text 64 lowercase hexadecimal digits? -/
def isLowerHexHash (value : String) : Bool :=
  (utf8 value).length = 64 &&
    (utf8 value).all fun b => (48 ≤ b && b ≤ 57) || (97 ≤ b && b ≤ 102)

/-- The hash that the first entry of a log commits to. -/
def zeroHash : String := "0000000000000000000000000000000000000000000000000000000000000000"

/-- Different nibbles have different digits. -/
private lemma hexDigit_inj {m n : ℕ} (hm : m < 16) (hn : n < 16)
    (h : hexDigit m = hexDigit n) : m = n := by
  interval_cases m <;> interval_cases n <;> first | rfl | exact absurd h (by decide)

/-- The hexadecimal form determines the bytes. -/
theorem encodeHex_injective : Function.Injective encodeHex := by
  intro xs ys h
  replace h := String.ofList_inj.mp h
  induction xs generalizing ys with
  | nil =>
    cases ys with
    | nil => rfl
    | cons y ys => cases h
  | cons x xs ih =>
    cases ys with
    | nil => cases h
    | cons y ys =>
      simp only [List.flatMap_cons, List.cons_append, List.nil_append, List.cons.injEq] at h
      obtain ⟨hhi, hlo, ht⟩ := h
      have hx := x.toNat_lt
      have hy := y.toNat_lt
      have hdiv := hexDigit_inj (by omega) (by omega) hhi
      have hmod := hexDigit_inj (by omega) (by omega) hlo
      rw [ih ht, UInt8.toNat_inj.mp (by omega : x.toNat = y.toNat)]

/-- A hexadecimal digit is an ASCII digit or one of `a` to `f`. -/
private lemma utf8_hexDigit {n : ℕ} (hn : n < 16) :
    String.utf8EncodeChar (hexDigit n) = [UInt8.ofNat (hexDigit n).toNat] ∧
      ((48 ≤ UInt8.ofNat (hexDigit n).toNat && UInt8.ofNat (hexDigit n).toNat ≤ 57) ||
        (97 ≤ UInt8.ofNat (hexDigit n).toNat && UInt8.ofNat (hexDigit n).toNat ≤ 102)) = true := by
  interval_cases n <;> decide

/-- A digest of 32 bytes is a lowercase hexadecimal hash. -/
theorem isLowerHexHash_hexSha256 (crates : Crates) (bytes : Bytes) :
    isLowerHexHash (hexSha256 crates bytes) = true := by
  have h : ∀ ds : Bytes, (utf8 (encodeHex ds)).length = 2 * ds.length ∧
      (utf8 (encodeHex ds)).all fun b => (48 ≤ b && b ≤ 57) || (97 ≤ b && b ≤ 102) := by
    intro ds
    rw [encodeHex, utf8_ofList]
    induction ds with
    | nil => exact ⟨rfl, rfl⟩
    | cons d ds ih =>
      have hd := d.toNat_lt
      obtain ⟨hhi, bhi⟩ := utf8_hexDigit (show d.toNat / 16 < 16 by omega)
      obtain ⟨hlo, blo⟩ := utf8_hexDigit (show d.toNat % 16 < 16 by omega)
      simp only [List.flatMap_cons, List.cons_append, List.nil_append, hhi, hlo, List.length_cons,
        List.all_cons, bhi, blo, Bool.true_and]
      exact ⟨by omega, ih.2⟩
  obtain ⟨hl, ha⟩ := h (crates.sha256 bytes).toList
  rw [isLowerHexHash, hexSha256, ha, hl, Vector.length_toList]
  rfl

@[simp] theorem isLowerHexHash_zeroHash : isLowerHexHash zeroHash = true := by decide

/-- A lowercase hexadecimal hash is not empty. -/
theorem ne_empty_of_isLowerHexHash {s : String} (h : isLowerHexHash s = true) : s ≠ "" := by
  rintro rfl
  exact absurd h (by decide)

/-! ## The entry and its hash payload -/

/-- One durable authorisation fact. The logger fills `prevHash` and `entryHash`; callers leave
them empty. -/
structure AuditEntry where
  tsMs : UInt64
  requestId : Option String
  callerUid : UInt32
  uid : UInt32
  adapterName : Option String
  method : String
  decision : String
  denyReason : Option String
  confidence : Binary32
  evidenceHash : String
  noncePrefix : String
  prevHash : String
  entryHash : String
  deriving DecidableEq

/-- The first bytes of every payload. -/
def hashPayloadV1Prefix : Bytes := utf8 "OLA-AUDIT-HASH-V1\n"

/-- The bytes of one field: name, tag and length, each followed by a colon, then the value and
a newline. -/
def fieldBytes (name : String) (tag : UInt8) (value : Bytes) : Bytes :=
  utf8 name ++ 58 :: tag :: 58 :: (decimal value.length ++ 58 :: (value ++ [newline]))

/-- Append a field. -/
def pushBytes (out : Bytes) (name : String) (tag : UInt8) (value : Bytes) : Bytes :=
  out ++ fieldBytes name tag value

/-- Append a displayed value. -/
def pushValue (out : Bytes) (name : String) (value : String) : Bytes :=
  pushBytes out name 118 (utf8 value)

/-- Append a string. -/
def pushStr (out : Bytes) (name : String) (value : String) : Bytes :=
  pushBytes out name 118 (utf8 value)

/-- Append an optional string; the tag tells an absent one from an empty one. -/
def pushOpt (out : Bytes) (name : String) : Option String → Bytes
  | some value => pushBytes out name 115 (utf8 value)
  | none => pushBytes out name 110 []

/-- The eight hexadecimal digits of a 32-bit number, as the format `08x` gives them. -/
def format08x (n : UInt32) : String :=
  encodeHex [(n >>> 24).toUInt8, (n >>> 16).toUInt8, (n >>> 8).toUInt8, n.toUInt8]

/-- The stable input of audit hashes: every field but the hash itself. -/
def AuditEntry.hashPayloadV1 (e : AuditEntry) : Bytes :=
  let out := hashPayloadV1Prefix
  let out := pushValue out "ts_ms" (toString e.tsMs.toNat)
  let out := pushOpt out "request_id" e.requestId
  let out := pushValue out "caller_uid" (toString e.callerUid.toNat)
  let out := pushValue out "uid" (toString e.uid.toNat)
  let out := pushOpt out "adapter_name" e.adapterName
  let out := pushStr out "method" e.method
  let out := pushStr out "decision" e.decision
  let out := pushOpt out "deny_reason" e.denyReason
  let out := pushValue out "confidence" (format08x e.confidence.bits)
  let out := pushStr out "evidence_hash" e.evidenceHash
  let out := pushStr out "nonce_prefix" e.noncePrefix
  pushStr out "prev_hash" e.prevHash

/-- The fields of a result that an entry records. -/
def resultFields (result : VerificationResult) : Binary32 × String × String :=
  (result.confidence, encodeHex result.evidenceHash.toList,
    encodeHex (result.nonce.toList.take 8))

/-- The entry of a denial outside policy, at the given time. -/
def AuditEntry.deny (nowMs : UInt64) (callerUid uid : UInt32) (method reason : String)
    (adapterName requestId : Option String) (result : Option VerificationResult) : AuditEntry :=
  let (confidence, evidenceHash, noncePrefix) := (result.map resultFields).getD (⟨0⟩, "", "")
  { tsMs := nowMs, requestId, callerUid, uid, adapterName, method, decision := "deny",
    denyReason := some reason, confidence, evidenceHash, noncePrefix, prevHash := "",
    entryHash := "" }

/-- The entry of a policy decision, at the given time. -/
def AuditEntry.fromDecision (nowMs : UInt64) (context : AuthContext) (decision : PolicyDecision)
    (callerUid : UInt32) (adapterName requestId : Option String) : AuditEntry :=
  let (decision, denyReason) := match decision with
    | .allow => ("allow", none)
    | .deny reason => ("deny", some reason.debug)
  let (_, evidenceHash, noncePrefix) := resultFields context.result
  { tsMs := nowMs, requestId, callerUid, uid := context.uid, adapterName,
    method := context.method, decision, denyReason, confidence := context.result.confidence,
    evidenceHash, noncePrefix, prevHash := "", entryHash := "" }

/-- An entry of the unit tests, before it is chained. -/
def testEntry (id : String) : AuditEntry :=
  { tsMs := 1, requestId := some id, callerUid := 1000, uid := 1000, adapterName := some "fido2",
    method := "fido2", decision := "allow", denyReason := none, confidence := ⟨0x3f800000⟩,
    evidenceHash := "", noncePrefix := "", prevHash := "", entryHash := "" }

/-! ## The payload is an injective encoding -/

/-- A field followed by anything is uniquely decodable: the length prefix says where the value
ends, whatever bytes it holds. -/
theorem fieldBytes_append_inj {name : String} {t u : UInt8} {v w r s : Bytes}
    (h : fieldBytes name t v ++ r = fieldBytes name u w ++ s) : t = u ∧ v = w ∧ r = s := by
  simp only [fieldBytes, List.append_assoc, List.cons_append, List.append_cancel_left_eq,
    List.cons.injEq, true_and] at h
  obtain ⟨htag, hrest⟩ := h
  obtain ⟨hlen, hval⟩ := decimal_append_sep_inj hrest
  obtain ⟨hv, hr⟩ := List.append_inj hval hlen
  exact ⟨htag, hv, by simpa using hr⟩

/-- The bytes of an optional field. -/
def optFieldBytes (name : String) : Option String → Bytes
  | some value => fieldBytes name 115 (utf8 value)
  | none => fieldBytes name 110 []

/-- The bytes of a string field. -/
def strFieldBytes (name value : String) : Bytes := fieldBytes name 118 (utf8 value)

/-- A string field followed by anything is uniquely decodable. -/
private lemma strFieldBytes_append_inj {name v w : String} {r s : Bytes}
    (h : strFieldBytes name v ++ r = strFieldBytes name w ++ s) : v = w ∧ r = s := by
  obtain ⟨-, hv, hr⟩ := fieldBytes_append_inj h
  exact ⟨utf8_injective hv, hr⟩

/-- An optional field followed by anything is uniquely decodable; `none` and the empty string
differ in their tag. -/
private lemma optFieldBytes_append_inj {name : String} {v w : Option String} {r s : Bytes}
    (h : optFieldBytes name v ++ r = optFieldBytes name w ++ s) : v = w ∧ r = s := by
  cases v <;> cases w <;> obtain ⟨htag, hv, hr⟩ := fieldBytes_append_inj h
  · exact ⟨rfl, hr⟩
  · exact absurd htag (by decide)
  · exact absurd htag (by decide)
  · exact ⟨congrArg some (utf8_injective hv), hr⟩

/-- The payload as a concatenation of fields. -/
private lemma hashPayloadV1_eq (e : AuditEntry) : e.hashPayloadV1 =
    hashPayloadV1Prefix ++ (strFieldBytes "ts_ms" (toString e.tsMs.toNat) ++
      (optFieldBytes "request_id" e.requestId ++
      (strFieldBytes "caller_uid" (toString e.callerUid.toNat) ++
      (strFieldBytes "uid" (toString e.uid.toNat) ++
      (optFieldBytes "adapter_name" e.adapterName ++
      (strFieldBytes "method" e.method ++
      (strFieldBytes "decision" e.decision ++
      (optFieldBytes "deny_reason" e.denyReason ++
      (strFieldBytes "confidence" (format08x e.confidence.bits) ++
      (strFieldBytes "evidence_hash" e.evidenceHash ++
      (strFieldBytes "nonce_prefix" e.noncePrefix ++
      (strFieldBytes "prev_hash" e.prevHash ++ [])))))))))))) := by
  have hopt : ∀ out name v, pushOpt out name v = out ++ optFieldBytes name v := by
    intro out name v
    cases v <;> rfl
  have hstr : ∀ out name v, pushBytes out name 118 (utf8 v) = out ++ strFieldBytes name v :=
    fun _ _ _ => rfl
  simp only [AuditEntry.hashPayloadV1, pushValue, pushStr, hopt, hstr, List.append_assoc,
    List.append_nil]

/-- The hexadecimal form determines a 32-bit number. -/
private lemma format08x_injective : Function.Injective format08x := by
  intro m n h
  have hb := encodeHex_injective h
  simp only [List.cons.injEq, and_true, ← UInt8.toNat_inj, UInt32.toNat_toUInt8,
    UInt32.toNat_shiftRight, UInt32.reduceToNat, Nat.reduceMod, Nat.shiftRight_eq_div_pow] at hb
  refine UInt32.toNat_inj.mp ?_
  have hm := m.toNat_lt
  have hn := n.toNat_lt
  omega

/-- The decimal form determines a number. -/
private lemma toString_nat_injective {m n : ℕ} (h : toString m = toString n) : m = n :=
  decimal_injective (congrArg utf8 h)

/-- Two entries have the same payload exactly when they differ in nothing but the hash.

**Proof sketch.** Every field is a length-prefixed record under a fixed name, so the payload is
decoded from left to right, field by field. The displayed forms of the integers and of the
confidence bits are injective, and the tags of the optional fields tell `none` from the empty
string. -/
theorem AuditEntry.hashPayloadV1_eq_iff_erase (a b : AuditEntry) :
    a.hashPayloadV1 = b.hashPayloadV1 ↔
      { a with entryHash := "" } = { b with entryHash := "" } := by
  constructor
  · intro h
    rw [hashPayloadV1_eq, hashPayloadV1_eq] at h
    replace h := List.append_cancel_left h
    obtain ⟨hts, h⟩ := strFieldBytes_append_inj h
    obtain ⟨hreq, h⟩ := optFieldBytes_append_inj h
    obtain ⟨hcaller, h⟩ := strFieldBytes_append_inj h
    obtain ⟨huid, h⟩ := strFieldBytes_append_inj h
    obtain ⟨hadapter, h⟩ := optFieldBytes_append_inj h
    obtain ⟨hmethod, h⟩ := strFieldBytes_append_inj h
    obtain ⟨hdecision, h⟩ := strFieldBytes_append_inj h
    obtain ⟨hreason, h⟩ := optFieldBytes_append_inj h
    obtain ⟨hconf, h⟩ := strFieldBytes_append_inj h
    obtain ⟨hevidence, h⟩ := strFieldBytes_append_inj h
    obtain ⟨hnonce, h⟩ := strFieldBytes_append_inj h
    obtain ⟨hprev, -⟩ := strFieldBytes_append_inj h
    cases a
    cases b
    simp only [AuditEntry.mk.injEq] at *
    exact ⟨UInt64.toNat_inj.mp (toString_nat_injective hts), hreq,
      UInt32.toNat_inj.mp (toString_nat_injective hcaller),
      UInt32.toNat_inj.mp (toString_nat_injective huid), hadapter, hmethod, hdecision, hreason,
      congrArg Binary32.mk (format08x_injective hconf), hevidence, hnonce, hprev, trivial⟩
  · intro h
    -- The payload does not read the hash, so it is that of the entry without it.
    change ({ a with entryHash := "" } : AuditEntry).hashPayloadV1 =
      ({ b with entryHash := "" } : AuditEntry).hashPayloadV1
    rw [h]

example : hexSha256 .reference (AuditEntry.hashPayloadV1
    { testEntry "req-1" with
      evidenceHash := "abc123", noncePrefix := "0011223344556677", prevHash := zeroHash }) =
    "f0370ed8cca05c9c7c3b7d280627134d3c140413e904e2cef10104bcbecd5521" := by
  decide +kernel

/-- **The payload is an injective encoding.** Two entries have the same payload exactly when
they agree on the twelve hashed fields, with the confidence compared by bits. -/
theorem AuditEntry.hashPayloadV1_eq_iff (a b : AuditEntry) :
    a.hashPayloadV1 = b.hashPayloadV1 ↔
      a.tsMs = b.tsMs ∧ a.requestId = b.requestId ∧ a.callerUid = b.callerUid ∧ a.uid = b.uid ∧
      a.adapterName = b.adapterName ∧ a.method = b.method ∧ a.decision = b.decision ∧
      a.denyReason = b.denyReason ∧ a.confidence.bits = b.confidence.bits ∧
      a.evidenceHash = b.evidenceHash ∧ a.noncePrefix = b.noncePrefix ∧
      a.prevHash = b.prevHash := by
  rw [hashPayloadV1_eq_iff_erase]
  cases a with | mk _ _ _ _ _ _ _ _ ca =>
  cases b with | mk _ _ _ _ _ _ _ _ cb =>
  cases ca
  cases cb
  simp

/-! ## The stored form -/

/-- The keys of a stored entry, in order. -/
def auditEntryFields : List String :=
  ["ts_ms", "request_id", "caller_uid", "uid", "adapter_name", "method", "decision",
    "deny_reason", "confidence", "evidence_hash", "nonce_prefix", "prev_hash", "entry_hash"]

/-- The stored form of an entry. Empty hashes are left out. -/
def AuditEntry.serialize (serde : SerdeJson) (e : AuditEntry) : Json :=
  .obj (
    [("ts_ms", .num (natNumber e.tsMs.toNat)),
      ("request_id", serializeOptionStr e.requestId),
      ("caller_uid", .num (natNumber e.callerUid.toNat)),
      ("uid", .num (natNumber e.uid.toNat)),
      ("adapter_name", serializeOptionStr e.adapterName),
      ("method", .str e.method),
      ("decision", .str e.decision),
      ("deny_reason", serializeOptionStr e.denyReason),
      ("confidence", serde.serializeF32 e.confidence),
      ("evidence_hash", .str e.evidenceHash),
      ("nonce_prefix", .str e.noncePrefix)] ++
    (if e.prevHash = "" then [] else [("prev_hash", .str e.prevHash)]) ++
    (if e.entryHash = "" then [] else [("entry_hash", .str e.entryHash)]))

/-- Reading a stored entry. Unknown fields are refused, and both hashes are required. -/
def AuditEntry.deserialize (serde : SerdeJson) (j : Json) : Option AuditEntry := do
  let fs ← structFields auditEntryFields true j
  return {
    tsMs := ← requiredField fs "ts_ms" deserializeU64
    requestId := ← optionalStr fs "request_id"
    callerUid := ← requiredField fs "caller_uid" deserializeU32
    uid := ← requiredField fs "uid" deserializeU32
    adapterName := ← optionalStr fs "adapter_name"
    method := ← requiredField fs "method" deserializeStr
    decision := ← requiredField fs "decision" deserializeStr
    denyReason := ← optionalStr fs "deny_reason"
    confidence := ← requiredField fs "confidence" serde.deserializeF32
    evidenceHash := ← requiredField fs "evidence_hash" deserializeStr
    noncePrefix := ← requiredField fs "nonce_prefix" deserializeStr
    prevHash := ← requiredField fs "prev_hash" deserializeStr
    entryHash := ← requiredField fs "entry_hash" deserializeStr }

/-- `serde_json::from_str` for entries, which both readers of the log use. -/
def readEntry (serde : SerdeJson) (line : String) : Option AuditEntry :=
  (serde.fromStr line).bind (AuditEntry.deserialize serde)

/-- An optional string field is read back. -/
private lemma optionalStr_of_lookup {fs : List (String × Json)} {name : String}
    {v : Option String} (h : fs.lookup name = some (serializeOptionStr v)) :
    optionalStr fs name = some v := by
  cases v <;> simp [optionalStr, h, serializeOptionStr]

/-- An optional string is stored as a plain value. -/
private lemma plain_serializeOptionStr (f : Binary32 → Json.Number) (v : Option String) :
    Plain f (serializeOptionStr v) := by
  cases v with
  | none => exact .null
  | some s => exact .str s

/-- A single-precision number is stored as a plain value, finite or not. -/
private lemma plain_serializeF32 (serde : SerdeJson) (x : Binary32) :
    Plain serde.f32Number (serde.serializeF32 x) := by
  unfold SerdeJson.serializeF32
  split
  · next hx => exact .f32 x hx
  · exact .null

/-- The members of the stored form of an entry that has both hashes. -/
def AuditEntry.storedFields (serde : SerdeJson) (e : AuditEntry) : List (String × Json) :=
  [("ts_ms", .num (natNumber e.tsMs.toNat)), ("request_id", serializeOptionStr e.requestId),
    ("caller_uid", .num (natNumber e.callerUid.toNat)), ("uid", .num (natNumber e.uid.toNat)),
    ("adapter_name", serializeOptionStr e.adapterName), ("method", .str e.method),
    ("decision", .str e.decision), ("deny_reason", serializeOptionStr e.denyReason),
    ("confidence", serde.serializeF32 e.confidence), ("evidence_hash", .str e.evidenceHash),
    ("nonce_prefix", .str e.noncePrefix), ("prev_hash", .str e.prevHash),
    ("entry_hash", .str e.entryHash)]

/-- With both hashes present, no member is left out. -/
theorem AuditEntry.serialize_eq (serde : SerdeJson) {e : AuditEntry} (hp : e.prevHash ≠ "")
    (he : e.entryHash ≠ "") : e.serialize serde = .obj (e.storedFields serde) := by
  rw [serialize, if_neg hp, if_neg he]
  rfl

/-- Every stored member is a plain value. -/
theorem AuditEntry.plain_of_mem_storedFields (serde : SerdeJson) (e : AuditEntry) :
    ∀ m ∈ e.storedFields serde, Plain serde.f32Number m.2 := by
  have hts : Plain serde.f32Number (.num (natNumber e.tsMs.toNat)) := .nat _ e.tsMs.toNat_lt
  have hcaller : e.callerUid.toNat < 2 ^ 64 := e.callerUid.toNat_lt.trans (by decide)
  have huid : e.uid.toNat < 2 ^ 64 := e.uid.toNat_lt.trans (by decide)
  simp only [storedFields, List.forall_mem_cons, List.not_mem_nil, false_implies, implies_true,
    and_true]
  exact ⟨hts, plain_serializeOptionStr _ _, .nat _ hcaller, .nat _ huid,
    plain_serializeOptionStr _ _, .str _, .str _, plain_serializeOptionStr _ _,
    plain_serializeF32 _ _, .str _, .str _, .str _, .str _⟩

/-- The stored form of an entry with both hashes is read back, unless its confidence is not
finite: that is stored as `null`, which is refused. -/
theorem AuditEntry.deserialize_storedFields (serde : SerdeJson) (e : AuditEntry) :
    AuditEntry.deserialize serde (.obj (e.storedFields serde)) =
      if e.confidence.isFinite then some e else none := by
  have hfs : structFields auditEntryFields true (.obj (e.storedFields serde)) =
      some (e.storedFields serde) := by
    simp [structFields, auditEntryFields, storedFields]
  -- Every key is found, with the value stored under it.
  have hts : requiredField (e.storedFields serde) "ts_ms" deserializeU64 = some e.tsMs :=
    deserializeU64_natNumber e.tsMs
  have hreq := optionalStr_of_lookup
    (show (e.storedFields serde).lookup "request_id" = some (serializeOptionStr e.requestId)
      from rfl)
  have hcaller : requiredField (e.storedFields serde) "caller_uid" deserializeU32 =
      some e.callerUid := deserializeU32_natNumber e.callerUid
  have huid : requiredField (e.storedFields serde) "uid" deserializeU32 = some e.uid :=
    deserializeU32_natNumber e.uid
  have hadapter := optionalStr_of_lookup
    (show (e.storedFields serde).lookup "adapter_name" = some (serializeOptionStr e.adapterName)
      from rfl)
  have hreason := optionalStr_of_lookup
    (show (e.storedFields serde).lookup "deny_reason" = some (serializeOptionStr e.denyReason)
      from rfl)
  have hconf : requiredField (e.storedFields serde) "confidence" serde.deserializeF32 =
      if e.confidence.isFinite then some e.confidence else none :=
    serde.deserializeF32_serializeF32 e.confidence
  have hmethod : requiredField (e.storedFields serde) "method" deserializeStr = some e.method := rfl
  have hdecision : requiredField (e.storedFields serde) "decision" deserializeStr =
      some e.decision := rfl
  have hevidence : requiredField (e.storedFields serde) "evidence_hash" deserializeStr =
      some e.evidenceHash := rfl
  have hnonce : requiredField (e.storedFields serde) "nonce_prefix" deserializeStr =
      some e.noncePrefix := rfl
  have hprev : requiredField (e.storedFields serde) "prev_hash" deserializeStr =
      some e.prevHash := rfl
  have hhash : requiredField (e.storedFields serde) "entry_hash" deserializeStr =
      some e.entryHash := rfl
  rw [deserialize, hfs, Option.bind_eq_bind, Option.bind_some, hts, hreq, hcaller, huid, hadapter,
    hmethod, hdecision, hreason, hconf, hevidence, hnonce, hprev, hhash]
  split <;> rfl

/-- **What a reader makes of a stored entry.** The line of an entry with both hashes reads back
as that entry when its confidence is finite, and is refused otherwise. -/
theorem readEntry_toString (serde : SerdeJson) {e : AuditEntry} (hp : e.prevHash ≠ "")
    (he : e.entryHash ≠ "") : readEntry serde (serde.toString (e.serialize serde)) =
      if e.confidence.isFinite then some e else none := by
  rw [readEntry, AuditEntry.serialize_eq serde hp he,
    serde.fromStr_toString _ (e.plain_of_mem_storedFields serde), Option.bind_some,
    AuditEntry.deserialize_storedFields]

/-! ## Sealed entries and their lines -/

/-- The entry as the logger writes it after an entry with hash `prevHash`: it commits to that
hash and carries its own. -/
def AuditEntry.seal (crates : Crates) (e : AuditEntry) (prevHash : String) : AuditEntry :=
  let entry := { e with prevHash := prevHash, entryHash := "" }
  { entry with entryHash := hexSha256 crates entry.hashPayloadV1 }

/-- The line that the logger writes for an entry. -/
def AuditEntry.line (serde : SerdeJson) (e : AuditEntry) : Bytes :=
  utf8 (serde.toString (e.serialize serde) ++ "\n")

section Seal

variable {crates : Crates} {e : AuditEntry} {h : String}

@[simp] theorem AuditEntry.seal_prevHash : (e.seal crates h).prevHash = h := rfl

@[simp] theorem AuditEntry.seal_confidence : (e.seal crates h).confidence = e.confidence := rfl

/-- A sealed entry carries the hash of its payload. -/
theorem AuditEntry.seal_entryHash :
    (e.seal crates h).entryHash = hexSha256 crates (e.seal crates h).hashPayloadV1 := rfl

/-- The hash of a sealed entry has the form of a hash. -/
theorem AuditEntry.isLowerHexHash_seal : isLowerHexHash (e.seal crates h).entryHash :=
  isLowerHexHash_hexSha256 crates _

/-- A line is the text of the entry and a newline. -/
theorem AuditEntry.line_eq (serde : SerdeJson) (e : AuditEntry) :
    e.line serde = utf8 (serde.toString (e.serialize serde)) ++ [newline] := by
  rw [line, utf8_append]
  rfl

/-- A sealed entry is read back from its line exactly when its confidence is finite. -/
theorem AuditEntry.readEntry_seal (hh : isLowerHexHash h) :
    readEntry crates.serde (crates.serde.toString ((e.seal crates h).serialize crates.serde)) =
      if e.confidence.isFinite then some (e.seal crates h) else none :=
  readEntry_toString crates.serde (ne_empty_of_isLowerHexHash hh)
    (ne_empty_of_isLowerHexHash isLowerHexHash_seal)

/-- The line of the entry decodes back to it, whichever hash it is chained to. -/
def AuditEntry.DecodesBack (crates : Crates) (e : AuditEntry) : Prop :=
  ∀ h, isLowerHexHash h →
    readEntry crates.serde (crates.serde.toString ((e.seal crates h).serialize crates.serde)) =
      some (e.seal crates h)

/-- The previous hash does not matter: a line that decodes back after one hash does so after
every other, and the entries whose line does are those with a finite confidence. -/
theorem AuditEntry.decodesBack_iff : e.DecodesBack crates ↔ e.confidence.isFinite := by
  constructor
  · intro hd
    have hz := hd zeroHash isLowerHexHash_zeroHash
    rw [readEntry_seal isLowerHexHash_zeroHash] at hz
    by_contra hfin
    rw [if_neg hfin] at hz
    cases hz
  · intro hfin h hh
    rw [readEntry_seal hh, if_pos hfin]

end Seal

/-! ## The size of a line -/

section Size

variable {crates : Crates} {e : AuditEntry} {prevHash : String}

/-- The keys of a stored entry are short. -/
theorem escapedLength_key_le :
    ∀ m ∈ e.storedFields crates.serde, Json.escapedLength m.1 ≤ 84 := by
  have hkeys : (e.storedFields crates.serde).map Prod.fst = auditEntryFields := rfl
  have hlen : ∀ k ∈ (e.storedFields crates.serde).map Prod.fst, k.length ≤ 14 := by
    rw [hkeys]
    decide
  exact fun m hm => Json.escapedLength_keys_le _ hlen m.1 (List.mem_map_of_mem hm)

/-- A hash is short. -/
theorem escapedLength_le_of_isLowerHexHash {s : String} (h : isLowerHexHash s) :
    Json.escapedLength s ≤ 384 := by
  simp only [isLowerHexHash, Bool.and_eq_true, decide_eq_true_eq] at h
  exact Json.escapedLength_le_of_utf8 h.1.le

/-- **The length of a line**, by the texts of the entry. -/
theorem AuditEntry.length_line_seal_le (hcompact : ∀ j, crates.serde.toString j = j.compact)
    (hprev : isLowerHexHash prevHash) :
    ((e.seal crates prevHash).line crates.serde).length ≤
      byteLength (serializeOptionStr e.requestId).print +
        byteLength (serializeOptionStr e.adapterName).print +
        byteLength (serializeOptionStr e.denyReason).print +
        byteLength (crates.serde.serializeF32 e.confidence).print + Json.escapedLength e.method +
        Json.escapedLength e.decision + Json.escapedLength e.evidenceHash +
        Json.escapedLength e.noncePrefix + 2048 := by
  have hobj := Json.byteLength_print_obj_le (@escapedLength_key_le crates (e.seal crates prevHash))
  rw [line_eq, serialize_eq crates.serde (ne_empty_of_isLowerHexHash hprev)
    (ne_empty_of_isLowerHexHash isLowerHexHash_seal), hcompact, List.length_append,
    Json.length_utf8_compact, List.length_singleton]
  generalize byteLength (Json.obj ((e.seal crates prevHash).storedFields crates.serde)).print =
    size at hobj ⊢
  have hown := escapedLength_le_of_isLowerHexHash (@isLowerHexHash_seal crates e prevHash)
  have hlast := escapedLength_le_of_isLowerHexHash hprev
  simp only [storedFields, List.foldr_cons, List.foldr_nil, Json.print, Json.byteLength_quote]
    at hobj
  generalize (e.seal crates prevHash).entryHash = hash at hobj hown
  simp only [AuditEntry.seal] at hobj
  have hts := byteLength_natNumber_le e.tsMs.toNat_lt
  have hcaller := byteLength_natNumber_le (e.callerUid.toNat_lt.trans (by norm_num))
  have huid := byteLength_natNumber_le (e.uid.toNat_lt.trans (by norm_num))
  omega

/-- The line of an entry of the unit tests is short. -/
theorem length_line_testEntry_le {id : String} (hid : id.length ≤ 20)
    (hprev : isLowerHexHash prevHash) :
    (((testEntry id).seal .reference prevHash).line Crates.reference.serde).length ≤ 4096 := by
  have hsize := @AuditEntry.length_line_seal_le .reference (testEntry id) prevHash
    (fun _ => rfl) hprev
  have hrequest : byteLength (serializeOptionStr (some id)).print ≤ 122 :=
    Json.byteLength_print_str_le hid
  have hname : byteLength (serializeOptionStr (some "fido2")).print = 7 := by decide
  have hreason : byteLength (serializeOptionStr none).print = 4 := by decide
  have hconf : byteLength (Crates.reference.serde.serializeF32 ⟨0x3f800000⟩).print ≤ 200 := by
    decide
  have hmethod : Json.escapedLength "fido2" = 5 := by decide
  have hdecision : Json.escapedLength "allow" = 5 := by decide
  have hempty : Json.escapedLength "" = 0 := by decide
  simp only [testEntry] at hsize ⊢
  omega

end Size

end OlaCore
