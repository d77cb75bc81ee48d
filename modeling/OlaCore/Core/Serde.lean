import OlaCore.Core.Types
import OlaCore.Lib.JsonSize
import OlaCore.Lib.Sha256

set_option relaxedAutoImplicit false
set_option autoImplicit false

/-!
# JSON and hashing

The daemon reads and writes JSON through the `serde_json` crate, which is a parameter here: a
`SerdeJson` is its text functions together with the part of their documented behaviour that
the daemon relies on. What `#[derive(Serialize, Deserialize)]` generates for the daemon's own
types is written out over JSON values: the fields of a structure, unknown and duplicate keys,
missing optional fields, the integer ranges and fixed-size arrays.

## Main definitions

* `OlaCore.SerdeJson` — the crate, with its laws.
* `OlaCore.SerdeJson.rfc8259` — an instance of the laws, with exact decimal expansions.
* `OlaCore.Crates` — the crates of the daemon: `serde_json`, `sha2` and `hmac`.
* `OlaCore.structFields`, `OlaCore.valueFields`, `OlaCore.requiredField`, `OlaCore.optionalStr` —
  the fields of a structure.
* `OlaCore.VerificationRequest.serialize`, `OlaCore.VerificationResult.deserialize`.
-/

namespace OlaCore

open ByteText

/-- The bytes that `u8::is_ascii_whitespace` accepts. -/
def isAsciiWhitespace (b : UInt8) : Bool := b = 32 || b = 9 || b = 10 || b = 12 || b = 13

/-- An unsigned integer as a JSON number. -/
def natNumber (n : ℕ) : Json.Number := ⟨false, n, [], none⟩

/-- The values that the daemon's structures hold in their fields: nulls, strings, 64-bit
integers, finite single-precision numbers in the given decimal form, and byte arrays. -/
inductive Plain (f32Number : Binary32 → Json.Number) : Json → Prop
  | null : Plain f32Number .null
  | str (s : String) : Plain f32Number (.str s)
  | nat (n : ℕ) (h : n < 2 ^ 64) : Plain f32Number (.num (natNumber n))
  | f32 (x : Binary32) (h : x.isFinite) : Plain f32Number (.num (f32Number x))
  | bytes (bs : Bytes) : Plain f32Number (.arr (bs.map fun b => .num (natNumber b.toNat)))

/-- The `serde_json` crate: `to_string` and the syntax of `from_str`, the decimal form in which
it writes a finite `f32`, how it reads a number into an `f32`, and the message of a text that
it refuses. The laws are what the daemon relies on. -/
structure SerdeJson where
  toString : Json → String
  fromStr : String → Option Json
  f32Number : Binary32 → Json.Number
  f32OfNumber : Json.Number → Option Binary32
  errorText : String → String
  /-- An object of plain values is read back as it was written. -/
  fromStr_toString : ∀ ms : List (String × Json), (∀ m ∈ ms, Plain f32Number m.2) →
    fromStr (toString (.obj ms)) = some (.obj ms)
  /-- Compact output is one line: newlines in strings are escaped. -/
  newline_not_mem_toString : ∀ j, newline ∉ utf8 (toString j)
  /-- Blank text is not a JSON value. -/
  fromStr_blank : ∀ s, (∀ b ∈ utf8 s, isAsciiWhitespace b) → fromStr s = none
  /-- Finite single-precision numbers are read back exactly. -/
  f32OfNumber_f32Number : ∀ x : Binary32, x.isFinite → f32OfNumber (f32Number x) = some x

/-- Text of ASCII whitespace bytes is text of ASCII whitespace characters. -/
private lemma whitespace_of_mem_toList {s : String} (h : ∀ b ∈ utf8 s, isAsciiWhitespace b)
    {c : Char} (hc : c ∈ s.toList) : c = ' ' ∨ c = '\t' ∨ c = '\n' ∨ c = '\x0c' ∨ c = '\r' := by
  have h7 : ∀ b : UInt8, isAsciiWhitespace b → b.toNat ≤ 127 := by
    intro b hb
    simp only [isAsciiWhitespace, Bool.or_eq_true, decide_eq_true_eq] at hb
    rcases hb with (((rfl | rfl) | rfl) | rfl) | rfl <;> decide
  obtain ⟨hc7, hw⟩ := (forall_mem_utf8_iff h7).mp h c hc
  have hcode : ∀ n < 128, isAsciiWhitespace (UInt8.ofNat n) →
      n = 32 ∨ n = 9 ∨ n = 10 ∨ n = 12 ∨ n = 13 := by decide
  rcases hcode c.toNat (by omega) hw with h | h | h | h | h
  · exact .inl (Char.toNat_inj.mp h)
  · exact .inr (.inl (Char.toNat_inj.mp h))
  · exact .inr (.inr (.inl (Char.toNat_inj.mp h)))
  · exact .inr (.inr (.inr (.inl (Char.toNat_inj.mp h))))
  · exact .inr (.inr (.inr (.inr (Char.toNat_inj.mp h))))

/-- The laws hold of the grammar of RFC 8259 with exact decimal expansions, which are also the
shortest ones for values such as `1.0` and `0.5`. -/
def SerdeJson.rfc8259 : SerdeJson where
  toString := Json.compact
  fromStr := Json.parse
  f32Number := Binary32.toNumber
  f32OfNumber := Binary32.ofNumber
  errorText := fun _ => "expected value at line 1 column 1"
  fromStr_toString := fun _ _ => Json.parse_compact _
  newline_not_mem_toString := fun j h => by
    have hm : '\n' ∈ j.print := (mem_utf8_ofList_iff (c := '\n') (by decide)).mp h
    exact absurd (Json.ge_32_of_mem_print j hm) (by decide)
  fromStr_blank := fun _ h => Json.parse_blank fun _ hc => whitespace_of_mem_toList h hc
  f32OfNumber_f32Number := fun _ hx => Binary32.ofNumber_toNumber hx

/-- The crates of the daemon. `sha2` and `hmac` are the functions they compute. -/
structure Crates where
  serde : SerdeJson
  sha256 : Bytes → Vector UInt8 32
  hmacSha256 : Bytes → Bytes → Vector UInt8 32

/-- The crates with the executable hash functions. -/
def Crates.reference : Crates := ⟨.rfc8259, Sha256.digest, Sha256.hmac⟩

/-! ## Derived codecs -/

/-- The fields that a derived structure visitor collects. An object must not repeat a known
key, and unknown keys are refused or ignored; an array gives the fields by position. -/
def structFields (names : List String) (denyUnknownFields : Bool) :
    Json → Option (List (String × Json))
  | .obj ms =>
    let known := ms.filter fun m => decide (m.1 ∈ names)
    if (known.map Prod.fst).Nodup ∧ (denyUnknownFields = true → ∀ m ∈ ms, m.1 ∈ names) then
      some known
    else none
  | .arr vs => if vs.length = names.length then some (names.zip vs) else none
  | _ => none

/-- The fields that a derived structure visitor collects from a `serde_json::Value`, which holds no
key twice. Unknown keys are ignored. -/
def valueFields (names : List String) : Json → Option (List (String × Json))
  | .obj ms => some (names.filterMap fun name => ((Json.obj ms).get name).map fun v => (name, v))
  | .arr vs => if vs.length = names.length then some (names.zip vs) else none
  | _ => none

/-- A required field, read by `f`. -/
def requiredField {α : Type} (fs : List (String × Json)) (name : String) (f : Json → Option α) :
    Option α :=
  (fs.lookup name).bind f

/-- A string. -/
def deserializeStr : Json → Option String
  | .str s => some s
  | _ => none

/-- An unsigned integer below `bound`: no sign, fraction or exponent. -/
def deserializeNat (bound : ℕ) : Json → Option ℕ
  | .num n => if n = natNumber n.int ∧ n.int < bound then some n.int else none
  | _ => none

/-- A `u8`. -/
def deserializeU8 (j : Json) : Option UInt8 := (deserializeNat (2 ^ 8) j).map UInt8.ofNat

/-- A `u32`. -/
def deserializeU32 (j : Json) : Option UInt32 := (deserializeNat (2 ^ 32) j).map UInt32.ofNat

/-- A `u64`. -/
def deserializeU64 (j : Json) : Option UInt64 := (deserializeNat (2 ^ 64) j).map UInt64.ofNat

/-- An `f32`. Only numbers are read; `null` is not. -/
def SerdeJson.deserializeF32 (serde : SerdeJson) : Json → Option Binary32
  | .num n => serde.f32OfNumber n
  | _ => none

/-- An `f32` is written as a number when it is finite and as `null` otherwise. -/
def SerdeJson.serializeF32 (serde : SerdeJson) (x : Binary32) : Json :=
  if x.isFinite then .num (serde.f32Number x) else .null

/-- An optional string: `null` and a missing field both read as `none`. -/
def optionalStr (fs : List (String × Json)) (name : String) : Option (Option String) :=
  match fs.lookup name with
  | none => some none
  | some .null => some none
  | some (.str s) => some (some s)
  | some _ => none

/-- An optional string is written as `null` when absent. -/
def serializeOptionStr : Option String → Json
  | none => .null
  | some s => .str s

/-- A byte array of fixed length. -/
def deserializeBytes (n : ℕ) : Json → Option (Vector UInt8 n)
  | .arr vs => do
    let bytes ← vs.mapM deserializeU8
    if h : bytes.toArray.size = n then some ⟨bytes.toArray, h⟩ else none
  | _ => none

/-- A byte array is written as an array of numbers. -/
def serializeBytes {n : ℕ} (v : Vector UInt8 n) : Json :=
  .arr (v.toList.map fun b => .num (natNumber b.toNat))

/-- An optional value: `null` and a missing field both read as `none`. -/
def optionalValue (fs : List (String × Json)) (name : String) : Option Json :=
  match fs.lookup name with
  | none => none
  | some .null => none
  | some v => some v

/-- A method is written by its name. -/
def AuthMethod.serialize (m : AuthMethod) : Json := .str m.asStr

/-- A method, by its name. -/
def AuthMethod.deserialize (j : Json) : Option AuthMethod :=
  (deserializeStr j).bind fun raw => (AuthMethod.ofStr raw).toOption

/-- A reply of an adapter. Unknown fields are ignored. -/
def VerificationResult.deserialize (serde : SerdeJson) (j : Json) : Option VerificationResult := do
  let fs ← structFields ["version", "id", "confidence", "method", "timestamp_ms", "uid", "nonce",
    "evidence_hash"] false j
  return {
    version := ← requiredField fs "version" deserializeU8
    id := ← requiredField fs "id" (deserializeBytes 16)
    confidence := ← requiredField fs "confidence" serde.deserializeF32
    method := ← requiredField fs "method" AuthMethod.deserialize
    timestampMs := ← requiredField fs "timestamp_ms" deserializeU64
    uid := ← requiredField fs "uid" deserializeU32
    nonce := ← requiredField fs "nonce" (deserializeBytes 32)
    evidenceHash := ← requiredField fs "evidence_hash" (deserializeBytes 32) }

/-- The challenge as it is sent to an adapter. -/
def VerificationRequest.serialize (r : VerificationRequest) : Json :=
  .obj [("version", .num (natNumber r.version.toNat)),
    ("id", serializeBytes r.id),
    ("uid", .num (natNumber r.uid.toNat)),
    ("nonce", serializeBytes r.nonce),
    ("deadline_ms", .num (natNumber r.deadlineMs.toNat))]

/-- A result as an adapter sends it. -/
def VerificationResult.serialize (serde : SerdeJson) (r : VerificationResult) : Json :=
  .obj [("version", .num (natNumber r.version.toNat)),
    ("id", serializeBytes r.id),
    ("confidence", serde.serializeF32 r.confidence),
    ("method", r.method.serialize),
    ("timestamp_ms", .num (natNumber r.timestampMs.toNat)),
    ("uid", .num (natNumber r.uid.toNat)),
    ("nonce", serializeBytes r.nonce),
    ("evidence_hash", serializeBytes r.evidenceHash)]

/-! ## Reading back what was written -/

section Read

variable {n : ℕ}

/-- An integer in range is read back. -/
@[simp] theorem deserializeNat_natNumber {bound : ℕ} (h : n < bound) :
    deserializeNat bound (.num (natNumber n)) = some n := by
  simp [deserializeNat, natNumber, h]

/-- A `u64` is read back. -/
@[simp] theorem deserializeU64_natNumber (x : UInt64) :
    deserializeU64 (.num (natNumber x.toNat)) = some x := by
  simp [deserializeU64, deserializeNat_natNumber x.toNat_lt]

/-- A `u32` is read back. -/
@[simp] theorem deserializeU32_natNumber (x : UInt32) :
    deserializeU32 (.num (natNumber x.toNat)) = some x := by
  simp [deserializeU32, deserializeNat_natNumber x.toNat_lt]

/-- A `u8` is read back. -/
@[simp] theorem deserializeU8_natNumber (x : UInt8) :
    deserializeU8 (.num (natNumber x.toNat)) = some x := by
  simp [deserializeU8, deserializeNat_natNumber x.toNat_lt]

/-- A byte array is read back. -/
@[simp] theorem deserializeBytes_serializeBytes (v : Vector UInt8 n) :
    deserializeBytes n (serializeBytes v) = some v := by
  have hmap : ∀ bs : Bytes,
      (bs.map fun b => Json.num (natNumber b.toNat)).mapM deserializeU8 = some bs := by
    intro bs
    induction bs with
    | nil => rfl
    | cons b bs ih =>
      rw [List.map_cons, List.mapM_cons, deserializeU8_natNumber, ih]
      rfl
  simp [deserializeBytes, serializeBytes, hmap, Vector.toList]

/-- A finite `f32` is read back; any other one is not read at all. -/
theorem SerdeJson.deserializeF32_serializeF32 (serde : SerdeJson) (x : Binary32) :
    serde.deserializeF32 (serde.serializeF32 x) = if x.isFinite then some x else none := by
  unfold serializeF32
  split
  · next hx => exact serde.f32OfNumber_f32Number x hx
  · rfl

/-- A result with a finite confidence and a method that can be named is read back. -/
theorem VerificationResult.deserialize_serialize (serde : SerdeJson) {r : VerificationResult}
    (hfin : r.confidence.isFinite) (hm : AuthMethod.ofStr r.method.asStr = .ok r.method) :
    VerificationResult.deserialize serde (r.serialize serde) = some r := by
  have hconf : serde.deserializeF32 (serde.serializeF32 r.confidence) = some r.confidence := by
    rw [serde.deserializeF32_serializeF32, if_pos hfin]
  simp [deserialize, serialize, structFields, requiredField, AuthMethod.deserialize,
    AuthMethod.serialize, deserializeStr, hm, hconf, Except.toOption, List.lookup_cons]

/-- The line of such a result is read back. -/
theorem VerificationResult.read_toString (serde : SerdeJson) {r : VerificationResult}
    (hfin : r.confidence.isFinite) (hm : AuthMethod.ofStr r.method.asStr = .ok r.method) :
    (serde.fromStr (serde.toString (r.serialize serde))).bind
      (VerificationResult.deserialize serde) = some r := by
  have hversion : r.version.toNat < 2 ^ 64 := r.version.toNat_lt.trans (by decide)
  have huid : r.uid.toNat < 2 ^ 64 := r.uid.toNat_lt.trans (by decide)
  have hconf : Plain serde.f32Number (serde.serializeF32 r.confidence) := by
    rw [SerdeJson.serializeF32, if_pos hfin]
    exact .f32 _ hfin
  rw [serialize, serde.fromStr_toString, Option.bind_some]
  · exact deserialize_serialize serde hfin hm
  · simp only [List.forall_mem_cons, List.not_mem_nil, false_implies, implies_true, and_true]
    exact ⟨.nat _ hversion, .bytes _, hconf, .str _, .nat _ r.timestampMs.toNat_lt, .nat _ huid,
      .bytes _, .bytes _⟩

end Read

/-! ## The size of what was written -/

/-- A 64-bit number has at most twenty digits. -/
theorem byteLength_natNumber_le {n : ℕ} (hn : n < 2 ^ 64) :
    byteLength (natNumber n).chars ≤ 20 := by
  have hdigits : (Nat.toDigits 10 n).length ≤ 20 :=
    (Nat.length_toDigits_le_iff (by decide) (by decide)).mpr (by omega)
  simpa [Json.Number.chars, natNumber, Json.byteLength_toDigits] using hdigits

/-- The text of a 64-bit number. -/
theorem byteLength_print_num_le {n : ℕ} (hn : n < 2 ^ 64) :
    byteLength (Json.num (natNumber n)).print ≤ 20 := by
  rw [Json.print]
  exact byteLength_natNumber_le hn

/-- The text of an optional string. -/
theorem byteLength_print_serializeOptionStr_le {v : Option String} {n : ℕ}
    (h : ∀ s, v = some s → Json.escapedLength s ≤ n) :
    byteLength (serializeOptionStr v).print ≤ n + 4 := by
  cases v with
  | none =>
    have hnull : byteLength Json.null.print = 4 := by decide
    rw [serializeOptionStr, hnull]
    omega
  | some s =>
    have hs := h s rfl
    rw [serializeOptionStr, Json.print, Json.byteLength_quote]
    omega

/-- The text of a byte array has at most 21 characters for each byte. -/
theorem byteLength_print_serializeBytes_le {n : ℕ} (v : Vector UInt8 n) :
    byteLength (serializeBytes v).print ≤ 21 * n + 2 := by
  have hopen := Json.utf8Size_punctuation '[' (by simp)
  have hclose := Json.utf8Size_punctuation ']' (by simp)
  have hcomma := Json.utf8Size_punctuation ',' (by simp)
  have hbyte : ∀ b : UInt8, byteLength (natNumber b.toNat).chars ≤ 20 := fun b =>
    byteLength_natNumber_le (b.toNat_lt.trans (by norm_num))
  have hitems : ∀ bs : Bytes, byteLength (Json.printItems
      (bs.map fun b => Json.num (natNumber b.toNat))) ≤ 21 * bs.length + 1 := by
    intro bs
    induction bs with
    | nil => simp [Json.printItems, hclose]
    | cons b bs ih =>
      have hb := hbyte b
      rw [List.map_cons, Json.printItems, byteLength_cons, byteLength_append, Json.print, hcomma,
        List.length_cons]
      omega
  have hlen : v.toList.length = n := v.length_toList
  unfold serializeBytes
  generalize v.toList = bs at hlen ⊢
  cases bs with
  | nil =>
    rw [List.map_nil, Json.print, byteLength_cons, byteLength_cons, hopen, hclose, byteLength_nil]
    omega
  | cons b bs =>
    have hb := hbyte b
    have hbs := hitems bs
    rw [List.length_cons] at hlen
    rw [List.map_cons, Json.print, byteLength_cons, byteLength_append, Json.print, hopen]
    omega

end OlaCore
