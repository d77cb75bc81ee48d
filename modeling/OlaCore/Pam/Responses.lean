import OlaCore.Pam.Bridge

set_option relaxedAutoImplicit false
set_option autoImplicit false

/-!
# What the PAM module takes for an allow

An allow has a shape: version one, the id of the request, the decision to allow and no error. The
Python client checks all of it. The PAM module looks for an error only among strings, so that an
error of another kind passes for none: it takes a response for an allow which has the shape but for
such an error.

## Main definitions

* `OlaCore.AllowShape` — the shape of an allow.
* `OlaCore.AllowWithOddError` — the responses that the PAM module should refuse and does not.
* `OlaCore.PamStream.Holds` — the document in the line that is read.

## Main results

* `OlaCore.interpretValue_eq_allow_iff` — what is taken for an allow.
* `OlaCore.interpretResponse_shape_iff` — exactly when an allow is known to have the shape.
-/

namespace OlaCore

/-- The answer to the request allows: it is version one, it has the id of the request, and its
result holds the decision to allow. -/
structure AllowsRequest (response : Json) (expectedId : String) : Prop where
  version : response.get "version" = some (.num (natNumber 1))
  id : response.get "id" = some (.str expectedId)
  decision : ((response.get "result").bind fun v => v.get "decision") = some (.str "allow")

/-- **The shape of an allow**: an object that allows the request and has no error. -/
structure AllowShape (response : Json) (expectedId : String) : Prop where
  object : ∃ ms, response = .obj ms
  allows : AllowsRequest response expectedId
  noError : response.get "error" = none ∨ response.get "error" = some .null

/-- A response that allows the request and has an error which is neither `null` nor a string. -/
structure AllowWithOddError (response : Json) (expectedId : String) : Prop where
  allows : AllowsRequest response expectedId
  oddError : ∃ error, response.get "error" = some error ∧ error ≠ .null ∧
    deserializeStr error = none

/-- Only a string is read as one. -/
theorem deserializeStr_eq_some_iff {j : Json} {s : String} :
    deserializeStr j = some s ↔ j = .str s := by
  cases j <;> simp [deserializeStr]

/-- An integer is read from its decimal form only. -/
theorem deserializeNat_eq_some_iff {bound n : ℕ} {j : Json} :
    deserializeNat bound j = some n ↔ j = .num (natNumber n) ∧ n < bound := by
  cases j with
  | num m =>
    simp only [deserializeNat, Json.num.injEq]
    constructor
    · intro h
      split at h
      · next hm =>
        obtain rfl := Option.some.inj h
        exact hm
      · cases h
    · rintro ⟨rfl, hn⟩
      simp [natNumber, hn]
  | _ => simp [deserializeNat]

section Value

variable {response : Json} {expectedId : String}

/-- **What is taken for an allow**: a response that allows the request, unless its error is a
string. -/
theorem interpretValue_eq_allow_iff : interpretValue response expectedId = .allow ↔
    AllowsRequest response expectedId ∧ ∀ error, response.get "error" ≠ some (.str error) := by
  have hstr : ∀ (o : Option Json) (s : String),
      o.bind deserializeStr = some s ↔ o = some (.str s) := by
    intro o s
    simp [Option.bind_eq_some_iff, deserializeStr_eq_some_iff]
  unfold interpretValue
  by_cases hversion : (response.get "version").bind (deserializeNat (2 ^ 64)) = some 1
  swap
  · rw [if_pos hversion]
    refine iff_of_false (by simp) fun h => hversion ?_
    rw [h.1.version, Option.bind_some]
    exact deserializeNat_natNumber (by norm_num)
  rw [if_neg (not_not.mpr hversion)]
  by_cases hid : (response.get "id").bind deserializeStr = some expectedId
  swap
  · rw [if_pos hid]
    exact iff_of_false (by simp) fun h => hid ((hstr _ _).mpr h.1.id)
  rw [if_neg (not_not.mpr hid)]
  cases herror : (response.get "error").bind deserializeStr with
  | some error => exact iff_of_false (by simp) fun h => h.2 error ((hstr _ _).mp herror)
  | none =>
    have hnone : ∀ error, response.get "error" ≠ some (.str error) := by
      intro error h
      rw [(hstr _ _).mpr h] at herror
      cases herror
    constructor
    · intro h
      refine ⟨⟨?_, (hstr _ _).mp hid, ?_⟩, hnone⟩
      · obtain ⟨v, hv, hone⟩ := Option.bind_eq_some_iff.mp hversion
        rw [hv, (deserializeNat_eq_some_iff.mp hone).1]
      · dsimp only at h
        split at h
        · next hdecision => exact (hstr _ _).mp hdecision
        · cases h
        · cases h
    · rintro ⟨hallows, -⟩
      rw [hallows.decision]
      rfl

/-- What is taken for an allow has the shape, or has an error of the wrong kind, and not both. -/
theorem interpretValue_eq_allow_iff_shape : interpretValue response expectedId = .allow ↔
    AllowShape response expectedId ∨ AllowWithOddError response expectedId := by
  rw [interpretValue_eq_allow_iff]
  constructor
  · rintro ⟨hallows, hnone⟩
    have hobject : ∃ ms, response = .obj ms := by
      have hversion := hallows.version
      cases response with
      | obj ms => exact ⟨ms, rfl⟩
      | _ => cases hversion
    cases herror : response.get "error" with
    | none => exact .inl ⟨hobject, hallows, .inl herror⟩
    | some error =>
      by_cases hnull : error = .null
      · subst hnull
        exact .inl ⟨hobject, hallows, .inr herror⟩
      · refine .inr ⟨hallows, error, herror, hnull, ?_⟩
        by_contra hsome
        obtain ⟨s, hs⟩ := Option.ne_none_iff_exists'.mp hsome
        rw [deserializeStr_eq_some_iff.mp hs] at herror
        exact hnone s herror
  · rintro (⟨-, hallows, herror⟩ | ⟨hallows, e, he, -, hstr⟩)
    · refine ⟨hallows, fun error h => ?_⟩
      rcases herror with herror | herror <;> rw [herror] at h <;> cases h
    · refine ⟨hallows, fun error h => ?_⟩
      rw [he] at h
      rw [deserializeStr_eq_some_iff.mpr (Option.some.inj h)] at hstr
      cases hstr

/-- An error of the wrong kind is an error. -/
theorem AllowWithOddError.not_allowShape (h : AllowWithOddError response expectedId) :
    ¬ AllowShape response expectedId := by
  rintro ⟨-, -, herror⟩
  obtain ⟨e, he, hnull, -⟩ := h.oddError
  rcases herror with herror | herror
  · rw [he] at herror
    cases herror
  · rw [he] at herror
    exact hnull (Option.some.inj herror)

end Value

/-! ## Lines and streams -/

/-- The document in a line. -/
def LineHolds (serde : SerdeJson) (line : String) (response : Json) : Prop :=
  serde.fromStr (trim line) = some response

/-- The document in the line that is read from a stream. -/
def PamStream.Holds (serde : SerdeJson) (utf8Error : ByteText.Bytes → String) (stream : PamStream)
    (response : Json) : Prop :=
  ∃ line, stream.readLine utf8Error = .ok line ∧ LineHolds serde line response

section Lines

variable {serde : SerdeJson} {utf8Error : ByteText.Bytes → String} {line expectedId : String}
  {stream : PamStream}

/-- A line is taken for an allow when its document is. -/
theorem interpretResponse_eq_allow_iff : interpretResponse serde line expectedId = .allow ↔
    ∃ response, LineHolds serde line response ∧ interpretValue response expectedId = .allow := by
  unfold interpretResponse LineHolds
  cases serde.fromStr (trim line) <;> simp

/-- A stream is taken for an allow when its document is. -/
theorem PamStream.outcome_eq_allow_iff : stream.outcome serde utf8Error expectedId = .allow ↔
    ∃ response, stream.Holds serde utf8Error response ∧
      interpretValue response expectedId = .allow := by
  unfold PamStream.outcome PamStream.Holds
  cases stream.readLine utf8Error with
  | error e => simp
  | ok line => simp [interpretResponse_eq_allow_iff]

end Lines

/-- **Exactly when an allow is known to have the shape.** A line, and whatever arrives, is taken for
an allow only if it holds a document of that shape, if and only if it does not hold a document that
allows the request and has an error which is neither `null` nor a string. -/
theorem interpretResponse_shape_iff (serde : SerdeJson) (utf8Error : ByteText.Bytes → String)
    (expectedId : String) :
    (∀ line, (interpretResponse serde line expectedId = .allow →
        ∃ response, LineHolds serde line response ∧ AllowShape response expectedId) ↔
      ¬ ∃ response, LineHolds serde line response ∧ AllowWithOddError response expectedId) ∧
    ∀ stream : PamStream, (stream.outcome serde utf8Error expectedId = .allow →
        ∃ response, stream.Holds serde utf8Error response ∧ AllowShape response expectedId) ↔
      ¬ ∃ response, stream.Holds serde utf8Error response ∧
        AllowWithOddError response expectedId := by
  -- Both are about one document at most.
  have hone : ∀ holds : Json → Prop, (∀ r r', holds r → holds r' → r = r') →
      (((∃ r, holds r ∧ interpretValue r expectedId = .allow) →
          ∃ r, holds r ∧ AllowShape r expectedId) ↔
        ¬ ∃ r, holds r ∧ AllowWithOddError r expectedId) := by
    intro holds hunique
    constructor
    · rintro h ⟨r, hr, hodd⟩
      obtain ⟨r', hr', hshape⟩ := h ⟨r, hr, interpretValue_eq_allow_iff_shape.mpr (.inr hodd)⟩
      obtain rfl := hunique r r' hr hr'
      exact hodd.not_allowShape hshape
    · rintro hno ⟨r, hr, hallow⟩
      rcases interpretValue_eq_allow_iff_shape.mp hallow with hshape | hodd
      · exact ⟨r, hr, hshape⟩
      · exact absurd ⟨r, hr, hodd⟩ hno
  constructor
  · intro line
    rw [interpretResponse_eq_allow_iff]
    exact hone _ fun r r' hr hr' => Option.some.inj (hr.symm.trans hr')
  · intro stream
    rw [PamStream.outcome_eq_allow_iff]
    refine hone _ ?_
    rintro r r' ⟨l, hl, hr⟩ ⟨l', hl', hr'⟩
    obtain rfl := Except.ok.inj (hl.symm.trans hl')
    exact Option.some.inj (hr.symm.trans hr')

namespace SampleResponse

/-- A decision to allow together with a number for an error. -/
def response : Json := .obj [("version", .num (natNumber 1)), ("id", .str "x"),
  ("result", .obj [("decision", .str "allow")]), ("error", .num (natNumber 1))]

/-- The line of the response. -/
def line : String :=
  "\x7b\"version\":1,\"id\":\"x\",\"result\":\x7b\"decision\":\"allow\"\x7d,\"error\":1\x7d"

theorem lineHolds : LineHolds .rfc8259 line response := by
  have hline : response.compact = line := by
    simp only [response, Json.compact, Json.print, Json.printMember, Json.printMembers]
    decide +kernel
  have htrim : trim line = response.compact := by
    rw [← hline]
    exact trim_compact_obj _
  have hparse : SerdeJson.rfc8259.fromStr = Json.parse := rfl
  rw [LineHolds, htrim, hparse, Json.parse_compact]

end SampleResponse

/-- A response with both a decision to allow and a number for an error is taken for an allow. -/
theorem odd_error_taken_for_allow : ¬ ∀ line expectedId,
    interpretResponse .rfc8259 line expectedId = .allow →
      ∃ response, LineHolds .rfc8259 line response ∧ AllowShape response expectedId := by
  intro h
  have hallow : interpretResponse .rfc8259 SampleResponse.line "x" = .allow :=
    interpretResponse_eq_allow_iff.mpr ⟨_, SampleResponse.lineHolds, by decide +kernel⟩
  obtain ⟨response, hholds, hshape⟩ := h _ _ hallow
  obtain rfl : SampleResponse.response = response :=
    Option.some.inj (SampleResponse.lineHolds.symm.trans hholds)
  rcases hshape.noError with herror | herror <;> cases herror

end OlaCore
