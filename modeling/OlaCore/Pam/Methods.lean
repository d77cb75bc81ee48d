import Mathlib.Data.List.TFAE
import Mathlib.Tactic.TFAE
import OlaCore.Adapters.ConfigLoader
import OlaCore.Ipc.Protocol
import OlaCore.Pam.Bridge
import OlaCore.Policy.Meaning

set_option relaxedAutoImplicit false
set_option autoImplicit false

/-!
# One language of method names

A method is named in the configuration of an adapter, in the result of an adapter, in a policy
rule, in a request and in an argument of the PAM module, and each of these places has its own
checks. They all accept the same names, and a name denotes the same method wherever it is read: the
rule that is selected for a result is the one that was written for the name under which the registry
found the adapter.

## Main definitions

* `OlaCore.LoadsAsSpecific` — the name makes a policy rule for one method.
* `OlaCore.namingPlaces` — what each place demands of a name.

## Main results

* `OlaCore.tfae_namingPlaces` — the places where a method is named accept the same names.
* `OlaCore.find?_ruleMatches_iff` — the rule that is selected for a method is the one written for
  its name.
* `OlaCore.one_identifier_language` — both, and that a name denotes one method everywhere.
-/

namespace OlaCore

open ByteText

/-! ## Names and methods -/

section Names

variable {s t : String} {m n : AuthMethod}

/-- Reading a method from JSON is reading its name. -/
theorem AuthMethod.deserialize_str_eq_some_iff :
    AuthMethod.deserialize (.str s) = some m ↔ AuthMethod.ofStr s = .ok m := by
  change (AuthMethod.ofStr s).toOption = some m ↔ _
  cases AuthMethod.ofStr s <;> simp [Except.toOption]

/-- Different names denote different methods. -/
theorem AuthMethod.ofStr_inj (hm : AuthMethod.ofStr s = .ok m) (hn : AuthMethod.ofStr t = .ok n) :
    m = n ↔ s = t := by
  constructor
  · rintro rfl
    rw [← (AuthMethod.ofStr_eq_ok_iff.mp hm).2.1, ← (AuthMethod.ofStr_eq_ok_iff.mp hn).2.1]
  · rintro rfl
    exact Except.ok.inj (hm.symm.trans hn)

/-- A method that is not among the known ones has none of their names. -/
theorem AuthMethod.ofStr_other (hm : AuthMethod.ofStr s = .ok m) {value : String}
    (hother : m = .other value) : value ∉ ["fido2", "pin", "libfprint", "any"] := by
  obtain ⟨⟨-, hany⟩, hstr, hknown⟩ := AuthMethod.ofStr_eq_ok_iff.mp hm
  obtain ⟨h₁, h₂, h₃⟩ := hknown value hother
  have hvalue : value = s := by rw [← hstr, hother, AuthMethod.asStr]
  simp [h₁, h₂, h₃, hvalue ▸ hany]

end Names

/-! ## Policy rules -/

section Policy

variable {s : String} {m : AuthMethod}

/-- The method of a rule, when it is written for one. -/
theorem deserializePolicyMethod_eq_ok_some_iff {written : Option String} :
    deserializePolicyMethod written = .ok (some m) ↔
      ∃ value, written = some value ∧ AuthMethod.ofStr value = .ok m := by
  cases written with
  | none => simp [deserializePolicyMethod]
  | some value =>
    simp only [deserializePolicyMethod, Option.some.injEq, exists_eq_left']
    by_cases hany : value = "any"
    · subst hany
      simp [AuthMethod.ofStr_eq_ok_iff]
    rw [if_neg hany, Checks.bind_eq_ok_iff]
    simp only [Checks.map_eq_ok_iff, Option.some.injEq, exists_eq_right]
    constructor
    · rintro ⟨-, -, h⟩
      exact h
    · intro h
      have hs := (AuthMethod.ofStr_eq_ok_iff.mp h).1
      exact ⟨(), validateMethodName_eq_ok_iff.mpr ⟨hs.1, fun _ => hs.2⟩, h⟩

/-- What is read from a rule of the file. -/
theorem PolicyRule.deserialize_eq_ok_iff {raw : RawPolicyRule} {rule : PolicyRule} :
    PolicyRule.deserialize raw = .ok rule ↔ deserializePolicyMethod raw.method = .ok rule.method ∧
      rule = ⟨rule.method, raw.minConfidence, raw.maxAgeSecs, raw.requireUidMatch⟩ := by
  rw [PolicyRule.deserialize, Checks.bind_eq_ok_iff]
  constructor
  · rintro ⟨method, hmethod, h⟩
    obtain rfl := Except.ok.inj h
    exact ⟨hmethod, rfl⟩
  · rintro ⟨hmethod, heq⟩
    exact ⟨rule.method, hmethod, congrArg Except.ok heq.symm⟩

/-- A file with one rule, written for the name, is a policy whose rule is for one method. -/
def LoadsAsSpecific (s : String) : Prop :=
  ∀ (toml : String → Except String (List RawPolicyRule)) (contents : String) (raw : RawPolicyRule),
    toml contents = .ok [raw] → raw.method = some s → raw.minConfidence.InUnit →
      ∃ rule, PolicyParser.loadWithOwner toml (.ok contents) = .ok [rule] ∧ rule.method.isSome

/-- What the loader gives for a file, rule by rule as they are written. -/
theorem PolicyParser.loadWithOwner_eq_ok_iff_of_toml
    {toml : String → Except String (List RawPolicyRule)} {contents : String}
    {raws : List RawPolicyRule} {sorted : List PolicyRule} (htoml : toml contents = .ok raws) :
    loadWithOwner toml (.ok contents) = .ok sorted ↔ ∃ rules,
      List.Forall₂ (fun raw rule => PolicyRule.deserialize raw = .ok rule) raws rules ∧
        WellFormedRules rules ∧ sorted = sortRules rules := by
  have hparse : ∀ rules, parseRules toml contents = .ok rules ↔
      List.Forall₂ (fun raw rule => PolicyRule.deserialize raw = .ok rule) raws rules := by
    intro rules
    rw [parseRules, Checks.mapError_eq_ok_iff, htoml, ← Checks.mapM_eq_ok_iff]
    rfl
  constructor
  · intro hload
    obtain ⟨_, hread, hrest⟩ := Checks.bind_eq_ok_iff.mp hload
    obtain rfl := Except.ok.inj hread
    obtain ⟨rules, hrules, -⟩ := Checks.bind_eq_ok_iff.mp hrest
    exact ⟨rules, (hparse rules).mp hrules, (loadWithOwner_eq_ok_iff hrules).mp hload⟩
  · rintro ⟨rules, hrules, hsorted⟩
    exact (loadWithOwner_eq_ok_iff ((hparse rules).mpr hrules)).mpr hsorted

/-- The names that make a rule for one method are those that denote one. -/
theorem loadsAsSpecific_iff : LoadsAsSpecific s ↔ ∃ m, AuthMethod.ofStr s = .ok m := by
  constructor
  · intro h
    have hunit : f32One.InUnit := PolicyParser.inUnitRange_iff.mp (by decide +kernel)
    obtain ⟨rule, hload, hmethod⟩ :=
      h (fun _ => .ok [⟨some s, f32One, 30, true⟩]) "" _ rfl rfl hunit
    obtain ⟨rules, hrules, -, hsorted⟩ :=
      (PolicyParser.loadWithOwner_eq_ok_iff_of_toml rfl).mp hload
    obtain ⟨rule', _, hrule, hnil, rfl⟩ := List.forall₂_cons_left_iff.mp hrules
    obtain rfl := List.forall₂_nil_left_iff.mp hnil
    obtain rfl : rule = rule' := (List.cons.inj hsorted).1
    obtain ⟨m, hm⟩ := Option.isSome_iff_exists.mp hmethod
    have hread := (PolicyRule.deserialize_eq_ok_iff.mp hrule).1
    rw [hm] at hread
    obtain ⟨_, hs, hname⟩ := deserializePolicyMethod_eq_ok_some_iff.mp hread
    obtain rfl := Option.some.inj hs
    exact ⟨m, hname⟩
  · rintro ⟨m, hm⟩ toml contents raw htoml hraw hunit
    let rule : PolicyRule := ⟨some m, raw.minConfidence, raw.maxAgeSecs, raw.requireUidMatch⟩
    refine ⟨rule, ?_, rfl⟩
    have hrule : PolicyRule.deserialize raw = .ok rule :=
      PolicyRule.deserialize_eq_ok_iff.mpr
        ⟨deserializePolicyMethod_eq_ok_some_iff.mpr ⟨s, hraw, hm⟩, rfl⟩
    rw [PolicyParser.loadWithOwner_eq_ok_iff_of_toml htoml]
    refine ⟨[rule], .cons hrule .nil, wellFormedRules_iff.mpr ⟨?_, by simp⟩, rfl⟩
    intro r hr
    obtain rfl := List.mem_singleton.mp hr
    exact hunit

/-- **The rule that is selected for a method is the one written for its name.** -/
theorem find?_ruleMatches_iff {toml : String → Except String (List RawPolicyRule)}
    {contents : String} {raws : List RawPolicyRule} {sorted : List PolicyRule}
    (htoml : toml contents = .ok raws)
    (hload : PolicyParser.loadWithOwner toml (.ok contents) = .ok sorted)
    (hm : AuthMethod.ofStr s = .ok m) {result : VerificationResult} (hresult : result.method = m)
    {rule : PolicyRule} :
    (sorted.find? (ruleMatches · result) = some rule ∧ rule.method ≠ none) ↔
      ∃ raw ∈ raws, raw.method = some s ∧ PolicyRule.deserialize raw = .ok rule := by
  obtain ⟨rules, hrules, hwell, rfl⟩ :=
    (PolicyParser.loadWithOwner_eq_ok_iff_of_toml htoml).mp hload
  rw [PolicyParser.find?_sortRules_eq_some_iff hwell, hresult]
  -- A rule that is read is for the method exactly when it is written for the name.
  have hwritten : ∀ {raw rule}, PolicyRule.deserialize raw = .ok rule →
      (rule.method = some m ↔ raw.method = some s) := by
    intro raw rule hrule
    have hread := (PolicyRule.deserialize_eq_ok_iff.mp hrule).1
    constructor
    · intro hmethod
      rw [hmethod] at hread
      obtain ⟨value, hvalue, hname⟩ := deserializePolicyMethod_eq_ok_some_iff.mp hread
      rw [hvalue, (AuthMethod.ofStr_inj hname hm).mp rfl]
    · intro hraw
      have hspecific := deserializePolicyMethod_eq_ok_some_iff.mpr ⟨s, hraw, hm⟩
      exact Except.ok.inj (hread.symm.trans hspecific)
  constructor
  · rintro ⟨⟨hmem, hfor | ⟨hnone, -⟩⟩, hne⟩
    · obtain ⟨raw, hraw, hrule⟩ := Checks.exists_mem_of_forall₂ hrules hmem
      exact ⟨raw, hraw, (hwritten hrule).mp hfor, hrule⟩
    · exact absurd hnone hne
  · rintro ⟨raw, hraw, hname, hrule⟩
    have hfor := (hwritten hrule).mpr hname
    obtain ⟨rule', hmem, hrule'⟩ := Checks.exists_mem_of_forall₂ hrules.flip hraw
    obtain rfl := Except.ok.inj (hrule.symm.trans hrule')
    exact ⟨⟨hmem, .inl hfor⟩, by simp [hfor]⟩

end Policy

/-! ## Requests -/

/-- The methods that a request may name. -/
theorem requestMethod_eq_ok_iff {params : Json} {s : String}
    (hparams : params.get "method" = some (.str s)) :
    requestMethod (some params) = .ok s ↔ IsIdentifier s := by
  cases params with
  | obj ms =>
    have hvalid : validateMethodName s true = .ok () ↔ IsIdentifier s := by
      simp [validateMethodName_eq_ok_iff]
    rw [← hvalid]
    simp only [requestMethod, hparams, deserializeStr]
    cases validateMethodName s true <;> simp
  | _ => cases hparams

/-! ## Arguments of the PAM module -/

section Pam

variable {s : String}

/-- The checks of the PAM module are those of the daemon, where the wildcard is allowed. -/
theorem validateMethodArg_eq_ok_iff : validateMethodArg s = .ok () ↔ IsIdentifier s := by
  rw [isIdentifier_iff]
  unfold validateMethodArg
  by_cases h₁ : s = ""
  · simp [h₁]
  by_cases h₂ : trim s = s
  swap
  · simp [h₁, h₂]
  by_cases h₃ : maxMethodLen < (utf8 s).length
  · have hlong : ¬ (utf8 s).length ≤ maxNameLen := Nat.not_le.mpr h₃
    simp [h₁, h₂, h₃, hlong]
  have hshort : (utf8 s).length ≤ maxNameLen := Nat.not_lt.mp h₃
  by_cases h₄ : (utf8 s).all isNameByte
  · simp [h₁, h₂, h₃, h₄, hshort]
  · simp [h₁, h₂, h₃, h₄]

/-- What follows a beginning that the text has. -/
theorem afterPrefix_append (start : String) : afterPrefix start (start ++ s) = some s := by
  simp [afterPrefix]

/-- An argument that names a method. -/
theorem parseArg_method (config : PamOlaConfig) :
    parseArg config ("method=" ++ s) = (validateMethodArg s).map fun _ =>
      { config with method := s } := by
  have hsocket : afterPrefix "socket=" ("method=" ++ s) = none := by
    simp [afterPrefix]
  unfold parseArg
  rw [hsocket, afterPrefix_append]
  dsimp only
  cases validateMethodArg s <;> rfl

/-- The module called with one argument, which names a method. -/
theorem parseArgv_method {arg : CStr} (harg : arg.bytes = utf8 ("method=" ++ s)) :
    parseArgv 1 (some fun _ => some arg) = (validateMethodArg s).map fun _ =>
      { PamOlaConfig.default with method := s } := by
  have hparse : parseArgv 1 (some fun _ => some arg) = parseArgs .default [some arg] := rfl
  rw [hparse, parseArgs, harg, fromUtf8_utf8]
  simp only [parseArg_method]
  cases validateMethodArg s <;> rfl

/-- A name is an argument of the module: it holds no zero. -/
theorem exists_cStr_method (hs : IsIdentifier s) :
    ∃ arg : CStr, arg.bytes = utf8 ("method=" ++ s) := by
  refine ⟨⟨utf8 ("method=" ++ s), ?_⟩, rfl⟩
  rw [utf8_append, List.mem_append, not_or]
  refine ⟨by decide +kernel, fun hmem => ?_⟩
  obtain ⟨-, -, -, hbytes⟩ := isIdentifier_iff.mp hs
  exact absurd (List.all_eq_true.mp hbytes 0 hmem) (by decide)

end Pam

/-! ## One language -/

/-- What the places where a method is named demand of a string: that it is an identifier other than
the wildcard; that the configuration of an adapter may list it; that it is the method of a result;
that it makes a policy rule for one method; and that a request and the PAM module take it, although
it is not the wildcard. -/
def namingPlaces (s : String) : List Prop := [
  IsIdentifier s ∧ s ≠ "any",
  ∃ cfg, validateAdapterConfig cfg = .ok () ∧ s ∈ cfg.methods,
  ∀ cfg, validateAdapterConfig cfg = .ok () →
    validateAdapterConfig { cfg with methods := [s] } = .ok (),
  ∃ m, AuthMethod.deserialize (.str s) = some m,
  LoadsAsSpecific s,
  s ≠ "any" ∧ ∀ params : Json, params.get "method" = some (.str s) →
    requestMethod (some params) = .ok s,
  s ≠ "any" ∧ validateMethodArg s = .ok (),
  s ≠ "any" ∧ ∃ arg : CStr, arg.bytes = utf8 ("method=" ++ s) ∧
    parseArgv 1 (some fun _ => some arg) = .ok { PamOlaConfig.default with method := s }]

/-- **The places where a method is named accept the same names.** -/
theorem tfae_namingPlaces (s : String) : (namingPlaces s).TFAE := by
  unfold namingPlaces
  let sample : AdapterConfig := ⟨"key", "/run/ola/key.sock", 990, ["fido2"], 10000⟩
  have hsample : validateAdapterConfig sample = .ok () := by decide +kernel
  tfae_have 1 → 3 := by
    intro hs cfg hcfg
    obtain ⟨hname, hpath, -, -, -, htime⟩ := validateAdapterConfig_eq_ok_iff.mp hcfg
    rw [validateAdapterConfig_eq_ok_iff]
    exact ⟨hname, hpath, by simp, by simpa using hs, by simp, htime⟩
  tfae_have 3 → 2 := fun h => ⟨_, h sample hsample, List.mem_singleton.mpr rfl⟩
  tfae_have 2 → 1 := by
    rintro ⟨cfg, hcfg, hs⟩
    obtain ⟨-, -, -, hids, -⟩ := validateAdapterConfig_eq_ok_iff.mp hcfg
    exact hids s hs
  tfae_have 4 ↔ 1 := by
    simp only [AuthMethod.deserialize_str_eq_some_iff]
    exact AuthMethod.exists_ofStr_iff
  tfae_have 5 ↔ 1 := loadsAsSpecific_iff.trans AuthMethod.exists_ofStr_iff
  tfae_have 1 → 6 := fun hs => ⟨hs.2, fun _ hparams => (requestMethod_eq_ok_iff hparams).mpr hs.1⟩
  tfae_have 6 → 1 := by
    rintro ⟨hany, h⟩
    have hparams : (Json.obj [("method", .str s)]).get "method" = some (.str s) := rfl
    exact ⟨(requestMethod_eq_ok_iff hparams).mp (h _ hparams), hany⟩
  tfae_have 7 ↔ 1 := by
    rw [validateMethodArg_eq_ok_iff]
    exact and_comm
  tfae_have 1 → 8 := by
    intro hs
    obtain ⟨arg, harg⟩ := exists_cStr_method hs.1
    refine ⟨hs.2, arg, harg, ?_⟩
    rw [parseArgv_method harg, validateMethodArg_eq_ok_iff.mpr hs.1]
    rfl
  tfae_have 8 → 7 := by
    rintro ⟨hany, arg, harg, hparse⟩
    rw [parseArgv_method harg, Checks.map_eq_ok_iff] at hparse
    obtain ⟨_, hvalid, -⟩ := hparse
    exact ⟨hany, hvalid⟩
  tfae_finish

/-- **One identifier language.** The places where a method is named accept the same names. A name
that they accept is what the method it denotes is printed and written as, different names denote
different methods, the known names and the wildcard never denote an unknown method, and the rule
that a policy selects for the method is the rule that is written for the name. -/
theorem one_identifier_language (s : String) :
    (namingPlaces s).TFAE ∧
    ∀ m, AuthMethod.deserialize (.str s) = some m →
      m.asStr = s ∧ m.serialize = .str s ∧
      (∀ t n, AuthMethod.deserialize (.str t) = some n → (m = n ↔ s = t)) ∧
      (∀ value, m = .other value → value ∉ ["fido2", "pin", "libfprint", "any"]) ∧
      ∀ toml contents raws sorted, toml contents = .ok raws →
        PolicyParser.loadWithOwner toml (.ok contents) = .ok sorted →
        ∀ result : VerificationResult, result.method = m → ∀ rule,
          (sorted.find? (ruleMatches · result) = some rule ∧ rule.method ≠ none) ↔
            ∃ raw ∈ raws, raw.method = some s ∧ PolicyRule.deserialize raw = .ok rule := by
  refine ⟨tfae_namingPlaces s, ?_⟩
  intro m hm
  rw [AuthMethod.deserialize_str_eq_some_iff] at hm
  have hstr : m.asStr = s := (AuthMethod.ofStr_eq_ok_iff.mp hm).2.1
  refine ⟨hstr, congrArg Json.str hstr, ?_, fun _ => AuthMethod.ofStr_other hm, ?_⟩
  · intro t n hn
    exact AuthMethod.ofStr_inj hm (AuthMethod.deserialize_str_eq_some_iff.mp hn)
  · intro toml contents raws sorted htoml hload result hresult rule
    exact find?_ruleMatches_iff htoml hload hm hresult

end OlaCore
