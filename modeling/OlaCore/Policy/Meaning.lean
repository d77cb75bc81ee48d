import OlaCore.Core.Config
import OlaCore.Policy.Parser

set_option relaxedAutoImplicit false
set_option autoImplicit false

/-!
# What a policy means

A policy means the same in whatever order its rules are written. The rule that decides about a
method is the rule for that method, or else the wildcard; a result is allowed when that rule exists
and is satisfied. What a rule demands is stated here over exact numbers: the machine arithmetic of
the engine neither wraps nor loses anything.

## Main definitions

* `OlaCore.IsRuleFor` — the rule that decides about a method.
* `OlaCore.Satisfies` — what a rule demands of a result.
* `OlaCore.Decides` — what an engine decides, in terms of the rules.

## Main results

* `OlaCore.PolicyParser.find?_sortRules_eq_some_iff` — which rule the engine finds.
* `OlaCore.PolicyEngine.evaluate_eq_allow_iff` — when it allows.
* `OlaCore.policy_meaning` — which files are policies, and what they mean.
-/

namespace OlaCore

/-! ## Which rule decides -/

/-- The rule that decides about a method: the one for the method, or else the wildcard. -/
def IsRuleFor (rules : List PolicyRule) (m : AuthMethod) (R : PolicyRule) : Prop :=
  R ∈ rules ∧ (R.method = some m ∨ R.method = none ∧ ∀ rule ∈ rules, rule.method ≠ some m)

section Rules

variable {rules : List PolicyRule} {m : AuthMethod} {R R' : PolicyRule}

/-- In a well-formed list at most one rule decides. -/
theorem IsRuleFor.unique (hrules : WellFormedRules rules) (h : IsRuleFor rules m R)
    (h' : IsRuleFor rules m R') : R = R' := by
  have hinj := List.inj_on_of_nodup_map (wellFormedRules_iff.mp hrules).2
  obtain ⟨hmem, hR⟩ := h
  obtain ⟨hmem', hR'⟩ := h'
  apply hinj hmem hmem'
  rcases hR with hR | ⟨hR, hno⟩ <;> rcases hR' with hR' | ⟨hR', hno'⟩
  · rw [hR, hR']
  · exact absurd hR (hno' R hmem)
  · exact absurd hR' (hno R' hmem')
  · rw [hR, hR']

/-- Which rule decides does not depend on the order. -/
theorem isRuleFor_perm {rules' : List PolicyRule} (hperm : rules'.Perm rules) :
    IsRuleFor rules' m R ↔ IsRuleFor rules m R := by
  simp only [IsRuleFor, hperm.mem_iff]

/-- The rules that match a result are the ones for its method and the wildcards. -/
theorem ruleMatches_iff {rule : PolicyRule} {result : VerificationResult} :
    ruleMatches rule result ↔ rule.method = none ∨ rule.method = some result.method := by
  unfold ruleMatches
  cases rule.method with
  | none => simp
  | some m => simp

/-- **Which rule the engine finds.** Among the sorted rules the first match is the rule that
decides: a wildcard is found only when no rule for the method comes before it, and after it there
are only wildcards. -/
theorem PolicyParser.find?_sortRules_eq_some_iff {result : VerificationResult}
    (hrules : WellFormedRules rules) :
    (sortRules rules).find? (ruleMatches · result) = some R ↔
      IsRuleFor rules result.method R := by
  have hperm : (sortRules rules).Perm rules := List.perm_insertionSort _ _
  have hsorted : (sortRules rules).Pairwise fun a b => a.method.isNone ≤ b.method.isNone :=
    List.pairwise_insertionSort _ _
  have hfound : ∀ R, (sortRules rules).find? (ruleMatches · result) = some R →
      IsRuleFor rules result.method R := by
    intro R h
    obtain ⟨hmatch, as, bs, hsplit, has⟩ := List.find?_eq_some_iff_append.mp h
    rw [← isRuleFor_perm hperm]
    refine ⟨by simp [hsplit], ?_⟩
    rcases ruleMatches_iff.mp hmatch with hR | hR
    · refine .inr ⟨hR, fun rule hrule hspecific => ?_⟩
      rw [hsplit, List.mem_append, List.mem_cons] at hrule
      rcases hrule with hrule | rfl | hrule
      · have hno := has rule hrule
        rw [ruleMatches_iff.mpr (.inr hspecific)] at hno
        cases hno
      · rw [hR] at hspecific
        cases hspecific
      · rw [hsplit, List.pairwise_append, List.pairwise_cons] at hsorted
        have hle := hsorted.2.1.1 rule hrule
        rw [hR, hspecific] at hle
        exact absurd (hle rfl) Bool.false_ne_true
    · exact .inl hR
  constructor
  · exact hfound R
  · intro h
    have hmatch : ruleMatches R result := by
      rw [ruleMatches_iff]
      rcases h.2 with hR | ⟨hR, -⟩
      · exact .inr hR
      · exact .inl hR
    have hsome : ((sortRules rules).find? (ruleMatches · result)).isSome := by
      rw [List.find?_isSome]
      exact ⟨R, hperm.mem_iff.mpr h.1, hmatch⟩
    obtain ⟨R', hR'⟩ := Option.isSome_iff_exists.mp hsome
    rw [hR', h.unique hrules (hfound R' hR')]

end Rules

/-! ## What a rule demands -/

/-- What a rule demands of a result, with the cap on its maximal age: the result is not from the
future, the age window fits in 64 bits and the result is not older than it, its confidence is a
number in `[0, 1]` and not below the threshold, and it is about the user of the request if the rule
demands that. -/
structure Satisfies (R : PolicyRule) (cap nowMs : UInt64) (context : AuthContext) : Prop where
  notFuture : context.result.timestampMs.toNat ≤ nowMs.toNat
  fits : min R.maxAgeSecs.toNat cap.toNat * 1000 < 2 ^ 64
  fresh : nowMs.toNat - context.result.timestampMs.toNat ≤
    min R.maxAgeSecs.toNat cap.toNat * 1000
  finite : context.result.confidence.isFinite
  unit : context.result.confidence.InUnit
  confident : R.minConfidence.toUnits ≤ context.result.confidence.toUnits
  user : R.requireUidMatch → context.result.uid = context.request.uid

/-- The smaller of two machine integers. -/
theorem toNat_min (a b : UInt64) : (min a b).toNat = min a.toNat b.toNat := by
  change (if a ≤ b then a else b).toNat = _
  by_cases h : a.toNat ≤ b.toNat
  · rw [if_pos (UInt64.le_iff_toNat_le.mpr h), Nat.min_eq_left h]
  · rw [if_neg (mt UInt64.le_iff_toNat_le.mp h), Nat.min_eq_right (by omega)]

/-- The checked product, in exact numbers. -/
theorem checkedMul1000_eq_some_iff {secs ms : UInt64} :
    checkedMul1000 secs = some ms ↔ secs.toNat * 1000 < 2 ^ 64 ∧ ms.toNat = secs.toNat * 1000 := by
  unfold checkedMul1000
  split
  · next hfits =>
    have hmul : (secs * 1000).toNat = secs.toNat * 1000 := by
      rw [UInt64.toNat_mul]
      exact Nat.mod_eq_of_lt hfits
    simp only [Option.some.injEq, hfits, true_and]
    rw [← UInt64.toNat_inj, hmul]
    exact eq_comm
  · next hfits => exact iff_of_false (by simp) fun h => hfits h.1

/-- The check of the engine on a confidence. -/
theorem confidence_check_eq_false_iff {c : Binary32} :
    (!c.isFinite || !(f32Zero.le c && c.le f32One)) = false ↔ c.isFinite ∧ c.InUnit := by
  rw [← PolicyParser.inUnitRange_iff, PolicyParser.inUnitRange]
  simp

/-- Numbers in `[0, 1]` compare as their values do. -/
theorem lt_iff_toUnits_lt {a b : Binary32} (ha : a.InUnit) (hb : b.InUnit) :
    a.lt b ↔ a.toUnits < b.toUnits := by
  simp [Binary32.lt, ha.1, hb.1]

section Evaluate

variable {engine : PolicyEngine} {nowMs : UInt64} {context : AuthContext} {R : PolicyRule}

/-- **When the engine allows**: the rule that it finds is satisfied. -/
theorem PolicyEngine.evaluate_eq_allow_iff
    (hfind : engine.rules.find? (ruleMatches · context.result) = some R)
    (hR : R.minConfidence.InUnit) :
    engine.evaluate nowMs context = .allow ↔
      Satisfies R engine.maxResultAgeSecs nowMs context := by
  unfold PolicyEngine.evaluate
  simp only [hfind]
  by_cases hfuture : nowMs < context.result.timestampMs
  · rw [if_pos hfuture]
    rw [UInt64.lt_iff_toNat_lt] at hfuture
    exact iff_of_false (by simp) fun h => absurd h.notFuture (by omega)
  rw [if_neg hfuture]
  have hnow : context.result.timestampMs ≤ nowMs := UInt64.not_lt.mp hfuture
  have hage : (nowMs - context.result.timestampMs).toNat =
      nowMs.toNat - context.result.timestampMs.toNat := UInt64.toNat_sub_of_le _ _ hnow
  cases hmul : checkedMul1000 (min R.maxAgeSecs engine.maxResultAgeSecs) with
  | none =>
    refine iff_of_false (by simp) fun h => ?_
    have hfits := h.fits
    rw [← toNat_min] at hfits
    rw [checkedMul1000, if_pos hfits] at hmul
    cases hmul
  | some maxAgeMs =>
    obtain ⟨hfits, hmax⟩ := checkedMul1000_eq_some_iff.mp hmul
    rw [toNat_min] at hfits hmax
    dsimp only
    by_cases hold : maxAgeMs < nowMs - context.result.timestampMs
    · rw [if_pos hold]
      rw [UInt64.lt_iff_toNat_lt, hage, hmax] at hold
      exact iff_of_false (by simp) fun h => absurd h.fresh (by omega)
    rw [if_neg hold]
    by_cases hconf : context.result.confidence.isFinite ∧ context.result.confidence.InUnit
    swap
    · rw [Bool.eq_true_of_not_eq_false (mt confidence_check_eq_false_iff.mp hconf), if_pos rfl]
      exact iff_of_false (by simp) fun h => hconf ⟨h.finite, h.unit⟩
    rw [confidence_check_eq_false_iff.mpr hconf, if_neg Bool.false_ne_true]
    have hlow := lt_iff_toUnits_lt hconf.2 hR
    by_cases hbelow : context.result.confidence.toUnits < R.minConfidence.toUnits
    · rw [if_pos (hlow.mpr hbelow)]
      exact iff_of_false (by simp) fun h => absurd h.confident (by omega)
    rw [if_neg (mt hlow.mp hbelow)]
    by_cases huser : R.requireUidMatch ∧ context.result.uid ≠ context.request.uid
    · rw [if_pos (by simpa using huser)]
      exact iff_of_false (by simp) fun h => huser.2 (h.user huser.1)
    rw [if_neg (by simpa using huser)]
    refine ⟨fun _ => ?_, fun _ => rfl⟩
    exact {
      notFuture := UInt64.le_iff_toNat_le.mp hnow
      fits := hfits
      fresh := by
        rw [UInt64.lt_iff_toNat_lt, hage, hmax] at hold
        omega
      finite := hconf.1
      unit := hconf.2
      confident := by omega
      user := by
        intro hmatch
        by_contra hne
        exact huser ⟨hmatch, hne⟩ }

/-- Without a rule nothing is allowed. -/
theorem PolicyEngine.evaluate_of_find?_eq_none
    (hfind : engine.rules.find? (ruleMatches · context.result) = none) :
    engine.evaluate nowMs context = .deny .noMatchingRule := by
  simp only [PolicyEngine.evaluate, hfind]

/-- The skew in a refusal is the exact difference. -/
theorem PolicyEngine.toNat_skew {skewMs : UInt64}
    (h : engine.evaluate nowMs context = .deny (.resultFromFuture skewMs)) :
    skewMs.toNat + nowMs.toNat = context.result.timestampMs.toNat := by
  unfold PolicyEngine.evaluate at h
  dsimp only at h
  split at h
  · cases h
  split at h
  · next hfuture =>
    obtain rfl := DenyReason.resultFromFuture.inj (PolicyDecision.deny.inj h)
    rw [UInt64.toNat_sub_of_le _ _ (UInt64.le_of_lt hfuture)]
    have := UInt64.lt_iff_toNat_lt.mp hfuture
    omega
  split at h
  · cases h
  split_ifs at h <;> cases h

/-- The age in a refusal is the exact difference, and the window is the exact product. -/
theorem PolicyEngine.toNat_age {ageMs maxAgeMs : UInt64}
    (h : engine.evaluate nowMs context = .deny (.resultTooOld ageMs maxAgeMs)) :
    ageMs.toNat + context.result.timestampMs.toNat = nowMs.toNat := by
  unfold PolicyEngine.evaluate at h
  dsimp only at h
  split at h
  · cases h
  split at h
  · cases h
  next hfuture =>
  split at h
  · cases h
  split at h
  · obtain ⟨rfl, -⟩ := DenyReason.resultTooOld.inj (PolicyDecision.deny.inj h)
    have hnow := UInt64.not_lt.mp hfuture
    rw [UInt64.toNat_sub_of_le _ _ hnow]
    have := UInt64.le_iff_toNat_le.mp hnow
    omega
  split_ifs at h <;> cases h

/-- With a bounded cap the age window fits. -/
theorem PolicyEngine.evaluate_ne_overflow
    (hcap : engine.maxResultAgeSecs ≤ maxResultAgeSecsUpperBound) :
    engine.evaluate nowMs context ≠ .deny .resultAgeWindowOverflow := by
  intro h
  unfold PolicyEngine.evaluate at h
  dsimp only at h
  split at h
  · cases h
  next rule _ =>
  split at h
  · cases h
  split at h
  · next hmul =>
    have hfits : min rule.maxAgeSecs.toNat engine.maxResultAgeSecs.toNat * 1000 < 2 ^ 64 :=
      calc min rule.maxAgeSecs.toNat engine.maxResultAgeSecs.toNat * 1000
          ≤ engine.maxResultAgeSecs.toNat * 1000 := Nat.mul_le_mul_right _ (Nat.min_le_right _ _)
        _ ≤ maxResultAgeSecsUpperBound.toNat * 1000 :=
          Nat.mul_le_mul_right _ (UInt64.le_iff_toNat_le.mp hcap)
        _ < 2 ^ 64 := by decide +kernel
    rw [checkedMul1000, toNat_min, if_pos hfits] at hmul
    cases hmul
  split_ifs at h <;> cases h

end Evaluate

/-! ## Policies -/

/-- What an engine decides about a context, in terms of the rules of its file and without regard to
their order. -/
structure Decides (rules : List PolicyRule) (engine : PolicyEngine) (nowMs : UInt64)
    (context : AuthContext) : Prop where
  /-- At most one rule decides. -/
  unique : ∀ R R', IsRuleFor rules context.result.method R →
    IsRuleFor rules context.result.method R' → R = R'
  /-- The engine allows when that rule exists and is satisfied. -/
  allow_iff : engine.evaluate nowMs context = .allow ↔
    ∃ R, IsRuleFor rules context.result.method R ∧
      Satisfies R engine.maxResultAgeSecs nowMs context
  /-- A rule for the method decides alone, whatever the wildcard says. -/
  shadows : ∀ R ∈ rules, R.method = some context.result.method →
    (engine.evaluate nowMs context = .allow ↔
      Satisfies R engine.maxResultAgeSecs nowMs context)
  /-- The subtractions do not wrap. -/
  skew : ∀ skewMs, engine.evaluate nowMs context = .deny (.resultFromFuture skewMs) →
    skewMs.toNat + nowMs.toNat = context.result.timestampMs.toNat
  age : ∀ ageMs maxAgeMs, engine.evaluate nowMs context = .deny (.resultTooOld ageMs maxAgeMs) →
    ageMs.toNat + context.result.timestampMs.toNat = nowMs.toNat
  /-- With a bounded cap, as the configuration has, the age window does not overflow. -/
  window : engine.maxResultAgeSecs ≤ maxResultAgeSecsUpperBound →
    engine.evaluate nowMs context ≠ .deny .resultAgeWindowOverflow
  configured : ∀ env config, Config.fromEnv env = .ok config →
    engine.maxResultAgeSecs = config.maxResultAgeSecs →
    engine.evaluate nowMs context ≠ .deny .resultAgeWindowOverflow

/-- The engine of well-formed rules decides by them. -/
theorem decides_sortRules {rules : List PolicyRule} (hrules : WellFormedRules rules)
    (cap nowMs : UInt64) (context : AuthContext) :
    Decides rules ⟨PolicyParser.sortRules rules, cap⟩ nowMs context := by
  have hiff : ∀ R, IsRuleFor rules context.result.method R →
      (PolicyEngine.evaluate ⟨PolicyParser.sortRules rules, cap⟩ nowMs context = .allow ↔
        Satisfies R cap nowMs context) := by
    intro R hR
    exact PolicyEngine.evaluate_eq_allow_iff
      ((PolicyParser.find?_sortRules_eq_some_iff hrules).mpr hR) (hrules.threshold R hR.1)
  refine ⟨fun _ _ => IsRuleFor.unique hrules, ?_, ?_, fun _ => PolicyEngine.toNat_skew,
    fun _ _ => PolicyEngine.toNat_age, PolicyEngine.evaluate_ne_overflow, ?_⟩
  · constructor
    · intro hallow
      cases hfind : (PolicyParser.sortRules rules).find? (ruleMatches · context.result) with
      | none =>
        rw [PolicyEngine.evaluate_of_find?_eq_none hfind] at hallow
        cases hallow
      | some R =>
        have hR := (PolicyParser.find?_sortRules_eq_some_iff hrules).mp hfind
        exact ⟨R, hR, (hiff R hR).mp hallow⟩
    · rintro ⟨R, hR, hsat⟩
      exact (hiff R hR).mpr hsat
  · intro R hmem hmethod
    exact hiff R ⟨hmem, .inl hmethod⟩
  · intro env config henv hcap
    apply PolicyEngine.evaluate_ne_overflow
    rw [hcap]
    exact Config.maxResultAgeSecs_le henv

/-- The engine finds the same rule in whatever order the rules are written, so it decides the
same. -/
theorem evaluate_sortRules_perm {rules rules' : List PolicyRule} (hrules : WellFormedRules rules)
    (hperm : rules'.Perm rules) (cap nowMs : UInt64) (context : AuthContext) :
    PolicyEngine.evaluate ⟨PolicyParser.sortRules rules', cap⟩ nowMs context =
      PolicyEngine.evaluate ⟨PolicyParser.sortRules rules, cap⟩ nowMs context := by
  have hfind : (PolicyParser.sortRules rules').find? (ruleMatches · context.result) =
      (PolicyParser.sortRules rules).find? (ruleMatches · context.result) := by
    apply Option.ext
    intro R
    rw [PolicyParser.find?_sortRules_eq_some_iff hrules,
      PolicyParser.find?_sortRules_eq_some_iff (hrules.perm hperm.symm), isRuleFor_perm hperm]
  simp only [PolicyEngine.evaluate, hfind]

/-- **Which files are policies, and what they mean.** A file whose text gives the rules `rules` is
accepted exactly when these are well-formed. Then so is every file that gives the same rules in
another order, its engine decides the same about every context at every time, and what it decides
is stated by the rules, without their order. -/
theorem policy_meaning {toml : String → Except String (List RawPolicyRule)} {contents : String}
    {rules : List PolicyRule} (hparse : PolicyParser.parseRules toml contents = .ok rules) :
    ((∃ sorted, PolicyParser.loadWithOwner toml (.ok contents) = .ok sorted) ↔
      WellFormedRules rules) ∧
    ∀ sorted, PolicyParser.loadWithOwner toml (.ok contents) = .ok sorted →
      ∀ contents' rules', PolicyParser.parseRules toml contents' = .ok rules' →
        rules'.Perm rules →
        ∃ sorted', PolicyParser.loadWithOwner toml (.ok contents') = .ok sorted' ∧
          ∀ (cap nowMs : UInt64) (context : AuthContext),
            PolicyEngine.evaluate ⟨sorted', cap⟩ nowMs context =
              PolicyEngine.evaluate ⟨sorted, cap⟩ nowMs context ∧
            Decides rules ⟨sorted', cap⟩ nowMs context := by
  have hload : ∀ sorted, PolicyParser.loadWithOwner toml (.ok contents) = .ok sorted ↔
      WellFormedRules rules ∧ sorted = PolicyParser.sortRules rules :=
    fun _ => PolicyParser.loadWithOwner_eq_ok_iff hparse
  constructor
  · constructor
    · rintro ⟨sorted, h⟩
      exact ((hload sorted).mp h).1
    · intro hrules
      exact ⟨_, (hload _).mpr ⟨hrules, rfl⟩⟩
  · intro sorted h contents' rules' hparse' hperm
    obtain ⟨hrules, rfl⟩ := (hload sorted).mp h
    refine ⟨PolicyParser.sortRules rules',
      (PolicyParser.loadWithOwner_eq_ok_iff hparse').mpr ⟨hrules.perm hperm.symm, rfl⟩, ?_⟩
    intro cap nowMs context
    have heq := evaluate_sortRules_perm hrules hperm cap nowMs context
    have hdecides := decides_sortRules hrules cap nowMs context
    refine ⟨heq, ?_⟩
    exact {
      unique := hdecides.unique
      allow_iff := by rw [heq]; exact hdecides.allow_iff
      shadows := by rw [heq]; exact hdecides.shadows
      skew := fun _ => PolicyEngine.toNat_skew
      age := fun _ _ => PolicyEngine.toNat_age
      window := PolicyEngine.evaluate_ne_overflow
      configured := by rw [heq]; exact hdecides.configured }

namespace SamplePolicy

/-- A wildcard that is content with half confidence. -/
def wildcard : PolicyRule := ⟨none, ⟨0x3f000000⟩, 30, true⟩

/-- A rule for `fido2` that demands full confidence. -/
def specific : PolicyRule := ⟨some .fido2, f32One, 30, true⟩

/-- The text of the wildcard. -/
def wildcardText : String :=
  "[[rules]]\nmin_confidence = 0.5\nmax_age_secs = 30\nrequire_uid_match = true\n"

/-- The text of the rule for `fido2`. -/
def specificText : String :=
  "[[rules]]\nmethod = \"fido2\"\nmin_confidence = 1.0\nmax_age_secs = 30\n" ++
    "require_uid_match = true\n"

/-- The fields in the two files that hold both rules. -/
def toml (contents : String) : Except String (List RawPolicyRule) :=
  if contents = wildcardText ++ specificText then
    .ok [⟨none, ⟨0x3f000000⟩, 30, true⟩, ⟨some "fido2", f32One, 30, true⟩]
  else if contents = specificText ++ wildcardText then
    .ok [⟨some "fido2", f32One, 30, true⟩, ⟨none, ⟨0x3f000000⟩, 30, true⟩]
  else .error "TOML parse error"

end SamplePolicy

/-- Two rules in either order: half confidence is not enough for `fido2`, although the wildcard
would allow it. -/
theorem policy_meaning_shadowed :
    ∃ sorted, PolicyParser.loadWithOwner SamplePolicy.toml
        (.ok (SamplePolicy.specificText ++ SamplePolicy.wildcardText)) = .ok sorted ∧
      ∀ (cap nowMs : UInt64) (context : AuthContext), context.result.method = .fido2 →
        context.result.confidence = ⟨0x3f000000⟩ →
        PolicyEngine.evaluate ⟨sorted, cap⟩ nowMs context ≠ .allow := by
  have hparse : PolicyParser.parseRules SamplePolicy.toml
      (SamplePolicy.wildcardText ++ SamplePolicy.specificText) =
        .ok [SamplePolicy.wildcard, SamplePolicy.specific] := by decide +kernel
  have hparse' : PolicyParser.parseRules SamplePolicy.toml
      (SamplePolicy.specificText ++ SamplePolicy.wildcardText) =
        .ok [SamplePolicy.specific, SamplePolicy.wildcard] := by decide +kernel
  have hload : PolicyParser.loadWithOwner SamplePolicy.toml
      (.ok (SamplePolicy.wildcardText ++ SamplePolicy.specificText)) =
        .ok [SamplePolicy.specific, SamplePolicy.wildcard] := by decide +kernel
  obtain ⟨sorted, hsorted, hdecides⟩ := (policy_meaning hparse).2 _ hload _ _ hparse' (.swap _ _ _)
  refine ⟨sorted, hsorted, ?_⟩
  intro cap nowMs context hmethod hconf hallow
  have hsat := ((hdecides cap nowMs context).2.shadows SamplePolicy.specific (by simp)
    (by rw [hmethod]; rfl)).mp hallow
  have hlow := hsat.confident
  rw [hconf] at hlow
  exact absurd hlow (by decide +kernel)

end OlaCore
