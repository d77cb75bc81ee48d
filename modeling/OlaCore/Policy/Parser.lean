import Mathlib.Data.List.Sort
import Mathlib.Order.BooleanAlgebra.Basic
import OlaCore.Core.Names
import OlaCore.Lib.Checks
import OlaCore.Policy.Evaluator

set_option relaxedAutoImplicit false
set_option autoImplicit false

/-!
# Loading a policy

A policy file is a list of rules (`core/policy/parser`, `core/policy/types`). The rules are read
from TOML, checked one after another, and sorted so that a wildcard comes after the rules for
specific methods.

The syntax of TOML is a parameter: it gives the fields of each rule, before the method is read.

## Main definitions

* `OlaCore.RawPolicyRule`, `OlaCore.deserializePolicyMethod` — a rule in the file, and its method.
* `OlaCore.PolicyParser.checkRules`, `OlaCore.PolicyParser.loadWithOwner` — the checks, and the
  loader.
* `OlaCore.WellFormedRules` — the rule lists that make a policy.

## Main results

* `OlaCore.PolicyParser.checkRules_eq_ok_iff` — the checks accept the well-formed lists.
-/

namespace OlaCore

/-- The fields of a rule in the file. -/
structure RawPolicyRule where
  method : Option String
  minConfidence : Binary32
  maxAgeSecs : UInt64
  requireUidMatch : Bool
  deriving DecidableEq

/-- The method of a rule. No method and `any` both make a wildcard. -/
def deserializePolicyMethod : Option String → Except String (Option AuthMethod)
  | none => .ok none
  | some value =>
    if value = "any" then .ok none
    else do
      let _ ← validateMethodName value false
      (AuthMethod.ofStr value).map some

/-- A rule of the file. -/
def PolicyRule.deserialize (raw : RawPolicyRule) : Except String PolicyRule := do
  let method ← deserializePolicyMethod raw.method
  return ⟨method, raw.minConfidence, raw.maxAgeSecs, raw.requireUidMatch⟩

namespace PolicyParser

/-- Is the number in `0.0..=1.0`? -/
def inUnitRange (x : Binary32) : Bool := f32Zero.le x && x.le f32One

/-- The checks on the rules, with the methods seen so far and whether a wildcard was. -/
def checkRules : List AuthMethod → Bool → List PolicyRule → Except String Unit
  | _, _, [] => .ok ()
  | seenMethods, seenWildcard, rule :: rules =>
    if !inUnitRange rule.minConfidence then
      .error "Invalid min_confidence: must be between 0.0 and 1.0"
    else
      match rule.method with
      | some method =>
        if method ∈ seenMethods then
          .error ("duplicate policy rule for method " ++ method.asStr)
        else checkRules (method :: seenMethods) seenWildcard rules
      | none =>
        if seenWildcard then .error "duplicate wildcard policy rule"
        else checkRules seenMethods true rules

/-- The rules, with the wildcard last. The sort is stable. -/
def sortRules (rules : List PolicyRule) : List PolicyRule :=
  rules.insertionSort fun a b => a.method.isNone ≤ b.method.isNone

/-- The rules in the text of a file; `toml` is the syntax. -/
def parseRules (toml : String → Except String (List RawPolicyRule)) (contents : String) :
    Except String (List PolicyRule) :=
  (toml contents >>= List.mapM PolicyRule.deserialize).mapError
    fun _ => "Failed to parse policy TOML"

/-- Load a policy, given what reading the file gave. -/
def loadWithOwner (toml : String → Except String (List RawPolicyRule))
    (file : Except String String) : Except String (List PolicyRule) := do
  let contents ← file
  let rules ← parseRules toml contents
  let _ ← checkRules [] false rules
  return sortRules rules

end PolicyParser

/-- The engine of a policy file. -/
def PolicyEngine.fromConfigWithOwner (toml : String → Except String (List RawPolicyRule))
    (file : Except String String) (maxResultAgeSecs : UInt64) : Except String PolicyEngine := do
  let rules ← PolicyParser.loadWithOwner toml file
  return ⟨rules, maxResultAgeSecs⟩

/-! ## Well-formed rule lists -/

/-- Every threshold is in `[0, 1]`, no specific method occurs twice, and at most one rule is a
wildcard. -/
structure WellFormedRules (rules : List PolicyRule) : Prop where
  threshold : ∀ rule ∈ rules, rule.minConfidence.InUnit
  specific : ∀ m : AuthMethod, rules.countP (fun rule => rule.method = some m) ≤ 1
  wildcard : rules.countP (fun rule => rule.method = none) ≤ 1

/-- The range check is about the value. -/
theorem PolicyParser.inUnitRange_iff {x : Binary32} : inUnitRange x ↔ x.InUnit := by
  have h₀ : f32Zero.isNaN = false ∧ f32Zero.toUnits = 0 := by decide
  have h₁ : f32One.isNaN = false ∧ f32One.toUnits = Binary32.unitsPerOne := by decide +kernel
  simp only [inUnitRange, Binary32.le, Binary32.InUnit, h₀.1, h₀.2, h₁.1, h₁.2, Bool.and_eq_true,
    Bool.not_eq_true', decide_eq_true_eq]
  tauto

/-- No method occurs twice, the wildcard counted as one. -/
theorem nodup_map_method_iff {rules : List PolicyRule} :
    (rules.map PolicyRule.method).Nodup ↔
      (∀ m : AuthMethod, rules.countP (fun rule => rule.method = some m) ≤ 1) ∧
        rules.countP (fun rule => rule.method = none) ≤ 1 := by
  have hcount : ∀ m : Option AuthMethod, (rules.map PolicyRule.method).count m =
      rules.countP (fun rule => rule.method = m) := by
    intro m
    rw [List.count, List.countP_map]
    congr 1
    funext rule
    exact beq_eq_decide _ _
  rw [List.nodup_iff_count_le_one]
  constructor
  · intro h
    exact ⟨fun m => hcount _ ▸ h (some m), hcount _ ▸ h none⟩
  · rintro ⟨hspecific, hwildcard⟩ m
    rw [hcount]
    cases m with
    | none => exact hwildcard
    | some m => exact hspecific m

/-- The well-formed lists, in one condition on the methods. -/
theorem wellFormedRules_iff {rules : List PolicyRule} : WellFormedRules rules ↔
    (∀ rule ∈ rules, rule.minConfidence.InUnit) ∧ (rules.map PolicyRule.method).Nodup := by
  rw [nodup_map_method_iff]
  exact ⟨fun h => ⟨h.threshold, h.specific, h.wildcard⟩, fun h => ⟨h.1, h.2.1, h.2.2⟩⟩

/-- Well-formedness does not depend on the order. -/
theorem WellFormedRules.perm {rules rules' : List PolicyRule} (h : WellFormedRules rules)
    (hperm : rules.Perm rules') : WellFormedRules rules' := by
  rw [wellFormedRules_iff] at h ⊢
  refine ⟨?_, ((hperm.map PolicyRule.method).nodup_iff).mp h.2⟩
  intro rule hrule
  exact h.1 rule (hperm.mem_iff.mpr hrule)

namespace PolicyParser

/-- The checks, from any point of the list: what was seen must not come again. -/
theorem checkRules_eq_ok_iff_of_seen {rules : List PolicyRule} {seenMethods : List AuthMethod}
    {seenWildcard : Bool} : checkRules seenMethods seenWildcard rules = .ok () ↔
      ((∀ rule ∈ rules, rule.minConfidence.InUnit) ∧ (rules.map PolicyRule.method).Nodup) ∧
        (∀ m ∈ seenMethods, some m ∉ rules.map PolicyRule.method) ∧
        (seenWildcard = true → none ∉ rules.map PolicyRule.method) := by
  induction rules generalizing seenMethods seenWildcard with
  | nil => simp [checkRules]
  | cons rule rules ih =>
    unfold checkRules
    by_cases hunit : rule.minConfidence.InUnit
    swap
    · have hrange : inUnitRange rule.minConfidence = false := by
        rw [← Bool.not_eq_true]
        exact mt inUnitRange_iff.mp hunit
      simp only [hrange, Bool.not_false, if_true, reduceCtorEq, List.forall_mem_cons, hunit,
        false_and]
    rw [inUnitRange_iff.mpr hunit]
    cases hm : rule.method with
    | some method =>
      by_cases hseen : method ∈ seenMethods
      · simp only [hseen, Bool.not_true, Bool.false_eq_true, if_false, if_true, reduceCtorEq,
          List.map_cons, hm, false_iff, not_and]
        intro _ h
        exact absurd List.mem_cons_self (h method hseen)
      · simp only [hseen, Bool.not_true, Bool.false_eq_true, if_false, ih, List.map_cons, hm,
          List.nodup_cons, List.mem_cons, forall_eq_or_imp, hunit, true_and, not_or, reduceCtorEq,
          not_false_eq_true, Option.some.injEq]
        constructor
        · rintro ⟨⟨hunits, hnodup⟩, ⟨hnot, hmethods⟩, hwild⟩
          refine ⟨⟨hunits, hnot, hnodup⟩, ?_, hwild⟩
          intro m hmem
          exact ⟨fun heq => hseen (heq ▸ hmem), hmethods m hmem⟩
        · rintro ⟨⟨hunits, hnot, hnodup⟩, hmethods, hwild⟩
          exact ⟨⟨hunits, hnodup⟩, ⟨hnot, fun m hmem => (hmethods m hmem).2⟩, hwild⟩
    | none =>
      cases seenWildcard with
      | true => simp [hm]
      | false =>
        simp only [Bool.not_true, Bool.false_eq_true, if_false, ih, List.map_cons, hm,
          List.nodup_cons, List.mem_cons, forall_eq_or_imp, hunit, true_and, reduceCtorEq, false_or,
          forall_const, false_implies, and_true]
        tauto

/-- **The checks accept the well-formed lists.** -/
theorem checkRules_eq_ok_iff {rules : List PolicyRule} :
    checkRules [] false rules = .ok () ↔ WellFormedRules rules := by
  rw [checkRules_eq_ok_iff_of_seen, wellFormedRules_iff]
  simp

/-- What the loader gives for a file that parses. -/
theorem loadWithOwner_eq_ok_iff {toml : String → Except String (List RawPolicyRule)}
    {contents : String} {rules sorted : List PolicyRule}
    (h : parseRules toml contents = .ok rules) :
    loadWithOwner toml (.ok contents) = .ok sorted ↔
      WellFormedRules rules ∧ sorted = sortRules rules := by
  have hload : loadWithOwner toml (.ok contents) =
      (checkRules [] false rules >>= fun _ => .ok (sortRules rules)) := by
    change (parseRules toml contents >>= fun rules =>
      checkRules [] false rules >>= fun _ => .ok (sortRules rules)) = _
    rw [h]
    rfl
  rw [hload, Checks.bind_eq_ok_iff, ← checkRules_eq_ok_iff]
  constructor
  · rintro ⟨_, hcheck, hsorted⟩
    exact ⟨hcheck, (Except.ok.inj hsorted).symm⟩
  · rintro ⟨hcheck, rfl⟩
    exact ⟨(), hcheck, rfl⟩

end PolicyParser

end OlaCore
