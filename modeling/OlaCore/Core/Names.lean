import OlaCore.Core.Types
import OlaCore.Lib.JsonCut

set_option relaxedAutoImplicit false
set_option autoImplicit false

/-!
# The identifier language

Methods and adapters are named by identifiers: one to sixty-four ASCII letters, digits, `_`, `-`
and `.`. The validator (`core/types/method`) checks this on bytes, after it has looked for
surrounding whitespace, and reserves the wildcard `any`.

## Main definitions

* `OlaCore.IsIdentifier` — the identifiers, by their characters.

## Main results

* `OlaCore.validateName_eq_ok_iff` — the validator accepts the identifiers.
* `OlaCore.AuthMethod.ofStr_eq_ok_iff` — the methods that a name denotes.
-/

namespace OlaCore

open ByteText

/-- ASCII letters and digits, `_`, `-` and `.`. -/
def isNameChar (c : Char) : Bool := c.isAlphanum || c = '_' || c = '-' || c = '.'

/-- One to sixty-four characters that a name may hold. -/
structure IsIdentifier (s : String) : Prop where
  nonempty : 1 ≤ s.length
  short : s.length ≤ 64
  chars : ∀ c ∈ s.toList, isNameChar c

instance (s : String) : Decidable (IsIdentifier s) :=
  decidable_of_iff (1 ≤ s.length ∧ s.length ≤ 64 ∧ s.toList.all isNameChar)
    ⟨fun ⟨h₁, h₂, h₃⟩ => ⟨h₁, h₂, List.all_eq_true.mp h₃⟩,
      fun h => ⟨h.nonempty, h.short, List.all_eq_true.mpr h.chars⟩⟩

/-- The characters of a name, by their codes. -/
theorem isNameChar_iff {c : Char} : isNameChar c ↔
    48 ≤ c.toNat ∧ c.toNat ≤ 57 ∨ 65 ≤ c.toNat ∧ c.toNat ≤ 90 ∨ 97 ≤ c.toNat ∧ c.toNat ≤ 122 ∨
      c.toNat = 95 ∨ c.toNat = 45 ∨ c.toNat = 46 := by
  have hval : c.val.toNat = c.toNat := rfl
  have heq : ∀ d : Char, c = d ↔ c.toNat = d.toNat := fun d => Char.toNat_inj.symm
  have halphanum : c.isAlphanum = ((c.isUpper || c.isLower) || c.isDigit) := rfl
  have hupper : c.isUpper = decide (c.val ≥ 'A'.val ∧ c.val ≤ 'Z'.val) := rfl
  have hlower : c.isLower = (c.val ≥ 'a'.val && c.val ≤ 'z'.val) := rfl
  simp only [isNameChar, halphanum, hupper, hlower, Char.isDigit, Bool.or_eq_true,
    Bool.and_eq_true, decide_eq_true_eq, UInt32.le_iff_toNat_le, ge_iff_le, heq, hval,
    Char.reduceToNat, Char.reduceVal, UInt32.reduceToNat]
  omega

/-- The bytes of a name, by their values. -/
theorem isNameByte_ofNat_iff {n : ℕ} (hn : n ≤ 127) : isNameByte (UInt8.ofNat n) ↔
    48 ≤ n ∧ n ≤ 57 ∨ 65 ≤ n ∧ n ≤ 90 ∨ 97 ≤ n ∧ n ≤ 122 ∨ n = 95 ∨ n = 45 ∨ n = 46 := by
  have h : ∀ n < 128, isNameByte (UInt8.ofNat n) ↔
      48 ≤ n ∧ n ≤ 57 ∨ 65 ≤ n ∧ n ≤ 90 ∨ 97 ≤ n ∧ n ≤ 122 ∨ n = 95 ∨ n = 45 ∨ n = 46 := by
    decide
  exact h n (by omega)

/-- The bytes of a name are ASCII. -/
theorem toNat_le_of_isNameByte {b : UInt8} (h : isNameByte b) : b.toNat ≤ 127 := by
  simp only [isNameByte, isAsciiAlphanumeric, Bool.or_eq_true, Bool.and_eq_true,
    decide_eq_true_eq, UInt8.le_iff_toNat_le] at h
  rcases h with ((((h | h) | h) | rfl) | rfl) | rfl
  · exact h.2.trans (by decide)
  · exact h.2.trans (by decide)
  · exact h.2.trans (by decide)
  · decide
  · decide
  · decide

/-- All bytes are those of a name when all characters are. -/
theorem all_isNameByte_iff {s : String} :
    (utf8 s).all isNameByte ↔ ∀ c ∈ s.toList, isNameChar c := by
  rw [List.all_eq_true, forall_mem_utf8_iff fun _ => toNat_le_of_isNameByte]
  constructor
  · intro h c hc
    obtain ⟨hc7, hb⟩ := h c hc
    exact isNameChar_iff.mpr ((isNameByte_ofNat_iff hc7).mp hb)
  · intro h c hc
    have hcode := isNameChar_iff.mp (h c hc)
    have hc7 : c.toNat ≤ 127 := by omega
    exact ⟨hc7, (isNameByte_ofNat_iff hc7).mpr hcode⟩

/-- The characters of a name are not whitespace. -/
theorem isWhiteSpace_of_isNameChar {c : Char} (h : isNameChar c) : isWhiteSpace c = false := by
  have hcode := isNameChar_iff.mp h
  simp only [isWhiteSpace, Bool.or_eq_false_iff, Bool.and_eq_false_iff, decide_eq_false_iff_not]
  omega

/-- Text whose first and last characters are not whitespace is not trimmed. -/
theorem trim_ofList {cs : List Char} (hfirst : ∀ c, cs.head? = some c → isWhiteSpace c = false)
    (hlast : ∀ c, cs.getLast? = some c → isWhiteSpace c = false) :
    trim (String.ofList cs) = String.ofList cs := by
  have hdrop : ∀ ds : List Char, (∀ c, ds.head? = some c → isWhiteSpace c = false) →
      ds.dropWhile isWhiteSpace = ds := by
    intro ds hds
    cases ds with
    | nil => rfl
    | cons d ds => simp [hds d rfl]
  unfold trim
  rw [String.toList_ofList, hdrop cs hfirst, hdrop cs.reverse, List.reverse_reverse]
  intro c hc
  exact hlast c (by rwa [List.head?_reverse] at hc)

/-- The text of an object is not trimmed. -/
theorem trim_compact_obj (ms : List (String × Json)) :
    trim (Json.obj ms).compact = (Json.obj ms).compact := by
  apply trim_ofList
  · intro c hc
    obtain ⟨cs, hcs⟩ := Json.print_obj_cons ms
    rw [hcs] at hc
    obtain rfl := Option.some.inj hc
    decide
  · intro c hc
    rw [Json.getLast?_print_obj] at hc
    obtain rfl := Option.some.inj hc
    decide

/-- A newline after a text is trimmed. -/
theorem trim_append_newline (s : String) : trim (s ++ "\n") = trim s := by
  have hdrop : ∀ cs : List Char, ((cs ++ ['\n']).dropWhile isWhiteSpace).reverse.dropWhile
      isWhiteSpace = (cs.dropWhile isWhiteSpace).reverse.dropWhile isWhiteSpace := by
    intro cs
    rw [List.dropWhile_append]
    split
    · next hnil =>
      rw [List.isEmpty_iff.mp hnil]
      decide
    · rw [List.reverse_append, List.reverse_singleton, List.singleton_append,
        List.dropWhile_cons_of_pos (by decide)]
  rw [trim, trim, String.toList_append]
  exact congrArg (fun l => String.ofList l.reverse) (hdrop _)

/-- A name is not trimmed. -/
theorem trim_of_isNameChar {s : String} (h : ∀ c ∈ s.toList, isNameChar c) : trim s = s := by
  have hs : trim (String.ofList s.toList) = String.ofList s.toList := by
    apply trim_ofList
    · intro c hc
      exact isWhiteSpace_of_isNameChar (h c (List.mem_of_head? hc))
    · intro c hc
      exact isWhiteSpace_of_isNameChar (h c (List.mem_of_getLast? hc))
  rwa [String.ofList_toList] at hs

/-- **The checks of an identifier, in one condition**: whatever is made of the wildcard, the
checks for emptiness, surrounding whitespace, length in bytes and bytes accept exactly the
identifiers. -/
theorem isIdentifier_iff {s : String} : IsIdentifier s ↔
    s ≠ "" ∧ trim s = s ∧ (utf8 s).length ≤ maxNameLen ∧ (utf8 s).all isNameByte := by
  have hlen : (∀ c ∈ s.toList, isNameChar c) → (utf8 s).length = s.length := by
    intro h
    apply length_utf8_of_ascii
    intro c hc
    have := isNameChar_iff.mp (h c hc)
    omega
  have hempty : s ≠ "" ↔ 1 ≤ s.length := by
    rw [Nat.one_le_iff_ne_zero, ne_eq, ne_eq, String.length_eq_zero_iff]
  constructor
  · intro h
    refine ⟨hempty.mpr h.nonempty, trim_of_isNameChar h.chars, ?_, all_isNameByte_iff.mpr h.chars⟩
    rw [hlen h.chars]
    exact h.short
  · rintro ⟨hne, -, hshort, hbytes⟩
    have hchars := all_isNameByte_iff.mp hbytes
    rw [hlen hchars] at hshort
    exact ⟨hempty.mp hne, hshort, hchars⟩

/-- **The validator accepts the identifiers**, except the wildcard where it is reserved. -/
theorem validateName_eq_ok_iff {s : String} {allowAny : Bool} :
    validateName s allowAny = .ok () ↔ IsIdentifier s ∧ (allowAny = false → s ≠ "any") := by
  rw [isIdentifier_iff]
  unfold validateName
  by_cases h₁ : s = ""
  · simp [h₁]
  by_cases h₂ : trim s = s
  swap
  · simp [h₁, h₂]
  by_cases h₃ : s = "any" ∧ allowAny = false
  · rw [if_neg h₁, if_neg (not_not.mpr h₂), if_pos h₃]
    constructor
    · intro h
      cases h
    · intro h
      exact absurd h₃.1 (h.2 h₃.2)
  by_cases h₄ : maxNameLen < (utf8 s).length
  · simp [h₁, h₂, h₃, h₄, Nat.not_le.mpr h₄]
  by_cases h₅ : (utf8 s).all isNameByte
  · simp only [h₁, h₂, h₃, h₄, h₅, Nat.not_lt.mp h₄, if_false, not_true, ne_eq, not_false_eq_true,
      and_self, true_and, true_iff]
    intro ha hs
    exact h₃ ⟨hs, ha⟩
  · simp [h₁, h₂, h₃, h₄, h₅]

/-- Method names. -/
theorem validateMethodName_eq_ok_iff {s : String} {allowAny : Bool} :
    validateMethodName s allowAny = .ok () ↔ IsIdentifier s ∧ (allowAny = false → s ≠ "any") := by
  rw [← validateName_eq_ok_iff, validateMethodName]
  cases validateName s allowAny <;> simp [Except.mapError]

/-- Adapter names. -/
theorem validateAdapterName_eq_ok_iff {s : String} :
    validateAdapterName s = .ok () ↔ IsIdentifier s ∧ s ≠ "any" := by
  have h : validateName s false = .ok () ↔ IsIdentifier s ∧ s ≠ "any" := by
    simp [validateName_eq_ok_iff]
  rw [← h, validateAdapterName]
  cases validateName s false <;> simp [Except.mapError]

/-! ## Methods and their names -/

/-- **The methods that a name denotes**: the identifiers other than the wildcard, and each denotes
the method that it names. -/
theorem AuthMethod.ofStr_eq_ok_iff {s : String} {m : AuthMethod} :
    AuthMethod.ofStr s = .ok m ↔ (IsIdentifier s ∧ s ≠ "any") ∧ m.asStr = s ∧
      ∀ value, m = .other value → value ≠ "libfprint" ∧ value ≠ "fido2" ∧ value ≠ "pin" := by
  unfold AuthMethod.ofStr
  split_ifs with h₁ h₂ h₃ h₄
  · subst h₁
    have hid : IsIdentifier "libfprint" := by decide
    cases m <;> simp +contextual [AuthMethod.asStr, hid]
  · subst h₂
    have hid : IsIdentifier "fido2" := by decide
    cases m <;> simp +contextual [AuthMethod.asStr, hid]
  · subst h₃
    have hid : IsIdentifier "pin" := by decide
    cases m <;> simp +contextual [AuthMethod.asStr, hid]
  · simp [h₄]
  · have hv : validateMethodName s false = .ok () ↔ IsIdentifier s ∧ s ≠ "any" := by
      simp [validateMethodName_eq_ok_iff]
    rw [← hv]
    cases hval : validateMethodName s false with
    | error e => simp [Except.map]
    | ok _ =>
      cases m with
      | other value =>
        simp only [Except.map, Except.ok.injEq, AuthMethod.other.injEq, AuthMethod.asStr, true_and,
          forall_eq']
        constructor
        · rintro rfl
          exact ⟨rfl, h₁, h₂, h₃⟩
        · rintro ⟨rfl, -⟩
          rfl
      | _ => simp [Except.map, AuthMethod.asStr, Ne.symm h₁, Ne.symm h₂, Ne.symm h₃]

/-- The names that denote a method. -/
theorem AuthMethod.exists_ofStr_iff {s : String} :
    (∃ m, AuthMethod.ofStr s = .ok m) ↔ IsIdentifier s ∧ s ≠ "any" := by
  constructor
  · rintro ⟨m, hm⟩
    exact (AuthMethod.ofStr_eq_ok_iff.mp hm).1
  · intro hs
    have hvalid : validateMethodName s false = .ok () := by
      rw [validateMethodName_eq_ok_iff]
      exact ⟨hs.1, fun _ => hs.2⟩
    unfold AuthMethod.ofStr
    split_ifs with h₁ h₂ h₃ h₄
    · exact ⟨.libfprint, rfl⟩
    · exact ⟨.fido2, rfl⟩
    · exact ⟨.pin, rfl⟩
    · exact absurd h₄ hs.2
    · rw [hvalid]
      exact ⟨.other s, rfl⟩

end OlaCore
