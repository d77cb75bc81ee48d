import Mathlib.Data.Nat.Log
import Mathlib.Data.Int.ModEq
import Mathlib.Tactic
import OlaCore.Lib.Json

set_option relaxedAutoImplicit false
set_option autoImplicit false

/-!
# Single-precision floating-point numbers by their bits

A `Binary32` is its 32-bit pattern. Every finite value is an integer number of units of
`2 ^ (-149)`, and an infinity is given the unit count that would come next, so that order and
rounding are questions about integers.

`ofRatio` rounds a non-negative rational to nearest, ties to even, overflowing to infinity;
`toNumber` is the exact decimal expansion of a finite value, and `ofNumber` rounds a decimal
number. Reading the exact expansion gives the value back.

## Main definitions

* `Binary32`, `Binary32.isFinite`, `Binary32.isNaN`, `Binary32.toUnits` — patterns and values.
* `Binary32.lt`, `Binary32.le` — the IEEE 754 comparisons, false on NaN.
* `Binary32.InUnit` — the values in `[0, 1]`.
* `Binary32.ofRatio`, `Binary32.ofNumber` — rounding.
* `Binary32.toNumber` — the exact decimal expansion.
* `Binary32.debug` — the shortest decimal text.

## Main results

* `Binary32.ofNumber_toNumber` — a finite value is read back from its expansion.
* `Binary32.length_debug_le`, `Binary32.length_chars_toNumber_le` — the texts of a value are short.
-/

/-- A single-precision number, by its bit pattern. -/
structure Binary32 where
  bits : UInt32
  deriving DecidableEq

namespace Binary32

/-! ## Values and comparisons -/

/-- The sign bit. -/
def isNeg (x : Binary32) : Bool := 2 ^ 31 ≤ x.bits.toNat

/-- The pattern without its sign bit. -/
def magnitude (x : Binary32) : ℕ := x.bits.toNat % 2 ^ 31

/-- The pattern of positive infinity. -/
abbrev infinityBits : ℕ := 0x7f800000

/-- Neither infinite nor a NaN. -/
def isFinite (x : Binary32) : Bool := x.magnitude < infinityBits

/-- Not a number. -/
def isNaN (x : Binary32) : Bool := infinityBits < x.magnitude

/-- The units of `2 ^ (-149)` in the value of a magnitude: the significand shifted by its
exponent, without the hidden bit for the subnormal exponent. -/
def units (m : ℕ) : ℕ :=
  if m / 2 ^ 23 = 0 then m else (m % 2 ^ 23 + 2 ^ 23) * 2 ^ (m / 2 ^ 23 - 1)

/-- The value in units of `2 ^ (-149)`. Both zeros have value zero. -/
def toUnits (x : Binary32) : ℤ := if x.isNeg then -(units x.magnitude : ℤ) else units x.magnitude

/-- `x < y`, false when either is a NaN. -/
def lt (x y : Binary32) : Bool := !x.isNaN && !y.isNaN && x.toUnits < y.toUnits

/-- `x ≤ y`, false when either is a NaN. -/
def le (x y : Binary32) : Bool := !x.isNaN && !y.isNaN && x.toUnits ≤ y.toUnits

/-! ## Rounding -/

/-- The number of units in one. -/
def unitsPerOne : ℕ := 2 ^ 149

/-- The value is in `[0, 1]`. A NaN has no value. -/
def InUnit (x : Binary32) : Prop :=
  x.isNaN = false ∧ 0 ≤ x.toUnits ∧ x.toUnits ≤ unitsPerOne

/-- A value in `[0, 1]` is finite. -/
theorem isFinite_of_inUnit {x : Binary32} (h : x.InUnit) : x.isFinite := by
  obtain ⟨hnan, hzero, hone⟩ := h
  have hlarge : unitsPerOne < units infinityBits := by decide +kernel
  have hle : x.magnitude ≤ infinityBits := by simpa [isNaN] using hnan
  have hne : x.magnitude ≠ infinityBits := by
    intro heq
    unfold toUnits at hzero hone
    rw [heq] at hzero hone
    split at hzero <;> simp_all <;> omega
  simp only [isFinite, decide_eq_true_eq]
  omega

/-- The least value that is out of the range of double precision. -/
def doubleOverflow : ℕ := 2 ^ 1024 - 2 ^ 970

/-- The pattern with the given sign and magnitude. -/
def ofMagnitude (neg : Bool) (m : ℕ) : Binary32 :=
  ⟨UInt32.ofNat ((if neg then 2 ^ 31 else 0) + m)⟩

/-- The rational `n / d` rounded to nearest, ties to even; too large a value becomes infinity.

The quotient in units has `shift` more bits than the significand can hold. A carry out of the
significand lands in the exponent field, which is what rounding up to the next power of two
has to do. -/
def ofRatio (neg : Bool) (n d : ℕ) : Binary32 :=
  let scaled := n * unitsPerOne
  let shift := Nat.log2 (scaled / d) - 23
  let den := d * 2 ^ shift
  let q := scaled / den
  let rem := scaled % den
  let q := if den < 2 * rem ∨ (2 * rem = den ∧ q % 2 = 1) then q + 1 else q
  ofMagnitude neg (min (shift * 2 ^ 23 + q) infinityBits)

/-- The number that a list of decimal digits denotes. -/
def digitsValue : List (Fin 10) → ℕ
  | [] => 0
  | d :: ds => d * 10 ^ ds.length + digitsValue ds

/-- A decimal number as a ratio of naturals, without its sign. -/
def ratio (n : Json.Number) : ℕ × ℕ :=
  let e := n.exp.getD 0
  ((n.int * 10 ^ n.frac.length + digitsValue n.frac) * 10 ^ e.toNat,
    10 ^ n.frac.length * 10 ^ (-e).toNat)

/-- A decimal number rounded to single precision; `none` when it is out of the range of double
precision. -/
def ofNumber (n : Json.Number) : Option Binary32 :=
  let r := ratio n
  if doubleOverflow * r.2 ≤ r.1 then none else some (ofRatio n.neg r.1 r.2)

/-! ## Exact expansions -/

/-- The decimal digits of `r / D` after the point, at most `k` of them. -/
def expand (D : ℕ) : ℕ → ℕ → List (Fin 10)
  | 0, _ => []
  | k + 1, r => if r = 0 then [] else Json.digitOfNat (r * 10 / D) :: expand D k (r * 10 % D)

/-- The exact decimal expansion of a finite value, with at least one digit after the point. -/
def toNumber (x : Binary32) : Json.Number :=
  let u := units x.magnitude
  let ds := expand unitsPerOne 149 (u % unitsPerOne)
  ⟨x.isNeg, u / unitsPerOne, if ds = [] then [Json.digitOfNat 0] else ds, none⟩

/-- A finite value has fewer than `2 ^ 277` units. -/
theorem units_lt {m : ℕ} (hm : m < infinityBits) : units m < 2 ^ 277 := by
  unfold units
  split
  · calc m < 2 ^ 31 := lt_trans hm (by norm_num)
      _ ≤ 2 ^ 277 := Nat.pow_le_pow_right (by norm_num) (by norm_num)
  · have he : m / 2 ^ 23 ≤ 254 := by
      have : m / 2 ^ 23 < 255 := Nat.div_lt_of_lt_mul (by simpa using hm)
      omega
    have hf : m % 2 ^ 23 + 2 ^ 23 < 2 ^ 24 := by
      have := Nat.mod_lt m (show 0 < 2 ^ 23 by norm_num)
      omega
    calc (m % 2 ^ 23 + 2 ^ 23) * 2 ^ (m / 2 ^ 23 - 1)
        < 2 ^ 24 * 2 ^ (m / 2 ^ 23 - 1) := Nat.mul_lt_mul_of_pos_right hf (by positivity)
      _ ≤ 2 ^ 24 * 2 ^ 253 := Nat.mul_le_mul_left _ (Nat.pow_le_pow_right (by norm_num) (by omega))
      _ = 2 ^ 277 := (pow_add 2 24 253).symm

/-- The exponent of a magnitude is recovered from its units, and so is its significand.

**Proof sketch.** A subnormal magnitude is below `2 ^ 23` and is its own number of units. A
normal one has `23 + e - 1` as the binary logarithm of its units, where `e` is its exponent
field, so the shift is `e - 1`; shifting back leaves the significand with its hidden bit, which
adds one to the exponent field. -/
theorem shift_units (m : ℕ) :
    units m % 2 ^ (Nat.log2 (units m) - 23) = 0 ∧
      (Nat.log2 (units m) - 23) * 2 ^ 23 + units m / 2 ^ (Nat.log2 (units m) - 23) = m := by
  simp only [Nat.log2_eq_log_two]
  unfold units
  split
  · rename_i h0
    have hm : m < 2 ^ 23 := by
      by_contra hge
      have := Nat.div_pos (Nat.le_of_not_lt hge) (show 0 < 2 ^ 23 by norm_num)
      omega
    have hlog : Nat.log 2 m - 23 = 0 := by
      rcases Nat.eq_zero_or_pos m with rfl | hpos
      · rfl
      · have := Nat.log_lt_of_lt_pow (b := 2) (by omega) hm
        omega
    simp [hlog, Nat.mod_one]
  · rename_i h0
    set e := m / 2 ^ 23 with he
    set s := m % 2 ^ 23 + 2 ^ 23 with hs
    have hs2 : s < 2 ^ 24 := by
      have := Nat.mod_lt m (show 0 < 2 ^ 23 by norm_num)
      omega
    have hlog : Nat.log 2 (s * 2 ^ (e - 1)) = 23 + (e - 1) := by
      apply Nat.log_eq_of_pow_le_of_lt_pow
      · rw [pow_add]
        exact Nat.mul_le_mul_right _ (by omega)
      · rw [show 23 + (e - 1) + 1 = 24 + (e - 1) by omega, pow_add]
        exact Nat.mul_lt_mul_of_pos_right hs2 (by positivity)
    have hshift : Nat.log 2 (s * 2 ^ (e - 1)) - 23 = e - 1 := by omega
    rw [hshift, Nat.mul_mod_left, Nat.mul_div_cancel _ (by positivity)]
    refine ⟨rfl, ?_⟩
    have hm := Nat.div_add_mod m (2 ^ 23)
    have hmul : (e - 1) * 2 ^ 23 + 2 ^ 23 = 2 ^ 23 * e := by
      rw [← Nat.succ_mul, Nat.succ_eq_add_one, Nat.sub_add_cancel (by omega), Nat.mul_comm]
    calc (e - 1) * 2 ^ 23 + s = (e - 1) * 2 ^ 23 + 2 ^ 23 + m % 2 ^ 23 := by
          rw [hs, Nat.add_assoc, Nat.add_comm (2 ^ 23)]
      _ = m := by rw [hmul, hm]

/-- The sign and magnitude make up the pattern. -/
theorem ofMagnitude_magnitude (x : Binary32) : ofMagnitude x.isNeg x.magnitude = x := by
  obtain ⟨b⟩ := x
  have hb : b.toNat < 4294967296 := b.toNat_lt
  have hsum : (if isNeg ⟨b⟩ then 2 ^ 31 else 0) + magnitude ⟨b⟩ = b.toNat := by
    simp only [isNeg, magnitude, decide_eq_true_eq]
    norm_num
    split <;> omega
  rw [ofMagnitude, hsum, UInt32.ofNat_toNat]

/-- **Rounding an exactly representable ratio** gives the value it represents. -/
theorem ofRatio_exact {x : Binary32} (hx : x.isFinite) {n d : ℕ} (hd : 0 < d)
    (h : n * unitsPerOne = units x.magnitude * d) : ofRatio x.isNeg n d = x := by
  have hm : x.magnitude < infinityBits := by simpa [isFinite] using hx
  obtain ⟨hmod, hsum⟩ := shift_units x.magnitude
  have hquot : n * unitsPerOne / d = units x.magnitude := by rw [h, Nat.mul_div_cancel _ hd]
  simp only [ofRatio]
  rw [hquot]
  set k := Nat.log2 (units x.magnitude) - 23
  have hden : d * 2 ^ k = 2 ^ k * d := Nat.mul_comm _ _
  have hq : n * unitsPerOne / (d * 2 ^ k) = units x.magnitude / 2 ^ k := by
    rw [h, hden, Nat.mul_div_mul_right _ _ hd]
  have hrem : n * unitsPerOne % (d * 2 ^ k) = 0 := by
    rw [h, hden, Nat.mul_mod_mul_right, hmod, Nat.zero_mul]
  have hpos : 0 < d * 2 ^ k := by positivity
  rw [hq, hrem, if_neg (by omega), hsum, Nat.min_eq_left hm.le, ofMagnitude_magnitude]

/-- The digits of a terminating expansion denote the fraction they were computed from.

**Proof sketch.** Induction on the number of digits: the first digit and the remainder satisfy
`10 r = D q + r'`, and `q < 10` because `r < D`. -/
theorem expand_spec (D : ℕ) : ∀ k r, r < D → D ∣ r * 10 ^ k →
    digitsValue (expand D k r) * D = r * 10 ^ (expand D k r).length
  | 0, r, hr, hdvd => by
    rw [pow_zero, Nat.mul_one] at hdvd
    rw [Nat.eq_zero_of_dvd_of_lt hdvd hr]
    simp [expand, digitsValue]
  | k + 1, r, hr, hdvd => by
    by_cases h0 : r = 0
    · simp [expand, digitsValue, h0]
    · have hD : 0 < D := by omega
      have hq : r * 10 / D < 10 := Nat.div_lt_of_lt_mul (by omega)
      have hdvd' : D ∣ r * 10 % D * 10 ^ k := by
        have hmod : r * 10 % D * 10 ^ k ≡ r * 10 * 10 ^ k [MOD D] :=
          (Nat.mod_modEq _ _).mul_right _
        refine (hmod.dvd_iff (dvd_refl D)).mpr ?_
        rwa [Nat.mul_assoc, ← pow_succ']
      have ih := expand_spec D k (r * 10 % D) (Nat.mod_lt _ hD) hdvd'
      rw [expand, if_neg h0]
      simp only [digitsValue, List.length_cons, Json.val_digitOfNat, Nat.mod_eq_of_lt hq]
      rw [Nat.add_mul, ih, pow_succ']
      have hdm := Nat.div_add_mod (r * 10) D
      calc r * 10 / D * 10 ^ (expand D k (r * 10 % D)).length * D +
            r * 10 % D * 10 ^ (expand D k (r * 10 % D)).length
          = (D * (r * 10 / D) + r * 10 % D) * 10 ^ (expand D k (r * 10 % D)).length := by ring
        _ = r * (10 * 10 ^ (expand D k (r * 10 % D)).length) := by rw [hdm]; ring

/-- The fraction digits of an exact expansion denote the fraction of a unit that is left over;
one zero stands for no digits. -/
theorem digitsValue_frac_toNumber (x : Binary32) :
    digitsValue x.toNumber.frac * unitsPerOne =
      units x.magnitude % unitsPerOne * 10 ^ x.toNumber.frac.length := by
  have hdvd : unitsPerOne ∣ units x.magnitude % unitsPerOne * 10 ^ 149 := by
    refine Dvd.dvd.mul_left ?_ _
    rw [unitsPerOne, show (10 : ℕ) = 2 * 5 from rfl, mul_pow]
    exact dvd_mul_right _ _
  have hds := expand_spec unitsPerOne 149 (units x.magnitude % unitsPerOne)
    (Nat.mod_lt _ (by rw [unitsPerOne]; positivity)) hdvd
  simp only [toNumber]
  split
  · rename_i hnil
    rw [hnil] at hds
    simp only [digitsValue, Nat.zero_mul, List.length_nil, pow_zero, Nat.mul_one] at hds
    simp [digitsValue, ← hds]
  · exact hds

/-- The ratio of an exact expansion is the value it expands. -/
theorem ratio_toNumber (x : Binary32) :
    (ratio x.toNumber).1 * unitsPerOne = units x.magnitude * (ratio x.toNumber).2 := by
  have hfrac := digitsValue_frac_toNumber x
  have hexp : x.toNumber.exp = none := rfl
  have hint : x.toNumber.int = units x.magnitude / unitsPerOne := rfl
  simp only [ratio, hexp, hint, Option.getD_none, Int.toNat_zero, neg_zero, pow_zero,
    Nat.mul_one]
  set l := x.toNumber.frac
  have hdm := Nat.div_add_mod (units x.magnitude) unitsPerOne
  calc (units x.magnitude / unitsPerOne * 10 ^ l.length + digitsValue l) * unitsPerOne
      = unitsPerOne * (units x.magnitude / unitsPerOne) * 10 ^ l.length +
          digitsValue l * unitsPerOne := by ring
    _ = (unitsPerOne * (units x.magnitude / unitsPerOne) + units x.magnitude % unitsPerOne) *
          10 ^ l.length := by rw [hfrac]; ring
    _ = units x.magnitude * 10 ^ l.length := by rw [hdm]

/-- Every single-precision value is in the range of double precision. -/
theorem pow_128_le_doubleOverflow : 2 ^ 128 ≤ doubleOverflow := by
  have h1 : (2 : ℕ) ^ 128 ≤ 2 ^ 970 := Nat.pow_le_pow_right (by norm_num) (by norm_num)
  have h2 : (2 : ℕ) ^ 970 + 2 ^ 970 ≤ 2 ^ 1024 := by
    rw [← Nat.two_mul, ← pow_succ']
    exact Nat.pow_le_pow_right (by norm_num) (by norm_num)
  rw [doubleOverflow]
  exact Nat.le_sub_of_add_le (le_trans (Nat.add_le_add_right h1 _) h2)

/-- **A finite value is read back from its exact expansion.** -/
theorem ofNumber_toNumber {x : Binary32} (hx : x.isFinite) : ofNumber x.toNumber = some x := by
  have hm : x.magnitude < infinityBits := by simpa [isFinite] using hx
  have hr := ratio_toNumber x
  have hpos : 0 < (ratio x.toNumber).2 := by
    simp only [ratio]
    positivity
  have hsmall : (ratio x.toNumber).1 < 2 ^ 128 * (ratio x.toNumber).2 := by
    have h1 : (ratio x.toNumber).1 * unitsPerOne < 2 ^ 277 * (ratio x.toNumber).2 := by
      rw [hr]
      exact Nat.mul_lt_mul_of_pos_right (units_lt hm) hpos
    have h2 : (2 : ℕ) ^ 277 * (ratio x.toNumber).2 =
        2 ^ 128 * (ratio x.toNumber).2 * unitsPerOne := by
      rw [unitsPerOne, Nat.mul_right_comm, ← pow_add]
    rw [h2] at h1
    exact Nat.lt_of_mul_lt_mul_right h1
  have hrange : ¬ doubleOverflow * (ratio x.toNumber).2 ≤ (ratio x.toNumber).1 := by
    rw [Nat.not_le]
    exact hsmall.trans_le (Nat.mul_le_mul_right _ pow_128_le_doubleOverflow)
  simp only [ofNumber]
  rw [if_neg hrange]
  exact congrArg some (ofRatio_exact hx hpos hr)

/-! ## Shortest decimal text -/

/-- The decimal exponent of a number of units: the greatest `k` with `10 ^ k` at most the
value. Single-precision values lie between `10 ^ (-46)` and `10 ^ 39`. -/
def decimalExponent (u : ℕ) : ℤ :=
  (((List.range 86).reverse.map fun i : ℕ => (i : ℤ) - 46).find? fun k =>
    decide (10 ^ k.toNat * unitsPerOne ≤ u * 10 ^ (-k).toNat)).getD (-46)

/-- Does the decimal `d * 10 ^ k` round to `x`? -/
def roundsTo (x : Binary32) (d : ℕ) (k : ℤ) : Bool :=
  ofRatio x.isNeg (d * 10 ^ k.toNat) (10 ^ (-k).toNat) = x

/-- The decimal `d * 10 ^ k` with the fewest digits that rounds to `x`, the closest one if there
is a choice: try `n + 1` digits, then more. Nine digits always do. -/
def shortestFrom (x : Binary32) (e : ℤ) : ℕ → ℕ → ℕ × ℤ
  | 0, n => (units x.magnitude * 10 ^ (n - e).toNat / (unitsPerOne * 10 ^ (e - n).toNat), e - n)
  | fuel + 1, n =>
    let k := e - n
    let num := units x.magnitude * 10 ^ (-k).toNat
    let den := unitsPerOne * 10 ^ k.toNat
    let lo := num / den
    match roundsTo x lo k, roundsTo x (lo + 1) k with
    | true, false => (lo, k)
    | false, true => (lo + 1, k)
    | true, true => if 2 * (num % den) ≤ den then (lo, k) else (lo + 1, k)
    | false, false => shortestFrom x e fuel (n + 1)

/-- The shortest decimal of a finite nonzero value, without a trailing zero. -/
def shortest (x : Binary32) : ℕ × ℤ :=
  let (d, k) := shortestFrom x (decimalExponent (units x.magnitude)) 9 0
  if d % 10 = 0 then (d / 10, k + 1) else (d, k)

/-- The debug text of a value: the shortest decimal, in scientific notation from `1e16` on and
below `1e-4`, and otherwise with at least one digit after the point. -/
def debug (x : Binary32) : String :=
  let sign := if x.isNeg then "-" else ""
  if x.isNaN then "NaN"
  else if !x.isFinite then sign ++ "inf"
  else if x.magnitude = 0 then sign ++ "0.0"
  else
    let (d, k) := shortest x
    let ds := Nat.toDigits 10 d
    let point : ℤ := ds.length + k
    sign ++ String.ofList
      (if 0x5a0e1bca ≤ x.magnitude ∨ x.magnitude < 0x38d1b717 then
        ds.take 1 ++ (if ds.length = 1 then [] else '.' :: ds.drop 1) ++
          'e' :: Json.intChars (point - 1)
      else if point ≤ 0 then '0' :: '.' :: (List.replicate (-point).toNat '0' ++ ds)
      else if 0 ≤ k then ds ++ List.replicate k.toNat '0' ++ ['.', '0']
      else ds.take point.toNat ++ '.' :: ds.drop point.toNat)

example : (([0x3f800000, 0x3dcccccd, 0x7f800000, 0x00000001, 0x7f7fffff, 0x38d1b717] :
    List UInt32).map fun b => debug ⟨b⟩) =
    ["1.0", "0.1", "inf", "1e-45", "3.4028235e38", "0.0001"] := by
  decide +kernel

/-! ## Lengths -/

/-- The digits of a value of `u` units, where `rounds` says which decimals round to the value. -/
def digitsFrom (rounds : ℕ → ℤ → Bool) (u : ℕ) (e : ℤ) : ℕ → ℕ → ℕ × ℤ
  | 0, n => (u * 10 ^ (n - e).toNat / (unitsPerOne * 10 ^ (e - n).toNat), e - n)
  | fuel + 1, n =>
    let k := e - n
    let num := u * 10 ^ (-k).toNat
    let den := unitsPerOne * 10 ^ k.toNat
    let lo := num / den
    match rounds lo k, rounds (lo + 1) k with
    | true, false => (lo, k)
    | false, true => (lo + 1, k)
    | true, true => if 2 * (num % den) ≤ den then (lo, k) else (lo + 1, k)
    | false, false => digitsFrom rounds u e fuel (n + 1)

/-- The length of the text does not depend on what rounding means. (Unfolding `shortestFrom` itself
makes the kernel evaluate `roundsTo`.) -/
theorem shortestFrom_eq (x : Binary32) (e : ℤ) :
    shortestFrom x e = digitsFrom (roundsTo x) (units x.magnitude) e := by
  delta shortestFrom digitsFrom
  rfl

/-- The digits that are tried are those of the value, rounded down or up. -/
theorem digitsFrom_bounds {rounds : ℕ → ℤ → Bool} {u : ℕ} {e : ℤ} {fuel n d : ℕ} {k : ℤ}
    (h : digitsFrom rounds u e fuel n = (d, k)) :
    ∃ m : ℕ, m ≤ n + fuel ∧ k = e - m ∧ d ≤ u * 10 ^ (m - e).toNat + 1 := by
  induction fuel generalizing n with
  | zero =>
    obtain ⟨rfl, rfl⟩ := Prod.mk.inj h
    exact ⟨n, Nat.le_refl n, rfl, (Nat.div_le_self _ _).trans (Nat.le_add_right _ _)⟩
  | succ fuel ih =>
    have hlo : u * 10 ^ (-(e - n)).toNat / (unitsPerOne * 10 ^ (e - n).toNat) ≤
        u * 10 ^ (n - e).toNat := by
      rw [neg_sub]
      exact Nat.div_le_self _ _
    rw [digitsFrom] at h
    generalize u * 10 ^ (-(e - n)).toNat / (unitsPerOne * 10 ^ (e - n).toNat) = lo at hlo h
    have hdown : (lo, e - (n : ℤ)) = (d, k) →
        ∃ m : ℕ, m ≤ n + (fuel + 1) ∧ k = e - m ∧ d ≤ u * 10 ^ (m - e).toNat + 1 := by
      rintro heq
      obtain ⟨rfl, rfl⟩ := Prod.mk.inj heq
      exact ⟨n, Nat.le_add_right _ _, rfl, hlo.trans (Nat.le_add_right _ _)⟩
    have hup : (lo + 1, e - (n : ℤ)) = (d, k) →
        ∃ m : ℕ, m ≤ n + (fuel + 1) ∧ k = e - m ∧ d ≤ u * 10 ^ (m - e).toNat + 1 := by
      rintro heq
      obtain ⟨rfl, rfl⟩ := Prod.mk.inj heq
      exact ⟨n, Nat.le_add_right _ _, rfl, Nat.add_le_add_right hlo 1⟩
    split at h
    · exact hdown h
    · exact hup h
    · split at h
      · exact hdown h
      · exact hup h
    · obtain ⟨m, hm, hk, hd⟩ := ih h
      exact ⟨m, by omega, hk, hd⟩

/-- The decimal exponent is the one of some single-precision value. -/
theorem decimalExponent_bounds (u : ℕ) : -46 ≤ decimalExponent u ∧ decimalExponent u ≤ 39 := by
  unfold decimalExponent
  cases hfind : ((List.range 86).reverse.map fun i : ℕ => (i : ℤ) - 46).find? fun k =>
      decide (10 ^ k.toNat * unitsPerOne ≤ u * 10 ^ (-k).toNat) with
  | none => simp
  | some k =>
    obtain ⟨i, hi, rfl⟩ := List.mem_map.mp (List.mem_of_find?_eq_some hfind)
    have hlt : i < 86 := by simpa using hi
    rw [Option.getD_some]
    omega

/-- A decimal without its trailing zero. -/
theorem trim_bounds {d : ℕ} {k : ℤ} {p : ℕ × ℤ}
    (h : (if d % 10 = 0 then (d / 10, k + 1) else (d, k)) = p) :
    p.1 ≤ d ∧ k ≤ p.2 ∧ p.2 ≤ k + 1 := by
  split at h <;> subst h
  · exact ⟨Nat.div_le_self _ _, by dsimp only; omega, le_rfl⟩
  · exact ⟨le_rfl, le_rfl, by dsimp only; omega⟩

/-- The shortest decimal, as a function. (An equation between values makes the kernel evaluate
`shortestFrom`.) -/
theorem shortest_eq : shortest = fun x =>
    match shortestFrom x (decimalExponent (units x.magnitude)) 9 0 with
    | (d, k) => if d % 10 = 0 then (d / 10, k + 1) else (d, k) := by
  delta shortest
  rfl

/-- The shortest decimal of a finite value has few digits. -/
theorem shortest_bounds {x : Binary32} (hx : x.isFinite) {p : ℕ × ℤ} (hp : shortest x = p) :
    (Nat.toDigits 10 p.1).length ≤ 140 ∧ -55 ≤ p.2 ∧ p.2 ≤ 40 := by
  have hunits := units_lt (m := x.magnitude) (by simpa [isFinite] using hx)
  obtain ⟨hlow, hhigh⟩ := decimalExponent_bounds (units x.magnitude)
  obtain ⟨⟨d, k⟩, hr⟩ : ∃ r, shortestFrom x (decimalExponent (units x.magnitude)) 9 0 = r :=
    ⟨_, rfl⟩
  rw [shortest_eq] at hp
  beta_reduce at hp
  rw [hr] at hp
  dsimp only at hp
  obtain ⟨hd', hk', hk''⟩ := trim_bounds hp
  rw [shortestFrom_eq] at hr
  obtain ⟨m, hm, hk, hd⟩ := digitsFrom_bounds hr
  generalize decimalExponent (units x.magnitude) = e at hlow hhigh hk hd
  have hpow : 10 ^ (m - e).toNat ≤ 10 ^ 55 := Nat.pow_le_pow_right (by decide) (by omega)
  have hdigits : p.1 < 10 ^ 140 :=
    calc p.1 ≤ d := hd'
      _ ≤ units x.magnitude * 10 ^ (m - e).toNat + 1 := hd
      _ ≤ 2 ^ 277 * 10 ^ 55 + 1 := Nat.add_le_add_right (Nat.mul_le_mul hunits.le hpow) 1
      _ < 10 ^ 140 := by decide +kernel
  refine ⟨(Nat.length_toDigits_le_iff (by decide) (by decide)).mpr hdigits, ?_, ?_⟩
  all_goals
    clear hd hpow hdigits hunits hd'
    omega

/-- **The debug text of a value is short.** -/
theorem length_debug_le (x : Binary32) : x.debug.length ≤ 200 := by
  have hsign : (if x.isNeg then "-" else "").length ≤ 1 := by split <;> decide
  obtain ⟨⟨d, k⟩, hp⟩ : ∃ p, shortest x = p := ⟨_, rfl⟩
  unfold debug
  rw [hp]
  generalize (if x.isNeg then "-" else "") = sign at hsign ⊢
  dsimp only
  split
  · decide
  split
  · rw [String.length_append, show "inf".length = 3 by decide]
    omega
  split
  · rw [String.length_append, show "0.0".length = 3 by decide]
    omega
  next hfinite _ =>
  obtain ⟨hdigits, hlow, hhigh⟩ := shortest_bounds (by simpa using hfinite) hp
  dsimp only at hdigits hlow hhigh
  generalize Nat.toDigits 10 d = ds at hdigits ⊢
  rw [String.length_append, String.length_ofList]
  -- The exponent has three digits at most.
  have hexp : (Json.intChars ((ds.length : ℤ) + k - 1)).length ≤ 4 := by
    have hthree := (Nat.length_toDigits_le_iff (b := 10) (by decide) (by decide : 0 < 3)).mpr
      (show ((ds.length : ℤ) + k - 1).natAbs < 10 ^ 3 by omega)
    rw [Json.intChars, List.length_append]
    split <;> simp only [List.length_cons, List.length_nil] <;> omega
  split
  · have hpoint : (if ds.length = 1 then [] else '.' :: ds.drop 1).length ≤ ds.length + 1 := by
      split
      · exact Nat.zero_le _
      · rw [List.length_cons, List.length_drop]
        omega
    rw [List.length_append, List.length_append, List.length_take, List.length_cons]
    omega
  split
  · rw [List.length_cons, List.length_cons, List.length_append, List.length_replicate]
    omega
  split
  · rw [List.length_append, List.length_append, List.length_replicate, List.length_cons,
      List.length_cons, List.length_nil]
    omega
  · rw [List.length_append, List.length_cons, List.length_take, List.length_drop]
    omega

/-- The exact expansion of a finite value has few characters. -/
theorem length_chars_toNumber_le {x : Binary32} (hx : x.isFinite) :
    x.toNumber.chars.length ≤ 200 := by
  have hexpand : ∀ D k r, (expand D k r).length ≤ k := by
    intro D k
    induction k with
    | zero => exact fun r => Nat.le_refl 0
    | succ k ih =>
      intro r
      rw [expand]
      split
      · exact Nat.zero_le _
      · exact Nat.succ_le_succ (ih _)
  have hunits := units_lt (m := x.magnitude) (by simpa [isFinite] using hx)
  have hone : units x.magnitude / unitsPerOne < 10 ^ 39 := by
    rw [Nat.div_lt_iff_lt_mul (show 0 < unitsPerOne from Nat.two_pow_pos 149)]
    exact hunits.trans (by decide +kernel)
  have hint := (Nat.length_toDigits_le_iff (b := 10) (by decide) (by decide)).mpr hone
  have hfrac := hexpand unitsPerOne 149 (units x.magnitude % unitsPerOne)
  unfold toNumber
  dsimp only
  generalize expand unitsPerOne 149 (units x.magnitude % unitsPerOne) = ds at hfrac ⊢
  generalize units x.magnitude / unitsPerOne = i at hint ⊢
  have hsign : (if x.isNeg then ['-'] else []).length ≤ 1 := by split <;> decide
  have hdigits : (if ds = [] then [Json.digitOfNat 0] else ds).length ≤ 149 := by
    split
    · decide
    · exact hfrac
  generalize (if ds = [] then [Json.digitOfNat 0] else ds) = f at hdigits ⊢
  have hpoint : (if f = [] then [] else '.' :: f.map Json.digitChar).length ≤ 150 := by
    split
    · exact Nat.zero_le _
    · rw [List.length_cons, List.length_map]
      omega
  simp only [Json.Number.chars, List.length_append, List.length_nil]
  omega

end Binary32
