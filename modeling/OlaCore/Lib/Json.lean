import Mathlib.Data.List.TakeWhile
import OlaCore.Lib.Bytes

set_option relaxedAutoImplicit false
set_option autoImplicit false

/-!
# JSON values and their text

JSON values, a compact printer and a parser for the RFC 8259 grammar, both on lists of
characters. Objects keep their members in order and may repeat a name, so that a consumer can
refuse duplicates itself. Numbers keep their decimal form: the parser never rounds.

The printer escapes the quotation mark, the backslash and the control characters and nothing
else, so its output has no line break.

## Main definitions

* `Json`, `Json.Number` — values and numbers.
* `Json.get` — a member of an object.
* `Json.print`, `Json.compact` — the compact text.
* `Json.parse` — the parser: whitespace, one value, whitespace, end of input.

## Main results

* `Json.parse_compact` — the parser reads every printed value back.
* `Json.ge_32_of_mem_print` — no control character is printed.
* `Json.parse_blank` — blank text is not JSON.
-/

/-- A JSON number: sign, integer part, fraction digits (none without a decimal point) and
exponent. -/
structure Json.Number where
  neg : Bool
  int : ℕ
  frac : List (Fin 10)
  exp : Option ℤ
  deriving DecidableEq

/-- JSON values. -/
inductive Json where
  | null
  | bool (b : Bool)
  | num (n : Json.Number)
  | str (s : String)
  | arr (vs : List Json)
  | obj (ms : List (String × Json))

namespace Json

/-- A member of an object. Of several members with one name the last one counts. -/
def get (j : Json) (key : String) : Option Json :=
  match j with
  | obj ms => ms.reverse.lookup key
  | _ => none

/-! ## Printing -/

/-- The digit character of a decimal digit. -/
def digitChar (d : Fin 10) : Char := Nat.digitChar d

/-- The last decimal digit of a number. -/
def digitOfNat (n : ℕ) : Fin 10 := Fin.ofNat 10 n

@[simp] theorem val_digitOfNat (n : ℕ) : (digitOfNat n : ℕ) = n % 10 := rfl

/-- The decimal characters of an integer. -/
def intChars (z : ℤ) : List Char :=
  (if z < 0 then ['-'] else []) ++ Nat.toDigits 10 z.natAbs

/-- The characters of a number. -/
def Number.chars (n : Number) : List Char :=
  (if n.neg then ['-'] else []) ++ (Nat.toDigits 10 n.int ++
    ((if n.frac = [] then [] else '.' :: n.frac.map digitChar) ++
      (match n.exp with
        | none => []
        | some e => 'e' :: intChars e)))

/-- One character of a string, escaped where the grammar demands it. -/
def escapeChar (c : Char) : List Char :=
  if c = '"' then ['\\', '"']
  else if c = '\\' then ['\\', '\\']
  else if c = '\x08' then ['\\', 'b']
  else if c = '\x0c' then ['\\', 'f']
  else if c = '\n' then ['\\', 'n']
  else if c = '\r' then ['\\', 'r']
  else if c = '\t' then ['\\', 't']
  else if c.toNat < 32 then
    ['\\', 'u', '0', '0', Nat.digitChar (c.toNat / 16), Nat.digitChar (c.toNat % 16)]
  else [c]

/-- A quoted string. -/
def quote (s : String) : List Char := '"' :: (s.toList.flatMap escapeChar ++ ['"'])

mutual

/-- The compact text of a value. -/
def print : Json → List Char
  | null => ['n', 'u', 'l', 'l']
  | bool true => ['t', 'r', 'u', 'e']
  | bool false => ['f', 'a', 'l', 's', 'e']
  | num n => n.chars
  | str s => quote s
  | arr [] => ['[', ']']
  | arr (v :: vs) => '[' :: (print v ++ printItems vs)
  | obj [] => ['\x7b', '\x7d']
  | obj (m :: ms) => '\x7b' :: (printMember m ++ printMembers ms)

/-- The further items of an array, with the closing bracket. -/
def printItems : List Json → List Char
  | [] => [']']
  | v :: vs => ',' :: (print v ++ printItems vs)

/-- One member of an object. -/
def printMember : String × Json → List Char
  | (k, v) => quote k ++ ':' :: print v

/-- The further members of an object, with the closing brace. -/
def printMembers : List (String × Json) → List Char
  | [] => ['\x7d']
  | m :: ms => ',' :: (printMember m ++ printMembers ms)

end

/-- The compact text of a value, as a string. -/
def compact (j : Json) : String := String.ofList j.print

/-! ## Parsing -/

/-- JSON whitespace. -/
def isWs (c : Char) : Bool := c = ' ' || c = '\t' || c = '\n' || c = '\r'

/-- Skip whitespace. -/
def skipWs (cs : List Char) : List Char := cs.dropWhile isWs

/-- The value of a hexadecimal digit. -/
def hexVal (c : Char) : Option ℕ :=
  if c.isDigit then some (c.toNat - 48)
  else if 'a' ≤ c ∧ c ≤ 'f' then some (c.toNat - 87)
  else if 'A' ≤ c ∧ c ≤ 'F' then some (c.toNat - 55)
  else none

/-- Four hexadecimal digits. -/
def hex4 : List Char → Option (ℕ × List Char)
  | a :: b :: c :: d :: r => do
    let a ← hexVal a
    let b ← hexVal b
    let c ← hexVal c
    let d ← hexVal d
    some (((a * 16 + b) * 16 + c) * 16 + d, r)
  | _ => none

/-- The body of a `\u` escape. A high surrogate needs its low surrogate right after it. -/
def unicodeEscape (cs : List Char) : Option (Char × List Char) := do
  let (u, r) ← hex4 cs
  if 0xd800 ≤ u ∧ u < 0xdc00 then
    match r with
    | '\\' :: 'u' :: r => do
      let (l, r) ← hex4 r
      if 0xdc00 ≤ l ∧ l < 0xe000 then
        some (Char.ofNat (0x10000 + (u - 0xd800) * 0x400 + (l - 0xdc00)), r)
      else none
    | _ => none
  else if 0xdc00 ≤ u ∧ u < 0xe000 then none
  else some (Char.ofNat u, r)

/-- The body of an escape, after the backslash. -/
def escape : List Char → Option (Char × List Char)
  | [] => none
  | c :: r =>
    if c = '"' ∨ c = '\\' ∨ c = '/' then some (c, r)
    else if c = 'b' then some ('\x08', r)
    else if c = 'f' then some ('\x0c', r)
    else if c = 'n' then some ('\n', r)
    else if c = 'r' then some ('\r', r)
    else if c = 't' then some ('\t', r)
    else if c = 'u' then unicodeEscape r
    else none

/-- The rest of a string, after the opening quotation mark. -/
def stringBody : ℕ → List Char → Option (List Char × List Char)
  | 0, _ => none
  | _ + 1, [] => none
  | n + 1, c :: r =>
    if c = '"' then some ([], r)
    else if c = '\\' then do
      let (d, r) ← escape r
      let (s, r) ← stringBody n r
      some (d :: s, r)
    else if c.toNat < 32 then none
    else do
      let (s, r) ← stringBody n r
      some (c :: s, r)

/-- A quoted string. -/
def string : List Char → Option (String × List Char)
  | '"' :: r => do
    let (s, r) ← stringBody (r.length + 1) r
    some (String.ofList s, r)
  | _ => none

/-- A maximal run of at least one digit. -/
def digits (cs : List Char) : Option (List Char × List Char) :=
  match cs.takeWhile Char.isDigit with
  | [] => none
  | ds => some (ds, cs.dropWhile Char.isDigit)

/-- The integer part of a number: digits without a leading zero, that is, digits that are the
decimal form of their value. -/
def natural (cs : List Char) : Option (ℕ × List Char) := do
  let (ds, r) ← digits cs
  let n := Nat.ofDigitChars 10 ds 0
  if Nat.toDigits 10 n = ds then some (n, r) else none

/-- The fraction of a number; no digits when there is no decimal point. -/
def fraction : List Char → Option (List (Fin 10) × List Char)
  | '.' :: r => do
    let (ds, r) ← digits r
    some (ds.map fun c => digitOfNat (c.toNat - 48), r)
  | cs => some ([], cs)

/-- The exponent of a number, if it has one. -/
def exponent : List Char → Option (Option ℤ × List Char)
  | c :: r =>
    if c = 'e' ∨ c = 'E' then
      match r with
      | '-' :: r => do
        let (ds, r) ← digits r
        some (some (-(Nat.ofDigitChars 10 ds 0 : ℤ)), r)
      | '+' :: r => do
        let (ds, r) ← digits r
        some (some (Nat.ofDigitChars 10 ds 0 : ℤ), r)
      | r => do
        let (ds, r) ← digits r
        some (some (Nat.ofDigitChars 10 ds 0 : ℤ), r)
    else some (none, c :: r)
  | [] => some (none, [])

/-- A number without its sign. -/
def unsigned (neg : Bool) (cs : List Char) : Option (Number × List Char) := do
  let (i, r) ← natural cs
  let (f, r) ← fraction r
  let (e, r) ← exponent r
  some (⟨neg, i, f, e⟩, r)

/-- A number. -/
def number : List Char → Option (Number × List Char)
  | '-' :: r => unsigned true r
  | cs => unsigned false cs

/-- A fixed word. -/
def keyword (w cs : List Char) : Option (List Char) :=
  if w.isPrefixOf cs then some (cs.drop w.length) else none

mutual

/-- A value, after optional whitespace. The fuel bounds the nesting. -/
def value : ℕ → List Char → Option (Json × List Char)
  | 0, _ => none
  | n + 1, cs =>
    match skipWs cs with
    | [] => none
    | c :: r =>
      if c = '"' then (string (c :: r)).map fun p => (str p.1, p.2)
      else if c = '[' then
        match skipWs r with
        | ']' :: r => some (arr [], r)
        | r => do
          let (v, r) ← value n r
          let (vs, r) ← items n r
          some (arr (v :: vs), r)
      else if c = '\x7b' then
        match skipWs r with
        | '\x7d' :: r => some (obj [], r)
        | r => do
          let (m, r) ← member n r
          let (ms, r) ← members n r
          some (obj (m :: ms), r)
      else if c = 'n' then (keyword ['u', 'l', 'l'] r).map fun r => (null, r)
      else if c = 't' then (keyword ['r', 'u', 'e'] r).map fun r => (bool true, r)
      else if c = 'f' then (keyword ['a', 'l', 's', 'e'] r).map fun r => (bool false, r)
      else (number (c :: r)).map fun p => (num p.1, p.2)

/-- The further items of an array, up to the closing bracket. -/
def items : ℕ → List Char → Option (List Json × List Char)
  | 0, _ => none
  | n + 1, cs =>
    match skipWs cs with
    | ']' :: r => some ([], r)
    | ',' :: r => do
      let (v, r) ← value n r
      let (vs, r) ← items n r
      some (v :: vs, r)
    | _ => none

/-- One member of an object. -/
def member : ℕ → List Char → Option ((String × Json) × List Char)
  | 0, _ => none
  | n + 1, cs => do
    let (k, r) ← string (skipWs cs)
    match skipWs r with
    | ':' :: r => do
      let (v, r) ← value n r
      some ((k, v), r)
    | _ => none

/-- The further members of an object, up to the closing brace. -/
def members : ℕ → List Char → Option (List (String × Json) × List Char)
  | 0, _ => none
  | n + 1, cs =>
    match skipWs cs with
    | '\x7d' :: r => some ([], r)
    | ',' :: r => do
      let (m, r) ← member n r
      let (ms, r) ← members n r
      some (m :: ms, r)
    | _ => none

end

/-- A JSON text: one value, with nothing but whitespace around it. -/
def parse (s : String) : Option Json :=
  match value (s.toList.length + 1) s.toList with
  | some (j, r) => if skipWs r = [] then some j else none
  | none => none

/-! ## Reading printed strings -/

/-- Nothing is skipped before a character that is not whitespace. -/
theorem skipWs_cons {c : Char} {r : List Char} (hc : isWs c = false) :
    skipWs (c :: r) = c :: r := by
  simp [skipWs, hc]

/-- A hexadecimal digit reads as its value. -/
theorem hexVal_digitChar {n : ℕ} (hn : n < 16) : hexVal (Nat.digitChar n) = some n := by
  have h : ∀ m < 16, hexVal (Nat.digitChar m) = some m := by decide
  exact h n hn

/-- The escape of a control character reads as it. -/
theorem unicodeEscape_control {k : ℕ} (hk : k < 32) (r : List Char) :
    unicodeEscape ('0' :: '0' :: Nat.digitChar (k / 16) :: Nat.digitChar (k % 16) :: r) =
      some (Char.ofNat k, r) := by
  have h0 : hexVal '0' = some 0 := by decide
  have h1 : hexVal (Nat.digitChar (k / 16)) = some (k / 16) := hexVal_digitChar (by omega)
  have h2 : hexVal (Nat.digitChar (k % 16)) = some (k % 16) := hexVal_digitChar (by omega)
  have hsum : k / 16 * 16 + k % 16 = k := by omega
  simp only [unicodeEscape, hex4, h0, h1, h2, Option.bind_eq_bind, Option.bind_some,
    Nat.zero_mul, Nat.zero_add, hsum]
  rw [if_neg (by omega), if_neg (by omega)]

/-- One escaped character is read back as that character. -/
theorem stringBody_escapeChar (c : Char) (n : ℕ) (r : List Char) :
    stringBody (n + 1) (escapeChar c ++ r) =
      (stringBody n r).bind fun p => some (c :: p.1, p.2) := by
  unfold escapeChar
  split_ifs with h1 h2 h3 h4 h5 h6 h7 h8
  all_goals try subst c
  all_goals try
    simp only [List.cons_append, List.nil_append, stringBody, escape, Option.bind_eq_bind]
    rfl
  · -- the remaining control characters, through the hexadecimal escape
    have hu : escape ('u' :: '0' :: '0' :: Nat.digitChar (c.toNat / 16) ::
        Nat.digitChar (c.toNat % 16) :: r) = some (c, r) := by
      have := unicodeEscape_control h8 r
      rw [Char.ofNat_toNat] at this
      simpa [escape] using this
    simp only [List.cons_append, List.nil_append, stringBody]
    rw [if_neg (by decide), if_pos trivial, hu]
    rfl
  · simp only [List.cons_append, List.nil_append, stringBody]
    rw [if_neg h1, if_neg h2, if_neg h8]
    rfl

/-- The escaped characters of a string, up to the closing quotation mark, are read back. -/
theorem stringBody_flatMap (cs r : List Char) :
    ∀ n, cs.length + 1 ≤ n →
      stringBody n (cs.flatMap escapeChar ++ '"' :: r) = some (cs, r) := by
  induction cs with
  | nil =>
    intro n hn
    obtain ⟨m, rfl⟩ : ∃ m, n = m + 1 := ⟨n - 1, by simp at hn; omega⟩
    simp [stringBody]
  | cons c cs ih =>
    intro n hn
    obtain ⟨m, rfl⟩ : ∃ m, n = m + 1 := ⟨n - 1, by simp at hn; omega⟩
    rw [List.flatMap_cons, List.append_assoc, stringBody_escapeChar,
      ih m (by simp at hn; omega)]
    rfl

/-- Escaping never shortens a string. -/
theorem length_le_flatMap_escapeChar (cs : List Char) :
    cs.length ≤ (cs.flatMap escapeChar).length := by
  induction cs with
  | nil => simp
  | cons c cs ih =>
    have hc : 1 ≤ (escapeChar c).length := by
      unfold escapeChar
      split_ifs <;> simp
    simp only [List.flatMap_cons, List.length_append, List.length_cons]
    omega

/-- **A quoted string is read back.** -/
theorem string_quote (s : String) (r : List Char) : string (quote s ++ r) = some (s, r) := by
  have hlen := length_le_flatMap_escapeChar s.toList
  have hbody := stringBody_flatMap s.toList r
    ((s.toList.flatMap escapeChar ++ '"' :: r).length + 1)
    (by rw [List.length_append, List.length_cons]; omega)
  simp only [quote, List.cons_append, List.append_assoc, List.nil_append, string, hbody]
  simp

/-! ## Reading printed numbers -/

/-- What may follow a number: the end, or a character that cannot continue it. -/
def EndsNumber (r : List Char) : Prop :=
  ∀ c ∈ r.head?, c.isDigit = false ∧ c ≠ '.' ∧ c ≠ 'e' ∧ c ≠ 'E'

/-- What may follow a run of digits. -/
def EndsDigits (r : List Char) : Prop := ∀ c ∈ r.head?, c.isDigit = false

/-- A run of digits is read whole. -/
theorem digits_append {ds r : List Char} (hne : ds ≠ []) (hd : ∀ c ∈ ds, c.isDigit)
    (hr : EndsDigits r) : digits (ds ++ r) = some (ds, r) := by
  have ht : (ds ++ r).takeWhile Char.isDigit = ds := by
    rw [List.takeWhile_append_of_pos hd]
    cases r with
    | nil => simp
    | cons c r => simp [hr c (by simp)]
  have hdr : (ds ++ r).dropWhile Char.isDigit = r := by
    rw [List.dropWhile_append_of_pos hd]
    cases r with
    | nil => rfl
    | cons c r => simp [hr c (by simp)]
  unfold digits
  rw [ht, hdr]
  cases ds with
  | nil => exact absurd rfl hne
  | cons c ds => rfl

/-- Decimal forms are digits. -/
theorem digits_toDigits (n : ℕ) {r : List Char} (hr : EndsDigits r) :
    digits (Nat.toDigits 10 n ++ r) = some (Nat.toDigits 10 n, r) :=
  digits_append Nat.toDigits_ne_nil
    (fun _ hc => Nat.isDigit_of_mem_toDigits (by decide) (by decide) hc) hr

/-- A decimal form is read as its number. -/
theorem natural_toDigits (n : ℕ) {r : List Char} (hr : EndsDigits r) :
    natural (Nat.toDigits 10 n ++ r) = some (n, r) := by
  simp [natural, digits_toDigits n hr, Nat.ofDigitChars_ten_toDigits]

/-- A printed digit reads as itself. -/
theorem digitOfNat_digitChar (d : Fin 10) : digitOfNat ((digitChar d).toNat - 48) = d := by
  revert d
  decide

/-- A printed digit is a digit. -/
theorem isDigit_digitChar (d : Fin 10) : (digitChar d).isDigit := by
  revert d
  decide

/-- The fraction part of a number is read back. -/
theorem fraction_print (f : List (Fin 10)) {r : List Char} (hr : EndsDigits r)
    (hdot : r.head? ≠ some '.') :
    fraction ((if f = [] then [] else '.' :: f.map digitChar) ++ r) = some (f, r) := by
  by_cases hf : f = []
  · subst hf
    cases r with
    | nil => rfl
    | cons c r =>
      have hc : c ≠ '.' := by simpa using hdot
      simp only [↓reduceIte, List.nil_append]
      unfold fraction
      split
      · rename_i heq
        exact absurd (List.cons.inj heq).1 hc
      · rfl
  · rw [if_neg hf]
    have hds : digits (f.map digitChar ++ r) = some (f.map digitChar, r) := by
      refine digits_append (by simpa using hf) (fun c hc => ?_) hr
      obtain ⟨d, -, rfl⟩ := List.mem_map.mp hc
      exact isDigit_digitChar d
    simp only [List.cons_append, fraction, hds, Option.bind_eq_bind, Option.bind_some,
      List.map_map]
    have hid : (fun c : Char => digitOfNat (c.toNat - 48)) ∘ digitChar = id :=
      funext digitOfNat_digitChar
    rw [hid, List.map_id]

/-- The exponent of a number is read back. -/
theorem exponent_print (e : Option ℤ) {r : List Char} (hr : EndsNumber r) :
    exponent ((match e with
      | none => []
      | some e => 'e' :: intChars e) ++ r) = some (e, r) := by
  have hd : EndsDigits r := fun c hc => (hr c hc).1
  cases e with
  | none =>
    cases r with
    | nil => rfl
    | cons c r =>
      obtain ⟨-, -, h1, h2⟩ := hr c (by simp)
      simp [exponent, h1, h2]
  | some z =>
    simp only [List.cons_append, List.append_assoc, exponent, intChars]
    rw [if_pos (Or.inl trivial)]
    by_cases hz : z < 0
    · rw [if_pos hz]
      simp only [List.cons_append, List.nil_append, digits_toDigits _ hd, Option.bind_eq_bind,
        Option.bind_some, Nat.ofDigitChars_ten_toDigits]
      rw [show -(z.natAbs : ℤ) = z by omega]
    · rw [if_neg hz, List.nil_append]
      have hval : (z.natAbs : ℤ) = z := by omega
      -- the first character is a digit, so neither sign branch is taken
      obtain ⟨c, ds, hcd⟩ : ∃ c ds, Nat.toDigits 10 z.natAbs = c :: ds :=
        List.exists_cons_of_ne_nil Nat.toDigits_ne_nil
      have hcdig : c.isDigit :=
        Nat.isDigit_of_mem_toDigits (b := 10) (n := z.natAbs) (by decide) (by decide)
          (by rw [hcd]; exact List.mem_cons_self)
      have hread := digits_toDigits z.natAbs hd
      rw [hcd, List.cons_append] at hread ⊢
      split
      · rename_i heq
        rw [(List.cons.inj heq).1] at hcdig
        exact absurd hcdig (by decide)
      · rename_i heq
        rw [(List.cons.inj heq).1] at hcdig
        exact absurd hcdig (by decide)
      · simp only [hread, Option.bind_eq_bind, Option.bind_some]
        rw [← hcd, Nat.ofDigitChars_ten_toDigits, hval]

/-- The digits and all that follows them, without the sign. -/
theorem unsigned_print (n : Number) {r : List Char} (hr : EndsNumber r) :
    unsigned n.neg (Nat.toDigits 10 n.int ++
      ((if n.frac = [] then [] else '.' :: n.frac.map digitChar) ++
        ((match n.exp with
          | none => []
          | some e => 'e' :: intChars e) ++ r))) = some (n, r) := by
  -- the exponent part, if any, starts with a character that ends digits
  have hexp : EndsDigits ((match n.exp with
      | none => []
      | some e => 'e' :: intChars e) ++ r) := by
    cases n.exp with
    | none => exact fun c hc => (hr c hc).1
    | some e =>
      intro c hc
      obtain rfl : 'e' = c := by simpa using hc
      rfl
  have hdot : ((match n.exp with
      | none => []
      | some e => 'e' :: intChars e) ++ r).head? ≠ some '.' := by
    cases n.exp with
    | none => exact fun h => (hr '.' h).2.1 rfl
    | some e => simp
  have hfrac : EndsDigits ((if n.frac = [] then [] else '.' :: n.frac.map digitChar) ++
      ((match n.exp with
        | none => []
        | some e => 'e' :: intChars e) ++ r)) := by
    split
    · simpa using hexp
    · intro c hc
      obtain rfl : '.' = c := by simpa using hc
      rfl
  simp only [unsigned, natural_toDigits _ hfrac, fraction_print _ hexp hdot,
    exponent_print _ hr, Option.bind_eq_bind, Option.bind_some]

/-- A number starts with a minus sign or a digit. -/
theorem number_head {c : Char} {cs : List Char} {p : Number × List Char}
    (h : number (c :: cs) = some p) :
    c ≠ '"' ∧ c ≠ '[' ∧ c ≠ '\x7b' ∧ c ≠ 'n' ∧ c ≠ 't' ∧ c ≠ 'f' := by
  have hc : c = '-' ∨ c.isDigit := by
    unfold number at h
    split at h
    · rename_i heq
      exact Or.inl (List.cons.inj heq).1
    · by_contra hn
      rw [not_or] at hn
      have hd : digits (c :: cs) = none := by simp [digits, hn.2]
      simp [unsigned, natural, hd] at h
  refine ⟨?_, ?_, ?_, ?_, ?_, ?_⟩ <;> rintro rfl <;> exact absurd hc (by decide)

/-- **A printed number is read back.** -/
theorem number_chars (n : Number) {r : List Char} (hr : EndsNumber r) :
    number (n.chars ++ r) = some (n, r) := by
  have h := unsigned_print n hr
  obtain ⟨neg, i, f, e⟩ := n
  cases neg with
  | true =>
    simp only [Number.chars, ↓reduceIte, List.cons_append, List.nil_append, List.append_assoc,
      number]
    exact h
  | false =>
    simp only [Number.chars, Bool.false_eq_true, ↓reduceIte, List.nil_append,
      List.append_assoc]
    obtain ⟨c, ds, hcd⟩ : ∃ c ds, Nat.toDigits 10 i = c :: ds :=
      List.exists_cons_of_ne_nil Nat.toDigits_ne_nil
    have hcdig : c.isDigit :=
      Nat.isDigit_of_mem_toDigits (b := 10) (n := i) (by decide) (by decide)
        (by rw [hcd]; exact List.mem_cons_self)
    unfold number
    split
    · rename_i heq
      rw [hcd] at heq
      rw [(List.cons.inj heq).1] at hcdig
      exact absurd hcdig (by decide)
    · exact h

/-! ## Reading printed values -/

/-- The first character of a printed value is none of the characters that the parser treats
specially before looking for a value. -/
theorem print_head (j : Json) : ∃ c cs, j.print = c :: cs ∧ isWs c = false ∧ c ≠ ']' := by
  have hdigit : ∀ c : Char, c.isDigit → isWs c = false ∧ c ≠ ']' := by
    intro c hc
    refine ⟨?_, by rintro rfl; exact absurd hc (by decide)⟩
    rw [Bool.eq_false_iff]
    intro hw
    simp only [isWs, Bool.or_eq_true, decide_eq_true_eq] at hw
    rcases hw with ((rfl | rfl) | rfl) | rfl <;> exact absurd hc (by decide)
  cases j with
  | null => exact ⟨_, _, rfl, rfl, by decide⟩
  | bool b => cases b <;> exact ⟨_, _, rfl, rfl, by decide⟩
  | num n =>
    simp only [print, Number.chars]
    cases n.neg with
    | true => exact ⟨'-', _, rfl, rfl, by decide⟩
    | false =>
      obtain ⟨c, ds, hcd⟩ : ∃ c ds, Nat.toDigits 10 n.int = c :: ds :=
        List.exists_cons_of_ne_nil Nat.toDigits_ne_nil
      have hcdig : c.isDigit :=
        Nat.isDigit_of_mem_toDigits (b := 10) (n := n.int) (by decide) (by decide)
          (by rw [hcd]; exact List.mem_cons_self)
      rw [hcd]
      exact ⟨c, _, rfl, hdigit c hcdig⟩
  | str s => exact ⟨'"', _, rfl, rfl, by decide⟩
  | arr vs => cases vs <;> exact ⟨'[', _, by rw [print], rfl, by decide⟩
  | obj ms => cases ms <;> exact ⟨'\x7b', _, by rw [print], rfl, by decide⟩

/-- A printed value is not empty. -/
theorem print_length_pos (j : Json) : 0 < j.print.length := by
  obtain ⟨c, cs, h, -⟩ := print_head j
  simp [h]

/-- A comma or a closing bracket ends a number. -/
theorem endsNumber_printItems (vs : List Json) (r : List Char) :
    EndsNumber (printItems vs ++ r) := by
  cases vs <;> intro c hc <;> simp [printItems] at hc <;> subst hc <;> decide

/-- A comma or a closing brace ends a number. -/
theorem endsNumber_printMembers (ms : List (String × Json)) (r : List Char) :
    EndsNumber (printMembers ms ++ r) := by
  cases ms <;> intro c hc <;> simp [printMembers] at hc <;> subst hc <;> decide

mutual

/-- A printed value is read back, whatever follows it.

**Proof sketch.** Induction on the value, together with the items of an array and the members
of an object. The printed length bounds the fuel, and every recursive call is made after at
least one character was consumed. -/
theorem value_print (j : Json) (n : ℕ) (r : List Char) (hn : j.print.length ≤ n)
    (hr : EndsNumber r) : value n (j.print ++ r) = some (j, r) := by
  obtain ⟨m, rfl⟩ : ∃ m, n = m + 1 := ⟨n - 1, by have := print_length_pos j; omega⟩
  match j, hn with
  | null, _ => simp [print, value, skipWs, isWs, keyword]
  | bool true, _ => simp [print, value, skipWs, isWs, keyword]
  | bool false, _ => simp [print, value, skipWs, isWs, keyword]
  | str s, _ =>
    have h := string_quote s r
    simp only [quote, List.cons_append, List.append_assoc, List.nil_append] at h
    simp [print, value, quote, skipWs_cons (show isWs '"' = false from rfl), h]
  | num q, _ =>
    obtain ⟨c, cs, hcs, hws, -⟩ := print_head (num q)
    have hread := number_chars q hr
    rw [print] at hcs
    rw [hcs, List.cons_append] at hread
    have hnot : c ≠ '"' ∧ c ≠ '[' ∧ c ≠ '\x7b' ∧ c ≠ 'n' ∧ c ≠ 't' ∧ c ≠ 'f' :=
      number_head hread
    rw [print, hcs, List.cons_append, value, skipWs_cons hws]
    simp [hnot, hread]
  | arr [], _ => simp [print, value, skipWs, isWs]
  | arr (v :: vs), hn =>
    obtain ⟨c, cs, hcs, hws, hc⟩ := print_head v
    simp only [print, List.length_cons, List.length_append] at hn
    have hv := value_print v m (printItems vs ++ r) (by omega) (endsNumber_printItems vs r)
    have hvs := items_print vs m r (by omega)
    simp only [print, List.cons_append, List.append_assoc, value]
    rw [skipWs_cons (by decide), hcs, List.cons_append] at *
    simp only [Char.reduceEq, ↓reduceIte, skipWs_cons hws]
    split
    · rename_i heq
      exact absurd (List.cons.inj heq).1 hc
    · simp [hv, hvs]
  | obj [], _ => simp [print, value, skipWs, isWs]
  | obj (kv :: ms), hn =>
    simp only [print, List.length_cons, List.length_append] at hn
    have hm := member_print kv m (printMembers ms ++ r) (by omega)
      (endsNumber_printMembers ms r)
    have hms := members_print ms m r (by omega)
    obtain ⟨k, v⟩ := kv
    simp only [print, List.cons_append, List.append_assoc, value]
    rw [skipWs_cons (by decide)]
    simp only [printMember, quote, List.cons_append, List.append_assoc, List.nil_append] at hm ⊢
    simp only [Char.reduceEq, ↓reduceIte, skipWs_cons (show isWs '"' = false from rfl)]
    simp [hm, hms]

/-- The printed further items of an array are read back. -/
theorem items_print (vs : List Json) (n : ℕ) (r : List Char) (hn : (printItems vs).length ≤ n) :
    items n (printItems vs ++ r) = some (vs, r) := by
  match vs, hn with
  | [], hn =>
    obtain ⟨m, rfl⟩ : ∃ m, n = m + 1 := ⟨n - 1, by simp [printItems] at hn; omega⟩
    simp [printItems, items, skipWs, isWs]
  | v :: vs, hn =>
    simp only [printItems, List.length_cons, List.length_append] at hn
    obtain ⟨m, rfl⟩ : ∃ m, n = m + 1 := ⟨n - 1, by omega⟩
    have hv := value_print v m (printItems vs ++ r) (by omega) (endsNumber_printItems vs r)
    have hvs := items_print vs m r (by omega)
    simp only [printItems, List.cons_append, List.append_assoc, items]
    rw [skipWs_cons (by decide)]
    simp [hv, hvs]

/-- A printed member is read back. -/
theorem member_print (kv : String × Json) (n : ℕ) (r : List Char)
    (hn : (printMember kv).length ≤ n) (hr : EndsNumber r) :
    member n (printMember kv ++ r) = some (kv, r) := by
  match kv, hn with
  | (k, v), hn =>
    simp only [printMember, quote, List.length_cons, List.length_append] at hn
    obtain ⟨m, rfl⟩ : ∃ m, n = m + 1 := ⟨n - 1, by omega⟩
    have hv := value_print v m r (by omega) hr
    have hk := string_quote k (':' :: (v.print ++ r))
    simp only [quote, List.cons_append, List.append_assoc, List.nil_append] at hk
    simp only [printMember, quote, List.cons_append, List.append_assoc, List.nil_append, member,
      skipWs_cons (show isWs '"' = false from rfl), hk, Option.bind_eq_bind, Option.bind_some,
      skipWs_cons (show isWs ':' = false from rfl), hv]

/-- The printed further members of an object are read back. -/
theorem members_print (ms : List (String × Json)) (n : ℕ) (r : List Char)
    (hn : (printMembers ms).length ≤ n) : members n (printMembers ms ++ r) = some (ms, r) := by
  match ms, hn with
  | [], hn =>
    obtain ⟨m, rfl⟩ : ∃ m, n = m + 1 := ⟨n - 1, by simp [printMembers] at hn; omega⟩
    simp [printMembers, members, skipWs, isWs]
  | kv :: ms, hn =>
    simp only [printMembers, List.length_cons, List.length_append] at hn
    obtain ⟨m, rfl⟩ : ∃ m, n = m + 1 := ⟨n - 1, by omega⟩
    have hm := member_print kv m (printMembers ms ++ r) (by omega)
      (endsNumber_printMembers ms r)
    have hms := members_print ms m r (by omega)
    simp only [printMembers, List.cons_append, List.append_assoc, members]
    rw [skipWs_cons (by decide)]
    simp [hm, hms]

end

/-- **The parser reads every printed value back.** -/
theorem parse_compact (j : Json) : parse j.compact = some j := by
  have h := value_print j (j.print.length + 1) [] (by omega) (by simp [EndsNumber])
  rw [List.append_nil] at h
  simp [parse, compact, h, skipWs]

/-! ## No control characters, and blank text -/

/-- Escaped characters are printable. -/
theorem ge_32_of_mem_escapeChar {c d : Char} (hd : d ∈ escapeChar c) : 32 ≤ d.toNat := by
  have hhex : ∀ m < 16, 32 ≤ (Nat.digitChar m).toNat := by decide
  unfold escapeChar at hd
  split_ifs at hd with h1 h2 h3 h4 h5 h6 h7 h8
  all_goals simp only [List.mem_cons, List.not_mem_nil, or_false] at hd
  any_goals (rcases hd with rfl | rfl <;> decide)
  · have h16 := hhex (c.toNat / 16) (by omega)
    have h17 := hhex (c.toNat % 16) (by omega)
    rcases hd with rfl | rfl | rfl | rfl | rfl | rfl <;> first | decide | assumption
  · rw [hd]
    omega

/-- Quoted strings are printable. -/
theorem ge_32_of_mem_quote {s : String} {d : Char} (hd : d ∈ quote s) : 32 ≤ d.toNat := by
  simp only [quote, List.mem_cons, List.mem_append, List.mem_flatMap, List.not_mem_nil,
    or_false] at hd
  rcases hd with rfl | ⟨c, -, hc⟩ | rfl
  · decide
  · exact ge_32_of_mem_escapeChar hc
  · decide

/-- Digits are printable. -/
theorem ge_32_of_isDigit {d : Char} (hd : d.isDigit) : 32 ≤ d.toNat := by
  simp only [Char.isDigit, Bool.and_eq_true, decide_eq_true_eq] at hd
  have h : 48 ≤ d.val.toNat := hd.1
  change 32 ≤ d.val.toNat
  omega

/-- Decimal forms are printable. -/
theorem ge_32_of_mem_toDigits {n : ℕ} {d : Char} (hd : d ∈ Nat.toDigits 10 n) : 32 ≤ d.toNat :=
  ge_32_of_isDigit (Nat.isDigit_of_mem_toDigits (by decide) (by decide) hd)

/-- Numbers are printable. -/
theorem ge_32_of_mem_chars {n : Number} {d : Char} (hd : d ∈ n.chars) : 32 ≤ d.toNat := by
  simp only [Number.chars, List.mem_append] at hd
  rcases hd with h | h | h | h
  · split at h <;> simp at h
    subst h
    decide
  · exact ge_32_of_mem_toDigits h
  · split at h
    · cases h
    · rcases List.mem_cons.mp h with rfl | h
      · decide
      · obtain ⟨e, -, rfl⟩ := List.mem_map.mp h
        exact ge_32_of_isDigit (isDigit_digitChar e)
  · split at h
    · cases h
    · rcases List.mem_cons.mp h with rfl | h
      · decide
      · rcases List.mem_append.mp h with h | h
        · split at h <;> simp at h
          subst h
          decide
        · exact ge_32_of_mem_toDigits h

/-- Characters of a text of printable characters. -/
theorem ge_32_of_all {cs : List Char} (h : cs.all (fun c => 32 ≤ c.toNat) = true) {d : Char}
    (hd : d ∈ cs) : 32 ≤ d.toNat := by
  simpa using List.all_eq_true.mp h d hd

mutual

/-- **Printed values have no control character**, hence no line break. -/
theorem ge_32_of_mem_print (j : Json) {d : Char} (hd : d ∈ j.print) : 32 ≤ d.toNat := by
  match j with
  | null => exact ge_32_of_all (by decide) hd
  | bool true => exact ge_32_of_all (by decide) hd
  | bool false => exact ge_32_of_all (by decide) hd
  | num n => exact ge_32_of_mem_chars hd
  | str s => exact ge_32_of_mem_quote hd
  | arr [] => exact ge_32_of_all (by decide) hd
  | arr (v :: vs) =>
    rw [print, List.mem_cons, List.mem_append] at hd
    rcases hd with rfl | hd | hd
    · decide
    · exact ge_32_of_mem_print v hd
    · exact ge_32_of_mem_printItems vs hd
  | obj [] => exact ge_32_of_all (by decide) hd
  | obj (m :: ms) =>
    rw [print, List.mem_cons, List.mem_append] at hd
    rcases hd with rfl | hd | hd
    · decide
    · exact ge_32_of_mem_printMember m hd
    · exact ge_32_of_mem_printMembers ms hd

/-- Printed items are printable. -/
theorem ge_32_of_mem_printItems (vs : List Json) {d : Char} (hd : d ∈ printItems vs) :
    32 ≤ d.toNat := by
  match vs with
  | [] => exact ge_32_of_all (by decide) hd
  | v :: vs =>
    rw [printItems, List.mem_cons, List.mem_append] at hd
    rcases hd with rfl | hd | hd
    · decide
    · exact ge_32_of_mem_print v hd
    · exact ge_32_of_mem_printItems vs hd

/-- Printed members are printable. -/
theorem ge_32_of_mem_printMember (m : String × Json) {d : Char} (hd : d ∈ printMember m) :
    32 ≤ d.toNat := by
  match m with
  | (k, v) =>
    rw [printMember, List.mem_append, List.mem_cons] at hd
    rcases hd with hd | rfl | hd
    · exact ge_32_of_mem_quote hd
    · decide
    · exact ge_32_of_mem_print v hd

/-- Printed further members are printable. -/
theorem ge_32_of_mem_printMembers (ms : List (String × Json)) {d : Char}
    (hd : d ∈ printMembers ms) : 32 ≤ d.toNat := by
  match ms with
  | [] => exact ge_32_of_all (by decide) hd
  | m :: ms =>
    rw [printMembers, List.mem_cons, List.mem_append] at hd
    rcases hd with rfl | hd | hd
    · decide
    · exact ge_32_of_mem_printMember m hd
    · exact ge_32_of_mem_printMembers ms hd

end

/-- Text that holds nothing but ASCII whitespace is not JSON. (A form feed is ASCII whitespace
but not JSON whitespace, so it is not skipped, and no value starts with it.) -/
theorem parse_blank {s : String}
    (h : ∀ c ∈ s.toList, c = ' ' ∨ c = '\t' ∨ c = '\n' ∨ c = '\x0c' ∨ c = '\r') :
    parse s = none := by
  have hv : value (s.toList.length + 1) s.toList = none := by
    rw [value]
    cases hsk : skipWs s.toList with
    | nil => rfl
    | cons c r =>
      have hws : isWs c = false := by
        have := List.head?_dropWhile_not isWs s.toList
        rw [skipWs] at hsk
        rw [hsk] at this
        simpa using this
      have hmem : c ∈ s.toList :=
        (List.dropWhile_suffix isWs).mem (by rw [skipWs] at hsk; rw [hsk]; simp)
      obtain rfl : c = '\x0c' := by
        rcases h c hmem with rfl | rfl | rfl | rfl | rfl <;>
          first | rfl | exact absurd hws (by decide)
      have hn : number ('\x0c' :: r) = none := by
        have hd : digits ('\x0c' :: r) = none := by
          simp [digits, show Char.isDigit '\x0c' = false from rfl]
        simp [number, unsigned, natural, hd]
      simp [hn]
  simp [parse, hv]

end Json
