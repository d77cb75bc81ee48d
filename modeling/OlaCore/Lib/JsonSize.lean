import OlaCore.Lib.JsonCut

set_option relaxedAutoImplicit false
set_option autoImplicit false

/-!
# The size of JSON texts

The compact text of a value that was read from a text is not longer than that text: whitespace is
dropped, no number gets longer, and an escape that is not needed is dropped with it. An escape that
is needed takes as many bytes in the compact text as the shortest escape of its character, and every
escape in the text was at least as long.

So a string that was read takes, escaped again, no more bytes than the text it was read from. A
string that was not read takes at most six bytes for each character.

## Main definitions

* `Json.escapedLength` — the bytes of a string between its quotation marks.

## Main results

* `Json.byteLength_print_of_parse` — the compact text of a value is not longer than the text it was
  read from.
* `Json.escapedLength_le` — six bytes for each character.
* `Json.byteLength_print_obj_le` — the text of an object, by its members.
-/

namespace Json

open ByteText

variable {cs r : List Char}

/-! ## Strings -/

/-- The bytes of a string between its quotation marks. -/
def escapedLength (s : String) : ℕ := byteLength (s.toList.flatMap escapeChar)

/-- The bytes of a compact text. -/
theorem length_utf8_compact (j : Json) : (utf8 j.compact).length = byteLength j.print := by
  rw [length_utf8, compact, String.toList_ofList]

/-- A quoted string has two quotation marks. -/
theorem byteLength_quote (s : String) : byteLength (quote s) = escapedLength s + 2 := by
  have hmark : Char.utf8Size '"' = 1 := by decide
  simp only [quote, escapedLength, byteLength_cons, byteLength_append, byteLength_nil, hmark]
  omega

/-- An escaped character takes at most six bytes. -/
theorem byteLength_escapeChar_le (c : Char) : byteLength (escapeChar c) ≤ 6 := by
  have hhex : ∀ m < 16, (Nat.digitChar m).utf8Size = 1 := by decide
  unfold escapeChar
  split_ifs with h₁ h₂ h₃ h₄ h₅ h₆ h₇ h₈
  any_goals decide
  · have hhi := hhex (c.toNat / 16) (by omega)
    have hlo := hhex (c.toNat % 16) (by omega)
    simp only [byteLength_cons, byteLength_nil, hhi, hlo]
    decide
  · have := c.utf8Size_le_four
    simp only [byteLength_cons, byteLength_nil]
    omega

/-- **An escaped string takes at most six bytes for each character.** -/
theorem escapedLength_le (s : String) : escapedLength s ≤ 6 * s.length := by
  have hsix : ∀ cs : List Char, byteLength (cs.flatMap escapeChar) ≤ 6 * cs.length := by
    intro cs
    induction cs with
    | nil => simp
    | cons c cs ih =>
      have := byteLength_escapeChar_le c
      rw [List.flatMap_cons, byteLength_append, List.length_cons]
      omega
  rw [escapedLength, ← String.length_toList]
  exact hsix _

/-- A string of at most `n` bytes takes at most `6 * n` bytes when it is escaped. -/
theorem escapedLength_le_of_utf8 {s : String} {n : ℕ} (h : (utf8 s).length ≤ n) :
    escapedLength s ≤ 6 * n := by
  have hesc := escapedLength_le s
  have hlen := length_le_byteLength s.toList
  rw [length_utf8] at h
  rw [String.length_toList] at hlen
  omega

/-- The text of a short string. -/
theorem byteLength_print_str_le {s : String} {n : ℕ} (h : s.length ≤ n) :
    byteLength (str s).print ≤ 6 * n + 2 := by
  have hesc := escapedLength_le s
  rw [print, byteLength_quote]
  omega

/-- Short keys. -/
theorem escapedLength_keys_le (keys : List String) {n : ℕ} (h : ∀ k ∈ keys, k.length ≤ n) :
    ∀ k ∈ keys, escapedLength k ≤ 6 * n := by
  intro k hk
  have hlen := h k hk
  have hesc := escapedLength_le k
  omega

/-- The escaped form of two strings. -/
@[simp] theorem escapedLength_append (s t : String) :
    escapedLength (s ++ t) = escapedLength s + escapedLength t := by
  simp [escapedLength]

/-- Four hexadecimal digits take four bytes or more. -/
theorem byteLength_of_hex4 {u : ℕ} (h : hex4 cs = some (u, r)) :
    4 + byteLength r ≤ byteLength cs := by
  match cs, h with
  | a :: b :: c :: d :: r', h =>
    simp only [hex4, Option.bind_eq_bind, Option.bind_eq_some_iff] at h
    obtain ⟨_, -, _, -, _, -, _, -, heq⟩ := h
    obtain ⟨-, rfl⟩ := Prod.mk.inj (Option.some.inj heq)
    have ha := a.utf8Size_pos
    have hb := b.utf8Size_pos
    have hc := c.utf8Size_pos
    have hd := d.utf8Size_pos
    simp only [byteLength_cons]
    omega

/-- A `\u` escape takes four bytes or more after its first two. -/
theorem byteLength_of_unicodeEscape {c : Char} (h : unicodeEscape cs = some (c, r)) :
    4 + byteLength r ≤ byteLength cs := by
  unfold unicodeEscape at h
  obtain ⟨⟨u, r₁⟩, hu, h⟩ := Option.bind_eq_some_iff.mp h
  have hfirst := byteLength_of_hex4 hu
  dsimp only at h
  split at h
  · split at h
    · obtain ⟨⟨l, r₂⟩, hl, h⟩ := Option.bind_eq_some_iff.mp h
      have hsecond := byteLength_of_hex4 hl
      dsimp only at h
      split at h
      · obtain ⟨-, rfl⟩ := Prod.mk.inj (Option.some.inj h)
        simp only [byteLength_cons] at hfirst
        omega
      · cases h
    · cases h
  · split at h
    · cases h
    · obtain ⟨-, rfl⟩ := Prod.mk.inj (Option.some.inj h)
      exact hfirst

/-- An escape in a text is as long as the shortest one of its character. -/
theorem byteLength_of_escape {c : Char} (h : escape cs = some (c, r)) :
    byteLength (escapeChar c) + byteLength r ≤ byteLength cs + 1 := by
  cases cs with
  | nil => cases h
  | cons d cs =>
    have hd := d.utf8Size_pos
    rw [byteLength_cons]
    have hsimple : ∀ e ∈ ['\x08', '\x0c', '\n', '\r', '\t'], some (e, cs) = some (c, r) →
        byteLength (escapeChar c) + byteLength r ≤ d.utf8Size + byteLength cs + 1 := by
      intro e he heq
      obtain ⟨rfl, rfl⟩ := Prod.mk.inj (Option.some.inj heq)
      have hshort : byteLength (escapeChar e) ≤ 2 := by
        simp only [List.mem_cons, List.not_mem_nil, or_false] at he
        rcases he with rfl | rfl | rfl | rfl | rfl <;> decide
      omega
    simp only [escape] at h
    split_ifs at h with h₁ h₂ h₃ h₄ h₅ h₆ h₇
    · obtain ⟨rfl, rfl⟩ := Prod.mk.inj (Option.some.inj h)
      have hshort : byteLength (escapeChar d) ≤ 2 := by
        rcases h₁ with rfl | rfl | rfl <;> decide
      omega
    · exact hsimple _ (by simp) h
    · exact hsimple _ (by simp) h
    · exact hsimple _ (by simp) h
    · exact hsimple _ (by simp) h
    · exact hsimple _ (by simp) h
    · have hrest := byteLength_of_unicodeEscape h
      have hlong := byteLength_escapeChar_le c
      omega

/-- The rest of a string is not longer than the text it was read from. -/
theorem byteLength_of_stringBody {n : ℕ} {s : List Char} (h : stringBody n cs = some (s, r)) :
    byteLength (s.flatMap escapeChar) + 1 + byteLength r ≤ byteLength cs := by
  induction n generalizing cs s with
  | zero => cases h
  | succ n ih =>
    cases cs with
    | nil => cases h
    | cons c cs =>
      have hc := c.utf8Size_pos
      rw [byteLength_cons]
      simp only [stringBody] at h
      split at h
      · obtain ⟨rfl, rfl⟩ := Prod.mk.inj (Option.some.inj h)
        simp only [List.flatMap_nil, byteLength_nil]
        omega
      next hquote =>
      split at h
      · obtain ⟨⟨d, r₁⟩, hd, h⟩ := Option.bind_eq_some_iff.mp h
        obtain ⟨⟨s', r₂⟩, hs, h⟩ := Option.bind_eq_some_iff.mp h
        obtain ⟨rfl, rfl⟩ := Prod.mk.inj (Option.some.inj h)
        have hescape := byteLength_of_escape hd
        have hrest := ih hs
        dsimp only at hrest ⊢
        rw [List.flatMap_cons, byteLength_append]
        omega
      next hslash =>
      split at h
      · cases h
      next hcontrol =>
      obtain ⟨⟨s', r₂⟩, hs, h⟩ := Option.bind_eq_some_iff.mp h
      obtain ⟨rfl, rfl⟩ := Prod.mk.inj (Option.some.inj h)
      have hrest := ih hs
      -- A character that needs no escape is printed as it is.
      have hplain : escapeChar c = [c] := by
        have hne : ∀ d : Char, d.toNat < 32 → c ≠ d := by
          rintro d hd rfl
          exact hcontrol hd
        rw [escapeChar, if_neg hquote, if_neg hslash, if_neg (hne _ (by decide)),
          if_neg (hne _ (by decide)), if_neg (hne _ (by decide)), if_neg (hne _ (by decide)),
          if_neg (hne _ (by decide)), if_neg hcontrol]
      dsimp only at hrest ⊢
      rw [List.flatMap_cons, hplain, byteLength_append, byteLength_cons, byteLength_nil]
      omega

/-- A quoted string is not longer than the text it was read from. -/
theorem byteLength_of_string {s : String} (h : string cs = some (s, r)) :
    byteLength (quote s) + byteLength r ≤ byteLength cs := by
  unfold string at h
  split at h
  · obtain ⟨⟨s', r'⟩, hs, h⟩ := Option.bind_eq_some_iff.mp h
    obtain ⟨rfl, rfl⟩ := Prod.mk.inj (Option.some.inj h)
    have hbody := byteLength_of_stringBody hs
    have hmark : Char.utf8Size '"' = 1 := by decide
    rw [byteLength_quote, escapedLength, String.toList_ofList, byteLength_cons, hmark]
    omega
  · cases h

/-! ## Numbers -/

/-- Digits take one byte each. -/
theorem byteLength_of_isDigit {ds : List Char} (h : ∀ c ∈ ds, c.isDigit) :
    byteLength ds = ds.length := by
  refine byteLength_of_ascii fun c hc => ?_
  have hdigit := h c hc
  simp only [Char.isDigit, Bool.and_eq_true, decide_eq_true_eq] at hdigit
  have hle : c.val.toNat ≤ 57 := hdigit.2
  change c.val.toNat ≤ 127
  omega

/-- Digits that are read, and what follows them. -/
theorem byteLength_of_digits {ds : List Char} (h : digits cs = some (ds, r)) :
    (∀ c ∈ ds, c.isDigit) ∧ byteLength ds + byteLength r = byteLength cs := by
  obtain ⟨-, rfl, rfl⟩ := digits_eq_some_iff.mp h
  refine ⟨fun c hc => List.mem_takeWhile_imp hc, ?_⟩
  rw [← byteLength_append, List.takeWhile_append_dropWhile]

/-- A number that is read from digits has no more digits. -/
theorem length_toDigits_ofDigitChars_le {ds : List Char} (hne : ds ≠ [])
    (hd : ∀ c ∈ ds, c.isDigit) :
    (Nat.toDigits 10 (Nat.ofDigitChars 10 ds 0)).length ≤ ds.length := by
  have hlt : ∀ ds : List Char, (∀ c ∈ ds, c.isDigit) →
      Nat.ofDigitChars 10 ds 0 < 10 ^ ds.length := by
    intro ds hds
    induction ds with
    | nil => simp
    | cons c ds ih =>
      rw [List.forall_mem_cons] at hds
      have hc := hds.1
      simp only [Char.isDigit, Bool.and_eq_true, decide_eq_true_eq] at hc
      have hle : c.toNat ≤ 57 := hc.2
      have hrest := ih hds.2
      have hvalue : c.toNat - '0'.toNat ≤ 9 := by
        have : '0'.toNat = 48 := rfl
        omega
      rw [Nat.ofDigitChars_cons, Nat.ofDigitChars_eq_ofDigitChars_zero, List.length_cons,
        Nat.pow_succ]
      calc 10 ^ ds.length * (10 * 0 + (c.toNat - '0'.toNat)) + Nat.ofDigitChars 10 ds 0
          < 10 ^ ds.length * 9 + 10 ^ ds.length := by
            refine Nat.add_lt_add_of_le_of_lt (Nat.mul_le_mul_left _ ?_) hrest
            omega
        _ = 10 ^ ds.length * 10 := (Nat.mul_succ _ _).symm
  exact (Nat.length_toDigits_le_iff (by decide) (List.length_pos_of_ne_nil hne)).mpr (hlt ds hd)

/-- The digits of a number take one byte each. -/
theorem byteLength_toDigits (n : ℕ) :
    byteLength (Nat.toDigits 10 n) = (Nat.toDigits 10 n).length :=
  byteLength_of_isDigit fun _ hc => Nat.isDigit_of_mem_toDigits (by decide) (by decide) hc

/-- An integer part takes as many bytes as the text it was read from. -/
theorem byteLength_of_natural {n : ℕ} (h : natural cs = some (n, r)) :
    byteLength (Nat.toDigits 10 n) + byteLength r = byteLength cs := by
  unfold natural at h
  obtain ⟨⟨ds, r'⟩, hd, h⟩ := Option.bind_eq_some_iff.mp h
  dsimp only at h
  split at h
  · next hdec =>
    obtain ⟨rfl, rfl⟩ := Prod.mk.inj (Option.some.inj h)
    rw [hdec]
    exact (byteLength_of_digits hd).2
  · cases h

/-- A fraction is not longer than the text it was read from. -/
theorem byteLength_of_fraction {f : List (Fin 10)} (h : fraction cs = some (f, r)) :
    byteLength (if f = [] then [] else '.' :: f.map digitChar) + byteLength r ≤ byteLength cs := by
  have hdot : Char.utf8Size '.' = 1 := by decide
  unfold fraction at h
  split at h
  · obtain ⟨⟨ds, r'⟩, hd, h⟩ := Option.bind_eq_some_iff.mp h
    obtain ⟨rfl, rfl⟩ := Prod.mk.inj (Option.some.inj h)
    obtain ⟨hdigits, hlen⟩ := byteLength_of_digits hd
    have hds := length_le_byteLength ds
    have hprinted : ∀ l : List (Fin 10), byteLength (l.map digitChar) = l.length := by
      intro l
      rw [byteLength_of_isDigit, List.length_map]
      intro c hc
      obtain ⟨d, -, rfl⟩ := List.mem_map.mp hc
      exact isDigit_digitChar d
    split
    · rw [byteLength_nil, byteLength_cons]
      omega
    · rw [byteLength_cons, byteLength_cons, hprinted, List.length_map, hdot]
      omega
  · obtain ⟨rfl, rfl⟩ := Prod.mk.inj (Option.some.inj h)
    simp

/-- An exponent is not longer than the text it was read from. -/
theorem byteLength_of_exponent {x : Option ℤ} (h : exponent cs = some (x, r)) :
    byteLength (x.elim [] fun e => 'e' :: intChars e) + byteLength r ≤ byteLength cs := by
  have he : Char.utf8Size 'e' = 1 := by decide
  have hminus : Char.utf8Size '-' = 1 := by decide
  have hplus : Char.utf8Size '+' = 1 := by decide
  -- The digits of an exponent `z n`, which is `n` or `-n`, after a sign of `k` bytes.
  have hread : ∀ {cs : List Char} {z : ℕ → ℤ} {k : ℕ}, (∀ n, (z n).natAbs = n) →
      (∀ n, z n < 0 → 1 ≤ k) →
      ((digits cs).bind fun p => some (some (z (Nat.ofDigitChars 10 p.1 0)), p.2)) = some (x, r) →
      byteLength (x.elim [] fun e => 'e' :: intChars e) + byteLength r ≤
        1 + k + byteLength cs := by
    intro cs z k habs hsign h
    obtain ⟨⟨ds, r'⟩, hd, h⟩ := Option.bind_eq_some_iff.mp h
    obtain ⟨rfl, rfl⟩ := Prod.mk.inj (Option.some.inj h)
    obtain ⟨hdigits, hlen⟩ := byteLength_of_digits hd
    have hshort := length_toDigits_ofDigitChars_le (digits_eq_some_iff.mp hd).1 hdigits
    have hds := length_le_byteLength ds
    dsimp only
    rw [Option.elim_some, byteLength_cons, he, intChars, byteLength_append, byteLength_toDigits,
      habs]
    split
    · next hneg =>
      have := hsign _ hneg
      rw [byteLength_cons, byteLength_nil, hminus]
      omega
    · rw [byteLength_nil]
      omega
  cases cs with
  | nil =>
    obtain ⟨rfl, rfl⟩ := Prod.mk.inj (Option.some.inj h)
    simp
  | cons c cs =>
    have hc := c.utf8Size_pos
    simp only [exponent] at h
    split at h
    swap
    · obtain ⟨rfl, rfl⟩ := Prod.mk.inj (Option.some.inj h)
      simp
    rw [byteLength_cons]
    split at h
    · have := hread (z := fun n => -(n : ℤ)) (k := 1) (by simp) (by simp) h
      rw [byteLength_cons, hminus]
      omega
    · have := hread (z := fun n => (n : ℤ)) (k := 0) (by simp) (by omega) h
      rw [byteLength_cons, hplus]
      omega
    · have := hread (z := fun n => (n : ℤ)) (k := 0) (by simp) (by omega) h
      omega

/-- A number is not longer than the text it was read from. -/
theorem byteLength_of_number {n : Number} (h : number cs = some (n, r)) :
    byteLength n.chars + byteLength r ≤ byteLength cs := by
  have hminus : Char.utf8Size '-' = 1 := by decide
  have hunsigned : ∀ {neg : Bool} {cs : List Char}, unsigned neg cs = some (n, r) →
      n.neg = neg ∧ byteLength n.chars + byteLength r ≤
        byteLength cs + if neg then 1 else 0 := by
    intro neg cs h
    unfold unsigned at h
    obtain ⟨⟨i, r₁⟩, hi, h⟩ := Option.bind_eq_some_iff.mp h
    obtain ⟨⟨f, r₂⟩, hf, h⟩ := Option.bind_eq_some_iff.mp h
    obtain ⟨⟨x, r₃⟩, hx, h⟩ := Option.bind_eq_some_iff.mp h
    obtain ⟨rfl, rfl⟩ := Prod.mk.inj (Option.some.inj h)
    have hint := byteLength_of_natural hi
    have hfrac := byteLength_of_fraction hf
    have hexp := byteLength_of_exponent hx
    have hchars : Number.chars ⟨neg, i, f, x⟩ = (if neg then ['-'] else []) ++
        (Nat.toDigits 10 i ++ ((if f = [] then [] else '.' :: f.map digitChar) ++
          x.elim [] fun e => 'e' :: intChars e)) := by
      cases x <;> rfl
    refine ⟨rfl, ?_⟩
    simp only [hchars, byteLength_append]
    cases neg
    · simp only [Bool.false_eq_true, if_false, byteLength_nil]
      omega
    · simp only [if_true, byteLength_cons, byteLength_nil, hminus]
      omega
  unfold number at h
  split at h
  · have := (hunsigned h).2
    rw [byteLength_cons, hminus]
    rw [if_pos rfl] at this
    omega
  · simpa using (hunsigned h).2

/-! ## Values -/

/-- Whitespace takes bytes. -/
theorem byteLength_skipWs_le (cs : List Char) : byteLength (skipWs cs) ≤ byteLength cs := by
  have hsplit := List.takeWhile_append_dropWhile (p := isWs) (l := cs)
  conv_rhs => rw [← hsplit]
  rw [byteLength_append, skipWs]
  omega

/-- What follows whitespace, and the bytes of the text before it. -/
theorem byteLength_of_skipWs {c : Char} {cs' : List Char} (h : skipWs cs = c :: cs') :
    1 + byteLength cs' ≤ byteLength cs := by
  have hle := byteLength_skipWs_le cs
  have hc := c.utf8Size_pos
  rw [h, byteLength_cons] at hle
  omega

/-- A fixed word. -/
theorem byteLength_of_keyword {w : List Char} (h : keyword w cs = some r) :
    byteLength w + byteLength r = byteLength cs := by
  unfold keyword at h
  split at h
  · next hw =>
    obtain rfl := Option.some.inj h
    obtain ⟨e, rfl⟩ := List.isPrefixOf_iff_prefix.mp hw
    rw [List.drop_left, byteLength_append]
  · cases h

/-- What a parser with fuel reads is not longer, printed again, than the text it was read from. -/
structure Shrinks (n : ℕ) : Prop where
  value : ∀ {cs r j}, value n cs = some (j, r) →
    byteLength (print j) + byteLength r ≤ byteLength cs
  items : ∀ {cs r vs}, items n cs = some (vs, r) →
    byteLength (printItems vs) + byteLength r ≤ byteLength cs
  member : ∀ {cs r kv}, member n cs = some (kv, r) →
    byteLength (printMember kv) + byteLength r ≤ byteLength cs
  members : ∀ {cs r ms}, members n cs = some (ms, r) →
    byteLength (printMembers ms) + byteLength r ≤ byteLength cs

/-- The characters that the printer puts around values take one byte. -/
theorem utf8Size_punctuation : ∀ c ∈ ['[', ']', '\x7b', '\x7d', ',', ':'], c.utf8Size = 1 := by
  intro c hc
  simp only [List.mem_cons, List.not_mem_nil, or_false] at hc
  rcases hc with rfl | rfl | rfl | rfl | rfl | rfl <;> rfl

/-- The further items of an array. -/
theorem Shrinks.items_succ {n : ℕ} (ih : Shrinks n) {vs : List Json}
    (h : Json.items (n + 1) cs = some (vs, r)) :
    byteLength (printItems vs) + byteLength r ≤ byteLength cs := by
  have hbracket := utf8Size_punctuation ']' (by simp)
  have hcomma := utf8Size_punctuation ',' (by simp)
  simp only [Json.items] at h
  split at h
  · next hws =>
    obtain ⟨rfl, rfl⟩ := Prod.mk.inj (Option.some.inj h)
    have hskip := byteLength_of_skipWs hws
    simp only [printItems, byteLength_cons, byteLength_nil, hbracket]
    omega
  · next hws =>
    obtain ⟨⟨v, r₁⟩, hv, h⟩ := Option.bind_eq_some_iff.mp h
    obtain ⟨⟨vs', r₂⟩, hvs, h⟩ := Option.bind_eq_some_iff.mp h
    obtain ⟨rfl, rfl⟩ := Prod.mk.inj (Option.some.inj h)
    have hskip := byteLength_of_skipWs hws
    have hvalue := ih.value hv
    have hitems : byteLength (printItems vs') + byteLength r₂ ≤ byteLength r₁ := ih.items hvs
    simp only [printItems, byteLength_cons, byteLength_append, hcomma]
    omega
  · cases h

/-- The further members of an object. -/
theorem Shrinks.members_succ {n : ℕ} (ih : Shrinks n) {ms : List (String × Json)}
    (h : Json.members (n + 1) cs = some (ms, r)) :
    byteLength (printMembers ms) + byteLength r ≤ byteLength cs := by
  have hbrace := utf8Size_punctuation '\x7d' (by simp)
  have hcomma := utf8Size_punctuation ',' (by simp)
  simp only [Json.members] at h
  split at h
  · next hws =>
    obtain ⟨rfl, rfl⟩ := Prod.mk.inj (Option.some.inj h)
    have hskip := byteLength_of_skipWs hws
    simp only [printMembers, byteLength_cons, byteLength_nil, hbrace]
    omega
  · next hws =>
    obtain ⟨⟨kv, r₁⟩, hkv, h⟩ := Option.bind_eq_some_iff.mp h
    obtain ⟨⟨ms', r₂⟩, hms, h⟩ := Option.bind_eq_some_iff.mp h
    obtain ⟨rfl, rfl⟩ := Prod.mk.inj (Option.some.inj h)
    have hskip := byteLength_of_skipWs hws
    have hmember := ih.member hkv
    have hmembers : byteLength (printMembers ms') + byteLength r₂ ≤ byteLength r₁ := ih.members hms
    simp only [printMembers, byteLength_cons, byteLength_append, hcomma]
    omega
  · cases h

/-- One member of an object. -/
theorem Shrinks.member_succ {n : ℕ} (ih : Shrinks n) {kv : String × Json}
    (h : Json.member (n + 1) cs = some (kv, r)) :
    byteLength (printMember kv) + byteLength r ≤ byteLength cs := by
  have hcolon := utf8Size_punctuation ':' (by simp)
  simp only [Json.member] at h
  obtain ⟨⟨k, r₁⟩, hk, h⟩ := Option.bind_eq_some_iff.mp h
  have hkey := byteLength_of_string hk
  have hskip := byteLength_skipWs_le cs
  dsimp only at h
  split at h
  · next hws =>
    obtain ⟨⟨v, r₂⟩, hv, h⟩ := Option.bind_eq_some_iff.mp h
    obtain ⟨rfl, rfl⟩ := Prod.mk.inj (Option.some.inj h)
    have hskip' := byteLength_of_skipWs hws
    have hvalue := ih.value hv
    simp only [printMember, byteLength_append, byteLength_cons, hcolon]
    omega
  · cases h

/-- An array, after its opening bracket. -/
theorem Shrinks.value_array {n : ℕ} (ih : Shrinks n) {j : Json} {r₀ : List Char}
    (hws : skipWs cs = '[' :: r₀) (h : Json.value (n + 1) cs = some (j, r)) :
    byteLength (print j) + byteLength r ≤ byteLength cs := by
  have hopen := utf8Size_punctuation '[' (by simp)
  have hclose := utf8Size_punctuation ']' (by simp)
  have hskip := byteLength_of_skipWs hws
  simp only [Json.value, hws, Char.reduceEq, if_false, if_true] at h
  split at h
  · next hempty =>
    obtain ⟨rfl, rfl⟩ := Prod.mk.inj (Option.some.inj h)
    have hskip' := byteLength_of_skipWs hempty
    simp only [print, byteLength_cons, byteLength_nil, hopen, hclose]
    omega
  · obtain ⟨⟨v, r₁⟩, hv, h⟩ := Option.bind_eq_some_iff.mp h
    obtain ⟨⟨vs, r₂⟩, hvs, h⟩ := Option.bind_eq_some_iff.mp h
    obtain ⟨rfl, rfl⟩ := Prod.mk.inj (Option.some.inj h)
    have hskip' := byteLength_skipWs_le r₀
    have hvalue := ih.value hv
    have hitems : byteLength (printItems vs) + byteLength r₂ ≤ byteLength r₁ := ih.items hvs
    simp only [print, byteLength_cons, byteLength_append, hopen]
    omega

/-- An object, after its opening brace. -/
theorem Shrinks.value_object {n : ℕ} (ih : Shrinks n) {j : Json} {r₀ : List Char}
    (hws : skipWs cs = '\x7b' :: r₀) (h : Json.value (n + 1) cs = some (j, r)) :
    byteLength (print j) + byteLength r ≤ byteLength cs := by
  have hopen := utf8Size_punctuation '\x7b' (by simp)
  have hclose := utf8Size_punctuation '\x7d' (by simp)
  have hskip := byteLength_of_skipWs hws
  simp only [Json.value, hws, Char.reduceEq, if_false, if_true] at h
  split at h
  · next hempty =>
    obtain ⟨rfl, rfl⟩ := Prod.mk.inj (Option.some.inj h)
    have hskip' := byteLength_of_skipWs hempty
    simp only [print, byteLength_cons, byteLength_nil, hopen, hclose]
    omega
  · obtain ⟨⟨kv, r₁⟩, hkv, h⟩ := Option.bind_eq_some_iff.mp h
    obtain ⟨⟨ms, r₂⟩, hms, h⟩ := Option.bind_eq_some_iff.mp h
    obtain ⟨rfl, rfl⟩ := Prod.mk.inj (Option.some.inj h)
    have hskip' := byteLength_skipWs_le r₀
    have hmember := ih.member hkv
    have hmembers : byteLength (printMembers ms) + byteLength r₂ ≤ byteLength r₁ := ih.members hms
    simp only [print, byteLength_cons, byteLength_append, hopen]
    omega

/-- A value that is written as a fixed word. -/
theorem byteLength_of_map_keyword {c : Char} {w r₀ : List Char} {v j : Json}
    (hv : v.print = c :: w) (hws : skipWs cs = c :: r₀)
    (h : (keyword w r₀).map (fun r => (v, r)) = some (j, r)) :
    byteLength (print j) + byteLength r ≤ byteLength cs := by
  obtain ⟨r₁, hw, h⟩ := Option.map_eq_some_iff.mp h
  obtain ⟨rfl, rfl⟩ := Prod.mk.inj h
  have hword := byteLength_of_keyword hw
  have hskip := byteLength_skipWs_le cs
  rw [hws, byteLength_cons] at hskip
  rw [hv, byteLength_cons]
  omega

/-- A value. -/
theorem Shrinks.value_succ {n : ℕ} (ih : Shrinks n) {j : Json}
    (h : Json.value (n + 1) cs = some (j, r)) :
    byteLength (print j) + byteLength r ≤ byteLength cs := by
  have hvalue := h
  have hskip := byteLength_skipWs_le cs
  simp only [Json.value] at h
  split at h
  · cases h
  next c r₀ hws =>
  by_cases harray : c = '['
  · exact ih.value_array (harray ▸ hws) hvalue
  by_cases hobject : c = '\x7b'
  · exact ih.value_object (hobject ▸ hws) hvalue
  simp only [if_neg harray, if_neg hobject] at h
  -- The other branches are a string, the three keywords and a number.
  split at h
  · obtain ⟨⟨s, r₁⟩, hs, h⟩ := Option.map_eq_some_iff.mp h
    obtain ⟨rfl, rfl⟩ := Prod.mk.inj h
    rw [hws] at hskip
    exact (byteLength_of_string hs).trans hskip
  split at h
  · next hc => exact byteLength_of_map_keyword rfl (hc ▸ hws) h
  split at h
  · next hc => exact byteLength_of_map_keyword rfl (hc ▸ hws) h
  split at h
  · next hc => exact byteLength_of_map_keyword rfl (hc ▸ hws) h
  · obtain ⟨⟨n, r₁⟩, hn, h⟩ := Option.map_eq_some_iff.mp h
    obtain ⟨rfl, rfl⟩ := Prod.mk.inj h
    rw [hws] at hskip
    exact (byteLength_of_number hn).trans hskip

/-- Nothing that is read gets longer. -/
theorem shrinks (n : ℕ) : Shrinks n := by
  induction n with
  | zero => exact ⟨nofun, nofun, nofun, nofun⟩
  | succ n ih => exact ⟨ih.value_succ, ih.items_succ, ih.member_succ, ih.members_succ⟩

/-- **The compact text of a value is not longer than the text it was read from.** -/
theorem byteLength_print_of_parse {s : String} {j : Json} (h : parse s = some j) :
    byteLength j.print ≤ byteLength s.toList := by
  unfold parse at h
  split at h
  · next j' r hvalue =>
    split at h
    · obtain rfl := Option.some.inj h
      exact (Nat.le_add_right _ _).trans ((shrinks _).value hvalue)
    · cases h
  · cases h

/-! ## Strings in values -/

/-- The text of a member is a part of the text of its object. -/
theorem byteLength_of_mem_printMembers {ms : List (String × Json)} {m : String × Json}
    (h : m ∈ ms) : byteLength (printMember m) ≤ byteLength (printMembers ms) := by
  induction ms with
  | nil => cases h
  | cons m' ms ih =>
    simp only [printMembers, byteLength_cons, byteLength_append]
    rcases List.mem_cons.mp h with rfl | h
    · omega
    · have := ih h
      omega

/-- The text of an item is a part of the text of its array. -/
theorem byteLength_of_mem_printItems {vs : List Json} {v : Json} (h : v ∈ vs) :
    byteLength (print v) ≤ byteLength (printItems vs) := by
  induction vs with
  | nil => cases h
  | cons v' vs ih =>
    simp only [printItems, byteLength_cons, byteLength_append]
    rcases List.mem_cons.mp h with rfl | h
    · omega
    · have := ih h
      omega

/-- A value in an object is not longer than the object. -/
theorem byteLength_print_of_mem_obj {ms : List (String × Json)} {m : String × Json} (h : m ∈ ms) :
    byteLength m.2.print ≤ byteLength (obj ms).print := by
  have hvalue : byteLength m.2.print ≤ byteLength (printMember m) := by
    obtain ⟨k, v⟩ := m
    simp only [printMember, byteLength_append, byteLength_cons]
    omega
  cases ms with
  | nil => cases h
  | cons m' ms =>
    simp only [print, byteLength_cons, byteLength_append]
    rcases List.mem_cons.mp h with rfl | h
    · omega
    · have := byteLength_of_mem_printMembers h
      omega

/-- A value in an array is not longer than the array. -/
theorem byteLength_print_of_mem_arr {vs : List Json} {v : Json} (h : v ∈ vs) :
    byteLength v.print ≤ byteLength (arr vs).print := by
  cases vs with
  | nil => cases h
  | cons v' vs =>
    simp only [print, byteLength_cons, byteLength_append]
    rcases List.mem_cons.mp h with rfl | h
    · omega
    · have := byteLength_of_mem_printItems h
      omega

/-- The members of an object make up its text, with four characters for each besides the key and the
value. -/
theorem byteLength_print_obj_le {l : List (String × Json)} {a : ℕ}
    (h : ∀ m ∈ l, escapedLength m.1 ≤ a) :
    byteLength (obj l).print ≤ l.foldr (fun m n => byteLength m.2.print + (a + 4) + n) 2 := by
  have hbrace := utf8Size_punctuation '\x7b' (by simp)
  have hclose := utf8Size_punctuation '\x7d' (by simp)
  have hcomma := utf8Size_punctuation ',' (by simp)
  have hcolon := utf8Size_punctuation ':' (by simp)
  have hmember : ∀ m : String × Json, escapedLength m.1 ≤ a →
      byteLength (printMember m) ≤ byteLength m.2.print + (a + 3) := by
    rintro ⟨k, v⟩ hk
    rw [printMember, byteLength_append, byteLength_cons, byteLength_quote, hcolon]
    dsimp only at hk ⊢
    omega
  have hmembers : ∀ ms : List (String × Json), (∀ m ∈ ms, escapedLength m.1 ≤ a) →
      byteLength (printMembers ms) + 1 ≤
        ms.foldr (fun m n => byteLength m.2.print + (a + 4) + n) 2 := by
    intro ms hms
    induction ms with
    | nil => simp [printMembers, hclose]
    | cons m ms ih =>
      obtain ⟨hm, hms⟩ := List.forall_mem_cons.mp hms
      have hfirst := hmember m hm
      have hrest := ih hms
      rw [printMembers, byteLength_cons, byteLength_append, hcomma, List.foldr_cons]
      omega
  cases l with
  | nil => simp [print, hbrace, hclose]
  | cons m ms =>
    obtain ⟨hm, hms⟩ := List.forall_mem_cons.mp h
    have hfirst := hmember m hm
    have hrest := hmembers ms hms
    rw [print, byteLength_cons, byteLength_append, hbrace, List.foldr_cons]
    omega

end Json
