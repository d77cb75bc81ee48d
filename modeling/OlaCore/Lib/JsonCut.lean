import OlaCore.Lib.Json

set_option relaxedAutoImplicit false
set_option autoImplicit false

/-!
# JSON texts that are cut

A parser that has read a value does not care what follows it: on a longer text it reads the same
value and leaves the rest. Only a number at the end of the text may go on. So a text that was cut
inside an object is not a JSON text, because the parser would have stopped there in the whole text,
too.

## Main results

* `Json.value_append` — a value that is read does not depend on what follows.
* `Json.eq_nil_of_parse_cut` — an object whose text is cut is not read.
-/

namespace Json

variable {cs r e : List Char}

/-! ## Words -/

/-- Whitespace before a character is skipped, whatever follows. -/
theorem skipWs_append (h : skipWs cs ≠ []) (e : List Char) :
    skipWs (cs ++ e) = skipWs cs ++ e := by
  unfold skipWs at h ⊢
  rw [List.dropWhile_append, if_neg (by simpa using h)]

/-- Hexadecimal digits do not depend on what follows. -/
theorem hex4_append {u : ℕ} (h : hex4 cs = some (u, r)) (e : List Char) :
    hex4 (cs ++ e) = some (u, r ++ e) := by
  match cs, h with
  | a :: b :: c :: d :: r', h =>
    simp only [hex4, List.cons_append, Option.bind_eq_bind, Option.bind_eq_some_iff] at h ⊢
    obtain ⟨a', ha, b', hb, c', hc, d', hd, heq⟩ := h
    obtain ⟨rfl, rfl⟩ := Prod.mk.inj (Option.some.inj heq)
    exact ⟨a', ha, b', hb, c', hc, d', hd, rfl⟩

/-- A `\u` escape does not depend on what follows. -/
theorem unicodeEscape_append {c : Char} (h : unicodeEscape cs = some (c, r)) (e : List Char) :
    unicodeEscape (cs ++ e) = some (c, r ++ e) := by
  unfold unicodeEscape at h ⊢
  obtain ⟨⟨u, r₁⟩, hu, h⟩ := Option.bind_eq_some_iff.mp h
  rw [hex4_append hu, Option.bind_eq_bind, Option.bind_some]
  dsimp only at h ⊢
  split at h
  · next hhigh =>
    rw [if_pos hhigh]
    split at h
    · obtain ⟨⟨l, r₃⟩, hl, h⟩ := Option.bind_eq_some_iff.mp h
      simp only [List.cons_append, hex4_append hl, Option.bind_some]
      split at h
      · next hlow =>
        obtain ⟨rfl, rfl⟩ := Prod.mk.inj (Option.some.inj h)
        rw [if_pos hlow]
      · cases h
    · cases h
  · next hhigh =>
    rw [if_neg hhigh]
    split at h
    · cases h
    · next hlow =>
      obtain ⟨rfl, rfl⟩ := Prod.mk.inj (Option.some.inj h)
      rw [if_neg hlow]

/-- An escape does not depend on what follows. -/
theorem escape_append {c : Char} (h : escape cs = some (c, r)) (e : List Char) :
    escape (cs ++ e) = some (c, r ++ e) := by
  cases cs with
  | nil => cases h
  | cons d cs =>
    simp only [escape, List.cons_append] at h ⊢
    split_ifs at h ⊢ with h₁ h₂ h₃ h₄ h₅ h₆ h₇
    all_goals first
      | exact unicodeEscape_append h e
      | (obtain ⟨rfl, rfl⟩ := Prod.mk.inj (Option.some.inj h)
         rfl)

/-- The rest of a string does not depend on what follows, nor on the fuel if it is enough. -/
theorem stringBody_append {n : ℕ} {s : List Char} (h : stringBody n cs = some (s, r)) {m : ℕ}
    (hm : n ≤ m) (e : List Char) : stringBody m (cs ++ e) = some (s, r ++ e) := by
  induction n generalizing cs s m with
  | zero => cases h
  | succ n ih =>
    obtain ⟨m, rfl⟩ : ∃ k, m = k + 1 := ⟨m - 1, by omega⟩
    cases cs with
    | nil => cases h
    | cons c cs =>
      simp only [stringBody, List.cons_append] at h ⊢
      split at h
      · next hquote =>
        obtain ⟨rfl, rfl⟩ := Prod.mk.inj (Option.some.inj h)
        rw [if_pos hquote]
      next hquote =>
      rw [if_neg hquote]
      split at h
      · next hslash =>
        rw [if_pos hslash]
        obtain ⟨⟨d, r₁⟩, hd, h⟩ := Option.bind_eq_some_iff.mp h
        obtain ⟨⟨s', r₂⟩, hs, h⟩ := Option.bind_eq_some_iff.mp h
        obtain ⟨rfl, rfl⟩ := Prod.mk.inj (Option.some.inj h)
        rw [escape_append hd, Option.bind_eq_bind, Option.bind_some]
        dsimp only
        rw [ih hs (by omega)]
        rfl
      next hslash =>
      rw [if_neg hslash]
      split at h
      · cases h
      next hcontrol =>
      rw [if_neg hcontrol]
      obtain ⟨⟨s', r₂⟩, hs, h⟩ := Option.bind_eq_some_iff.mp h
      obtain ⟨rfl, rfl⟩ := Prod.mk.inj (Option.some.inj h)
      rw [ih hs (by omega)]
      rfl

/-- A quoted string does not depend on what follows. -/
theorem string_append {s : String} (h : string cs = some (s, r)) (e : List Char) :
    string (cs ++ e) = some (s, r ++ e) := by
  unfold string at h
  split at h
  · next cs =>
    obtain ⟨⟨s', r'⟩, hs, h⟩ := Option.bind_eq_some_iff.mp h
    obtain ⟨rfl, rfl⟩ := Prod.mk.inj (Option.some.inj h)
    have hbody := stringBody_append hs (m := (cs ++ e).length + 1) (by simp) e
    simp only [string, List.cons_append, hbody, Option.bind_eq_bind, Option.bind_some]
  · cases h

/-- A fixed word does not depend on what follows. -/
theorem keyword_append {w : List Char} (h : keyword w cs = some r) (e : List Char) :
    keyword w (cs ++ e) = some (r ++ e) := by
  unfold keyword at h ⊢
  split at h
  · next hw =>
    obtain rfl := Option.some.inj h
    rw [List.isPrefixOf_iff_prefix] at hw
    rw [if_pos (List.isPrefixOf_iff_prefix.mpr (hw.trans (List.prefix_append _ _))),
      List.drop_append_of_le_length hw.length_le]
  · cases h

/-- A value that is written as a fixed word does not depend on what follows. -/
theorem map_keyword_append {w : List Char} {v j : Json}
    (h : (keyword w cs).map (fun r => (v, r)) = some (j, r)) (e : List Char) :
    (keyword w (cs ++ e)).map (fun r => (v, r)) = some (j, r ++ e) := by
  obtain ⟨r₁, hw, h⟩ := Option.map_eq_some_iff.mp h
  obtain ⟨rfl, rfl⟩ := Prod.mk.inj h
  rw [keyword_append hw]
  rfl

/-! ## Numbers -/

/-- Digits that are read, and what follows them. -/
theorem digits_eq_some_iff {ds : List Char} : digits cs = some (ds, r) ↔
    ds ≠ [] ∧ cs.takeWhile Char.isDigit = ds ∧ cs.dropWhile Char.isDigit = r := by
  unfold digits
  split
  · next h =>
    simp only [reduceCtorEq, h, false_iff]
    rintro ⟨hne, rfl, -⟩
    exact hne rfl
  · next hne =>
    simp only [Option.some.injEq, Prod.mk.injEq]
    constructor
    · rintro ⟨rfl, rfl⟩
      exact ⟨hne, rfl, rfl⟩
    · rintro ⟨-, rfl, rfl⟩
      exact ⟨rfl, rfl⟩

/-- Digits are read from a text that is not empty. -/
theorem exists_cons_of_digits {p : List Char × List Char} (h : digits cs = some p) :
    ∃ c cs', cs = c :: cs' := by
  cases cs with
  | nil => cases h
  | cons c cs' => exact ⟨c, cs', rfl⟩

/-- Digits that end before the end of the text do not depend on what follows. -/
theorem digits_extend {ds : List Char} (h : digits cs = some (ds, r)) (hr : r ≠ [])
    (e : List Char) : digits (cs ++ e) = some (ds, r ++ e) := by
  obtain ⟨hne, htake, hdrop⟩ := digits_eq_some_iff.mp h
  have hlen : ¬ (cs.takeWhile Char.isDigit).length = cs.length := by
    have hsplit :=
      congrArg List.length (List.takeWhile_append_dropWhile (p := Char.isDigit) (l := cs))
    rw [List.length_append, hdrop] at hsplit
    have := List.length_pos_of_ne_nil hr
    omega
  rw [digits_eq_some_iff]
  refine ⟨hne, ?_, ?_⟩
  · rw [List.takeWhile_append, if_neg hlen, htake]
  · rw [List.dropWhile_append, hdrop, if_neg (by simpa using hr)]

/-- An integer part that ends before the end of the text does not depend on what follows. -/
theorem natural_extend {n : ℕ} (h : natural cs = some (n, r)) (hr : r ≠ []) (e : List Char) :
    natural (cs ++ e) = some (n, r ++ e) := by
  unfold natural at h ⊢
  obtain ⟨⟨ds, r'⟩, hd, h⟩ := Option.bind_eq_some_iff.mp h
  dsimp only at h
  split at h
  · next hdec =>
    obtain ⟨rfl, rfl⟩ := Prod.mk.inj (Option.some.inj h)
    rw [digits_extend hd hr, Option.bind_eq_bind, Option.bind_some]
    dsimp only
    rw [if_pos hdec]
  · cases h

/-- A fraction that ends before the end of the text does not depend on what follows. -/
theorem fraction_extend {f : List (Fin 10)} (h : fraction cs = some (f, r)) (hr : r ≠ [])
    (e : List Char) : fraction (cs ++ e) = some (f, r ++ e) := by
  unfold fraction at h
  split at h
  · obtain ⟨⟨ds, r'⟩, hd, h⟩ := Option.bind_eq_some_iff.mp h
    obtain ⟨rfl, rfl⟩ := Prod.mk.inj (Option.some.inj h)
    simp only [fraction, List.cons_append, digits_extend hd hr, Option.bind_eq_bind,
      Option.bind_some]
  · next hdot =>
    obtain ⟨rfl, rfl⟩ := Prod.mk.inj (Option.some.inj h)
    obtain ⟨c, cs, rfl⟩ := List.exists_cons_of_ne_nil hr
    unfold fraction
    split
    · next r' heq => exact absurd (by rw [(List.cons.inj heq).1]) (hdot cs)
    · rfl

/-- An exponent that ends before the end of the text does not depend on what follows. -/
theorem exponent_extend {x : Option ℤ} (h : exponent cs = some (x, r)) (hr : r ≠ [])
    (e : List Char) : exponent (cs ++ e) = some (x, r ++ e) := by
  cases cs with
  | nil =>
    obtain ⟨-, rfl⟩ := Prod.mk.inj (Option.some.inj h)
    exact absurd rfl hr
  | cons c cs =>
    simp only [exponent, List.cons_append] at h ⊢
    split at h
    swap
    · next he =>
      obtain ⟨rfl, rfl⟩ := Prod.mk.inj (Option.some.inj h)
      rw [if_neg he]
      rfl
    next he =>
    rw [if_pos he]
    split at h
    · obtain ⟨⟨ds, r'⟩, hd, h⟩ := Option.bind_eq_some_iff.mp h
      obtain ⟨rfl, rfl⟩ := Prod.mk.inj (Option.some.inj h)
      simp only [List.cons_append, digits_extend hd hr, Option.bind_eq_bind, Option.bind_some]
    · obtain ⟨⟨ds, r'⟩, hd, h⟩ := Option.bind_eq_some_iff.mp h
      obtain ⟨rfl, rfl⟩ := Prod.mk.inj (Option.some.inj h)
      simp only [List.cons_append, digits_extend hd hr, Option.bind_eq_bind, Option.bind_some]
    · next hminus hplus =>
      obtain ⟨⟨ds, r'⟩, hd, h⟩ := Option.bind_eq_some_iff.mp h
      obtain ⟨rfl, rfl⟩ := Prod.mk.inj (Option.some.inj h)
      have hext := digits_extend hd hr e
      obtain ⟨c, cs, rfl⟩ := exists_cons_of_digits hd
      split
      · next heq => exact absurd (by rw [(List.cons.inj heq).1]) (hminus cs)
      · next heq => exact absurd (by rw [(List.cons.inj heq).1]) (hplus cs)
      · rw [hext]
        rfl

/-- A number that ends before the end of the text does not depend on what follows. -/
theorem unsigned_extend {neg : Bool} {n : Number} (h : unsigned neg cs = some (n, r)) (hr : r ≠ [])
    (e : List Char) : unsigned neg (cs ++ e) = some (n, r ++ e) := by
  unfold unsigned at h ⊢
  obtain ⟨⟨i, r₁⟩, hi, h⟩ := Option.bind_eq_some_iff.mp h
  obtain ⟨⟨f, r₂⟩, hf, h⟩ := Option.bind_eq_some_iff.mp h
  obtain ⟨⟨x, r₃⟩, hx, h⟩ := Option.bind_eq_some_iff.mp h
  obtain ⟨rfl, rfl⟩ := Prod.mk.inj (Option.some.inj h)
  -- Neither part reaches the end, or there would be nothing left after the exponent.
  have hr₂ : r₂ ≠ [] := by
    rintro rfl
    exact hr (Prod.mk.inj (Option.some.inj hx)).2.symm
  have hr₁ : r₁ ≠ [] := by
    rintro rfl
    exact hr₂ (Prod.mk.inj (Option.some.inj hf)).2.symm
  simp only [natural_extend hi hr₁, fraction_extend hf hr₂, exponent_extend hx hr,
    Option.bind_eq_bind, Option.bind_some]

/-- A number that ends before the end of the text does not depend on what follows. -/
theorem number_extend {n : Number} (h : number cs = some (n, r)) (hr : r ≠ []) (e : List Char) :
    number (cs ++ e) = some (n, r ++ e) := by
  unfold number at h
  split at h
  · simp only [number, List.cons_append, unsigned_extend h hr]
  · next hminus =>
    have hext := unsigned_extend h hr e
    obtain ⟨⟨i, r₁⟩, hi, -⟩ := Option.bind_eq_some_iff.mp h
    obtain ⟨⟨ds, r₂⟩, hd, -⟩ := Option.bind_eq_some_iff.mp hi
    obtain ⟨c, cs, rfl⟩ := exists_cons_of_digits hd
    unfold number
    split
    · next heq => exact absurd (by rw [(List.cons.inj heq).1]) (hminus cs)
    · exact hext

/-! ## Values -/

/-- A value that could not go on: it is not a number, or something follows it. -/
def Ended (j : Json) (r : List Char) : Prop := (∃ n, j = num n) → r ≠ []

/-- What a parser with fuel reads does not depend on what follows, nor on the fuel if it is enough,
given that the value is ended. -/
structure Extends (n : ℕ) : Prop where
  value : ∀ {cs r j}, value n cs = some (j, r) → Ended j r → ∀ m, n ≤ m → ∀ e,
    Json.value m (cs ++ e) = some (j, r ++ e)
  items : ∀ {cs r vs}, items n cs = some (vs, r) → ∀ m, n ≤ m → ∀ e,
    Json.items m (cs ++ e) = some (vs, r ++ e)
  member : ∀ {cs r kv}, member n cs = some (kv, r) → r ≠ [] → ∀ m, n ≤ m → ∀ e,
    Json.member m (cs ++ e) = some (kv, r ++ e)
  members : ∀ {cs r ms}, members n cs = some (ms, r) → ∀ m, n ≤ m → ∀ e,
    Json.members m (cs ++ e) = some (ms, r ++ e)

/-- Further items follow something. -/
theorem ne_nil_of_items {n : ℕ} {vs : List Json} (h : items n cs = some (vs, r)) : cs ≠ [] := by
  rintro rfl
  cases n <;> cases h

/-- Further members follow something. -/
theorem ne_nil_of_members {n : ℕ} {ms : List (String × Json)} (h : members n cs = some (ms, r)) :
    cs ≠ [] := by
  rintro rfl
  cases n <;> cases h

/-- A value is something. -/
theorem ne_nil_of_value {n : ℕ} {j : Json} (h : value n cs = some (j, r)) : cs ≠ [] := by
  rintro rfl
  cases n <;> cases h

/-- A member is something. -/
theorem ne_nil_of_member {n : ℕ} {kv : String × Json} (h : member n cs = some (kv, r)) :
    cs ≠ [] := by
  rintro rfl
  cases n <;> cases h

/-- Whitespace before something that is found. -/
theorem skipWs_append_of_eq {c : Char} {cs' : List Char} (h : skipWs cs = c :: cs')
    (e : List Char) : skipWs (cs ++ e) = c :: (cs' ++ e) := by
  rw [skipWs_append (by rw [h]; simp), h, List.cons_append]

/-- The further items of an array. -/
theorem Extends.items_succ {n : ℕ} (ih : Extends n) {vs : List Json}
    (h : Json.items (n + 1) cs = some (vs, r)) {m : ℕ} (hm : n + 1 ≤ m) (e : List Char) :
    Json.items m (cs ++ e) = some (vs, r ++ e) := by
  obtain ⟨m, rfl⟩ : ∃ k, m = k + 1 := ⟨m - 1, by omega⟩
  simp only [Json.items] at h ⊢
  split at h
  · next hws =>
    obtain ⟨rfl, rfl⟩ := Prod.mk.inj (Option.some.inj h)
    simp only [skipWs_append_of_eq hws]
  · next hws =>
    obtain ⟨⟨v, r₁⟩, hv, h⟩ := Option.bind_eq_some_iff.mp h
    obtain ⟨⟨vs', r₂⟩, hvs, h⟩ := Option.bind_eq_some_iff.mp h
    obtain ⟨rfl, rfl⟩ := Prod.mk.inj (Option.some.inj h)
    have hended : Ended v r₁ := fun _ => ne_nil_of_items hvs
    simp only [skipWs_append_of_eq hws, ih.value hv hended m (by omega),
      ih.items hvs m (by omega), Option.bind_eq_bind, Option.bind_some]
  · cases h

/-- The further members of an object. -/
theorem Extends.members_succ {n : ℕ} (ih : Extends n) {ms : List (String × Json)}
    (h : Json.members (n + 1) cs = some (ms, r)) {m : ℕ} (hm : n + 1 ≤ m) (e : List Char) :
    Json.members m (cs ++ e) = some (ms, r ++ e) := by
  obtain ⟨m, rfl⟩ : ∃ k, m = k + 1 := ⟨m - 1, by omega⟩
  simp only [Json.members] at h ⊢
  split at h
  · next hws =>
    obtain ⟨rfl, rfl⟩ := Prod.mk.inj (Option.some.inj h)
    simp only [skipWs_append_of_eq hws]
  · next hws =>
    obtain ⟨⟨kv, r₁⟩, hkv, h⟩ := Option.bind_eq_some_iff.mp h
    obtain ⟨⟨ms', r₂⟩, hms, h⟩ := Option.bind_eq_some_iff.mp h
    obtain ⟨rfl, rfl⟩ := Prod.mk.inj (Option.some.inj h)
    simp only [skipWs_append_of_eq hws, ih.member hkv (ne_nil_of_members hms) m (by omega),
      ih.members hms m (by omega), Option.bind_eq_bind, Option.bind_some]
  · cases h

/-- One member of an object. -/
theorem Extends.member_succ {n : ℕ} (ih : Extends n) {kv : String × Json}
    (h : Json.member (n + 1) cs = some (kv, r)) (hr : r ≠ []) {m : ℕ} (hm : n + 1 ≤ m)
    (e : List Char) : Json.member m (cs ++ e) = some (kv, r ++ e) := by
  obtain ⟨m, rfl⟩ : ∃ k, m = k + 1 := ⟨m - 1, by omega⟩
  simp only [Json.member] at h ⊢
  obtain ⟨⟨k, r₁⟩, hk, h⟩ := Option.bind_eq_some_iff.mp h
  have hcs : skipWs cs ≠ [] := by
    intro hnil
    rw [hnil] at hk
    cases hk
  rw [skipWs_append hcs, string_append hk, Option.bind_eq_bind, Option.bind_some]
  dsimp only at h ⊢
  split at h
  · next hws =>
    obtain ⟨⟨v, r₂⟩, hv, h⟩ := Option.bind_eq_some_iff.mp h
    obtain ⟨rfl, rfl⟩ := Prod.mk.inj (Option.some.inj h)
    simp only [skipWs_append_of_eq hws, ih.value hv (fun _ => hr) m (by omega),
      Option.bind_eq_bind, Option.bind_some]
  · cases h

/-- An array, after its opening bracket. -/
theorem Extends.value_array {n : ℕ} (ih : Extends n) {j : Json} {r₀ : List Char}
    (hws : skipWs cs = '[' :: r₀) (h : Json.value (n + 1) cs = some (j, r)) {m : ℕ} (hm : n ≤ m)
    (e : List Char) : Json.value (m + 1) (cs ++ e) = some (j, r ++ e) := by
  simp only [Json.value, hws, skipWs_append_of_eq hws, Char.reduceEq, if_false, if_true] at h ⊢
  split at h
  · next hclose =>
    obtain ⟨rfl, rfl⟩ := Prod.mk.inj (Option.some.inj h)
    simp only [skipWs_append_of_eq hclose]
  next hopen =>
  obtain ⟨⟨v, r₁⟩, hv, h⟩ := Option.bind_eq_some_iff.mp h
  obtain ⟨⟨vs, r₂⟩, hvs, h⟩ := Option.bind_eq_some_iff.mp h
  obtain ⟨rfl, rfl⟩ := Prod.mk.inj (Option.some.inj h)
  have hv' := ih.value hv (fun _ => ne_nil_of_items hvs) m hm e
  have hvs' := ih.items hvs m hm e
  rw [skipWs_append (ne_nil_of_value hv)]
  obtain ⟨c, r', hr'⟩ := List.exists_cons_of_ne_nil (ne_nil_of_value hv)
  rw [hr'] at hv' hopen ⊢
  split
  · next heq => exact absurd (by rw [(List.cons.inj heq).1]) (hopen r')
  · simp only [hv', hvs', Option.bind_eq_bind, Option.bind_some]

/-- An object, after its opening brace. -/
theorem Extends.value_object {n : ℕ} (ih : Extends n) {j : Json} {r₀ : List Char}
    (hws : skipWs cs = '\x7b' :: r₀) (h : Json.value (n + 1) cs = some (j, r)) {m : ℕ} (hm : n ≤ m)
    (e : List Char) : Json.value (m + 1) (cs ++ e) = some (j, r ++ e) := by
  simp only [Json.value, hws, skipWs_append_of_eq hws, Char.reduceEq, if_false, if_true] at h ⊢
  split at h
  · next hclose =>
    obtain ⟨rfl, rfl⟩ := Prod.mk.inj (Option.some.inj h)
    simp only [skipWs_append_of_eq hclose]
  next hopen =>
  obtain ⟨⟨kv, r₁⟩, hkv, h⟩ := Option.bind_eq_some_iff.mp h
  obtain ⟨⟨ms, r₂⟩, hms, h⟩ := Option.bind_eq_some_iff.mp h
  obtain ⟨rfl, rfl⟩ := Prod.mk.inj (Option.some.inj h)
  have hkv' := ih.member hkv (ne_nil_of_members hms) m hm e
  have hms' := ih.members hms m hm e
  rw [skipWs_append (ne_nil_of_member hkv)]
  obtain ⟨c, r', hr'⟩ := List.exists_cons_of_ne_nil (ne_nil_of_member hkv)
  rw [hr'] at hkv' hopen ⊢
  split
  · next heq => exact absurd (by rw [(List.cons.inj heq).1]) (hopen r')
  · simp only [hkv', hms', Option.bind_eq_bind, Option.bind_some]

/-- A value. -/
theorem Extends.value_succ {n : ℕ} (ih : Extends n) {j : Json}
    (h : Json.value (n + 1) cs = some (j, r)) (hended : Ended j r) {m : ℕ} (hm : n + 1 ≤ m)
    (e : List Char) : Json.value m (cs ++ e) = some (j, r ++ e) := by
  obtain ⟨m, rfl⟩ : ∃ k, m = k + 1 := ⟨m - 1, by omega⟩
  have hvalue := h
  simp only [Json.value] at h
  split at h
  · cases h
  next c r₀ hws =>
  by_cases harray : c = '['
  · exact ih.value_array (harray ▸ hws) hvalue (by omega) e
  by_cases hobject : c = '\x7b'
  · exact ih.value_object (hobject ▸ hws) hvalue (by omega) e
  simp only [Json.value, skipWs_append_of_eq hws]
  simp only [if_neg harray, if_neg hobject] at h ⊢
  -- The other branches are a string, the three keywords and a number.
  split at h
  · next hc =>
    rw [if_pos hc]
    obtain ⟨⟨s, r₁⟩, hs, h⟩ := Option.map_eq_some_iff.mp h
    obtain ⟨rfl, rfl⟩ := Prod.mk.inj h
    rw [← List.cons_append, string_append hs]
    rfl
  next hc =>
  rw [if_neg hc]
  split at h
  · next hc =>
    rw [if_pos hc]
    exact map_keyword_append h e
  next hc =>
  rw [if_neg hc]
  split at h
  · next hc =>
    rw [if_pos hc]
    exact map_keyword_append h e
  next hc =>
  rw [if_neg hc]
  split at h
  · next hc =>
    rw [if_pos hc]
    exact map_keyword_append h e
  next hc =>
  rw [if_neg hc]
  obtain ⟨⟨q, r₁⟩, hq, h⟩ := Option.map_eq_some_iff.mp h
  obtain ⟨rfl, rfl⟩ := Prod.mk.inj h
  rw [← List.cons_append, number_extend hq (hended ⟨q, rfl⟩)]
  rfl

/-- What is read does not depend on what follows, by induction on the fuel. -/
theorem extends_all (n : ℕ) : Extends n := by
  induction n with
  | zero =>
    constructor
    · intro cs r j h
      cases h
    · intro cs r vs h
      cases h
    · intro cs r kv h
      cases h
    · intro cs r ms h
      cases h
  | succ n ih =>
    constructor
    · intro cs r j h hended m hm e
      exact ih.value_succ h hended hm e
    · intro cs r vs h m hm e
      exact ih.items_succ h hm e
    · intro cs r kv h hr m hm e
      exact ih.member_succ h hr hm e
    · intro cs r ms h m hm e
      exact ih.members_succ h hm e

/-- **A value that is read does not depend on what follows**, unless it is a number at the end of
the text. -/
theorem value_append {n : ℕ} {j : Json} (h : value n cs = some (j, r)) (hended : Ended j r) {m : ℕ}
    (hm : n ≤ m) (e : List Char) : value m (cs ++ e) = some (j, r ++ e) :=
  (extends_all n).value h hended m hm e

/-- An opening brace begins an object. -/
theorem eq_obj_of_value {n : ℕ} {j : Json} (h : value n ('\x7b' :: cs) = some (j, r)) :
    ∃ ms, j = obj ms := by
  cases n with
  | zero => cases h
  | succ n =>
    rw [value, skipWs_cons (by decide)] at h
    simp only [Char.reduceEq, if_false, if_true] at h
    split at h
    · exact ⟨[], (Prod.mk.inj (Option.some.inj h)).1.symm⟩
    · obtain ⟨⟨kv, r₁⟩, -, h⟩ := Option.bind_eq_some_iff.mp h
      obtain ⟨⟨ms, r₂⟩, -, h⟩ := Option.bind_eq_some_iff.mp h
      exact ⟨kv :: ms, (Prod.mk.inj (Option.some.inj h)).1.symm⟩

/-- The text of an object begins with a brace. -/
theorem print_obj_cons (ms : List (String × Json)) : ∃ cs, (obj ms).print = '\x7b' :: cs := by
  cases ms with
  | nil => exact ⟨_, print.eq_8⟩
  | cons m ms => exact ⟨_, print.eq_9 m ms⟩

/-- The text of an object ends with a brace. -/
theorem getLast?_print_obj (ms : List (String × Json)) :
    (obj ms).print.getLast? = some '\x7d' := by
  have hmembers : ∀ ms : List (String × Json), (printMembers ms).getLast? = some '\x7d' := by
    intro ms
    induction ms with
    | nil => simp [printMembers]
    | cons m ms ih => simp [printMembers, List.getLast?_cons, List.getLast?_append, ih]
  cases ms with
  | nil => simp [print]
  | cons m ms => simp [print, List.getLast?_cons, List.getLast?_append, hmembers]

/-- **An object whose text is cut is not read.** -/
theorem eq_nil_of_parse_cut {ms : List (String × Json)} {p : List Char} {j : Json}
    (hcut : p ++ e = (obj ms).print) (h : parse (String.ofList p) = some j) : e = [] := by
  unfold parse at h
  rw [String.toList_ofList] at h
  split at h
  swap
  · cases h
  next j' r hv =>
  obtain ⟨cs, hcs⟩ := print_obj_cons ms
  have hended : Ended j' r := by
    rintro ⟨n, rfl⟩
    cases p with
    | nil => cases hv
    | cons c p =>
      rw [hcs] at hcut
      obtain ⟨rfl, -⟩ := List.cons.inj hcut
      obtain ⟨ms', hobj⟩ := eq_obj_of_value hv
      cases hobj
  have hlen : p.length + 1 ≤ (obj ms).print.length + 1 := by
    rw [← hcut, List.length_append]
    omega
  have hext := value_append hv hended hlen e
  have hprint := value_print (obj ms) ((obj ms).print.length + 1) [] (by omega)
    (by simp [EndsNumber])
  rw [List.append_nil] at hprint
  rw [hcut, hprint] at hext
  exact (List.append_eq_nil_iff.mp (Prod.mk.inj (Option.some.inj hext)).2.symm).2

end Json
