import Mathlib.Data.List.Basic
import Mathlib.Data.List.Forall2
import Mathlib.Data.List.TakeWhile

set_option relaxedAutoImplicit false
set_option autoImplicit false

/-!
# Byte strings, UTF-8 text and newline framing

Byte strings are lists of `UInt8`. Text is `String`; `utf8` is its UTF-8 encoding and
`fromUtf8` the checked decoding, which accepts exactly the encodings of strings.

The second half is about files made of lines. `frames` is the sequence of buffers that a
reader gets by reading up to and including the next newline until end of input; the last one
is the only one that may lack its newline.

## Main definitions

* `ByteText.utf8`, `ByteText.fromUtf8` — encoding and checked decoding.
* `ByteText.byteLength` — how many bytes characters take.
* `ByteText.decimal` — the decimal digits of a number, as bytes.
* `ByteText.frames` — the newline-terminated frames of a byte string.
* `ByteText.unlines` — the file made of given lines, each with its newline.
* `ByteText.afterNewline` — what follows the first newline.
* `ByteText.decodeLines` — the records of a file that holds one on each line.

## Main results

* `ByteText.fromUtf8_eq_some_iff` — `fromUtf8` is the partial inverse of `utf8`.
* `ByteText.decimal_append_sep_inj` — a decimal number followed by a separator is uniquely
  decodable.
* `ByteText.frames_unlines_append`, `ByteText.eq_unlines_of_frames` — frames and lines.
* `ByteText.decodeLines_eq_some_iff`, `ByteText.decodeLines_append` — files of records.
-/

namespace ByteText

/-- Byte strings. -/
abbrev Bytes := List UInt8

/-! ## UTF-8 -/

/-- The UTF-8 encoding of a string. -/
def utf8 (s : String) : Bytes := s.toByteArray.data.toList

/-- Checked UTF-8 decoding: `none` when the bytes are not the encoding of a string. -/
def fromUtf8 (b : Bytes) : Option String := String.fromUTF8? ⟨b.toArray⟩

/-- The encoding determines the string. -/
theorem utf8_injective : Function.Injective utf8 := by
  intro s t h
  rw [← String.toByteArray_inj]
  exact ByteArray.ext (Array.toList_inj.mp h)

/-- Checked decoding succeeds exactly on encodings, with the encoded string. -/
theorem fromUtf8_eq_some_iff {b : Bytes} {s : String} : fromUtf8 b = some s ↔ utf8 s = b := by
  unfold fromUtf8 String.fromUTF8? utf8
  constructor
  · intro h
    split at h
    · obtain rfl := Option.some.inj h
      rfl
    · cases h
  · rintro rfl
    have hv : (⟨s.toByteArray.data.toList.toArray⟩ : ByteArray) = s.toByteArray := by
      simp
    rw [hv, dif_pos s.isValidUTF8]
    rfl

/-- Decoding an encoding gives the string back. -/
@[simp] theorem fromUtf8_utf8 (s : String) : fromUtf8 (utf8 s) = some s :=
  fromUtf8_eq_some_iff.mpr rfl

/-- The encoding of a list of characters, character by character. -/
theorem utf8_ofList (cs : List Char) :
    utf8 (String.ofList cs) = cs.flatMap String.utf8EncodeChar := by
  simp [utf8, List.utf8Encode]

/-- The encoding of a concatenation. -/
theorem utf8_append (s t : String) : utf8 (s ++ t) = utf8 s ++ utf8 t := by
  simp [utf8, String.toByteArray_append]

/-- An ASCII character is encoded by one byte, its code. -/
theorem utf8EncodeChar_of_ascii {c : Char} (hc : c.toNat ≤ 127) :
    String.utf8EncodeChar c = [UInt8.ofNat c.toNat] := by
  unfold String.utf8EncodeChar
  exact if_pos hc

/-- An ASCII byte in the encoding of a character is that character's code.

**Proof sketch.** A one-byte encoding is the code itself. Every byte of a longer encoding has
its top bit set: the lead bytes are at least `0xc0` and the continuation bytes at least
`0x80`. -/
theorem toNat_eq_of_mem_utf8EncodeChar {c : Char} {b : UInt8}
    (hb : b ∈ String.utf8EncodeChar c) (h7 : b.toNat ≤ 127) : c.toNat = b.toNat := by
  unfold String.utf8EncodeChar at hb
  dsimp only at hb
  split_ifs at hb with h1 h2 h3
  · rw [List.mem_singleton] at hb
    subst hb
    change c.val.toNat = _
    rw [UInt8.toNat_ofNat', Nat.mod_eq_of_lt (by omega)]
  all_goals
    simp only [List.mem_cons, List.not_mem_nil, or_false] at hb
    exfalso
    rcases hb with rfl | rfl | rfl | rfl <;>
      · rw [UInt8.toNat_ofNat'] at h7
        omega

/-- An ASCII byte occurs in an encoding exactly when its character occurs in the text. -/
theorem mem_utf8_ofList_iff {cs : List Char} {c : Char} (hc : c.toNat ≤ 127) :
    UInt8.ofNat c.toNat ∈ utf8 (String.ofList cs) ↔ c ∈ cs := by
  rw [utf8_ofList, List.mem_flatMap]
  have hn : (UInt8.ofNat c.toNat).toNat = c.toNat := by
    rw [UInt8.toNat_ofNat', Nat.mod_eq_of_lt (by omega)]
  constructor
  · rintro ⟨d, hd, hb⟩
    have hdc := toNat_eq_of_mem_utf8EncodeChar hb (by omega)
    rw [hn] at hdc
    rwa [← Char.toNat_inj.mp hdc]
  · intro h
    exact ⟨c, h, by rw [utf8EncodeChar_of_ascii hc]; exact List.mem_singleton.mpr rfl⟩

/-- The encoding of a string, character by character. -/
theorem utf8_eq_flatMap (s : String) : utf8 s = s.toList.flatMap String.utf8EncodeChar := by
  rw [← utf8_ofList, String.ofList_toList]

/-- The first byte of a character's encoding. -/
theorem exists_mem_utf8EncodeChar (c : Char) : ∃ b, b ∈ String.utf8EncodeChar c := by
  refine List.exists_mem_of_ne_nil _ fun h0 => ?_
  have := String.length_utf8EncodeChar c
  rw [h0] at this
  exact absurd this (Nat.ne_of_lt c.utf8Size_pos)

/-- **ASCII text, by its bytes and by its characters.** All bytes are of a kind of ASCII bytes
exactly when all characters are ASCII and their codes are of that kind. -/
theorem forall_mem_utf8_iff {P : UInt8 → Prop} (hP : ∀ b, P b → b.toNat ≤ 127) {s : String} :
    (∀ b ∈ utf8 s, P b) ↔ ∀ c ∈ s.toList, c.toNat ≤ 127 ∧ P (UInt8.ofNat c.toNat) := by
  rw [utf8_eq_flatMap]
  constructor
  · intro h c hc
    obtain ⟨b, hb⟩ := exists_mem_utf8EncodeChar c
    have hPb := h b (List.mem_flatMap.mpr ⟨c, hc, hb⟩)
    have hcb := toNat_eq_of_mem_utf8EncodeChar hb (hP b hPb)
    rw [hcb]
    exact ⟨hP b hPb, by simpa using hPb⟩
  · intro h b hb
    obtain ⟨c, hc, hbc⟩ := List.mem_flatMap.mp hb
    obtain ⟨hc7, hPc⟩ := h c hc
    rw [utf8EncodeChar_of_ascii hc7, List.mem_singleton] at hbc
    rwa [hbc]

/-- ASCII text has one byte for each character. -/
theorem length_utf8_of_ascii {s : String} (h : ∀ c ∈ s.toList, c.toNat ≤ 127) :
    (utf8 s).length = s.length := by
  have hone : ∀ cs : List Char, (∀ c ∈ cs, c.toNat ≤ 127) →
      (cs.flatMap String.utf8EncodeChar).length = cs.length := by
    intro cs
    induction cs with
    | nil => simp
    | cons c cs ih =>
      intro hcs
      rw [List.forall_mem_cons] at hcs
      rw [List.flatMap_cons, utf8EncodeChar_of_ascii hcs.1]
      simp [ih hcs.2]
  rw [utf8_eq_flatMap, hone _ h, String.length_toList]

/-- The number of bytes that characters take. -/
def byteLength : List Char → ℕ
  | [] => 0
  | c :: cs => c.utf8Size + byteLength cs

@[simp] theorem byteLength_nil : byteLength [] = 0 := rfl

@[simp] theorem byteLength_cons (c : Char) (cs : List Char) :
    byteLength (c :: cs) = c.utf8Size + byteLength cs := rfl

@[simp] theorem byteLength_append (cs ds : List Char) :
    byteLength (cs ++ ds) = byteLength cs + byteLength ds := by
  induction cs with
  | nil => simp
  | cons c cs ih => simp [ih, Nat.add_assoc]

/-- The bytes of a string. -/
theorem length_utf8 (s : String) : (utf8 s).length = byteLength s.toList := by
  rw [utf8_eq_flatMap]
  induction s.toList with
  | nil => rfl
  | cons c cs ih => simp [ih]

/-- Every character takes a byte. -/
theorem length_le_byteLength (cs : List Char) : cs.length ≤ byteLength cs := by
  induction cs with
  | nil => simp
  | cons c cs ih =>
    have := c.utf8Size_pos
    rw [List.length_cons, byteLength_cons]
    omega

/-- A character takes four bytes at most. -/
theorem byteLength_le (cs : List Char) : byteLength cs ≤ 4 * cs.length := by
  induction cs with
  | nil => simp
  | cons c cs ih =>
    have := c.utf8Size_le_four
    rw [byteLength_cons, List.length_cons]
    omega

/-- ASCII characters take one byte each. -/
theorem byteLength_of_ascii {cs : List Char} (h : ∀ c ∈ cs, c.toNat ≤ 127) :
    byteLength cs = cs.length := by
  have hbytes := length_utf8_of_ascii (s := String.ofList cs) (by simpa using h)
  rwa [length_utf8, String.toList_ofList, String.length_ofList] at hbytes

/-- Text whose bytes begin a longer text begins it. -/
theorem toList_prefix_of_utf8 {s t : String} (h : utf8 s <+: utf8 t) :
    s.toList <+: t.toList := by
  obtain ⟨r, hr⟩ := h
  have hbytes : s.toList.utf8Encode ++ ⟨r.toArray⟩ = t.toList.utf8Encode := by
    rw [String.utf8Encode_toList, String.utf8Encode_toList]
    apply ByteArray.ext
    rw [ByteArray.data_append, ← Array.toList_inj, Array.toList_append]
    exact hr
  exact List.isPrefix_of_utf8Encode_append_eq_utf8Encode _ hbytes

/-! ## Decimal numbers -/

/-- The decimal digits of `n`, as bytes. -/
def decimal (n : ℕ) : Bytes := utf8 (toString n)

/-- The decimal form determines the number. -/
theorem decimal_injective : Function.Injective decimal := by
  intro m n h
  have hs : toString m = toString n := utf8_injective h
  have hd : Nat.toDigits 10 m = Nat.toDigits 10 n := by
    rw [Nat.toString_eq_ofList_toDigits, Nat.toString_eq_ofList_toDigits] at hs
    exact String.ofList_inj.mp hs
  rw [← Nat.ofDigitChars_ten_toDigits (n := m), hd, Nat.ofDigitChars_ten_toDigits]

/-- A decimal form holds no colon. -/
theorem colon_not_mem_decimal (n : ℕ) : (58 : UInt8) ∉ decimal n := by
  intro h
  rw [decimal, Nat.toString_eq_ofList_toDigits] at h
  have hm : ':' ∈ Nat.toDigits 10 n := (mem_utf8_ofList_iff (c := ':') (by decide)).mp h
  have := Nat.isDigit_of_mem_toDigits (by decide) (by decide) hm
  revert this
  decide

/-- Words without the separator, followed by it, are uniquely decodable. -/
theorem append_sep_inj {a : UInt8} : ∀ {x y r s : Bytes}, a ∉ x → a ∉ y →
    x ++ a :: r = y ++ a :: s → x = y ∧ r = s
  | [], [], _, _, _, _, h => ⟨rfl, (List.cons.inj h).2⟩
  | [], c :: y, _, _, _, hy, h => absurd List.mem_cons_self ((List.cons.inj h).1 ▸ hy)
  | c :: x, [], _, _, hx, _, h => absurd List.mem_cons_self ((List.cons.inj h).1 ▸ hx)
  | c :: x, d :: y, _, _, hx, hy, h => by
    obtain ⟨rfl, ht⟩ := List.cons.inj h
    obtain ⟨rfl, hr⟩ := append_sep_inj (fun hm => hx (List.mem_cons_of_mem _ hm))
      (fun hm => hy (List.mem_cons_of_mem _ hm)) ht
    exact ⟨rfl, hr⟩

/-- A decimal number followed by a colon is uniquely decodable, whatever follows. -/
theorem decimal_append_sep_inj {m n : ℕ} {r s : Bytes}
    (h : decimal m ++ 58 :: r = decimal n ++ 58 :: s) : m = n ∧ r = s := by
  obtain ⟨hd, hr⟩ := append_sep_inj (colon_not_mem_decimal m) (colon_not_mem_decimal n) h
  exact ⟨decimal_injective hd, hr⟩

/-! ## Newline framing -/

/-- The newline byte. -/
abbrev newline : UInt8 := 10

/-- The successive buffers of a reader that reads up to and including the next newline, until
end of input. Only the last one can lack its newline. -/
def frames : Bytes → List Bytes
  | [] => []
  | b :: bs =>
    if b = newline then [b] :: frames bs
    else
      match frames bs with
      | [] => [[b]]
      | f :: fs => (b :: f) :: fs

/-- The file made of the given lines, each terminated by a newline. -/
def unlines (ls : List Bytes) : Bytes := ls.flatMap (· ++ [newline])

@[simp] theorem unlines_nil : unlines [] = [] := rfl

@[simp] theorem unlines_cons (l : Bytes) (ls : List Bytes) :
    unlines (l :: ls) = l ++ newline :: unlines ls := by
  simp [unlines]

@[simp] theorem unlines_append (ls ms : List Bytes) :
    unlines (ls ++ ms) = unlines ls ++ unlines ms := by
  simp [unlines]

/-- A line without a newline, then its newline, is the first frame. -/
theorem frames_line_append (l rest : Bytes) (hl : newline ∉ l) :
    frames (l ++ newline :: rest) = (l ++ [newline]) :: frames rest := by
  induction l with
  | nil => simp [frames]
  | cons b l ih =>
    rw [List.mem_cons, not_or] at hl
    simp only [List.cons_append, frames, ih hl.2]
    rw [if_neg (Ne.symm hl.1)]

/-- The frames of a file of lines followed by anything are the lines with their newlines,
followed by the frames of the rest. -/
theorem frames_unlines_append (ls : List Bytes) (rest : Bytes) (h : ∀ l ∈ ls, newline ∉ l) :
    frames (unlines ls ++ rest) = ls.map (· ++ [newline]) ++ frames rest := by
  induction ls with
  | nil => simp
  | cons l ls ih =>
    have hl : newline ∉ l := h l List.mem_cons_self
    rw [unlines_cons, List.append_assoc, List.cons_append, frames_line_append l _ hl,
      ih fun m hm => h m (List.mem_cons_of_mem _ hm)]
    simp

/-- The frames of a byte string concatenate to it. -/
theorem flatten_frames (bs : Bytes) : (frames bs).flatten = bs := by
  induction bs with
  | nil => rfl
  | cons b bs ih =>
    simp only [frames]
    split
    · simp [ih]
    · cases hf : frames bs with
      | nil => rw [hf] at ih; simp [← ih]
      | cons f fs => rw [hf] at ih; simp [← ih]

/-- A newline is the last byte of the frame that holds it. -/
theorem newline_not_mem_dropLast_of_mem_frames :
    ∀ (bs : Bytes), ∀ f ∈ frames bs, newline ∉ f.dropLast
  | [], f, hf => by cases hf
  | b :: bs, f, hf => by
    have ih := newline_not_mem_dropLast_of_mem_frames bs
    simp only [frames] at hf
    split at hf
    · rcases List.mem_cons.mp hf with rfl | hf
      · simp
      · exact ih f hf
    · rename_i hb
      cases hfr : frames bs with
      | nil =>
        rw [hfr] at hf
        obtain rfl := List.mem_singleton.mp hf
        simp
      | cons g gs =>
        rw [hfr] at hf ih
        rcases List.mem_cons.mp hf with rfl | hf
        · cases g with
          | nil => simp
          | cons x xs =>
            have hg := ih (x :: xs) List.mem_cons_self
            rw [List.dropLast_cons_of_ne_nil (by simp), List.mem_cons, not_or]
            exact ⟨Ne.symm hb, hg⟩
        · exact ih f (List.mem_cons_of_mem _ hf)

/-- A byte string whose frames all end in a newline is the file of those frames without it. -/
theorem eq_unlines_of_frames {bs : Bytes} (h : ∀ f ∈ frames bs, f.getLast? = some newline) :
    bs = unlines ((frames bs).map List.dropLast) := by
  have hfr : ∀ fs : List Bytes, (∀ f ∈ fs, f.getLast? = some newline) →
      fs.flatten = unlines (fs.map List.dropLast) := by
    intro fs hfs
    induction fs with
    | nil => rfl
    | cons f fs ih =>
      have hf : f.dropLast ++ [newline] = f :=
        List.dropLast_append_getLast? _ (hfs f List.mem_cons_self)
      rw [List.flatten_cons, List.map_cons, unlines_cons,
        ih fun g hg => hfs g (List.mem_cons_of_mem _ hg)]
      conv_lhs => rw [← hf]
      simp
  rw [← hfr _ h, flatten_frames]

/-- Splitting a file of lines at its newlines leaves an empty part after the last one. -/
theorem splitOn_unlines {ls : List Bytes} (h : ∀ l ∈ ls, newline ∉ l) :
    (unlines ls).splitOn newline = ls ++ [[]] := by
  induction ls with
  | nil => rfl
  | cons l ls ih =>
    rw [unlines_cons, List.splitOn_append_cons_self_of_not_mem (h l List.mem_cons_self),
      ih fun m hm => h m (List.mem_cons_of_mem _ hm)]
    rfl

/-- What follows the first newline; nothing when there is none. -/
def afterNewline (bs : Bytes) : Bytes :=
  match bs.findIdx? (· == newline) with
  | some pos => bs.drop (pos + 1)
  | none => []

/-- What follows the first newline follows the first line. -/
theorem afterNewline_line_append {l : Bytes} (hl : newline ∉ l) (rest : Bytes) :
    afterNewline (l ++ newline :: rest) = rest := by
  have hpos : (l ++ newline :: rest).findIdx? (· == newline) = some l.length := by
    rw [List.findIdx?_append, List.findIdx?_eq_none_iff.mpr]
    · simp [List.findIdx?_cons]
    · intro b hb
      simpa using fun h : b = newline => hl (h ▸ hb)
  rw [afterNewline, hpos]
  simp

/-- A text with a newline, as its first line and what follows. -/
theorem eq_append_afterNewline {bs : Bytes} (h : newline ∈ bs) :
    ∃ l, newline ∉ l ∧ bs = l ++ newline :: afterNewline bs := by
  obtain ⟨l, rest, rfl, hl⟩ := List.eq_append_cons_of_mem h
  exact ⟨l, hl, by rw [afterNewline_line_append hl]⟩

/-- A text without a newline has nothing after one. -/
theorem afterNewline_eq_nil {bs : Bytes} (h : newline ∉ bs) : afterNewline bs = [] := by
  have hnone : bs.findIdx? (· == newline) = none := by
    rw [List.findIdx?_eq_none_iff]
    intro b hb
    simpa using fun heq : b = newline => h (heq ▸ hb)
  rw [afterNewline, hnone]

/-- A window that starts before the last line of a file, without its first and possibly partial
line, is made of whole lines up to the last one. -/
theorem afterNewline_drop_unlines {l : Bytes} (hl : newline ∉ l) :
    ∀ {ms : List Bytes} {n : ℕ}, (∀ m ∈ ms, newline ∉ m) → n < (unlines ms).length →
      ∃ ks : List Bytes, (∀ k ∈ ks, newline ∉ k) ∧
        afterNewline ((unlines (ms ++ [l])).drop n) = unlines (ks ++ [l])
  | [], n, _, hn => absurd hn (Nat.not_lt_zero n)
  | m :: ms, n, hms, hn => by
    rw [List.forall_mem_cons] at hms
    rw [List.cons_append, unlines_cons]
    by_cases hnm : n ≤ m.length
    · -- The window starts in the first line: what follows it are all the others.
      refine ⟨ms, hms.2, ?_⟩
      rw [List.drop_append_of_le_length hnm]
      exact afterNewline_line_append (fun h => hms.1 (List.mem_of_mem_drop h)) _
    · have hn' : n - m.length - 1 < (unlines ms).length := by
        rw [unlines_cons, List.length_append, List.length_cons] at hn
        omega
      obtain ⟨ks, hks, heq⟩ := afterNewline_drop_unlines hl hms.2 hn'
      refine ⟨ks, hks, ?_⟩
      rw [List.drop_append, List.drop_eq_nil_of_le (by omega), List.nil_append, ← heq,
        show n - m.length = (n - m.length - 1) + 1 by omega, List.drop_succ_cons]
      simp

/-- A window that starts in the last line of a file holds nothing after its first newline. -/
theorem afterNewline_drop_unlines_eq_nil {l : Bytes} (hl : newline ∉ l) {ms : List Bytes} {n : ℕ}
    (hn : (unlines ms).length ≤ n) : afterNewline ((unlines (ms ++ [l])).drop n) = [] := by
  rw [unlines_append, List.drop_append, List.drop_eq_nil_of_le hn, List.nil_append, unlines_cons,
    unlines_nil]
  by_cases hnl : n - (unlines ms).length ≤ l.length
  · rw [List.drop_append_of_le_length hnl]
    exact afterNewline_line_append (fun h => hl (List.mem_of_mem_drop h)) _
  · rw [List.drop_eq_nil_of_le (by simp; omega)]
    rfl

/-! ## Files of records -/

section Records

variable {α : Type*} (f : Bytes → Option α)

/-- The record of a line that has its newline. -/
def decodeFrame (buf : Bytes) : Option α :=
  if buf.getLast? = some newline then f buf.dropLast else none

/-- The records of a file that holds one on each line; `none` when a line is incomplete or is
not a record. -/
def decodeLines (c : Bytes) : Option (List α) := (frames c).mapM (decodeFrame f)

variable {f}

/-- A list is decoded when all its items are. -/
theorem mapM_eq_some_iff {β : Type*} {g : β → Option α} {bs : List β} {as : List α} :
    bs.mapM g = some as ↔ List.Forall₂ (fun b a => g b = some a) bs as := by
  induction bs generalizing as with
  | nil => simp [eq_comm]
  | cons b bs ih =>
    rw [List.mapM_cons, List.forall₂_cons_left_iff]
    simp only [Option.bind_eq_bind, Option.bind_eq_some_iff, Option.pure_def, Option.some.injEq, ih]
    constructor
    · rintro ⟨a, ha, as', has, rfl⟩
      exact ⟨a, as', ha, has, rfl⟩
    · rintro ⟨a, as', ha, has, rfl⟩
      exact ⟨a, ha, as', has, rfl⟩

/-- The last item of a decoded list is the decoded last item. -/
theorem getLast?_of_mapM_eq_some {β : Type*} {g : β → Option α} {bs : List β} {as : List α}
    (h : bs.mapM g = some as) : as.getLast? = bs.getLast?.bind g := by
  rcases List.eq_nil_or_concat bs with rfl | ⟨bs', b, rfl⟩
  · obtain rfl : as = [] := by simpa using h.symm
    rfl
  · rw [List.concat_eq_append] at h ⊢
    simp only [List.mapM_append, List.mapM_cons, List.mapM_nil, Option.bind_eq_bind,
      Option.bind_eq_some_iff, Option.pure_def, Option.some.injEq] at h
    obtain ⟨as', -, _, ⟨a, ha, _, rfl, rfl⟩, rfl⟩ := h
    simp [ha]

/-- A line decodes when it has its newline and its text is a record. -/
theorem decodeFrame_eq_some_iff {buf : Bytes} {x : α} :
    decodeFrame f buf = some x ↔ buf.getLast? = some newline ∧ f buf.dropLast = some x := by
  unfold decodeFrame
  split <;> simp [*]

/-- **Files of records.** A file decodes to the given records exactly when it is made of lines,
each with its newline, and the lines are those records. -/
theorem decodeLines_eq_some_iff {c : Bytes} {xs : List α} :
    decodeLines f c = some xs ↔
      ∃ ls, c = unlines ls ∧ (∀ l ∈ ls, newline ∉ l) ∧
        List.Forall₂ (fun l x => f l = some x) ls xs := by
  rw [decodeLines, mapM_eq_some_iff]
  simp only [decodeFrame_eq_some_iff]
  rw [List.forall₂_and_left]
  constructor
  · rintro ⟨hlast, h⟩
    refine ⟨(frames c).map List.dropLast, eq_unlines_of_frames hlast, fun l hl => ?_, ?_⟩
    · obtain ⟨buf, hbuf, rfl⟩ := List.mem_map.mp hl
      exact newline_not_mem_dropLast_of_mem_frames c buf hbuf
    · exact List.forall₂_map_left_iff.mpr h
  · rintro ⟨ls, rfl, hls, h⟩
    have hfr := frames_unlines_append ls [] hls
    rw [List.append_nil, frames, List.append_nil] at hfr
    rw [hfr, List.forall₂_map_left_iff]
    refine ⟨fun buf hbuf => ?_, h.imp fun l x hx => ?_⟩
    · obtain ⟨l, -, rfl⟩ := List.mem_map.mp hbuf
      exact List.getLast?_concat
    · rwa [List.dropLast_concat]

/-- Every record of a file takes one line, with its newline. -/
theorem forall₂_frames_of_decodeLines {c : Bytes} {xs : List α} (h : decodeLines f c = some xs) :
    List.Forall₂ (fun buf x => ∃ l, buf = l ++ [newline] ∧ newline ∉ l ∧ f l = some x)
      (frames c) xs := by
  obtain ⟨ls, rfl, hls, hdec⟩ := decodeLines_eq_some_iff.mp h
  have hfr := frames_unlines_append ls [] hls
  rw [List.append_nil, frames, List.append_nil] at hfr
  rw [hfr, List.forall₂_map_left_iff]
  have hboth := (List.forall₂_and_left _ _).mpr ⟨hls, hdec⟩
  exact hboth.imp fun l x hx => ⟨l, rfl, hx.1, hx.2⟩

/-- Records after a file that decodes: the rest is decoded on its own. -/
theorem decodeLines_append {a b : Bytes} {xs : List α} (ha : decodeLines f a = some xs) :
    decodeLines f (a ++ b) = (decodeLines f b).map (xs ++ ·) := by
  obtain ⟨ls, rfl, hls, -⟩ := decodeLines_eq_some_iff.mp ha
  have hfr := frames_unlines_append ls [] hls
  rw [List.append_nil, frames, List.append_nil] at hfr
  rw [decodeLines, hfr] at ha
  rw [decodeLines, frames_unlines_append ls b hls, List.mapM_append, ha]
  cases hb : (frames b).mapM (decodeFrame f) <;> simp [decodeLines, hb]

/-- A file of one line. -/
theorem decodeLines_line {l : Bytes} (hl : newline ∉ l) :
    decodeLines f (l ++ [newline]) = (f l).map fun x => [x] := by
  rw [decodeLines, frames_line_append l [] hl, frames, List.mapM_cons, List.mapM_nil, decodeFrame,
    if_pos List.getLast?_concat, List.dropLast_concat]
  cases f l <;> rfl

end Records

end ByteText
