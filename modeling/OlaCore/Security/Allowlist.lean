import Mathlib.Data.Finset.Insert
import Mathlib.Data.Finset.Lattice.Basic
import Mathlib.Data.Finset.Dedup
import Mathlib.Data.List.Forall2
import OlaCore.Core.Types

set_option relaxedAutoImplicit false
set_option autoImplicit false

/-!
# The allowlist

The users that may talk to the daemon (`security/allowlist`). The file has one user per line, with
comments after `#`. In production a line that is not a user is an error; otherwise it is skipped.
Root and the user that the daemon runs as are always allowed.

## Main definitions

* `OlaCore.Allowlist`, `OlaCore.Allowlist.isAllowed`.
* `OlaCore.Allowlist.loadFromFileWithOptions` — the allowlist of a file.
* `OlaCore.IsNumeral`, `OlaCore.listedUids`, `OlaCore.IsBadLine` — what the text of a file says,
  line by line.

## Main results

* `OlaCore.parseUnsigned_eq_some_iff` — which texts are read as a number.
* `OlaCore.Allowlist.loadLines_of_ok` — what a loop over the lines does.
* `OlaCore.Allowlist.load_grammar` — what loading a file gives, for every text.
-/

namespace OlaCore

/-- The pieces of a text, each with the newline that ends it (`str::split_inclusive`). -/
def splitInclusive : List Char → List (List Char)
  | [] => []
  | c :: cs =>
    if c = '\n' then [c] :: splitInclusive cs
    else
      match splitInclusive cs with
      | [] => [[c]]
      | piece :: pieces => (c :: piece) :: pieces

/-- A piece without its line ending, `\n` or `\r\n`. A piece without a newline is left alone. -/
def stripLineEnding (piece : List Char) : List Char :=
  if piece.getLast? = some '\n' then
    if piece.dropLast.getLast? = some '\r' then piece.dropLast.dropLast else piece.dropLast
  else piece

/-- The lines of a text (`str::lines`). -/
def lines (s : String) : List String :=
  (splitInclusive s.toList).map fun piece => String.ofList (stripLineEnding piece)

/-- What a line says about a user: the part before the first `#`, trimmed. -/
def uidText (line : String) : String :=
  trim (String.ofList (line.toList.takeWhile (· ≠ '#')))

/-- The users that may talk to the daemon. -/
structure Allowlist where
  allowedUids : Finset UInt32

namespace Allowlist

/-- No users. -/
def new : Allowlist := ⟨∅⟩

/-- Read lines, of which the first one has the number `i + 1`. -/
def loadLines (strict : Bool) : ℕ → Allowlist → List String → Except String Unit × Allowlist
  | _, allowlist, [] => (.ok (), allowlist)
  | i, allowlist, line :: lines =>
    if uidText line = "" then loadLines strict (i + 1) allowlist lines
    else
      match parseUnsigned (2 ^ 32) (uidText line) with
      | some uid =>
        loadLines strict (i + 1) ⟨insert (UInt32.ofNat uid) allowlist.allowedUids⟩ lines
      | none =>
        if strict then
          (.error ("invalid UID on line " ++ toString (i + 1) ++ " in allowlist"), allowlist)
        else loadLines strict (i + 1) allowlist lines

/-- Load the allowlist, given what reading the file gave. Nothing changes when the file cannot be
read. -/
def loadFromFileWithOptions (allowlist : Allowlist) (file : Except String String) (strict : Bool) :
    Except String Unit × Allowlist :=
  match file with
  | .error e => (.error e, allowlist)
  | .ok content => loadLines strict 0 new (lines content)

/-- May the user talk to a daemon that runs as `ownUid`? -/
def isAllowed (allowlist : Allowlist) (ownUid uid : UInt32) : Bool :=
  uid = 0 || uid = ownUid || uid ∈ allowlist.allowedUids

end Allowlist

/-! ## What the text of a file says -/

/-- A numeral: an optional `+`, and then decimal digits. -/
def IsNumeral (text : List Char) (value : ℕ) : Prop :=
  ∃ digits, (text = digits ∨ text = '+' :: digits) ∧ digits ≠ [] ∧
    (∀ c ∈ digits, c.isDigit = true) ∧ value = Nat.ofDigitChars 10 digits 0

/-- The lines of a text: what stands between its newlines. -/
def linesOf (s : String) : List (List Char) := s.toList.splitOn '\n'

/-- The users of a text: the values of the lines that hold a numeral below `2 ^ 32`. -/
def listedUids (s : String) : Set UInt32 :=
  {uid | ∃ line ∈ linesOf s, IsNumeral (uidText (String.ofList line)).toList uid.toNat}

/-- A bad line says something that is not a numeral below `2 ^ 32`. -/
def IsBadLine (line : List Char) : Prop :=
  uidText (String.ofList line) ≠ "" ∧
    ¬ ∃ value < 2 ^ 32, IsNumeral (uidText (String.ofList line)).toList value

/-- Two texts with the same lines, in any order and any number of times. -/
def SameLines (s t : String) : Prop := ∀ line, line ∈ linesOf s ↔ line ∈ linesOf t

/-- Two texts that differ in their comments only. -/
def SameButComments (s t : String) : Prop :=
  List.Forall₂ (fun line line' => line.takeWhile (· ≠ '#') = line'.takeWhile (· ≠ '#'))
    (linesOf s) (linesOf t)

/-- Two texts that differ in their line endings only: a line may end in a carriage return in one of
them and not in the other. -/
def SameButLineEndings (s t : String) : Prop :=
  List.Forall₂ (fun line line' => line = line' ∨ line = line' ++ ['\r'] ∨ line' = line ++ ['\r'])
    (linesOf s) (linesOf t)

/-- The outcome of loading a file: the users, if it succeeds. -/
def loadOutcome (result : Except String Unit × Allowlist) : Option (Finset UInt32) :=
  match result.1 with
  | .ok () => some result.2.allowedUids
  | .error _ => none

/-! ## Numerals -/

/-- **Which texts are read as a number.** -/
theorem parseUnsigned_eq_some_iff {bound value : ℕ} {s : String} :
    parseUnsigned bound s = some value ↔ IsNumeral s.toList value ∧ value < bound := by
  have hplus : ∀ digits : List Char, (∀ c ∈ digits, c.isDigit = true) →
      digits.head? ≠ some '+' := by
    intro digits hdigits hhead
    have := hdigits '+' (List.mem_of_mem_head? hhead)
    revert this
    decide
  unfold parseUnsigned
  dsimp only
  constructor
  · intro h
    have htext : s.toList = (if s.toList.head? = some '+' then s.toList.tail else s.toList) ∨
        s.toList = '+' :: if s.toList.head? = some '+' then s.toList.tail else s.toList := by
      split
      · next hhead => exact .inr (List.cons_head?_tail hhead).symm
      · exact .inl rfl
    generalize (if s.toList.head? = some '+' then s.toList.tail else s.toList) = digits at h htext
    split at h
    · next hok =>
      obtain rfl := Option.some.inj h
      exact ⟨⟨digits, htext, hok.1, List.all_eq_true.mp hok.2.1, rfl⟩, hok.2.2⟩
    · cases h
  · rintro ⟨⟨digits, htext, hne, hdigits, rfl⟩, hlt⟩
    have hsame : (if s.toList.head? = some '+' then s.toList.tail else s.toList) = digits := by
      rcases htext with htext | htext
      · rw [if_neg (by rw [htext]; exact hplus digits hdigits), htext]
      · rw [htext, List.head?_cons, if_pos rfl, List.tail_cons]
    rw [hsame, if_pos ⟨hne, List.all_eq_true.mpr hdigits, hlt⟩]

/-- The empty text is no number. -/
theorem parseUnsigned_empty (bound : ℕ) : parseUnsigned bound "" = none := by
  simp [parseUnsigned]

/-! ## Lines -/

/-- A first line with its newline. -/
theorem splitInclusive_line_append {l : List Char} (hl : '\n' ∉ l) (rest : List Char) :
    splitInclusive (l ++ '\n' :: rest) = (l ++ ['\n']) :: splitInclusive rest := by
  induction l with
  | nil => simp [splitInclusive]
  | cons c l ih =>
    rw [List.mem_cons, not_or] at hl
    simp only [List.cons_append, splitInclusive, if_neg (Ne.symm hl.1), ih hl.2]

/-- A last line without a newline. -/
theorem splitInclusive_of_not_mem {l : List Char} (hl : '\n' ∉ l) :
    splitInclusive l = if l = [] then [] else [l] := by
  induction l with
  | nil => rfl
  | cons c l ih =>
    rw [List.mem_cons, not_or] at hl
    rw [splitInclusive, if_neg (Ne.symm hl.1), ih hl.2, if_neg (List.cons_ne_nil c l)]
    by_cases hnil : l = []
    · rw [if_pos hnil, hnil]
    · rw [if_neg hnil]

/-- Whitespace at the end is stripped. -/
theorem trim_append_whiteSpace {cs : List Char} {c : Char} (hc : isWhiteSpace c = true) :
    trim (String.ofList (cs ++ [c])) = trim (String.ofList cs) := by
  unfold trim
  simp only [String.toList_ofList]
  by_cases hall : ∀ b ∈ cs, isWhiteSpace b = true
  · rw [List.dropWhile_append_of_pos hall, List.dropWhile_eq_nil_iff.mpr hall]
    simp [hc]
  · have hne : cs.dropWhile isWhiteSpace ≠ [] := fun h => hall (List.dropWhile_eq_nil_iff.mp h)
    rw [List.dropWhile_append, if_neg (by simpa using hne), List.reverse_append]
    simp [hc]

/-- A carriage return at the end of a line says nothing. -/
theorem uidText_append_cr (line : List Char) :
    uidText (String.ofList (line ++ ['\r'])) = uidText (String.ofList line) := by
  unfold uidText
  simp only [String.toList_ofList]
  by_cases hno : ∀ c ∈ line, (decide (c ≠ '#')) = true
  · -- There is no comment, and the carriage return is stripped.
    rw [List.takeWhile_append_of_pos hno, List.takeWhile_cons_of_pos (by decide),
      List.takeWhile_nil, List.takeWhile_eq_self_iff.mpr hno, trim_append_whiteSpace (by decide)]
  · -- The carriage return is part of the comment.
    have hshort : (line.takeWhile (· ≠ '#')).length ≠ line.length := by
      intro heq
      exact hno (List.takeWhile_eq_self_iff.mp
        ((List.takeWhile_prefix (· ≠ '#')).eq_of_length heq))
    rw [List.takeWhile_append, if_neg hshort]

/-- The line ending of a piece says nothing. -/
theorem uidText_stripLineEnding (line : List Char) :
    uidText (String.ofList (stripLineEnding (line ++ ['\n']))) = uidText (String.ofList line) := by
  unfold stripLineEnding
  rw [if_pos (by simp), List.dropLast_concat]
  split
  · next hcr =>
    have hline : line.dropLast ++ ['\r'] = line := List.dropLast_append_getLast? _ hcr
    conv_rhs => rw [← hline, uidText_append_cr]
  · rfl

/-- What the pieces of a text say is what its lines say. -/
theorem exists_uidText_splitInclusive {text : String} (hne : text ≠ "") (cs : List Char) :
    (∃ piece ∈ splitInclusive cs, uidText (String.ofList (stripLineEnding piece)) = text) ↔
      ∃ line ∈ cs.splitOn '\n', uidText (String.ofList line) = text := by
  induction hn : cs.length using Nat.strong_induction_on generalizing cs with
  | _ n ih =>
    by_cases hmem : '\n' ∈ cs
    · obtain ⟨l, rest, rfl, hl⟩ := List.eq_append_cons_of_mem hmem
      rw [List.length_append, List.length_cons] at hn
      have hrest := ih rest.length (by omega) rest rfl
      rw [splitInclusive_line_append hl, List.splitOn_append_cons_self_of_not_mem hl,
        List.exists_mem_cons_iff, List.exists_mem_cons_iff, uidText_stripLineEnding, hrest]
    · have hlast : cs.getLast? ≠ some '\n' := fun h => hmem (List.mem_of_getLast? h)
      rw [List.splitOn_eq_singleton hmem, splitInclusive_of_not_mem hmem]
      by_cases hnil : cs = []
      · -- The line after the last newline is empty.
        subst hnil
        have hempty : uidText (String.ofList []) = "" := by decide
        simp only [if_true, List.not_mem_nil, false_and, exists_false, List.mem_singleton,
          exists_eq_left, hempty, false_iff]
        exact fun h => hne h.symm
      · simp [hnil, stripLineEnding, hlast]

/-- What the lines of a file say. -/
theorem exists_uidText_lines {text : String} (hne : text ≠ "") (s : String) :
    (∃ line ∈ lines s, uidText line = text) ↔
      ∃ line ∈ linesOf s, uidText (String.ofList line) = text := by
  rw [linesOf, ← exists_uidText_splitInclusive hne]
  simp [lines]

/-! ## Loading -/

namespace Allowlist

variable {allowlist allowlist' : Allowlist} {strict : Bool} {s t : String}

/-- The user that a line lists. -/
def uidOf (line : String) : Option UInt32 :=
  (parseUnsigned (2 ^ 32) (uidText line)).map UInt32.ofNat

/-- **What a loop over the lines does** when no line is bad, or bad lines are skipped: it adds the
users that the lines list. -/
theorem loadLines_of_ok {ls : List String} (i : ℕ) (allowlist : Allowlist)
    (h : strict = true → ∀ line ∈ ls, uidText line ≠ "" → uidOf line ≠ none) :
    loadLines strict i allowlist ls =
      (.ok (), ⟨allowlist.allowedUids ∪ (ls.filterMap uidOf).toFinset⟩) := by
  induction ls generalizing i allowlist with
  | nil => simp [loadLines]
  | cons line ls ih =>
    have hrest := fun i allowlist => ih i allowlist
      fun hstrict l hl => h hstrict l (List.mem_cons_of_mem _ hl)
    unfold loadLines
    split
    · next hempty =>
      have hnone : uidOf line = none := by rw [uidOf, hempty, parseUnsigned_empty]; rfl
      rw [hrest, List.filterMap_cons_none hnone]
    · next hne =>
      split
      · next uid hparse =>
        have hsome : uidOf line = some (UInt32.ofNat uid) := by rw [uidOf, hparse]; rfl
        rw [hrest, List.filterMap_cons_some hsome]
        simp [Finset.insert_union, Finset.union_insert]
      · next hparse =>
        have hnone : uidOf line = none := by rw [uidOf, hparse]; rfl
        rw [if_neg fun hstrict => h hstrict line List.mem_cons_self hne hnone, hrest,
          List.filterMap_cons_none hnone]

/-- A strict loop stops at the first bad line. -/
theorem loadLines_of_bad {ls : List String} (i : ℕ) (allowlist : Allowlist)
    (h : ∃ line ∈ ls, uidText line ≠ "" ∧ uidOf line = none) :
    ∃ e, (loadLines true i allowlist ls).1 = .error e := by
  induction ls generalizing i allowlist with
  | nil => simp at h
  | cons line ls ih =>
    rw [List.exists_mem_cons_iff] at h
    unfold loadLines
    split
    · next hempty => exact ih _ _ (h.resolve_left fun hbad => hbad.1 hempty)
    · next hne =>
      split
      · next uid hparse =>
        refine ih _ _ (h.resolve_left fun hbad => ?_)
        have hsome : uidOf line = some (UInt32.ofNat uid) := by rw [uidOf, hparse]; rfl
        rw [hbad.2] at hsome
        cases hsome
      · exact ⟨_, rfl⟩

/-- The users that the lines list are those of the text. -/
theorem mem_filterMap_uidOf {uid : UInt32} :
    uid ∈ ((lines s).filterMap uidOf).toFinset ↔ uid ∈ listedUids s := by
  have hnumeral : ∀ text, (parseUnsigned (2 ^ 32) text).map UInt32.ofNat = some uid ↔
      text ≠ "" ∧ IsNumeral text.toList uid.toNat := by
    intro text
    rw [Option.map_eq_some_iff]
    constructor
    · rintro ⟨value, hparse, rfl⟩
      obtain ⟨hnum, hlt⟩ := parseUnsigned_eq_some_iff.mp hparse
      rw [UInt32.toNat_ofNat_of_lt' hlt]
      refine ⟨?_, hnum⟩
      rintro rfl
      rw [parseUnsigned_empty] at hparse
      cases hparse
    · rintro ⟨-, hnum⟩
      exact ⟨uid.toNat, parseUnsigned_eq_some_iff.mpr ⟨hnum, uid.toNat_lt⟩, UInt32.ofNat_toNat⟩
  have hnonempty : ∀ text, IsNumeral text uid.toNat → text ≠ [] := by
    rintro text ⟨digits, rfl | rfl, hne, -⟩
    · exact hne
    · exact List.cons_ne_nil _ _
  simp only [List.mem_toFinset, List.mem_filterMap, uidOf, hnumeral]
  constructor
  · rintro ⟨line, hline, hne, hnum⟩
    obtain ⟨line', hline', htext⟩ := (exists_uidText_lines hne s).mp ⟨line, hline, rfl⟩
    exact ⟨line', hline', by rwa [htext]⟩
  · rintro ⟨line, hline, hnum⟩
    have hne : uidText (String.ofList line) ≠ "" := by
      intro hempty
      exact hnonempty _ hnum (by rw [hempty]; rfl)
    obtain ⟨line', hline', htext⟩ := (exists_uidText_lines hne s).mpr ⟨line, hline, rfl⟩
    exact ⟨line', hline', by rwa [htext], by rwa [htext]⟩

/-- The bad lines of a file are those of the text. -/
theorem exists_bad_iff :
    (∃ line ∈ lines s, uidText line ≠ "" ∧ uidOf line = none) ↔
      ∃ line ∈ linesOf s, IsBadLine line := by
  have hbad : ∀ text, (parseUnsigned (2 ^ 32) text).map UInt32.ofNat = none ↔
      ¬ ∃ value < 2 ^ 32, IsNumeral text.toList value := by
    intro text
    rw [Option.map_eq_none_iff, Option.eq_none_iff_forall_ne_some, not_exists]
    refine forall_congr' fun value => ?_
    rw [ne_eq, parseUnsigned_eq_some_iff, and_comm]
  simp only [uidOf, hbad, IsBadLine]
  constructor
  · rintro ⟨line, hline, hne, hnum⟩
    obtain ⟨line', hline', htext⟩ := (exists_uidText_lines hne s).mp ⟨line, hline, rfl⟩
    exact ⟨line', hline', by rwa [htext], by rwa [htext]⟩
  · rintro ⟨line, hline, hne, hnum⟩
    obtain ⟨line', hline', htext⟩ := (exists_uidText_lines hne s).mpr ⟨line, hline, rfl⟩
    exact ⟨line', hline', by rwa [htext], by rwa [htext]⟩

/-- **The outcome of loading a file**, for every text: a strict load fails exactly when a line is
bad, and otherwise the users are those of the text. -/
theorem loadOutcome_eq_some_iff {uids : Finset UInt32} :
    loadOutcome (allowlist.loadFromFileWithOptions (.ok s) strict) = some uids ↔
      (strict = true → ∀ line ∈ linesOf s, ¬ IsBadLine line) ∧
        ∀ uid, uid ∈ uids ↔ uid ∈ listedUids s := by
  have hload : allowlist.loadFromFileWithOptions (.ok s) strict =
      loadLines strict 0 new (lines s) := rfl
  rw [hload]
  by_cases hok : strict = true → ∀ line ∈ linesOf s, ¬ IsBadLine line
  · rw [loadLines_of_ok 0 new]
    · rw [and_iff_right hok]
      simp only [loadOutcome, Option.some.injEq]
      rw [Finset.ext_iff]
      refine forall_congr' fun uid => ?_
      simp only [new, Finset.empty_union, mem_filterMap_uidOf]
      tauto
    · intro hstrict line hline hne hnone
      obtain ⟨line', hline', hbad⟩ := exists_bad_iff.mp ⟨line, hline, hne, hnone⟩
      exact hok hstrict line' hline' hbad
  · simp only [hok, false_and, iff_false]
    push Not at hok
    obtain ⟨rfl, hbad⟩ := hok
    obtain ⟨e, he⟩ := loadLines_of_bad 0 new (exists_bad_iff.mpr hbad)
    simp [loadOutcome, he]

/-- The outcome depends on what the lines say only. -/
theorem loadOutcome_congr
    (h : ∀ text, (∃ line ∈ linesOf s, uidText (String.ofList line) = text) ↔
      ∃ line ∈ linesOf t, uidText (String.ofList line) = text) :
    loadOutcome (allowlist.loadFromFileWithOptions (.ok s) strict) =
      loadOutcome (allowlist'.loadFromFileWithOptions (.ok t) strict) := by
  have hforall : ∀ P : String → Prop, (∃ line ∈ linesOf s, P (uidText (String.ofList line))) ↔
      ∃ line ∈ linesOf t, P (uidText (String.ofList line)) := by
    intro P
    constructor
    · rintro ⟨line, hline, hP⟩
      obtain ⟨line', hline', htext⟩ := (h _).mp ⟨line, hline, rfl⟩
      exact ⟨line', hline', by rwa [htext]⟩
    · rintro ⟨line, hline, hP⟩
      obtain ⟨line', hline', htext⟩ := (h _).mpr ⟨line, hline, rfl⟩
      exact ⟨line', hline', by rwa [htext]⟩
  have hbad : (∀ line ∈ linesOf s, ¬ IsBadLine line) ↔ ∀ line ∈ linesOf t, ¬ IsBadLine line := by
    have := hforall fun text => text ≠ "" ∧ ¬ ∃ value < 2 ^ 32, IsNumeral text.toList value
    have := not_congr this
    push Not at this
    simpa [IsBadLine] using this
  have huids : listedUids s = listedUids t :=
    Set.ext fun uid => hforall fun text => IsNumeral text.toList uid.toNat
  refine Option.ext fun uids => ?_
  rw [loadOutcome_eq_some_iff, loadOutcome_eq_some_iff, hbad, huids]

/-- Lines that say the same, one by one. -/
theorem exists_uidText_of_forall₂ {R : List Char → List Char → Prop}
    (hR : ∀ line line', R line line' →
      uidText (String.ofList line) = uidText (String.ofList line'))
    (h : List.Forall₂ R (linesOf s) (linesOf t)) (text : String) :
    (∃ line ∈ linesOf s, uidText (String.ofList line) = text) ↔
      ∃ line ∈ linesOf t, uidText (String.ofList line) = text := by
  generalize linesOf s = ls at h ⊢
  generalize linesOf t = ls' at h ⊢
  induction h with
  | nil => exact Iff.rfl
  | cons hline _ ih => rw [List.exists_mem_cons_iff, List.exists_mem_cons_iff, ih, hR _ _ hline]

/-- A result from its outcome. -/
theorem eq_of_loadOutcome {result : Except String Unit × Allowlist} {uids : Finset UInt32}
    (h : loadOutcome result = some uids) : result = (.ok (), ⟨uids⟩) := by
  obtain ⟨_ | _, allowlist⟩ := result
  · cases h
  · obtain rfl := Option.some.inj h
    rfl

/-- **What loading a file gives, for every text.** There is a set of users, those of the lines that
hold a numeral, such that:

* a load that is not strict succeeds with these users;
* a strict load succeeds with these users if no line is bad, and fails otherwise;
* the order and repetition of lines, comments, line endings and what was loaded before make no
  difference;
* the users that are allowed are root, the one that the daemon runs as, and these. -/
theorem load_grammar (s : String) :
    ∃ uids : Finset UInt32, (∀ uid, uid ∈ uids ↔ uid ∈ listedUids s) ∧
      (∀ allowlist : Allowlist,
        allowlist.loadFromFileWithOptions (.ok s) false = (.ok (), ⟨uids⟩)) ∧
      (∀ allowlist : Allowlist, (∀ line ∈ linesOf s, ¬ IsBadLine line) →
        allowlist.loadFromFileWithOptions (.ok s) true = (.ok (), ⟨uids⟩)) ∧
      (∀ allowlist : Allowlist, (∃ line ∈ linesOf s, IsBadLine line) →
        ∃ e, (allowlist.loadFromFileWithOptions (.ok s) true).1 = .error e) ∧
      (∀ t, SameLines s t ∨ SameButComments s t ∨ SameButLineEndings s t →
        ∀ (allowlist allowlist' : Allowlist) strict,
          loadOutcome (allowlist.loadFromFileWithOptions (.ok s) strict) =
            loadOutcome (allowlist'.loadFromFileWithOptions (.ok t) strict)) ∧
      ∀ ownUid uid, isAllowed ⟨uids⟩ ownUid uid = true ↔
        uid = 0 ∨ uid = ownUid ∨ uid ∈ listedUids s := by
  have hmem : ∀ uid, uid ∈ ((lines s).filterMap uidOf).toFinset ↔ uid ∈ listedUids s :=
    fun _ => mem_filterMap_uidOf
  refine ⟨_, hmem, ?_, ?_, ?_, ?_, ?_⟩
  · intro allowlist
    exact eq_of_loadOutcome (loadOutcome_eq_some_iff.mpr ⟨fun h => Bool.noConfusion h, hmem⟩)
  · intro allowlist hok
    exact eq_of_loadOutcome (loadOutcome_eq_some_iff.mpr ⟨fun _ => hok, hmem⟩)
  · intro allowlist hbad
    exact loadLines_of_bad 0 new (exists_bad_iff.mpr hbad)
  · intro t hsame allowlist allowlist' strict
    apply loadOutcome_congr
    intro text
    rcases hsame with hsame | hsame | hsame
    · exact exists_congr fun line => and_congr_left' (hsame line)
    · refine exists_uidText_of_forall₂ (fun line line' heq => ?_) hsame text
      simp only [uidText, String.toList_ofList, heq]
    · refine exists_uidText_of_forall₂ (fun line line' heq => ?_) hsame text
      rcases heq with rfl | rfl | rfl
      · rfl
      · exact uidText_append_cr line'
      · exact (uidText_append_cr line).symm
  · intro ownUid uid
    simp only [isAllowed, Bool.or_eq_true, decide_eq_true_eq, hmem, or_assoc]

example : loadOutcome (new.loadFromFileWithOptions
    (.ok "1000 # operator\r\n+0042\n4294967296\n\n") false) = some {1000, 42} := by decide

end Allowlist

end OlaCore
