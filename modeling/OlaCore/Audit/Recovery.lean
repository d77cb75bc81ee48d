import OlaCore.Audit.Logger

set_option relaxedAutoImplicit false
set_option autoImplicit false

/-!
# Recovery from a bounded window

At startup the logger reads the end of its file only (`last_entry_hash` of `audit/logger`). The
content may be anything: lines cut by the window, blank lines, no final newline. This module
compares what is recovered from the window with what the whole content would give.

## Main definitions

* `OlaCore.recoveryTail` — the part of the content that is searched.
* `OlaCore.fullEntryHash` — recovery from the whole content.
* `OlaCore.LastLineInWindow` — the last line that is not blank starts in the window.

## Main results

* `OlaCore.lastEntryHash_agrees` — the window never changes the hash that is recovered, and hides
  an entry only when its line does not start in it.
-/

namespace OlaCore

open ByteText HashChain

variable {crates : Crates} {path : String} {content tail line : Bytes}

/-- The bytes that are read: the last `auditRecoveryWindowBytes` of the content. -/
def recoveryWindow (content : Bytes) : Bytes :=
  content.drop (content.length - auditRecoveryWindowBytes)

/-- The bytes that are searched: without the first and possibly partial line of the window, unless
the window is the whole content. -/
def recoveryTail (content : Bytes) : Bytes :=
  if content.length - auditRecoveryWindowBytes ≠ 0 then afterNewline (recoveryWindow content)
  else recoveryWindow content

/-- The hash of the last entry of a log, read from the whole content. -/
def fullEntryHash (crates : Crates) (path : String) (content : Bytes) : Except String String :=
  if content.length = 0 then .ok zeroHash else recoverTail crates path false content

/-- The newline before the last line that is not blank is one of the last
`auditRecoveryWindowBytes` bytes. -/
def LastLineInWindow (content : Bytes) : Prop :=
  ∃ pre line post, content = pre ++ newline :: (line ++ newline :: post) ∧ newline ∉ line ∧
    line.all isAsciiWhitespace = false ∧ post.all isAsciiWhitespace = true ∧
    content.length ≤ pre.length + auditRecoveryWindowBytes

/-! ## The last complete line -/

/-- What precedes a line does not matter for the last complete line that follows it. -/
theorem lastCompleteLine_append (pre : Bytes) (h : lastCompleteLine tail = some line) :
    lastCompleteLine (pre ++ newline :: tail) = some line := by
  unfold lastCompleteLine at h ⊢
  split at h
  · cases h
  · next hlast =>
    have hlast' : (pre ++ newline :: tail).getLast?.any (· ≠ newline) = false := by
      cases htail : tail.getLast? <;> simp_all [List.getLast?_append, List.getLast?_cons]
    rw [hlast', if_neg Bool.false_ne_true, List.splitOn_append_cons_self, List.reverse_append,
      List.find?_append, h]
    rfl

/-- The last complete line of a text is that of what follows a newline, when there is a line in
it that is not blank. -/
theorem lastCompleteLine_of_append {pre line' : Bytes}
    (h : lastCompleteLine (pre ++ newline :: tail) = some line)
    (hmem : line' ∈ tail.splitOn newline) (hb : line'.all isAsciiWhitespace = false) :
    lastCompleteLine tail = some line := by
  cases ht : lastCompleteLine tail with
  | some l => rw [← h, lastCompleteLine_append pre ht]
  | none =>
    exfalso
    unfold lastCompleteLine at h ht
    split at h
    · cases h
    · next hlast =>
      split at ht
      · -- A text that does not end in a newline does not end in one after a newline either.
        next hno =>
        cases htail : tail.getLast? <;> simp_all [List.getLast?_append, List.getLast?_cons]
      · have hblank := List.find?_eq_none.mp ht line' (List.mem_reverse.mpr hmem)
        simp [hb] at hblank

/-! ## The window -/

/-- Recovery searches the tail. -/
theorem lastEntryHash_eq (h : content.length ≠ 0) :
    lastEntryHash crates path content =
      recoverTail crates path (decide (content.length - auditRecoveryWindowBytes ≠ 0))
        (recoveryTail content) := by
  unfold lastEntryHash recoveryTail recoveryWindow
  rw [if_neg h]
  dsimp only
  split
  · next hstart => rw [decide_eq_true hstart]
  · next hstart => rw [decide_eq_false hstart]

/-- A content that fits in the window is searched as a whole. -/
theorem recoveryTail_of_le (h : content.length ≤ auditRecoveryWindowBytes) :
    recoveryTail content = content := by
  have hstart : content.length - auditRecoveryWindowBytes = 0 := Nat.sub_eq_zero_of_le h
  rw [recoveryTail, if_neg (not_not.mpr hstart), recoveryWindow, hstart, List.drop_zero]

/-- A content that does not fit in the window is searched after a newline of it, if at all. -/
theorem exists_eq_append_recoveryTail (h : auditRecoveryWindowBytes < content.length) :
    recoveryTail content = [] ∨ ∃ pre, content = pre ++ newline :: recoveryTail content := by
  have hstart : content.length - auditRecoveryWindowBytes ≠ 0 := by omega
  rw [recoveryTail, if_pos hstart]
  by_cases hmem : newline ∈ recoveryWindow content
  · obtain ⟨l, -, heq⟩ := eq_append_afterNewline hmem
    refine .inr ⟨content.take (content.length - auditRecoveryWindowBytes) ++ l, ?_⟩
    rw [List.append_assoc, ← heq, recoveryWindow, List.take_append_drop]
  · exact .inl (afterNewline_eq_nil hmem)

/-- A complete line in the tail is the last one of the content. -/
theorem lastCompleteLine_of_recoveryTail (h : lastCompleteLine (recoveryTail content) = some line) :
    lastCompleteLine content = some line := by
  by_cases hle : content.length ≤ auditRecoveryWindowBytes
  · rwa [recoveryTail_of_le hle] at h
  · rcases exists_eq_append_recoveryTail (not_le.mp hle) with hnil | ⟨pre, heq⟩
    · rw [hnil] at h
      cases h
    · rw [heq]
      exact lastCompleteLine_append pre h

/-- The last line that is not blank is a part of the tail, when it starts in the window. -/
theorem mem_splitOn_recoveryTail {pre post : Bytes} (hl : newline ∉ line)
    (hc : content = pre ++ newline :: (line ++ newline :: post))
    (hpos : content.length ≤ pre.length + auditRecoveryWindowBytes)
    (hlong : auditRecoveryWindowBytes < content.length) :
    line ∈ (recoveryTail content).splitOn newline := by
  have hstart : content.length - auditRecoveryWindowBytes ≠ 0 := by omega
  have hwindow : recoveryWindow content =
      pre.drop (content.length - auditRecoveryWindowBytes) ++
        newline :: (line ++ newline :: post) := by
    have hle : content.length - auditRecoveryWindowBytes ≤ pre.length := by omega
    rw [recoveryWindow]
    generalize content.length - auditRecoveryWindowBytes = start at hle ⊢
    rw [hc, List.drop_append_of_le_length hle]
  rw [recoveryTail, if_pos hstart, hwindow]
  generalize pre.drop (content.length - auditRecoveryWindowBytes) = before
  by_cases hmem : newline ∈ before
  · -- The tail starts before the newline that precedes the line.
    obtain ⟨l, hnl, heq⟩ := eq_append_afterNewline hmem
    rw [heq, List.append_assoc, List.cons_append, afterNewline_line_append hnl,
      List.splitOn_append_cons_self, List.splitOn_append_cons_self_of_not_mem hl]
    simp
  · -- The tail starts with the line.
    rw [afterNewline_line_append hmem, List.splitOn_append_cons_self_of_not_mem hl]
    exact List.mem_cons_self

/-! ## The window and the whole content -/

/-- What is recovered from a line is the same with and without the window. -/
theorem recoverTail_of_line {truncated : Bool} {s : String} (h : lastCompleteLine tail = some line)
    (hs : fromUtf8 line = some s) :
    recoverTail crates path truncated tail = recoverEntryHash crates path s := by
  simp only [recoverTail, h, hs]

/-- **What a hash was recovered from:** nothing but blank text, or the entry in the last complete
line. -/
theorem recoverTail_eq_ok {truncated : Bool} {h : String}
    (hr : recoverTail crates path truncated tail = .ok h) :
    (lastCompleteLine tail = none ∧ truncated = false ∧ tail.all isAsciiWhitespace = true ∧
      h = zeroHash) ∨
    ∃ line s, lastCompleteLine tail = some line ∧ fromUtf8 line = some s ∧
      recoverEntryHash crates path s = .ok h := by
  unfold recoverTail at hr
  split at hr
  · next hnone =>
    split at hr
    · next hblank => exact .inl ⟨hnone, hblank.1, hblank.2, (Except.ok.inj hr).symm⟩
    · cases hr
  · next line hline =>
    split at hr
    · cases hr
    · next s hs => exact .inr ⟨line, s, hline, hs, hr⟩

/-- A line that is not blank keeps the content from being blank. -/
theorem all_isAsciiWhitespace_append_cons {pre post : Bytes} {b : UInt8}
    (hb : line.all isAsciiWhitespace = false) :
    (pre ++ b :: (line ++ post)).all isAsciiWhitespace = false := by
  simp [List.all_append, hb]

/-- **Recovery from the window agrees with recovery from the whole content**, for every content:

* a hash that is recovered from the window is recovered from the whole content;
* a hash that is recovered from the whole content is recovered from the window if the content fits
  in it, or the newline before the last line that is not blank is in it;
* a hash that is recovered from a content that is not blank was computed from an entry, in the last
  complete line of the tail;
* the window starts in the content, and the tail starts in the window. -/
theorem lastEntryHash_agrees (crates : Crates) (path : String) (content : Bytes) :
    (∀ h, lastEntryHash crates path content = .ok h →
      fullEntryHash crates path content = .ok h) ∧
    (∀ h, fullEntryHash crates path content = .ok h →
      content.length ≤ auditRecoveryWindowBytes ∨ LastLineInWindow content →
      lastEntryHash crates path content = .ok h) ∧
    (∀ h, content.all isAsciiWhitespace = false → lastEntryHash crates path content = .ok h →
      ∃ line s, lastCompleteLine (recoveryTail content) = some line ∧ fromUtf8 line = some s ∧
        recoverEntryHash crates path s = .ok h) ∧
    content.length - auditRecoveryWindowBytes ≤ content.length ∧
    ∀ pos, (recoveryWindow content).findIdx? (· == newline) = some pos →
      pos + 1 ≤ (recoveryWindow content).length := by
  have hempty : content.length = 0 → content = [] := List.length_eq_zero_iff.mp
  refine ⟨?_, ?_, ?_, Nat.sub_le _ _, ?_⟩
  · intro h hl
    by_cases h0 : content.length = 0
    · rw [hempty h0] at hl ⊢
      exact hl
    rw [lastEntryHash_eq h0] at hl
    rw [fullEntryHash, if_neg h0]
    obtain ⟨hnone, htrunc, hblank, rfl⟩ | ⟨line, s, hline, hs, hr⟩ := recoverTail_eq_ok hl
    · rw [htrunc, recoveryTail_of_le (Nat.sub_eq_zero_iff_le.mp (by simpa using htrunc))] at hl
      exact hl
    · rw [recoverTail_of_line (lastCompleteLine_of_recoveryTail hline) hs, hr]
  · intro h hf hw
    by_cases h0 : content.length = 0
    · rw [hempty h0] at hf ⊢
      exact hf
    rw [fullEntryHash, if_neg h0] at hf
    rw [lastEntryHash_eq h0]
    by_cases hle : content.length ≤ auditRecoveryWindowBytes
    · rw [recoveryTail_of_le hle, decide_eq_false (not_not.mpr (Nat.sub_eq_zero_of_le hle))]
      exact hf
    obtain ⟨pre, line', post, hc, hl, hb, -, hpos⟩ := hw.resolve_left hle
    have hmem := mem_splitOn_recoveryTail hl hc hpos (not_le.mp hle)
    obtain ⟨-, -, hblank, -⟩ | ⟨line, s, hline, hs, hr⟩ := recoverTail_eq_ok hf
    · rw [hc, all_isAsciiWhitespace_append_cons hb] at hblank
      cases hblank
    · rcases exists_eq_append_recoveryTail (not_le.mp hle) with hnil | ⟨before, heq⟩
      · -- An empty tail holds no line that is not blank.
        rw [hnil, List.splitOn_nil, List.mem_singleton] at hmem
        rw [hmem] at hb
        cases hb
      · rw [heq] at hline
        rw [recoverTail_of_line (lastCompleteLine_of_append hline hmem hb) hs, hr]
  · intro h hb hl
    have h0 : content.length ≠ 0 := by
      intro h0
      rw [hempty h0] at hb
      cases hb
    rw [lastEntryHash_eq h0] at hl
    obtain ⟨-, htrunc, hblank, -⟩ | hentry := recoverTail_eq_ok hl
    · rw [recoveryTail_of_le (Nat.sub_eq_zero_iff_le.mp (by simpa using htrunc)), hb] at hblank
      cases hblank
    · exact hentry
  · intro pos hpos
    obtain ⟨hlt, -⟩ := List.findIdx?_eq_some_iff_getElem.mp hpos
    exact hlt

/-- A log that is longer than the window, with one entry at its end. -/
theorem lastEntryHash_agrees_long :
    ∃ content h, auditRecoveryWindowBytes < content.length ∧
      lastEntryHash .reference "audit.log" content = .ok h ∧
      fullEntryHash .reference "audit.log" content = .ok h := by
  have hd : (testEntry "req-1").DecodesBack .reference :=
    AuditEntry.decodesBack_iff.mpr (by decide)
  have hv := verifyReader_append_line (verifyReader_nil .reference "audit.log") hd
  rw [List.nil_append] at hv
  have hshort : (((testEntry "req-1").seal .reference zeroHash).line
      Crates.reference.serde).length < auditRecoveryWindowBytes :=
    (length_line_testEntry_le (by decide) isLowerHexHash_zeroHash).trans_lt (by decide)
  obtain ⟨hnil, -⟩ | ⟨ms, s, hc, -, hs, hb, hr⟩ := exists_last_line_of_verifyReader hv
  · rw [AuditEntry.line_eq] at hnil
    simp at hnil
  · have hlen : (utf8 s).length + 1 < auditRecoveryWindowBytes := by
      rw [hc, unlines_append, List.length_append, unlines_cons, unlines_nil,
        List.length_append] at hshort
      have hone : [newline].length = 1 := rfl
      omega
    have hblank : ∀ m ∈ List.replicate auditRecoveryWindowBytes ([] : Bytes), newline ∉ m := by
      intro m hm
      rw [List.eq_of_mem_replicate hm]
      exact List.not_mem_nil
    have hlast := @lastEntryHash_unlines .reference "audit.log" _ _ hblank hs hb
    rw [if_pos (.inr hlen), hr] at hlast
    refine ⟨_, _, ?_, hlast, (lastEntryHash_agrees _ _ _).1 _ hlast⟩
    simp [unlines]

end OlaCore
