import OlaCore.Audit.Verifier
import OlaCore.Lib.Runs

set_option relaxedAutoImplicit false
set_option autoImplicit false

/-!
# The audit logger

The logger (`audit/logger`) appends one line for each entry to an open file and keeps the hash
of the last entry in memory. The file it writes to need not be the one at the log's path: after
a rotation it writes to the renamed file until it reopens the path.

The files of the log are kept in the order in which they were created, which is the order in
which they are rotated away; the path names the last one or none. The environment decides how a
write ends (`AuditIo`).

## Main definitions

* `OlaCore.AuditFs`, `OlaCore.AuditState` — the files of the log and the logger's state.
* `OlaCore.AuditLogger.log`, `OlaCore.AuditLogger.reopen`, `OlaCore.AuditLogger.open`.
* `OlaCore.lastEntryHash`, `OlaCore.lastCompleteLine`, `OlaCore.recoverEntryHash` — recovery of
  the last hash at startup, from a bounded window at the end of the file.

## Main results

* `OlaCore.lastEntryHash_unlines` — what recovery makes of a file of lines.
* `OlaCore.lastEntryHash_of_verifyReader`, `OlaCore.AuditLogger.open_log_verifyReader` — recovery
  agrees with the verifier.
-/

namespace OlaCore

open ByteText HashChain

/-! ## Recovery of the last hash -/

/-- How much of the end of a log is read at startup. -/
def auditRecoveryWindowBytes : ℕ := 1024 * 1024

/-- The last line that is not blank, if the text ends in a newline. -/
def lastCompleteLine (tail : Bytes) : Option Bytes :=
  if tail.getLast?.any (· ≠ newline) then none
  else (tail.splitOn newline).reverse.find? fun line => !line.all isAsciiWhitespace

/-- The hash of the final entry, which the next entry is chained to. -/
def recoverEntryHash (crates : Crates) (path line : String) : Except String String :=
  match readEntry crates.serde line with
  | none => .error ("audit log " ++ path ++ " has malformed final entry")
  | some entry =>
    if isLowerHexHash entry.prevHash = false then
      .error ("audit log " ++ path ++ " has invalid final prev_hash")
    else if isLowerHexHash entry.entryHash = false then
      .error ("audit log " ++ path ++ " has invalid final entry_hash")
    else if entry.entryHash ≠ hexSha256 crates { entry with entryHash := "" }.hashPayloadV1 then
      .error ("audit log " ++ path ++ " final entry_hash does not match entry")
    else .ok entry.entryHash

/-- The hash of the last entry in the end of a log, from which the first and possibly partial
line has been dropped if it is `truncated`. -/
def recoverTail (crates : Crates) (path : String) (truncated : Bool) (tail : Bytes) :
    Except String String :=
  match lastCompleteLine tail with
  | none =>
    if truncated = false ∧ tail.all isAsciiWhitespace then .ok zeroHash
    else .error ("audit log " ++ path ++ " has no complete entry in recovery window")
  | some line =>
    match fromUtf8 line with
    | none => .error ("audit log " ++ path ++ " has non-utf8 entry")
    | some lineStr => recoverEntryHash crates path lineStr

/-- The hash of the last entry of a log, read from its last `auditRecoveryWindowBytes` bytes. -/
def lastEntryHash (crates : Crates) (path : String) (content : Bytes) : Except String String :=
  if content.length = 0 then .ok zeroHash
  else
    let start := content.length - auditRecoveryWindowBytes
    let tail := content.drop start
    if start ≠ 0 then recoverTail crates path true (afterNewline tail)
    else recoverTail crates path false tail

/-- A recovered hash has the form of a hash. -/
theorem isLowerHexHash_of_recoverEntryHash {crates : Crates} {path line h : String}
    (hr : recoverEntryHash crates path line = .ok h) : isLowerHexHash h := by
  unfold recoverEntryHash at hr
  split at hr
  · cases hr
  · split_ifs at hr with hp he hh
    cases hr
    simpa using he

/-- What is recovered from the end of a log has the form of a hash. -/
theorem isLowerHexHash_of_recoverTail {crates : Crates} {path h : String} {truncated : Bool}
    {tail : Bytes} (hr : recoverTail crates path truncated tail = .ok h) : isLowerHexHash h := by
  unfold recoverTail at hr
  split at hr
  · split at hr
    · obtain rfl := Except.ok.inj hr
      exact isLowerHexHash_zeroHash
    · cases hr
  · split at hr
    · cases hr
    · exact isLowerHexHash_of_recoverEntryHash hr

/-- What recovery returns has the form of a hash. -/
theorem isLowerHexHash_of_lastEntryHash {crates : Crates} {path h : String} {content : Bytes}
    (hl : lastEntryHash crates path content = .ok h) : isLowerHexHash h := by
  simp only [lastEntryHash] at hl
  split at hl
  · obtain rfl := Except.ok.inj hl
    exact isLowerHexHash_zeroHash
  · split at hl <;> exact isLowerHexHash_of_recoverTail hl

/-! ## The logger -/

/-- The files of the log, in rotation order. When `linked`, the log's path names the last one;
otherwise it names no file. -/
structure AuditFs where
  files : List Bytes
  linked : Bool
  ne_nil : linked = true → files ≠ []
  deriving DecidableEq

/-- The content of the file at the log's path. -/
def AuditFs.live (fs : AuditFs) : Option Bytes := if fs.linked then fs.files.getLast? else none

/-- Append to a file that is open. -/
def AuditFs.append (fs : AuditFs) (file : ℕ) (bytes : Bytes) : AuditFs where
  files := fs.files.modify file (· ++ bytes)
  linked := fs.linked
  ne_nil := fun h he => fs.ne_nil h (List.length_eq_zero_iff.mp (by simpa using he))

/-- What an append does to each file. -/
theorem AuditFs.getElem?_append (fs : AuditFs) (file : ℕ) (bytes : Bytes) (i : ℕ) :
    (fs.append file bytes).files[i]? =
      fs.files[i]?.map fun content => if file = i then content ++ bytes else content := by
  rw [append, List.getElem?_modify]
  rfl

/-- The files after an empty one was created at the log's path. -/
def AuditFs.addEmpty (fs : AuditFs) : AuditFs := ⟨fs.files ++ [[]], true, fun _ => by simp⟩

@[simp] theorem AuditFs.addEmpty_files (fs : AuditFs) : fs.addEmpty.files = fs.files ++ [[]] := rfl

/-- Open the file at the log's path for appending, creating it if there is none. -/
def AuditFs.openSecureAppend (fs : AuditFs) : AuditFs × ℕ :=
  if fs.linked then (fs, fs.files.length - 1) else (fs.addEmpty, fs.files.length)

/-- What the logger keeps under its mutex: the open file and the hash of the last entry. -/
structure AuditState where
  file : ℕ
  prevHash : String
  lowerHex : isLowerHexHash prevHash = true
  deriving DecidableEq

/-- How the environment ends a call of `log`: the mutex is poisoned, the blocking task is never
run, the write fails with `written` bytes in the file, the sync fails after the write, or all
goes well. -/
inductive AuditIo where
  | mutexPoisoned
  | taskFailed
  | writeFailed (written : ℕ)
  | syncFailed
  | ok
  deriving DecidableEq

namespace AuditLogger

/-- Open the log: the file at its path and the hash of its last entry. -/
def «open» (crates : Crates) (path : String) (fs : AuditFs) :
    Except String (AuditFs × AuditState) :=
  let (fs', file) := fs.openSecureAppend
  match h : lastEntryHash crates path (fs'.files.getD file []) with
  | .error e => .error e
  | .ok prevHash => .ok (fs', ⟨file, prevHash, isLowerHexHash_of_lastEntryHash h⟩)

/-- Switch to the file that is now at the path, keeping the hash. -/
def reopen (fs : AuditFs) (st : AuditState) : AuditFs × AuditState :=
  let (fs', file) := fs.openSecureAppend
  (fs', ⟨file, st.prevHash, st.lowerHex⟩)

/-- Log an entry: seal it, write its line, sync, and only then remember its hash. -/
def log (crates : Crates) (fs : AuditFs) (st : AuditState) (entry : AuditEntry) (io : AuditIo) :
    Except String Unit × AuditFs × AuditState :=
  let entry := entry.seal crates st.prevHash
  let line := entry.line crates.serde
  match io with
  | .mutexPoisoned => (.error "audit mutex poisoned", fs, st)
  | .taskFailed => (.error "audit logging task failed", fs, st)
  | .writeFailed written => (.error "audit write failed", fs.append st.file (line.take written), st)
  | .syncFailed => (.error "audit sync failed", fs.append st.file line, st)
  | .ok =>
    (.ok (), fs.append st.file line,
      ⟨st.file, entry.entryHash, AuditEntry.isLowerHexHash_seal⟩)

end AuditLogger

/-! ## Recovery agrees with the verifier -/

section Recovery

variable {crates : Crates} {path : String}

/-- JSON text is not blank. -/
theorem not_blank_of_fromStr {serde : SerdeJson} {s : String} {j : Json}
    (h : serde.fromStr s = some j) : (utf8 s).all isAsciiWhitespace = false := by
  by_contra hb
  rw [Bool.not_eq_false, List.all_eq_true] at hb
  rw [serde.fromStr_blank s hb] at h
  cases h

/-- The last complete line of a file of lines is its last line, if that is not blank. -/
theorem lastCompleteLine_unlines {ks : List Bytes} {l : Bytes} (hks : ∀ k ∈ ks, newline ∉ k)
    (hl : newline ∉ l) (hb : l.all isAsciiWhitespace = false) :
    lastCompleteLine (unlines (ks ++ [l])) = some l := by
  have hlast : (unlines (ks ++ [l])).getLast? = some newline := by
    simp [unlines_append]
  have hsplit : (unlines (ks ++ [l])).splitOn newline = ks ++ [l] ++ [[]] :=
    splitOn_unlines fun m hm => by
      rcases List.mem_append.mp hm with hm | hm
      · exact hks m hm
      · rwa [List.mem_singleton.mp hm]
  rw [lastCompleteLine, hlast, hsplit]
  -- The empty part after the last newline is blank, so the search moves on to `l`.
  simp [hb]

/-- A recovered hash is that of an entry which the line holds. -/
theorem recoverEntryHash_eq_ok_iff {line h : String} :
    recoverEntryHash crates path line = .ok h ↔
      ∃ e, readEntry crates.serde line = some e ∧ isLowerHexHash e.prevHash ∧
        e.entryHash = hexSha256 crates e.hashPayloadV1 ∧ h = e.entryHash := by
  unfold recoverEntryHash
  cases hread : readEntry crates.serde line with
  | none => simp
  | some e =>
    have hpay : ({ e with entryHash := "" } : AuditEntry).hashPayloadV1 = e.hashPayloadV1 := rfl
    simp only [hpay, Option.some.injEq, exists_eq_left']
    by_cases hp : isLowerHexHash e.prevHash
    · by_cases hh : e.entryHash = hexSha256 crates e.hashPayloadV1
      · have hlow := isLowerHexHash_hexSha256 crates e.hashPayloadV1
        rw [← hh] at hlow
        simp [hp, hlow, ← hh, eq_comm]
      · simp only [hp, hh, false_and, and_false, iff_false, ne_eq, not_false_eq_true, if_true]
        split_ifs <;> simp
    · simp [hp]

/-- **What recovery makes of a file of lines.** If the file or its last line fits in the window,
recovery reads the hash of the last line, and otherwise it fails. -/
theorem lastEntryHash_unlines {ms : List Bytes} {s : String} (hms : ∀ m ∈ ms, newline ∉ m)
    (hs : newline ∉ utf8 s) (hb : (utf8 s).all isAsciiWhitespace = false) :
    lastEntryHash crates path (unlines (ms ++ [utf8 s])) =
      if (unlines (ms ++ [utf8 s])).length ≤ auditRecoveryWindowBytes ∨
          (utf8 s).length + 1 < auditRecoveryWindowBytes then
        recoverEntryHash crates path s
      else .error ("audit log " ++ path ++ " has no complete entry in recovery window") := by
  have hlen : (unlines (ms ++ [utf8 s])).length = (unlines ms).length + ((utf8 s).length + 1) := by
    simp [unlines_append]
  have htail : ∀ truncated (ks : List Bytes), (∀ k ∈ ks, newline ∉ k) →
      recoverTail crates path truncated (unlines (ks ++ [utf8 s])) =
        recoverEntryHash crates path s := by
    intro truncated ks hks
    simp only [recoverTail, lastCompleteLine_unlines hks hs hb, fromUtf8_utf8]
  rw [lastEntryHash, if_neg (by omega)]
  dsimp only
  by_cases hw : (unlines (ms ++ [utf8 s])).length ≤ auditRecoveryWindowBytes
  · -- The whole file is read.
    have h0 : (unlines (ms ++ [utf8 s])).length - auditRecoveryWindowBytes = 0 := by omega
    rw [if_neg (by omega), h0, List.drop_zero, if_pos (.inl hw), htail false ms hms]
  · rw [if_pos (by omega)]
    by_cases hl : (utf8 s).length + 1 < auditRecoveryWindowBytes
    · -- The window starts before the last line.
      obtain ⟨ks, hks, heq⟩ := afterNewline_drop_unlines hs hms
        (n := (unlines (ms ++ [utf8 s])).length - auditRecoveryWindowBytes) (by omega)
      rw [heq, if_pos (.inr hl), htail true ks hks]
    · -- The window starts in the last line, and nothing is left after its newline.
      rw [if_neg (by omega), afterNewline_drop_unlines_eq_nil hs (by omega)]
      rfl

/-- The file or its last line, with the newline, fits in the recovery window. -/
def FitsRecoveryWindow (content : Bytes) : Prop :=
  content.length ≤ auditRecoveryWindowBytes ∨
    ∀ line, (frames content).getLast? = some line → line.length < auditRecoveryWindowBytes

/-- An accepted log is empty, or a file of lines whose last one holds the entry with the last
hash. -/
theorem exists_last_line_of_verifyReader {content : Bytes} {report : AuditVerifyReport}
    (h : verifyReader crates path content = .ok report) :
    (content = [] ∧ report.lastHash = zeroHash) ∨
      ∃ ms s, content = unlines (ms ++ [utf8 s]) ∧ (∀ m ∈ ms, newline ∉ m) ∧ newline ∉ utf8 s ∧
        (utf8 s).all isAsciiWhitespace = false ∧
        recoverEntryHash crates path s = .ok report.lastHash := by
  obtain ⟨es, hes, hc, rfl⟩ := verifyReader_eq_ok_iff.mp h
  obtain ⟨ls, rfl, hls, hdec⟩ := decodeLines_eq_some_iff.mp hes
  rcases List.eq_nil_or_concat ls with rfl | ⟨ms, l, rfl⟩
  · obtain rfl := List.forall₂_nil_left_iff.mp hdec
    exact .inl ⟨rfl, rfl⟩
  rw [List.concat_eq_append] at *
  -- The last entry is the one in the last line.
  obtain ⟨e, hlast, he⟩ : ∃ e, es.getLast? = some e ∧ decodeEntry crates.serde l = some e := by
    have hmap := getLast?_of_mapM_eq_some (mapM_eq_some_iff.mpr hdec)
    rw [List.getLast?_concat, Option.bind_some] at hmap
    rcases List.eq_nil_or_concat es with rfl | ⟨es', e, rfl⟩
    · simp at hdec
    · rw [List.concat_eq_append, List.getLast?_concat] at hmap ⊢
      exact ⟨e, rfl, hmap.symm⟩
  obtain ⟨s, hs, hread⟩ := Option.bind_eq_some_iff.mp he
  obtain rfl := fromUtf8_eq_some_iff.mp hs
  obtain ⟨j, hj, -⟩ := Option.bind_eq_some_iff.mp hread
  have hmem : e ∈ es := List.mem_of_getLast? hlast
  have htip : lastHash zeroHash es = e.entryHash := by
    rw [lastHash, tip_eq_getLast?, hlast]
    rfl
  refine .inr ⟨ms, s, rfl, fun m hm => hls m (by simp [hm]), hls _ (by simp),
    not_blank_of_fromStr hj, recoverEntryHash_eq_ok_iff.mpr ⟨e, hread, ?_, hc.hashed e hmem, htip⟩⟩
  exact hc.isLowerHexHash_prevHash isLowerHexHash_zeroHash e hmem

/-- Recovery agrees with the verifier: on an accepted log whose last line can be seen in the
window it returns the last hash. -/
theorem lastEntryHash_of_verifyReader {content : Bytes} {report : AuditVerifyReport}
    (h : verifyReader crates path content = .ok report) (hw : FitsRecoveryWindow content) :
    lastEntryHash crates path content = .ok report.lastHash := by
  obtain ⟨rfl, hz⟩ | ⟨ms, s, rfl, hms, hs, hb, hr⟩ := exists_last_line_of_verifyReader h
  · rw [hz]
    rfl
  · rw [lastEntryHash_unlines hms hs hb, if_pos, hr]
    refine hw.imp id fun hlen => ?_
    have hfr := frames_unlines_append (ms ++ [utf8 s]) [] fun m hm => by
      rcases List.mem_append.mp hm with hm | hm
      · exact hms m hm
      · rwa [List.mem_singleton.mp hm]
    rw [List.append_nil] at hfr
    simpa using hlen (utf8 s ++ [newline]) (by rw [hfr]; simp [frames])

/-- Whatever recovery returns on an accepted log is the last hash. -/
theorem eq_lastHash_of_lastEntryHash {content : Bytes} {report : AuditVerifyReport} {x : String}
    (h : verifyReader crates path content = .ok report)
    (hx : lastEntryHash crates path content = .ok x) : x = report.lastHash := by
  obtain ⟨rfl, hz⟩ | ⟨ms, s, rfl, hms, hs, hb, hr⟩ := exists_last_line_of_verifyReader h
  · rw [hz]
    exact (Except.ok.inj hx).symm
  · rw [lastEntryHash_unlines hms hs hb] at hx
    split at hx
    · exact Except.ok.inj (hx.symm.trans hr)
    · cases hx

end Recovery

/-! ## Opening and appending -/

section Append

variable {crates : Crates} {path : String}

/-- A file at the path is opened as it is, at the last position. -/
theorem AuditFs.openSecureAppend_of_live {fs : AuditFs} {content : Bytes}
    (h : fs.live = some content) : fs.openSecureAppend = (fs, fs.files.length - 1) ∧
      fs.files.getD (fs.files.length - 1) [] = content := by
  unfold live at h
  split at h
  · next hl =>
    refine ⟨by rw [openSecureAppend, if_pos hl], ?_⟩
    rw [List.getD_eq_getElem?_getD, ← List.getLast?_eq_getElem?, h]
    rfl
  · cases h

/-- Appending to the last file appends to the file at the path. -/
theorem AuditFs.live_append {fs : AuditFs} {content : Bytes} (h : fs.live = some content)
    (bytes : Bytes) : (fs.append (fs.files.length - 1) bytes).live = some (content ++ bytes) := by
  unfold live at h ⊢
  split at h
  · next hl =>
    rw [if_pos (show (fs.append _ bytes).linked = true from hl), List.getLast?_eq_getElem?]
    rw [List.getLast?_eq_getElem?] at h
    simp [append, h]
  · cases h

/-- Opening succeeds when recovery does, with the recovered hash. -/
theorem AuditLogger.open_eq_ok_iff {fs fs' : AuditFs} {st : AuditState} :
    AuditLogger.open crates path fs = .ok (fs', st) ↔
      fs.openSecureAppend = (fs', st.file) ∧
        lastEntryHash crates path (fs'.files.getD st.file []) = .ok st.prevHash := by
  obtain ⟨file, prevHash, hlow⟩ := st
  cases ho : fs.openSecureAppend with | mk fs₁ file₁ =>
  simp only [AuditLogger.open, ho, Prod.mk.injEq]
  split
  · next e he =>
    rw [ho] at he
    simp only [reduceCtorEq, false_iff, not_and, and_imp]
    rintro rfl rfl hp
    rw [he] at hp
    cases hp
  · next p hp =>
    rw [ho] at hp
    simp only [Except.ok.injEq, Prod.mk.injEq, AuditState.mk.injEq]
    constructor
    · rintro ⟨rfl, rfl, rfl⟩
      exact ⟨⟨rfl, rfl⟩, hp⟩
    · rintro ⟨⟨rfl, rfl⟩, hp'⟩
      rw [hp] at hp'
      exact ⟨rfl, rfl, Except.ok.inj hp'⟩

/-- **Verifier and recovery agree.** On a log that the verifier accepts and whose last line can
be seen in the recovery window, recovery returns the reported last hash. So opening such a log
and logging one entry whose line decodes back leaves a log that is accepted, with one more
entry.

**Proof sketch.** An accepted log is a file of lines whose last line is not blank, so the
backward search finds it, in the whole file or in the part of the window after the first
newline. The new line is chained to the recovered hash, which is where the verifier stands at
the end of the old content. -/
theorem AuditLogger.open_log_verifyReader {content : Bytes} {report : AuditVerifyReport}
    (h : verifyReader crates path content = .ok report) (hw : FitsRecoveryWindow content) :
    lastEntryHash crates path content = .ok report.lastHash ∧
      ∀ fs : AuditFs, fs.live = some content →
        ∃ st, AuditLogger.open crates path fs = .ok (fs, st) ∧
          ∀ e, e.DecodesBack crates →
            ∃ fs' st' content', AuditLogger.log crates fs st e .ok = (.ok (), fs', st') ∧
              fs'.live = some content' ∧
              verifyReader crates path content' = .ok ⟨report.entries + 1, st'.prevHash⟩ := by
  have hlast := lastEntryHash_of_verifyReader h hw
  refine ⟨hlast, fun fs hfs => ?_⟩
  obtain ⟨hopen, hget⟩ := AuditFs.openSecureAppend_of_live hfs
  have hlow := isLowerHexHash_of_lastEntryHash hlast
  refine ⟨⟨fs.files.length - 1, report.lastHash, hlow⟩, ?_, fun e hd => ?_⟩
  · refine AuditLogger.open_eq_ok_iff.mpr ⟨hopen, ?_⟩
    rw [hget]
    exact hlast
  · exact ⟨_, _, _, rfl, AuditFs.live_append hfs _, verifyReader_append_line h hd⟩

/-- The entries of the unit tests have lines that decode back. -/
theorem testEntry_decodesBack (crates : Crates) (id : String) :
    (testEntry id).DecodesBack crates :=
  AuditEntry.decodesBack_iff.mpr (show Binary32.isFinite ⟨0x3f800000⟩ = true by decide)

/-- A log of entries of the unit tests, by their identifiers, and the report about it. -/
def testLog (crates : Crates) (ids : List String) : Bytes × AuditVerifyReport :=
  ids.foldl (fun log id =>
    let e := (testEntry id).seal crates log.2.lastHash
    (log.1 ++ e.line crates.serde, ⟨log.2.entries + 1, e.entryHash⟩)) ([], ⟨0, zeroHash⟩)

/-- Such a log is accepted. -/
theorem verifyReader_testLog (crates : Crates) (path : String) (ids : List String) :
    verifyReader crates path (testLog crates ids).1 = .ok (testLog crates ids).2 := by
  induction ids using List.reverseRecOn with
  | nil => exact verifyReader_nil crates path
  | append_singleton ids id ih =>
    rw [testLog, List.foldl_concat]
    exact verifyReader_append_line ih (testEntry_decodesBack crates id)

/-- Its lines are short. -/
theorem length_testLog_le {ids : List String} (h : ∀ id ∈ ids, id.length ≤ 20) :
    (testLog .reference ids).1.length ≤ 4096 * ids.length ∧
      isLowerHexHash (testLog .reference ids).2.lastHash := by
  induction ids using List.reverseRecOn with
  | nil => exact ⟨Nat.zero_le _, isLowerHexHash_zeroHash⟩
  | append_singleton ids id ih =>
    rw [List.forall_mem_append, List.forall_mem_singleton] at h
    obtain ⟨hlen, hlow⟩ := ih h.1
    have hline := length_line_testEntry_le h.2 hlow
    rw [testLog, List.foldl_concat, ← testLog]
    refine ⟨?_, AuditEntry.isLowerHexHash_seal⟩
    dsimp only
    rw [List.length_append, List.length_append, List.length_singleton]
    omega

/-- A log of three entries is recovered when it is opened, and it is extended by a fourth one. -/
theorem AuditLogger.open_log_verifyReader_lines :
    ∃ (fs fs' : AuditFs) (st st' : AuditState) (content' : Bytes),
      fs.live = some (testLog .reference ["req-1", "req-2", "req-3"]).1 ∧
        lastEntryHash .reference "audit.log" (testLog .reference ["req-1", "req-2", "req-3"]).1 =
          .ok (testLog .reference ["req-1", "req-2", "req-3"]).2.lastHash ∧
        AuditLogger.open .reference "audit.log" fs = .ok (fs, st) ∧
        AuditLogger.log .reference fs st (testEntry "req-4") .ok = (.ok (), fs', st') ∧
        fs'.live = some content' ∧
        verifyReader .reference "audit.log" content' = .ok ⟨4, st'.prevHash⟩ := by
  have hw : FitsRecoveryWindow (testLog .reference ["req-1", "req-2", "req-3"]).1 :=
    .inl ((length_testLog_le (by decide)).1.trans (by decide))
  obtain ⟨hlast, hopens⟩ :=
    AuditLogger.open_log_verifyReader (verifyReader_testLog .reference "audit.log" _) hw
  obtain ⟨st, hopen, hlogs⟩ := hopens ⟨[_], true, by simp⟩ rfl
  obtain ⟨fs', st', content', hlog, hlive, hverify⟩ :=
    hlogs (testEntry "req-4") (testEntry_decodesBack _ _)
  exact ⟨_, fs', st, st', content', rfl, hlast, hopen, hlog, hlive, hverify⟩

end Append

end OlaCore
