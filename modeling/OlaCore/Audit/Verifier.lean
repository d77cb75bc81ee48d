import OlaCore.Audit.Entry
import OlaCore.Lib.HashChain

set_option relaxedAutoImplicit false
set_option autoImplicit false

/-!
# The audit log verifier

`verifyReader` (`audit/verifier`) reads a log line by line and checks the form of every line,
its link to the line before it and its hash.

What it accepts is said once, in `verifyReader_eq_ok_iff`: the content decodes, line by line,
to a hash chain that starts at the zero hash. The results about tampering and about the logger
rest on that statement and never on the loop.

## Main definitions

* `OlaCore.verifyLine`, `OlaCore.verifyLines`, `OlaCore.verifyReader` — the verifier.
* `OlaCore.decodeLog` — the entries that the lines of a log decode to.
* `OlaCore.AuditChain` — chains of correctly hashed entries.

## Main results

* `OlaCore.verifyReader_eq_ok_iff` — what the verifier accepts, and what it reports.
* `OlaCore.verifyReader_append_line` — a sealed line extends an accepted log.
* `OlaCore.verifyReader_tamper_evident` — the last hash commits to all decoded entries.
-/

namespace OlaCore

open ByteText HashChain

/-! ## The verifier -/

/-- What a successful verification reports. -/
structure AuditVerifyReport where
  entries : ℕ
  lastHash : String
  deriving DecidableEq

/-- The checks of one line, read up to and including its newline, after an entry with hash
`prevHash`. The result is the hash of the line's entry. -/
def verifyLine (crates : Crates) (path : String) (lineNo : ℕ) (prevHash : String) (buf : Bytes) :
    Except String String :=
  let at_ := "audit log " ++ path ++ " line " ++ toString lineNo
  if buf.getLast? ≠ some newline then .error (at_ ++ " is incomplete")
  else
    match fromUtf8 buf.dropLast with
    | none => .error (at_ ++ " is not utf-8")
    | some line =>
      match readEntry crates.serde line with
      | none => .error (at_ ++ " has malformed entry")
      | some entry =>
        if isLowerHexHash entry.prevHash = false then .error (at_ ++ " has invalid prev_hash")
        else if isLowerHexHash entry.entryHash = false then
          .error (at_ ++ " has invalid entry_hash")
        else if entry.prevHash ≠ prevHash then
          .error (at_ ++ " prev_hash does not match previous entry")
        else if entry.entryHash ≠ hexSha256 crates { entry with entryHash := "" }.hashPayloadV1 then
          .error (at_ ++ " entry_hash does not match entry")
        else .ok entry.entryHash

/-- The loop over the lines: `lineNo` lines with `entries` entries have been read, the last one
with hash `prevHash`. -/
def verifyLines (crates : Crates) (path : String) :
    ℕ → ℕ → String → List Bytes → Except String AuditVerifyReport
  | _, entries, prevHash, [] => .ok ⟨entries, prevHash⟩
  | lineNo, entries, prevHash, buf :: bufs =>
    match verifyLine crates path (lineNo + 1) prevHash buf with
    | .error e => .error e
    | .ok entryHash => verifyLines crates path (lineNo + 1) (entries + 1) entryHash bufs

/-- Verify the content of a log. -/
def verifyReader (crates : Crates) (path : String) (content : Bytes) :
    Except String AuditVerifyReport :=
  verifyLines crates path 0 0 zeroHash (frames content)

/-! ## What the verifier accepts -/

/-- The entry that a line holds. -/
def decodeEntry (serde : SerdeJson) (line : Bytes) : Option AuditEntry :=
  (fromUtf8 line).bind (readEntry serde)

/-- The entries that the lines of a log decode to. -/
def decodeLog (serde : SerdeJson) (content : Bytes) : Option (List AuditEntry) :=
  decodeLines (decodeEntry serde) content

/-- The hash that an entry after `es` has to commit to. -/
abbrev lastHash (h : String) (es : List AuditEntry) : String := tip AuditEntry.entryHash h es

/-- Correctly hashed entries, chained from the hash `h`. -/
structure AuditChain (crates : Crates) (h : String) (es : List AuditEntry) : Prop where
  linked : Linked AuditEntry.prevHash AuditEntry.entryHash h es
  hashed : ∀ e ∈ es, e.entryHash = hexSha256 crates e.hashPayloadV1

section Chain

variable {crates : Crates} {h : String}

@[simp] theorem auditChain_nil : AuditChain crates h [] := ⟨trivial, by simp⟩

/-- A chain starts with an entry that commits to the start and continues from its hash. -/
theorem auditChain_cons {e : AuditEntry} {es : List AuditEntry} :
    AuditChain crates h (e :: es) ↔ e.prevHash = h ∧
      e.entryHash = hexSha256 crates e.hashPayloadV1 ∧ AuditChain crates e.entryHash es := by
  constructor
  · rintro ⟨⟨hp, hl⟩, hh⟩
    rw [List.forall_mem_cons] at hh
    exact ⟨hp, hh.1, hl, hh.2⟩
  · rintro ⟨hp, he, hl, hh⟩
    exact ⟨⟨hp, hl⟩, List.forall_mem_cons.mpr ⟨he, hh⟩⟩

/-- A concatenation is a chain when its parts are, the second from the last hash of the
first. -/
theorem auditChain_append {es fs : List AuditEntry} :
    AuditChain crates h (es ++ fs) ↔
      AuditChain crates h es ∧ AuditChain crates (lastHash h es) fs := by
  constructor
  · rintro ⟨hl, hh⟩
    rw [linked_append] at hl
    rw [List.forall_mem_append] at hh
    exact ⟨⟨hl.1, hh.1⟩, hl.2, hh.2⟩
  · rintro ⟨⟨hl, hh⟩, hl', hh'⟩
    exact ⟨linked_append.mpr ⟨hl, hl'⟩, List.forall_mem_append.mpr ⟨hh, hh'⟩⟩

/-- The last hash of a chain has the form of a hash, if the start has. -/
theorem AuditChain.isLowerHexHash_lastHash {es : List AuditEntry}
    (hc : AuditChain crates h es) (hh : isLowerHexHash h) : isLowerHexHash (lastHash h es) := by
  rcases List.eq_nil_or_concat es with rfl | ⟨es', e, rfl⟩
  · exact hh
  · have he := hc.hashed e (by simp)
    rw [List.concat_eq_append, lastHash, tip_append, tip_cons, tip_nil, he]
    exact isLowerHexHash_hexSha256 crates _

/-- The previous hashes of a chain have the form of a hash, if the start has. -/
theorem AuditChain.isLowerHexHash_prevHash {es : List AuditEntry} (hc : AuditChain crates h es)
    (hh : isLowerHexHash h) : ∀ e ∈ es, isLowerHexHash e.prevHash := by
  induction es generalizing h with
  | nil => simp
  | cons e es ih =>
    obtain ⟨hp, he, hc'⟩ := auditChain_cons.mp hc
    rw [List.forall_mem_cons]
    refine ⟨hp ▸ hh, ih hc' ?_⟩
    rw [he]
    exact isLowerHexHash_hexSha256 crates _

end Chain

/-- One line passes exactly when it is complete and holds a correctly hashed entry that commits
to the previous hash. -/
theorem verifyLine_eq_ok_iff {crates : Crates} {path : String} {lineNo : ℕ} {prevHash : String}
    {buf : Bytes} {r : String} (hprev : isLowerHexHash prevHash) :
    verifyLine crates path lineNo prevHash buf = .ok r ↔
      ∃ e, decodeFrame (decodeEntry crates.serde) buf = some e ∧ e.prevHash = prevHash ∧
        e.entryHash = hexSha256 crates e.hashPayloadV1 ∧ r = e.entryHash := by
  simp only [decodeFrame_eq_some_iff, decodeEntry]
  unfold verifyLine
  by_cases hlast : buf.getLast? = some newline
  swap
  · simp [hlast]
  cases hutf : fromUtf8 buf.dropLast with
  | none => simp [hlast]
  | some line =>
    cases hread : readEntry crates.serde line with
    | none => simp [hlast, hread]
    | some e =>
      -- The hash of the entry is taken over a payload that leaves it out.
      have hpay : ({ e with entryHash := "" } : AuditEntry).hashPayloadV1 = e.hashPayloadV1 := rfl
      simp only [hlast, ne_eq, not_true_eq_false, if_false, Option.bind_some, hread, true_and,
        Option.some.injEq, exists_eq_left', hpay]
      by_cases hp : e.prevHash = prevHash
      · by_cases hh : e.entryHash = hexSha256 crates e.hashPayloadV1
        · have hlow := isLowerHexHash_hexSha256 crates e.hashPayloadV1
          rw [← hh] at hlow
          simp [hp, hprev, hlow, ← hh, eq_comm]
        · simp only [hp, hh, not_true_eq_false, not_false_eq_true, if_true, if_false, true_and,
            false_and, iff_false]
          split_ifs <;> simp
      · simp only [hp, not_false_eq_true, if_true, false_and, iff_false]
        split_ifs <;> simp

/-- The loop accepts the lines of a chain that starts at the hash it has reached.

**Proof sketch.** Induction on the remaining lines. The next line passes exactly when it holds
an entry that extends the chain, and then its hash is a hash to continue from. -/
theorem verifyLines_eq_ok_iff {crates : Crates} {path : String} {report : AuditVerifyReport}
    (bufs : List Bytes) (lineNo entries : ℕ) (prevHash : String)
    (hprev : isLowerHexHash prevHash) :
    verifyLines crates path lineNo entries prevHash bufs = .ok report ↔
      ∃ es, bufs.mapM (decodeFrame (decodeEntry crates.serde)) = some es ∧
        AuditChain crates prevHash es ∧
        report = ⟨entries + es.length, lastHash prevHash es⟩ := by
  induction bufs generalizing lineNo entries prevHash with
  | nil => simp [verifyLines, eq_comm]
  | cons buf bufs ih =>
    simp only [mapM_eq_some_iff, List.forall₂_cons_left_iff]
    cases hline : verifyLine crates path (lineNo + 1) prevHash buf with
    | error msg =>
      simp only [verifyLines, hline, reduceCtorEq, false_iff]
      rintro ⟨es, ⟨e, es', he, -, rfl⟩, hc, -⟩
      obtain ⟨hp, hh, -⟩ := auditChain_cons.mp hc
      have hok : verifyLine crates path (lineNo + 1) prevHash buf = .ok e.entryHash :=
        (verifyLine_eq_ok_iff hprev).mpr ⟨e, he, hp, hh, rfl⟩
      rw [hline] at hok
      cases hok
    | ok r =>
      obtain ⟨e, he, hp, hh, rfl⟩ := (verifyLine_eq_ok_iff hprev).mp hline
      have hlow : isLowerHexHash e.entryHash := by
        rw [hh]
        exact isLowerHexHash_hexSha256 crates _
      simp only [verifyLines, hline, ih _ _ _ hlow, mapM_eq_some_iff]
      constructor
      · rintro ⟨es, hes, hc, rfl⟩
        refine ⟨e :: es, ⟨e, es, he, hes, rfl⟩, auditChain_cons.mpr ⟨hp, hh, hc⟩, ?_⟩
        simp [lastHash, Nat.add_assoc, Nat.add_comm 1]
      · rintro ⟨es, ⟨e', es', he', hes, rfl⟩, hc, rfl⟩
        obtain rfl : e = e' := Option.some.inj (he.symm.trans he')
        refine ⟨es', hes, (auditChain_cons.mp hc).2.2, ?_⟩
        simp [lastHash, Nat.add_assoc, Nat.add_comm 1]

/-- **What the verifier accepts.** A log is accepted exactly when its lines decode to a chain of
correctly hashed entries from the zero hash; the report is their number and the last hash. -/
theorem verifyReader_eq_ok_iff {crates : Crates} {path : String} {content : Bytes}
    {report : AuditVerifyReport} :
    verifyReader crates path content = .ok report ↔
      ∃ es, decodeLog crates.serde content = some es ∧ AuditChain crates zeroHash es ∧
        report = ⟨es.length, lastHash zeroHash es⟩ := by
  rw [verifyReader, verifyLines_eq_ok_iff _ _ _ _ isLowerHexHash_zeroHash]
  simp [decodeLog, decodeLines]

/-! ## Appending a line -/

section Append

variable {crates : Crates} {path : String}

/-- The line of a sealed entry holds that entry. -/
theorem decodeLog_line {e : AuditEntry} {h : String} (hd : e.DecodesBack crates)
    (hh : isLowerHexHash h) :
    decodeLog crates.serde ((e.seal crates h).line crates.serde) = some [e.seal crates h] := by
  rw [AuditEntry.line_eq, decodeLog,
    decodeLines_line (crates.serde.newline_not_mem_toString _), decodeEntry, fromUtf8_utf8,
    Option.bind_some, hd h hh]
  rfl

/-- A sealed line extends an accepted log. -/
theorem verifyReader_append_line {content : Bytes} {report : AuditVerifyReport} {e : AuditEntry}
    (h : verifyReader crates path content = .ok report) (hd : e.DecodesBack crates) :
    verifyReader crates path
        (content ++ (e.seal crates report.lastHash).line crates.serde) =
      .ok ⟨report.entries + 1, (e.seal crates report.lastHash).entryHash⟩ := by
  obtain ⟨es, hes, hc, rfl⟩ := verifyReader_eq_ok_iff.mp h
  have hlow := hc.isLowerHexHash_lastHash isLowerHexHash_zeroHash
  rw [verifyReader_eq_ok_iff]
  refine ⟨es ++ [e.seal crates (lastHash zeroHash es)], ?_, ?_, ?_⟩
  · rw [decodeLog, decodeLines_append hes]
    have hline := decodeLog_line hd hlow
    rw [decodeLog] at hline
    rw [hline]
    rfl
  · rw [auditChain_append, auditChain_cons]
    exact ⟨hc, rfl, AuditEntry.seal_entryHash, auditChain_nil⟩
  · simp [lastHash]

/-- A line that does not commit to the last hash is not accepted after a log. -/
theorem not_verifyReader_append_line {content : Bytes} {report : AuditVerifyReport}
    {e : AuditEntry} {h : String} (hv : verifyReader crates path content = .ok report)
    (hd : e.DecodesBack crates) (hh : isLowerHexHash h) (hne : h ≠ report.lastHash) :
    ¬ ∃ r, verifyReader crates path (content ++ (e.seal crates h).line crates.serde) = .ok r := by
  rintro ⟨r, hr⟩
  obtain ⟨es, hes, -, rfl⟩ := verifyReader_eq_ok_iff.mp hv
  obtain ⟨fs, hfs, hc, -⟩ := verifyReader_eq_ok_iff.mp hr
  have hline := decodeLog_line hd hh
  rw [decodeLog] at hline hfs
  rw [decodeLines_append hes, hline] at hfs
  obtain rfl := Option.some.inj hfs
  rw [auditChain_append, auditChain_cons] at hc
  exact hne hc.2.1

/-- A line that does not commit to the zero hash is not accepted at the start of a log, whatever
comes after it. -/
theorem not_verifyReader_line_append {e : AuditEntry} {h : String} (hd : e.DecodesBack crates)
    (hh : isLowerHexHash h) (hne : h ≠ zeroHash) (rest : Bytes) :
    ¬ ∃ r, verifyReader crates path ((e.seal crates h).line crates.serde ++ rest) = .ok r := by
  rintro ⟨r, hr⟩
  obtain ⟨es, hes, hc, -⟩ := verifyReader_eq_ok_iff.mp hr
  have hline := decodeLog_line hd hh
  have hnl := crates.serde.newline_not_mem_toString ((e.seal crates h).serialize crates.serde)
  rw [AuditEntry.line_eq, decodeLog, decodeLines] at hline hes
  rw [List.append_assoc, List.singleton_append, frames_line_append _ _ hnl] at hes
  rw [frames_line_append _ _ hnl] at hline
  -- The first line of the log holds the entry.
  obtain ⟨x, xs, hx, -, rfl⟩ := List.forall₂_cons_left_iff.mp (mapM_eq_some_iff.mp hes)
  obtain ⟨y, ys, hy, -, heq⟩ := List.forall₂_cons_left_iff.mp (mapM_eq_some_iff.mp hline)
  obtain rfl : x = y := Option.some.inj (hx.symm.trans hy)
  obtain rfl : e.seal crates h = x := (List.cons.inj heq).1
  exact hne (auditChain_cons.mp hc).1

/-- The empty log is accepted. -/
theorem verifyReader_nil (crates : Crates) (path : String) :
    verifyReader crates path [] = .ok ⟨0, zeroHash⟩ := rfl

end Append

/-! ## Tamper evidence -/

/-- The payloads that the hashes of a log are taken over. -/
def logPayloads (serde : SerdeJson) (content : Bytes) : Set Bytes :=
  {p | ∃ es, decodeLog serde content = some es ∧ ∃ e ∈ es, p = e.hashPayloadV1}

/-- The zero hash is the hexadecimal form of the all-zero digest. -/
private lemma zeroHash_eq : zeroHash = encodeHex (Vector.replicate 32 0).toList := by decide

/-- Correctly hashed entries with the same hash are equal where the digest is injective on
their payloads. -/
private lemma eq_of_entryHash_eq {crates : Crates} {P : Set Bytes}
    (hinj : Set.InjOn crates.sha256 P) {e f : AuditEntry}
    (he : e.entryHash = hexSha256 crates e.hashPayloadV1)
    (hf : f.entryHash = hexSha256 crates f.hashPayloadV1) (hep : e.hashPayloadV1 ∈ P)
    (hfp : f.hashPayloadV1 ∈ P) (h : e.entryHash = f.entryHash) : e = f := by
  have hhex : hexSha256 crates e.hashPayloadV1 = hexSha256 crates f.hashPayloadV1 :=
    he.symm.trans (h.trans hf)
  have hpay := hinj hep hfp (Vector.toList_inj.mp (encodeHex_injective hhex))
  rw [AuditEntry.hashPayloadV1_eq_iff_erase] at hpay
  cases e
  cases f
  simp only [AuditEntry.mk.injEq] at *
  simp only [hpay, h, true_and]

/-- A correctly hashed entry has the zero hash only if its payload has the all-zero digest. -/
theorem entryHash_ne_zeroHash {crates : Crates} {e : AuditEntry}
    (he : e.entryHash = hexSha256 crates e.hashPayloadV1)
    (hz : crates.sha256 e.hashPayloadV1 ≠ Vector.replicate 32 0) : e.entryHash ≠ zeroHash := by
  rw [he, zeroHash_eq]
  intro h
  exact hz (Vector.toList_inj.mp (encodeHex_injective h))

/-- **Tamper evidence.** Let the digest be injective on the payloads of two accepted logs `a`
and `b`, and let none of these payloads have the all-zero digest.

* If the reports have the same last hash, the logs have the same number of entries and decode
  to the same entries.
* If the entry of `b` at index `n` has the last hash of `a`, then `a` has `n + 1` entries, and
  they are the first `n + 1` entries of `b`.
* If the final lines agree, the logs decode to the same entries: no edit, insertion, deletion,
  duplication or reordering that changes the decoded entries leaves the final line intact.

**Proof sketch.** Both logs are chains from the zero hash. Equal hashes mean equal payloads,
hence equal entries, since the payload is an injective encoding; and no entry has the zero
hash. So the last hash of a chain commits to the whole chain. -/
theorem verifyReader_tamper_evident {crates : Crates} {path : String} {a b : Bytes}
    {ra rb : AuditVerifyReport} (ha : verifyReader crates path a = .ok ra)
    (hb : verifyReader crates path b = .ok rb)
    (hinj : Set.InjOn crates.sha256 (logPayloads crates.serde a ∪ logPayloads crates.serde b))
    (hzero : ∀ p ∈ logPayloads crates.serde a ∪ logPayloads crates.serde b,
      crates.sha256 p ≠ Vector.replicate 32 0) :
    (ra.lastHash = rb.lastHash →
      ra.entries = rb.entries ∧ decodeLog crates.serde a = decodeLog crates.serde b) ∧
    (∀ es n e, decodeLog crates.serde b = some es → es[n]? = some e →
      e.entryHash = ra.lastHash →
      ra.entries = n + 1 ∧ decodeLog crates.serde a = some (es.take (n + 1))) ∧
    ((frames a).getLast? = (frames b).getLast? →
      decodeLog crates.serde a = decodeLog crates.serde b) := by
  obtain ⟨es, hes, hca, rfl⟩ := verifyReader_eq_ok_iff.mp ha
  obtain ⟨fs, hfs, hcb, rfl⟩ := verifyReader_eq_ok_iff.mp hb
  have hmema : ∀ e ∈ es,
      e.hashPayloadV1 ∈ logPayloads crates.serde a ∪ logPayloads crates.serde b :=
    fun e he => .inl ⟨es, hes, e, he, rfl⟩
  have hmemb : ∀ f ∈ fs,
      f.hashPayloadV1 ∈ logPayloads crates.serde a ∪ logPayloads crates.serde b :=
    fun f hf => .inr ⟨fs, hfs, f, hf, rfl⟩
  have heq : ∀ e ∈ es, ∀ f ∈ fs, e.entryHash = f.entryHash → e = f := fun e he f hf =>
    eq_of_entryHash_eq hinj (hca.hashed e he) (hcb.hashed f hf) (hmema e he) (hmemb f hf)
  have hza : ∀ e ∈ es, e.entryHash ≠ zeroHash := fun e he =>
    entryHash_ne_zeroHash (hca.hashed e he) (hzero _ (hmema e he))
  have hzb : ∀ f ∈ fs, f.entryHash ≠ zeroHash := fun f hf =>
    entryHash_ne_zeroHash (hcb.hashed f hf) (hzero _ (hmemb f hf))
  have hsame : lastHash zeroHash es = lastHash zeroHash fs → es = fs :=
    hca.linked.eq_of_tip_eq hcb.linked heq hza hzb
  refine ⟨fun hl => ?_, fun gs n e hgs hn hl => ?_, fun hl => ?_⟩
  · obtain rfl := hsame hl
    exact ⟨rfl, hes.trans hfs.symm⟩
  · obtain rfl : fs = gs := Option.some.inj (hfs.symm.trans hgs)
    have htake := hca.linked.eq_take_of_hash_eq_tip hcb.linked heq hza hzb hn hl
    have hlen : n + 1 ≤ fs.length := (List.getElem?_eq_some_iff.mp hn).1
    refine ⟨?_, htake ▸ hes⟩
    change es.length = n + 1
    rw [htake, List.length_take, Nat.min_eq_left hlen]
  · -- The last entry is the one in the final line, and the last hash is its hash.
    have hlast : es.getLast? = fs.getLast? := by
      rw [getLast?_of_mapM_eq_some hes, getLast?_of_mapM_eq_some hfs, hl]
    rw [hes, hfs, hsame]
    rw [lastHash, lastHash, tip_eq_getLast?, tip_eq_getLast?, hlast]

/-- The log of one entry, and the log of that entry and a second one. -/
private lemma exists_two_logs {crates : Crates} (path : String) {x y : AuditEntry}
    (hx : x.DecodesBack crates) (hy : y.DecodesBack crates) :
    ∃ e f a b, e = x.seal crates zeroHash ∧ f = y.seal crates e.entryHash ∧
      verifyReader crates path a = .ok ⟨1, e.entryHash⟩ ∧
      verifyReader crates path b = .ok ⟨2, f.entryHash⟩ ∧
      decodeLog crates.serde a = some [e] ∧ decodeLog crates.serde b = some [e, f] := by
  have ha := verifyReader_append_line (verifyReader_nil crates path) hx
  have hlow : isLowerHexHash (x.seal crates zeroHash).entryHash := AuditEntry.isLowerHexHash_seal
  have hda := decodeLog_line hx isLowerHexHash_zeroHash
  have hdf := decodeLog_line hy hlow
  rw [List.nil_append] at ha
  exact ⟨_, _, _, _, rfl, rfl, ha, verifyReader_append_line ha hy, hda,
    (decodeLines_append hda).trans (congrArg (Option.map ([_] ++ ·)) hdf)⟩

/-- The first entry of a log of two, found by its hash. -/
theorem verifyReader_tamper_evident_two :
    ∃ e f : AuditEntry, ∃ a b : Bytes,
      verifyReader .reference "audit.log" a = .ok ⟨1, e.entryHash⟩ ∧
      verifyReader .reference "audit.log" b = .ok ⟨2, f.entryHash⟩ ∧
      decodeLog Crates.reference.serde b = some [e, f] ∧
      decodeLog Crates.reference.serde a = some ([e, f].take 1) := by
  have hfin : ∀ id, (testEntry id).DecodesBack .reference := fun id =>
    AuditEntry.decodesBack_iff.mpr (show Binary32.isFinite ⟨0x3f800000⟩ = true by decide)
  obtain ⟨e, f, a, b, he, hf, ha, hb, hda, hdb⟩ :=
    exists_two_logs "audit.log" (hfin "req-1") (hfin "req-2")
  have hdigest : Sha256.digest e.hashPayloadV1 ≠ Sha256.digest f.hashPayloadV1 ∧
      Sha256.digest e.hashPayloadV1 ≠ Vector.replicate 32 0 ∧
      Sha256.digest f.hashPayloadV1 ≠ Vector.replicate 32 0 := by
    rw [hf, he]
    decide +kernel
  -- The payloads of both logs are those of the two entries.
  have hpay : ∀ p ∈ logPayloads Crates.reference.serde a ∪ logPayloads Crates.reference.serde b,
      p = e.hashPayloadV1 ∨ p = f.hashPayloadV1 := by
    rintro p (⟨es, hes, x, hx, rfl⟩ | ⟨es, hes, x, hx, rfl⟩)
    · obtain rfl := Option.some.inj (hda.symm.trans hes)
      exact .inl (by rw [List.mem_singleton.mp hx])
    · obtain rfl := Option.some.inj (hdb.symm.trans hes)
      rcases List.mem_pair.mp hx with rfl | rfl
      · exact .inl rfl
      · exact .inr rfl
  refine ⟨e, f, a, b, ha, hb, hdb,
    ((verifyReader_tamper_evident ha hb ?_ ?_).2.1 [e, f] 0 e hdb rfl rfl).2⟩
  · intro p hp q hq hpq
    rcases hpay p hp with rfl | rfl <;> rcases hpay q hq with rfl | rfl
    · rfl
    · exact absurd hpq hdigest.1
    · exact absurd hpq.symm hdigest.1
    · rfl
  · intro p hp
    rcases hpay p hp with rfl | rfl
    · exact hdigest.2.1
    · exact hdigest.2.2

end OlaCore
