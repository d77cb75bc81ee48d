import OlaCore.Audit.Logger

set_option relaxedAutoImplicit false
set_option autoImplicit false

/-!
# The audit log over whole runs

The logger and the files of its log form a system. Its operations are log calls, with the way
in which the environment ends them, the two halves of a rotation (the live file is renamed, an
empty replacement is created), the logger's reopening of the path, and a restart of the daemon.
Log calls of concurrent requests are serialised by the logger's mutex, so every interleaving of
them is a sequence of log operations.

The invariant `LogInv` says what the files hold after any run in which all writes succeed: in
rotation order, the lines of the entries logged so far; nothing after the file that the logger
has open; and the hash in memory is the hash of the last entry. Whether the hash in memory
survives a restart depends on what the live file holds then.

## Main definitions

* `OlaCore.AuditOp`, `OlaCore.AuditWorld.step` — the system.
* `OlaCore.AuditWorld.Stepped` — what an operation has done.
* `OlaCore.LogInv` — the invariant.

## Main results

* `OlaCore.LogInv.step` — every operation keeps the invariant.
* `OlaCore.segments_accepted` — the segments of a log form one accepted log.
* `OlaCore.restarts_keep_chain`, `OlaCore.restart_severs_chain` — when a restart keeps the chain,
  and a run in which it does not.
* `OlaCore.single_files_accepted_iff`, `OlaCore.rotated_file_rejected` — when every file is accepted
  on its own, and a run in which one is not.
* `OlaCore.clean_failures_keep_log`, `OlaCore.failed_sync_breaks_log` — when failed calls leave
  the log intact, and a run in which one does not.
-/

namespace OlaCore

open ByteText HashChain Runs

/-! ## The system -/

/-- The files of the log and the logger. -/
structure AuditWorld where
  fs : AuditFs
  logger : AuditState
  deriving DecidableEq

/-- What can happen to the log. -/
inductive AuditOp where
  | log (entry : AuditEntry) (io : AuditIo)
  | rename
  | create
  | reopen
  | restart

/-- Is the operation a log call? -/
def AuditOp.isLog : AuditOp → Bool
  | .log _ _ => true
  | _ => false

/-- The file at the path is renamed; the logger keeps it open. -/
def AuditFs.rename (fs : AuditFs) : Option AuditFs :=
  if fs.linked then some ⟨fs.files, false, by simp⟩ else none

/-- An empty file is created at the path. -/
def AuditFs.create (fs : AuditFs) : Option AuditFs :=
  if fs.linked then none else some fs.addEmpty

/-- One operation. The outputs are the entries that a log call has durably written. A restart
drops the logger and opens the log again; when that fails there is no daemon. -/
def AuditWorld.step (crates : Crates) (path : String) (w : AuditWorld) :
    AuditOp → Option (AuditWorld × List AuditEntry)
  | .log entry io =>
    match AuditLogger.log crates w.fs w.logger entry io with
    | (.ok (), fs, logger) => some (⟨fs, logger⟩, [entry.seal crates w.logger.prevHash])
    | (.error _, fs, logger) => some (⟨fs, logger⟩, [])
  | .rename => w.fs.rename.map fun fs => (⟨fs, w.logger⟩, [])
  | .create => w.fs.create.map fun fs => (⟨fs, w.logger⟩, [])
  | .reopen =>
    let (fs, logger) := AuditLogger.reopen w.fs w.logger
    some (⟨fs, logger⟩, [])
  | .restart =>
    match AuditLogger.open crates path w.fs with
    | .ok (fs, logger) => some (⟨fs, logger⟩, [])
    | .error _ => none

/-- **What an operation has done** to the files and the logger, and the entries it has written. -/
inductive AuditWorld.Stepped (crates : Crates) (path : String) (w : AuditWorld) :
    AuditOp → AuditWorld → List AuditEntry → Prop
  | logged (e : AuditEntry) : Stepped crates path w (.log e .ok)
      ⟨w.fs.append w.logger.file ((e.seal crates w.logger.prevHash).line crates.serde),
        ⟨w.logger.file, (e.seal crates w.logger.prevHash).entryHash,
          AuditEntry.isLowerHexHash_seal⟩⟩ [e.seal crates w.logger.prevHash]
  | failed (e : AuditEntry) {io : AuditIo} {w' : AuditWorld} (hio : io ≠ .ok) :
      Stepped crates path w (.log e io) w' []
  | renamed {fs : AuditFs} (hfiles : fs.files = w.fs.files) :
      Stepped crates path w .rename ⟨fs, w.logger⟩ []
  | created : Stepped crates path w .create ⟨w.fs.addEmpty, w.logger⟩ []
  | reopened {fs : AuditFs} {logger : AuditState}
      (ho : w.fs.openSecureAppend = (fs, logger.file))
      (hp : logger.prevHash = w.logger.prevHash) : Stepped crates path w .reopen ⟨fs, logger⟩ []
  | restarted {fs : AuditFs} {logger : AuditState}
      (ho : AuditLogger.open crates path w.fs = .ok (fs, logger)) :
      Stepped crates path w .restart ⟨fs, logger⟩ []

/-- A step has done what its operation does. -/
theorem AuditWorld.stepped {crates : Crates} {path : String} {w w' : AuditWorld} {op : AuditOp}
    {fs : List AuditEntry} (hs : w.step crates path op = some (w', fs)) :
    w.Stepped crates path op w' fs := by
  cases op with
  | log e io =>
    cases io with
    | ok =>
      obtain ⟨rfl, rfl⟩ := Prod.mk.inj (Option.some.inj hs)
      exact .logged e
    | _ =>
      obtain ⟨-, rfl⟩ := Prod.mk.inj (Option.some.inj hs)
      exact .failed e (by simp)
  | rename =>
    obtain ⟨fs', hr, heq⟩ := Option.map_eq_some_iff.mp hs
    obtain ⟨rfl, rfl⟩ := Prod.mk.inj heq
    unfold AuditFs.rename at hr
    split at hr
    · obtain rfl := Option.some.inj hr
      exact .renamed rfl
    · cases hr
  | create =>
    obtain ⟨fs', hc, heq⟩ := Option.map_eq_some_iff.mp hs
    obtain ⟨rfl, rfl⟩ := Prod.mk.inj heq
    unfold AuditFs.create at hc
    split at hc
    · cases hc
    · obtain rfl := Option.some.inj hc
      exact .created
  | reopen =>
    obtain ⟨rfl, rfl⟩ := Prod.mk.inj (Option.some.inj hs)
    exact .reopened rfl rfl
  | restart =>
    simp only [AuditWorld.step] at hs
    split at hs
    · next fs' logger ho =>
      obtain ⟨rfl, rfl⟩ := Prod.mk.inj (Option.some.inj hs)
      exact .restarted ho
    · cases hs

/-! ## The invariant -/

/-- The lines of some entries, one after another. -/
def logText (serde : SerdeJson) (es : List AuditEntry) : Bytes := es.flatMap (AuditEntry.line serde)

/-- What holds after a run that logged the entries `es`: the files are the lines of these
entries, cut into segments; the logger writes to the last segment that is not known to be empty;
the entries form a chain, and the hash in memory is its last hash. -/
structure LogInv (crates : Crates) (w : AuditWorld) (es : List AuditEntry) : Prop where
  layout : ∃ (pre : List (List AuditEntry)) (cur : List AuditEntry) (k : ℕ),
    w.fs.files = (pre ++ cur :: List.replicate k []).map (logText crates.serde) ∧
      w.logger.file = pre.length ∧ es = pre.flatten ++ cur
  chain : AuditChain crates zeroHash es
  prevHash : w.logger.prevHash = lastHash zeroHash es

section Text

variable {serde : SerdeJson}

@[simp] theorem logText_nil : logText serde [] = [] := rfl

theorem logText_concat (es : List AuditEntry) (e : AuditEntry) :
    logText serde (es ++ [e]) = logText serde es ++ e.line serde := by
  simp [logText]

/-- Only the empty list has the empty text. -/
theorem logText_eq_nil_iff {es : List AuditEntry} : logText serde es = [] ↔ es = [] := by
  constructor
  · intro h
    cases es with
    | nil => rfl
    | cons e es => simp [logText, AuditEntry.line_eq] at h
  · rintro rfl
    rfl

/-- The text of some entries is the file of their lines. -/
theorem logText_eq_unlines (es : List AuditEntry) :
    logText serde es = unlines (es.map fun e => utf8 (serde.toString (e.serialize serde))) := by
  induction es with
  | nil => rfl
  | cons e es ih =>
    rw [List.map_cons, unlines_cons, ← ih]
    simp [logText, AuditEntry.line_eq]

/-- Texts of segments are the text of all entries. -/
theorem flatten_map_logText (segs : List (List AuditEntry)) :
    (segs.map (logText serde)).flatten = logText serde segs.flatten := by
  induction segs with
  | nil => rfl
  | cons s segs ih => simp [logText, ih]

end Text

/-! ### Steps that keep the invariant -/

section Steps

variable {crates : Crates} {path : String} {w : AuditWorld} {es : List AuditEntry}

/-- Modifying the first item after a list. -/
private lemma modify_length_append {α : Type} (l r : List α) (a : α) (f : α → α) :
    (l ++ a :: r).modify l.length f = l ++ f a :: r := by
  induction l with
  | nil => rfl
  | cons b l ih => rw [List.cons_append, List.length_cons, List.modify_succ_cons, ih]; rfl

/-- All files together are the lines of the entries, in the order in which they were logged. -/
theorem LogInv.flatten_files (h : LogInv crates w es) :
    w.fs.files.flatten = logText crates.serde es := by
  obtain ⟨pre, cur, k, hfiles, -, rfl⟩ := h.layout
  rw [hfiles, flatten_map_logText]
  simp

/-- A log call that succeeds adds its sealed entry. -/
theorem LogInv.log (h : LogInv crates w es) (e : AuditEntry) :
    LogInv crates
      ⟨w.fs.append w.logger.file ((e.seal crates w.logger.prevHash).line crates.serde),
        ⟨w.logger.file, (e.seal crates w.logger.prevHash).entryHash,
          AuditEntry.isLowerHexHash_seal⟩⟩
      (es ++ [e.seal crates w.logger.prevHash]) := by
  obtain ⟨pre, cur, k, hfiles, hfile, rfl⟩ := h.layout
  refine ⟨⟨pre, cur ++ [e.seal crates w.logger.prevHash], k, ?_, hfile, ?_⟩, ?_, ?_⟩
  · -- The line goes to the end of the current segment.
    have hmod := modify_length_append (pre.map (logText crates.serde))
      ((List.replicate k []).map (logText crates.serde)) (logText crates.serde cur)
      (· ++ (e.seal crates w.logger.prevHash).line crates.serde)
    rw [List.length_map] at hmod
    simp only [AuditFs.append, hfiles, hfile, List.map_append, List.map_cons, hmod, logText_concat]
  · rw [List.append_assoc]
  · rw [auditChain_append, auditChain_cons]
    exact ⟨h.chain, h.prevHash, AuditEntry.seal_entryHash, auditChain_nil⟩
  · simp [lastHash]

/-- Opening the path moves on to the last segment. It is the current one, or it is empty. -/
theorem LogInv.openSecureAppend (h : LogInv crates w es) :
    ∃ (pre : List (List AuditEntry)) (cur : List AuditEntry),
      w.fs.openSecureAppend.1.files = (pre ++ [cur]).map (logText crates.serde) ∧
        w.fs.openSecureAppend.2 = pre.length ∧ es = pre.flatten ++ cur := by
  obtain ⟨pre, cur, k, hfiles, -, rfl⟩ := h.layout
  have hflat : (pre ++ cur :: List.replicate k []).flatten = pre.flatten ++ cur := by simp
  unfold AuditFs.openSecureAppend
  split
  · cases k with
    | zero => exact ⟨pre, cur, hfiles, by simp [hfiles], rfl⟩
    | succ k =>
      -- An empty file was created after the current one.
      refine ⟨pre ++ cur :: List.replicate k [], [], ?_, ?_, ?_⟩
      · rw [hfiles, List.replicate_succ']
        simp
      · simp [hfiles]
      · simp
  · refine ⟨pre ++ cur :: List.replicate k [], [], ?_, ?_, ?_⟩
    · simp [hfiles]
    · simp [hfiles]
    · simp

/-- Opening the path with the hash of the last entry keeps the invariant. -/
theorem LogInv.opened (h : LogInv crates w es) {fs : AuditFs} {logger : AuditState}
    (ho : w.fs.openSecureAppend = (fs, logger.file)) (hp : logger.prevHash = w.logger.prevHash) :
    LogInv crates ⟨fs, logger⟩ es := by
  obtain ⟨pre, cur, hfiles, hfile, hes⟩ := h.openSecureAppend
  rw [ho] at hfiles hfile
  exact ⟨⟨pre, cur, 0, hfiles, hfile, hes⟩, h.chain, hp.trans h.prevHash⟩

/-- Creating a file at the path adds an empty segment at the end. -/
theorem LogInv.create (h : LogInv crates w es) : LogInv crates ⟨w.fs.addEmpty, w.logger⟩ es := by
  obtain ⟨pre, cur, k, hfiles, hfile, hes⟩ := h.layout
  refine ⟨⟨pre, cur, k + 1, ?_, hfile, hes⟩, h.chain, h.prevHash⟩
  rw [List.replicate_succ']
  simp [hfiles]

/-- Renaming the file at the path changes no file. -/
theorem LogInv.rename (h : LogInv crates w es) {fs : AuditFs} (hfiles : fs.files = w.fs.files) :
    LogInv crates ⟨fs, w.logger⟩ es := by
  refine ⟨?_, h.chain, h.prevHash⟩
  rw [hfiles]
  exact h.layout

/-- Recovery from the lines of a chain finds the last entry, if it succeeds at all. -/
theorem eq_entryHash_of_lastEntryHash {pre cur : List AuditEntry} {x : String}
    (hc : AuditChain crates zeroHash (pre ++ cur)) (hne : cur ≠ [])
    (hx : lastEntryHash crates path (logText crates.serde cur) = .ok x) :
    x = lastHash zeroHash (pre ++ cur) := by
  rcases List.eq_nil_or_concat cur with rfl | ⟨cur', e, rfl⟩
  · exact absurd rfl hne
  rw [List.concat_eq_append] at *
  have hmem : e ∈ pre ++ (cur' ++ [e]) := by simp
  have hprev := ne_empty_of_isLowerHexHash
    (hc.isLowerHexHash_prevHash isLowerHexHash_zeroHash e hmem)
  have hhash : e.entryHash ≠ "" := by
    rw [hc.hashed e hmem]
    exact ne_empty_of_isLowerHexHash (isLowerHexHash_hexSha256 crates _)
  have hread := readEntry_toString crates.serde hprev hhash
  have hjson := crates.serde.fromStr_toString _ (e.plain_of_mem_storedFields crates.serde)
  rw [← AuditEntry.serialize_eq crates.serde hprev hhash] at hjson
  rw [logText_eq_unlines, List.map_append, List.map_singleton,
    lastEntryHash_unlines _ (crates.serde.newline_not_mem_toString _)
      (not_blank_of_fromStr hjson)] at hx
  · split at hx
    · obtain ⟨e', he', -, -, rfl⟩ := recoverEntryHash_eq_ok_iff.mp hx
      rw [hread] at he'
      split at he'
      · obtain rfl := Option.some.inj he'
        simp [lastHash]
      · cases he'
    · cases hx
  · intro m hm
    obtain ⟨a, -, rfl⟩ := List.mem_map.mp hm
    exact crates.serde.newline_not_mem_toString _

/-- The live file holds an entry, or no file of the log does. -/
def AuditFs.LiveOrAllEmpty (fs : AuditFs) : Prop :=
  (∃ c, fs.live = some c ∧ c ≠ []) ∨ ∀ f ∈ fs.files, f = []

/-- A restart keeps the invariant if the live file holds an entry or none was ever logged. -/
theorem LogInv.restart (h : LogInv crates w es) (hlive : w.fs.LiveOrAllEmpty) {fs : AuditFs}
    {logger : AuditState} (ho : AuditLogger.open crates path w.fs = .ok (fs, logger)) :
    LogInv crates ⟨fs, logger⟩ es := by
  obtain ⟨hopen, hlast⟩ := AuditLogger.open_eq_ok_iff.mp ho
  refine h.opened hopen ?_
  obtain ⟨pre, cur, hfiles, hfile, hes⟩ := h.openSecureAppend
  rw [hopen] at hfiles hfile
  have hcur : fs.files.getD logger.file [] = logText crates.serde cur := by
    change logger.file = _ at hfile
    rw [hfiles, hfile]
    simp
  rw [h.prevHash]
  by_cases hne : cur = []
  · -- The file is empty, so recovery starts a new chain. Then nothing was ever logged.
    subst hne
    obtain rfl : es = [] := by
      rcases hlive with ⟨c, hc, hcne⟩ | hempty
      · obtain ⟨ho', hget⟩ := AuditFs.openSecureAppend_of_live hc
        obtain ⟨rfl, hidx⟩ := Prod.mk.inj (ho'.symm.trans hopen)
        rw [← hidx, hget] at hcur
        exact absurd hcur hcne
      · rw [← logText_eq_nil_iff, ← h.flatten_files]
        exact List.flatten_eq_nil_iff.mpr hempty
    rw [hcur] at hlast
    exact (Except.ok.inj hlast).symm
  · rw [hcur] at hlast
    subst hes
    exact eq_entryHash_of_lastEntryHash h.chain hne hlast

/-- The operations that keep the invariant: log calls that succeed, rotations, reopening, and
restarts while the live file holds an entry or nothing was ever logged. -/
def AuditOp.KeepsChain (w : AuditWorld) : AuditOp → Prop
  | .log _ io => io = .ok
  | .restart => w.fs.LiveOrAllEmpty
  | _ => True

/-- **Every such operation keeps the invariant**, with the entry that it logs. -/
theorem LogInv.step (h : LogInv crates w es) {op : AuditOp} (hop : op.KeepsChain w)
    {w' : AuditWorld} {fs : List AuditEntry} (hs : w.step crates path op = some (w', fs)) :
    LogInv crates w' (es ++ fs) := by
  cases AuditWorld.stepped hs with
  | logged e => exact h.log e
  | failed e hio => exact absurd hop hio
  | renamed hfiles =>
    rw [List.append_nil]
    exact h.rename hfiles
  | created =>
    rw [List.append_nil]
    exact h.create
  | reopened ho hp =>
    rw [List.append_nil]
    exact h.opened ho hp
  | restarted ho =>
    rw [List.append_nil]
    exact h.restart hop ho

/-- The invariant holds when a log without entries is opened. -/
theorem LogInv.init {fs₀ fs : AuditFs} {logger : AuditState} (hfs : ∀ f ∈ fs₀.files, f = [])
    (ho : AuditLogger.open crates path fs₀ = .ok (fs, logger)) : LogInv crates ⟨fs, logger⟩ [] := by
  obtain ⟨hopen, hlast⟩ := AuditLogger.open_eq_ok_iff.mp ho
  have hrep : ∃ n, fs.files = List.replicate (n + 1) [] ∧ logger.file = n := by
    have hfs₀ := List.eq_replicate_of_mem hfs
    unfold AuditFs.openSecureAppend at hopen
    split at hopen
    · next hl =>
      obtain ⟨rfl, hidx⟩ := Prod.mk.inj hopen
      have hpos := List.length_pos_iff.mpr (fs₀.ne_nil hl)
      exact ⟨fs₀.files.length - 1, by rwa [Nat.sub_add_cancel hpos], hidx.symm⟩
    · obtain ⟨rfl, hidx⟩ := Prod.mk.inj hopen
      refine ⟨fs₀.files.length, ?_, hidx.symm⟩
      rw [List.replicate_succ', ← hfs₀, AuditFs.addEmpty_files]
  obtain ⟨n, hfiles, hfile⟩ := hrep
  refine ⟨⟨List.replicate n [], [], 0, ?_, ?_, ?_⟩, auditChain_nil, ?_⟩
  · rw [hfiles, List.replicate_succ']
    simp
  · simp [hfile]
  · simp
  · have hget : fs.files.getD logger.file [] = [] := by
      simp [hfiles, hfile]
    rw [hget] at hlast
    exact (Except.ok.inj hlast).symm

/-- The invariant holds after every run of operations that keep it. -/
theorem LogInv.of_run {fs₀ : AuditFs} {w₀ : AuditWorld} {ops : List AuditOp}
    (hfs : ∀ f ∈ fs₀.files, f = [])
    (ho : AuditLogger.open crates path fs₀ = .ok (w₀.fs, w₀.logger))
    (hrun : Run (AuditWorld.step crates path) (fun w op => op.KeepsChain w) w₀ ops w es) :
    LogInv crates w es :=
  hrun.invariant (fun _ w es => LogInv crates w es) (.init hfs ho)
    fun _ _ _ _ _ _ hinv hop hs => hinv.step hop hs

end Steps

/-! ## The segments of a log form one chain -/

section Segments

variable {crates : Crates} {path : String} {w : AuditWorld} {es : List AuditEntry}

/-- The line of a written entry holds that entry. -/
def LineDecodes (crates : Crates) (e : AuditEntry) : Prop :=
  decodeLog crates.serde (e.line crates.serde) = some [e]

/-- The lines of entries that decode hold these entries. -/
theorem decodeLog_logText (hd : ∀ e ∈ es, LineDecodes crates e) :
    decodeLog crates.serde (logText crates.serde es) = some es := by
  induction es with
  | nil => rfl
  | cons e es ih =>
    rw [List.forall_mem_cons] at hd
    have hes := ih hd.2
    rw [decodeLog] at hes ⊢
    rw [logText, List.flatMap_cons, ← logText, decodeLines_append hd.1, hes]
    rfl

/-- The lines of a chain of entries that decode are accepted. -/
theorem verifyReader_logText (hc : AuditChain crates zeroHash es)
    (hd : ∀ e ∈ es, LineDecodes crates e) :
    verifyReader crates path (logText crates.serde es) = .ok ⟨es.length, lastHash zeroHash es⟩ :=
  verifyReader_eq_ok_iff.mpr ⟨es, decodeLog_logText hd, hc, rfl⟩

/-- Log calls that succeed, on entries whose line decodes back, and rotations in any order; no
restart. -/
def AuditOp.OneLifetime (crates : Crates) : AuditOp → Prop
  | .log e io => io = .ok ∧ e.DecodesBack crates
  | .restart => False
  | _ => True

/-- What a run of one lifetime keeps, beside the invariant: it counts its log calls, and the
written lines decode. -/
structure LifetimeInv (crates : Crates) (ops : List AuditOp) (w : AuditWorld)
    (es : List AuditEntry) : Prop extends LogInv crates w es where
  count : es.length = ops.countP AuditOp.isLog
  decodes : ∀ e ∈ es, LineDecodes crates e

/-- An operation of one lifetime keeps the chain. -/
theorem AuditOp.OneLifetime.keepsChain {op : AuditOp} (h : op.OneLifetime crates)
    (w : AuditWorld) : op.KeepsChain w := by
  cases op with
  | log e io => exact h.1
  | restart => exact h.elim
  | _ => trivial

/-- Operations of one lifetime keep the invariant. -/
theorem LifetimeInv.step {ops : List AuditOp} {op : AuditOp} {w' : AuditWorld}
    {fs : List AuditEntry} (h : LifetimeInv crates ops w es) (hop : op.OneLifetime crates)
    (hs : w.step crates path op = some (w', fs)) :
    LifetimeInv crates (ops ++ [op]) w' (es ++ fs) := by
  refine ⟨h.toLogInv.step (hop.keepsChain w) hs, ?_, ?_⟩
  · cases AuditWorld.stepped hs with
    | failed e hio => exact absurd hop.1 hio
    | _ => simp [h.count, AuditOp.isLog]
  · cases AuditWorld.stepped hs with
    | logged e =>
      rw [List.forall_mem_append]
      refine ⟨h.decodes, fun f hf => ?_⟩
      rw [List.mem_singleton.mp hf]
      exact decodeLog_line hop.2 w.logger.lowerHex
    | _ =>
      rw [List.append_nil]
      exact h.decodes

/-- The invariant holds after every run of one lifetime. -/
theorem LifetimeInv.of_run {fs₀ : AuditFs} {w₀ : AuditWorld} {ops : List AuditOp}
    (hfs : ∀ f ∈ fs₀.files, f = [])
    (ho : AuditLogger.open crates path fs₀ = .ok (w₀.fs, w₀.logger))
    (hrun : Run (AuditWorld.step crates path) (fun _ op => op.OneLifetime crates) w₀ ops w es) :
    LifetimeInv crates ops w es :=
  hrun.invariant (LifetimeInv crates) ⟨.init hfs ho, rfl, by simp⟩
    fun _ _ _ _ _ _ hinv hop hs => hinv.step hop hs

/-- **The segments of a log form one accepted log.** Take any run of log calls, in any
interleaving, and of rotations with any number of late writes to the renamed file, from the
opening of a log without entries, in which all I/O succeeds and the lines of the entries decode
back. Then the concatenation of all segments in rotation order is accepted, with as many entries
as there were log calls and the hash in memory as its last hash. It decodes to the logged
entries; each of them commits to the hash of the one before it and the first one to the zero
hash; and each takes one line, terminated by a newline. -/
theorem segments_accepted {fs₀ : AuditFs} {w₀ : AuditWorld} {ops : List AuditOp}
    (hfs : ∀ f ∈ fs₀.files, f = [])
    (ho : AuditLogger.open crates path fs₀ = .ok (w₀.fs, w₀.logger))
    (hrun : Run (AuditWorld.step crates path) (fun _ op => op.OneLifetime crates) w₀ ops w es) :
    verifyReader crates path w.fs.files.flatten =
        .ok ⟨ops.countP AuditOp.isLog, w.logger.prevHash⟩ ∧
      decodeLog crates.serde w.fs.files.flatten = some es ∧
      (∀ e, es[0]? = some e → e.prevHash = zeroHash) ∧
      (∀ i e f, es[i]? = some e → es[i + 1]? = some f → f.prevHash = e.entryHash) ∧
      List.Forall₂ (fun buf e => ∃ l, buf = l ++ [newline] ∧ newline ∉ l ∧
        decodeEntry crates.serde l = some e) (frames w.fs.files.flatten) es := by
  have h := LifetimeInv.of_run hfs ho hrun
  have hdec := decodeLog_logText h.decodes
  rw [h.flatten_files, ← h.count, h.prevHash]
  refine ⟨verifyReader_logText h.chain h.decodes, hdec, h.chain.linked.prev_getElem.1,
    h.chain.linked.prev_getElem.2, forall₂_frames_of_decodeLines hdec⟩

/-- An empty file at the path. -/
def emptyFs : AuditFs := ⟨[[]], true, by simp⟩

/-- The log after it was opened on an empty file. -/
def freshWorld : AuditWorld := ⟨emptyFs, ⟨0, zeroHash, isLowerHexHash_zeroHash⟩⟩

/-- Opening an empty file starts a new chain. -/
theorem open_emptyFs (crates : Crates) (path : String) :
    AuditLogger.open crates path emptyFs = .ok (freshWorld.fs, freshWorld.logger) :=
  AuditLogger.open_eq_ok_iff.mpr ⟨rfl, rfl⟩

/-- A run with a late write to the renamed file. -/
private lemma late_write_run (crates : Crates) (path : String) :
    ∃ w es, Run (AuditWorld.step crates path) (fun _ op => op.OneLifetime crates) freshWorld
      [.log (testEntry "req-1") .ok, .rename, .log (testEntry "req-2") .ok, .create, .reopen,
        .log (testEntry "req-3") .ok] w es := by
  have hd := testEntry_decodesBack crates
  have hnil : Run (AuditWorld.step crates path) (fun _ op => op.OneLifetime crates) freshWorld []
      freshWorld [] := .nil
  have hlog := hnil.snoc (AuditOp.log (testEntry "req-1") .ok) ⟨rfl, hd _⟩ rfl
  have hlate := (hlog.snoc AuditOp.rename trivial rfl).snoc (AuditOp.log (testEntry "req-2") .ok)
    ⟨rfl, hd _⟩ rfl
  exact ⟨_, _, ((hlate.snoc AuditOp.create trivial rfl).snoc AuditOp.reopen trivial rfl).snoc
    (AuditOp.log (testEntry "req-3") .ok) ⟨rfl, hd _⟩ rfl⟩

/-- Three log calls, one of them late, leave two files that form one log of three entries. -/
theorem segments_accepted_late_write :
    ∃ w es, Run (AuditWorld.step .reference "audit.log") (fun _ op => op.OneLifetime .reference)
        freshWorld [.log (testEntry "req-1") .ok, .rename, .log (testEntry "req-2") .ok, .create,
          .reopen, .log (testEntry "req-3") .ok] w es ∧
      verifyReader .reference "audit.log" w.fs.files.flatten = .ok ⟨3, w.logger.prevHash⟩ := by
  obtain ⟨w, es, hrun⟩ := late_write_run .reference "audit.log"
  exact ⟨w, es, hrun, (segments_accepted (by simp [emptyFs]) (open_emptyFs _ _) hrun).1⟩

end Segments

/-! ## Restarts -/

section Restarts

variable {crates : Crates} {path : String} {w : AuditWorld} {es : List AuditEntry}

/-- **When restarts keep the chain.** Take any run of log calls, rotations and restarts in which
all I/O succeeds and every restart finds an entry in the live file, or no entry in any file. Then
the first entry logged commits to the zero hash and every later one to the hash of the entry
logged before it, whichever segment that is in; and the zero hash is used for the first entry
only, unless some payload has it as its digest. -/
theorem restarts_keep_chain {fs₀ : AuditFs} {w₀ : AuditWorld} {ops : List AuditOp}
    (hfs : ∀ f ∈ fs₀.files, f = [])
    (ho : AuditLogger.open crates path fs₀ = .ok (w₀.fs, w₀.logger))
    (hrun : Run (AuditWorld.step crates path) (fun w op => op.KeepsChain w) w₀ ops w es) :
    (∀ e, es[0]? = some e → e.prevHash = zeroHash) ∧
      (∀ i e f, es[i]? = some e → es[i + 1]? = some f → f.prevHash = e.entryHash) ∧
      ((∀ p, crates.sha256 p ≠ Vector.replicate 32 0) →
        ∀ i f, es[i + 1]? = some f → f.prevHash ≠ zeroHash) := by
  have h := LogInv.of_run hfs ho hrun
  obtain ⟨hfirst, hnext⟩ := h.chain.linked.prev_getElem
  refine ⟨hfirst, hnext, fun hz i f hf => ?_⟩
  have hi : i < es.length := by
    have := (List.getElem?_eq_some_iff.mp hf).1
    omega
  rw [hnext i es[i] f (List.getElem?_eq_getElem hi) hf]
  exact entryHash_ne_zeroHash (h.chain.hashed _ (List.getElem_mem hi)) (hz _)

/-- The log after one entry was logged to an empty file. -/
def loggedWorld (crates : Crates) (e : AuditEntry) : AuditWorld :=
  ⟨emptyFs.append 0 ((e.seal crates zeroHash).line crates.serde),
    ⟨0, (e.seal crates zeroHash).entryHash, AuditEntry.isLowerHexHash_seal⟩⟩

/-- A restart between a log call and a rotation finds the entry, if its line fits in the recovery
window. -/
private lemma restart_run (crates : Crates) (path : String) {e f : AuditEntry}
    (he : e.DecodesBack crates)
    (hw : FitsRecoveryWindow ((e.seal crates zeroHash).line crates.serde)) :
    ∃ w, Run (AuditWorld.step crates path) (fun w op => op.KeepsChain w) freshWorld
      [.log e .ok, .restart, .rename, .create, .reopen, .log f .ok] w
      [e.seal crates zeroHash, f.seal crates (e.seal crates zeroHash).entryHash] := by
  have hv := verifyReader_append_line (verifyReader_nil crates path) he
  rw [List.nil_append] at hv
  have hopen : AuditLogger.open crates path (loggedWorld crates e).fs =
      .ok ((loggedWorld crates e).fs, (loggedWorld crates e).logger) :=
    AuditLogger.open_eq_ok_iff.mpr ⟨rfl, lastEntryHash_of_verifyReader hv hw⟩
  have hrestart : (loggedWorld crates e).step crates path .restart =
      some (loggedWorld crates e, []) := by
    rw [AuditWorld.step, hopen]
  have hlive : (loggedWorld crates e).fs.LiveOrAllEmpty := by
    refine .inl ⟨_, rfl, ?_⟩
    rw [AuditEntry.line_eq]
    simp
  have hlog : Run (AuditWorld.step crates path) (fun w op => op.KeepsChain w) freshWorld
      [.log e .ok] (loggedWorld crates e) [e.seal crates zeroHash] :=
    Run.snoc (AuditOp.log e .ok) .nil rfl rfl
  have hrotated := ((hlog.snoc AuditOp.restart hlive hrestart).snoc AuditOp.rename trivial rfl).snoc
    AuditOp.create trivial rfl
  exact ⟨_, (hrotated.snoc AuditOp.reopen trivial rfl).snoc (AuditOp.log f .ok) rfl rfl⟩

/-- A restart between a log call and a rotation keeps the chain. -/
theorem restarts_keep_chain_rotated :
    ∃ w e f, Run (AuditWorld.step .reference "audit.log") (fun w op => op.KeepsChain w) freshWorld
        [.log (testEntry "req-1") .ok, .restart, .rename, .create, .reopen,
          .log (testEntry "req-2") .ok] w [e, f] ∧
      f.prevHash = e.entryHash := by
  obtain ⟨w, hrun⟩ := restart_run .reference "audit.log" (testEntry_decodesBack _ "req-1")
    (.inl ((length_line_testEntry_le (by decide) isLowerHexHash_zeroHash).trans (by decide)))
  exact ⟨w, _, _, hrun,
    (restarts_keep_chain (by simp [emptyFs]) (open_emptyFs _ _) hrun).2.1 0 _ _ rfl rfl⟩

/-- The hash of the first entry of the unit tests is not the zero hash. -/
theorem testEntry_entryHash_ne_zeroHash :
    ((testEntry "req-1").seal .reference zeroHash).entryHash ≠ zeroHash := by
  decide +kernel

/-- All I/O succeeds. -/
def AuditOp.IoOk : AuditOp → Prop
  | .log _ io => io = .ok
  | _ => True

/-- A restart right after a rotation severs the chain: the live file is empty then, so the next
entry commits to the zero hash and not to the entry logged before it. -/
theorem restart_severs_chain :
    ∃ w e f, Run (AuditWorld.step .reference "audit.log") (fun _ op => op.IoOk) freshWorld
        [.log (testEntry "req-1") .ok, .rename, .create, .reopen, .restart,
          .log (testEntry "req-2") .ok] w [e, f] ∧
      AuditLogger.open .reference "audit.log" emptyFs = .ok (freshWorld.fs, freshWorld.logger) ∧
      f.prevHash = zeroHash ∧ f.prevHash ≠ e.entryHash := by
  have hnil : Run (AuditWorld.step .reference "audit.log") (fun _ op => op.IoOk) freshWorld []
      freshWorld [] := .nil
  have hlog := hnil.snoc (AuditOp.log (testEntry "req-1") .ok) rfl rfl
  have hrotated := ((hlog.snoc AuditOp.rename trivial rfl).snoc AuditOp.create trivial rfl).snoc
    AuditOp.reopen trivial rfl
  exact ⟨_, _, _, (hrotated.snoc AuditOp.restart trivial rfl).snoc
    (AuditOp.log (testEntry "req-2") .ok) rfl rfl, open_emptyFs _ _, rfl,
    testEntry_entryHash_ne_zeroHash.symm⟩

end Restarts

/-! ## Files on their own -/

section Files

variable {crates : Crates} {path : String} {w : AuditWorld} {es : List AuditEntry}

/-- Log calls that succeed, on entries whose line decodes back, and rotations and restarts in any
order. -/
def AuditOp.Decodable (crates : Crates) : AuditOp → Prop
  | .log e io => io = .ok ∧ e.DecodesBack crates
  | _ => True

/-- A log call that writes to an empty file finds the zero hash in memory. -/
def AuditOp.StartsAtZero (w : AuditWorld) : AuditOp → Prop
  | .log _ _ => w.fs.files[w.logger.file]? = some [] → w.logger.prevHash = zeroHash
  | _ => True

/-- Every file of the log is accepted. -/
def AuditFs.Accepted (crates : Crates) (path : String) (fs : AuditFs) : Prop :=
  ∀ f ∈ fs.files, ∃ report, verifyReader crates path f = .ok report

/-- What holds while every file is accepted: the file that the logger writes to is empty, or its
last hash is the hash in memory; and the files after it are empty. -/
structure FilesInv (crates : Crates) (path : String) (w : AuditWorld) : Prop where
  accepted : w.fs.Accepted crates path
  current : ∃ content, w.fs.files[w.logger.file]? = some content ∧
    (content ≠ [] → ∃ n, verifyReader crates path content = .ok ⟨n, w.logger.prevHash⟩)
  later : ∀ i f, w.logger.file < i → w.fs.files[i]? = some f → f = []

/-- A new empty file is accepted. -/
theorem AuditFs.Accepted.addEmpty {fs : AuditFs} (h : fs.Accepted crates path) :
    fs.addEmpty.Accepted crates path := by
  intro f hf
  rcases List.mem_append.mp hf with hf | hf
  · exact h f hf
  · rw [List.mem_singleton.mp hf]
    exact ⟨_, verifyReader_nil crates path⟩

/-- What opening the path does: it opens the last file, which was there before or is new and
empty. -/
theorem AuditFs.openSecureAppend_cases {fs fs' : AuditFs} {file : ℕ}
    (ho : fs.openSecureAppend = (fs', file)) :
    fs'.files.length = file + 1 ∧ (fs' = fs ∨ fs' = fs.addEmpty) := by
  unfold AuditFs.openSecureAppend at ho
  split at ho
  · next hl =>
    obtain ⟨rfl, rfl⟩ := Prod.mk.inj ho
    have hpos := List.length_pos_iff.mpr (fs.ne_nil hl)
    exact ⟨by omega, .inl rfl⟩
  · obtain ⟨rfl, rfl⟩ := Prod.mk.inj ho
    exact ⟨by simp, .inr rfl⟩

/-- Opening the path keeps all files accepted. -/
theorem AuditFs.Accepted.openSecureAppend {fs fs' : AuditFs} {file : ℕ}
    (h : fs.Accepted crates path) (ho : fs.openSecureAppend = (fs', file)) :
    fs'.Accepted crates path := by
  obtain ⟨-, rfl | rfl⟩ := AuditFs.openSecureAppend_cases ho
  · exact h
  · exact h.addEmpty

/-- Opening a log of accepted files: recovery finds the last hash of the file at the path. -/
theorem FilesInv.of_open {fs fs' : AuditFs} {logger : AuditState} (hfs : fs.Accepted crates path)
    (ho : AuditLogger.open crates path fs = .ok (fs', logger)) :
    FilesInv crates path ⟨fs', logger⟩ := by
  obtain ⟨hopen, hlast⟩ := AuditLogger.open_eq_ok_iff.mp ho
  obtain ⟨hlen, -⟩ := AuditFs.openSecureAppend_cases hopen
  have hacc := hfs.openSecureAppend hopen
  have hget : fs'.files[logger.file]? = some (fs'.files.getD logger.file []) := by
    rw [List.getD_eq_getElem?_getD, List.getElem?_eq_getElem (by omega), Option.getD_some]
  refine ⟨hacc, ⟨_, hget, fun _ => ?_⟩, fun i f hi hf => ?_⟩
  · obtain ⟨⟨n, h⟩, hreport⟩ := hacc _ (List.mem_of_getElem? hget)
    obtain rfl : logger.prevHash = h := eq_lastHash_of_lastEntryHash hreport hlast
    exact ⟨n, hreport⟩
  · have hlt := (List.getElem?_eq_some_iff.mp hf).1
    dsimp only at hlt hi
    omega

/-- Reopening the path: the file there is the current one, or it is empty. -/
theorem FilesInv.reopen (h : FilesInv crates path w) {fs : AuditFs} {logger : AuditState}
    (ho : w.fs.openSecureAppend = (fs, logger.file)) (hp : logger.prevHash = w.logger.prevHash) :
    FilesInv crates path ⟨fs, logger⟩ := by
  obtain ⟨hlen, hfiles⟩ := AuditFs.openSecureAppend_cases ho
  obtain ⟨content, hcontent, hreport⟩ := h.current
  have hlt := (List.getElem?_eq_some_iff.mp hcontent).1
  have hempty : logger.file ≠ w.logger.file → fs.files[logger.file]? = some [] := by
    intro hne
    rcases hfiles with rfl | rfl
    · obtain ⟨f, hf⟩ : ∃ f, w.fs.files[logger.file]? = some f :=
        ⟨_, List.getElem?_eq_getElem (by omega)⟩
      rw [hf, h.later logger.file f (by omega) hf]
    · have hfile : logger.file = w.fs.files.length := by simpa using hlen.symm
      rw [hfile]
      simp
  refine ⟨h.accepted.openSecureAppend ho, ?_, fun i f hi hf => ?_⟩
  · by_cases hfile : logger.file = w.logger.file
    · refine ⟨content, ?_, by rwa [hp]⟩
      rw [hfile]
      rcases hfiles with rfl | rfl
      · exact hcontent
      · rw [AuditFs.addEmpty_files, List.getElem?_append_left hlt, hcontent]
    · exact ⟨[], hempty hfile, fun hne => absurd rfl hne⟩
  · have hlt' := (List.getElem?_eq_some_iff.mp hf).1
    dsimp only at hlt' hi
    omega

/-- Renaming a file changes no file. -/
theorem FilesInv.rename (h : FilesInv crates path w) {fs : AuditFs}
    (hfiles : fs.files = w.fs.files) : FilesInv crates path ⟨fs, w.logger⟩ := by
  refine ⟨fun f hf => h.accepted f (hfiles ▸ hf), ?_, ?_⟩ <;> rw [hfiles]
  · exact h.current
  · exact h.later

/-- A new empty file at the path. -/
theorem FilesInv.create (h : FilesInv crates path w) :
    FilesInv crates path ⟨w.fs.addEmpty, w.logger⟩ := by
  obtain ⟨content, hcontent, hreport⟩ := h.current
  have hlt := (List.getElem?_eq_some_iff.mp hcontent).1
  refine ⟨h.accepted.addEmpty, ⟨content, ?_, hreport⟩, fun i f hi hf => ?_⟩
  · rw [AuditFs.addEmpty_files, List.getElem?_append_left hlt, hcontent]
  · rw [AuditFs.addEmpty_files] at hf
    rcases Nat.lt_or_ge i w.fs.files.length with hlt' | hge
    · rw [List.getElem?_append_left hlt'] at hf
      exact h.later i f hi hf
    · rw [List.getElem?_append_right hge] at hf
      exact List.mem_singleton.mp (List.mem_of_getElem? hf)

/-- A log call on an entry whose line decodes back, unless it starts a file with another hash than
the zero hash in memory. -/
theorem FilesInv.log (h : FilesInv crates path w) {e : AuditEntry} (hd : e.DecodesBack crates)
    (hzero : w.fs.files[w.logger.file]? = some [] → w.logger.prevHash = zeroHash) :
    FilesInv crates path
      ⟨w.fs.append w.logger.file ((e.seal crates w.logger.prevHash).line crates.serde),
        ⟨w.logger.file, (e.seal crates w.logger.prevHash).entryHash,
          AuditEntry.isLowerHexHash_seal⟩⟩ := by
  obtain ⟨content, hcontent, hreport⟩ := h.current
  obtain ⟨n, hn⟩ : ∃ n, verifyReader crates path content = .ok ⟨n, w.logger.prevHash⟩ := by
    by_cases hne : content = []
    · subst hne
      exact ⟨0, by rw [hzero hcontent]; rfl⟩
    · exact hreport hne
  have hline := verifyReader_append_line hn hd
  refine ⟨fun f hf => ?_, ⟨_, ?_, fun _ => ⟨_, hline⟩⟩, fun i f hi hf => ?_⟩
  · obtain ⟨i, hi⟩ := List.mem_iff_getElem?.mp hf
    rw [AuditFs.getElem?_append, Option.map_eq_some_iff] at hi
    obtain ⟨content', hcontent', rfl⟩ := hi
    split
    · next heq =>
      rw [← heq, hcontent] at hcontent'
      obtain rfl := Option.some.inj hcontent'
      exact ⟨_, hline⟩
    · exact h.accepted _ (List.mem_of_getElem? hcontent')
  · rw [AuditFs.getElem?_append, hcontent, Option.map_some, if_pos rfl]
  · rw [AuditFs.getElem?_append, Option.map_eq_some_iff] at hf
    obtain ⟨content', hcontent', rfl⟩ := hf
    rw [if_neg (Nat.ne_of_lt hi)]
    exact h.later i content' hi hcontent'

/-- **Every operation keeps all files accepted**, if no log call starts a file with another hash
than the zero hash in memory. -/
theorem FilesInv.step (h : FilesInv crates path w) {op : AuditOp} (hop : op.Decodable crates)
    (hzero : op.StartsAtZero w) {w' : AuditWorld} {fs : List AuditEntry}
    (hs : w.step crates path op = some (w', fs)) : FilesInv crates path w' := by
  cases AuditWorld.stepped hs with
  | logged e => exact h.log hop.2 hzero
  | failed e hio => exact absurd hop.1 hio
  | renamed hfiles => exact h.rename hfiles
  | created => exact h.create
  | reopened ho hp => exact h.reopen ho hp
  | restarted ho => exact .of_open h.accepted ho

/-! ### Files that are never accepted again -/

/-- Some file starts with an entry that does not commit to the zero hash. -/
def AuditWorld.HasFalseStart (crates : Crates) (w : AuditWorld) : Prop :=
  ∃ f ∈ w.fs.files, ∃ (e : AuditEntry) (h : String), e.DecodesBack crates ∧ isLowerHexHash h ∧
    h ≠ zeroHash ∧ (e.seal crates h).line crates.serde <+: f

/-- Such a file is not accepted. -/
theorem AuditWorld.HasFalseStart.not_accepted (h : w.HasFalseStart crates) :
    ¬ w.fs.Accepted crates path := by
  obtain ⟨f, hf, e, hash, hd, hlow, hne, rest, rfl⟩ := h
  exact fun hacc => not_verifyReader_line_append hd hlow hne rest (hacc _ hf)

/-- Files only grow. -/
theorem AuditWorld.exists_prefix_of_step {op : AuditOp} {w' : AuditWorld} {fs : List AuditEntry}
    (hop : op.Decodable crates) (hs : w.step crates path op = some (w', fs)) {f : Bytes}
    (hf : f ∈ w.fs.files) : ∃ f' ∈ w'.fs.files, f <+: f' := by
  have hopen : ∀ {fs' : AuditFs} {file : ℕ}, w.fs.openSecureAppend = (fs', file) →
      ∃ f' ∈ fs'.files, f <+: f' := by
    intro fs' file ho
    obtain ⟨-, rfl | rfl⟩ := AuditFs.openSecureAppend_cases ho
    · exact ⟨f, hf, List.prefix_refl f⟩
    · exact ⟨f, List.mem_append_left _ hf, List.prefix_refl f⟩
  cases AuditWorld.stepped hs with
  | logged e =>
    obtain ⟨i, hi⟩ := List.mem_iff_getElem?.mp hf
    have hgrown := AuditFs.getElem?_append w.fs w.logger.file
      ((e.seal crates w.logger.prevHash).line crates.serde) i
    rw [hi, Option.map_some] at hgrown
    refine ⟨_, List.mem_of_getElem? hgrown, ?_⟩
    split
    · exact List.prefix_append f _
    · exact List.prefix_refl f
  | failed e hio => exact absurd hop.1 hio
  | renamed hfiles => exact ⟨f, hfiles ▸ hf, List.prefix_refl f⟩
  | created => exact ⟨f, List.mem_append_left _ hf, List.prefix_refl f⟩
  | reopened ho _ => exact hopen ho
  | restarted ho => exact hopen (AuditLogger.open_eq_ok_iff.mp ho).1

/-- A file with a false start keeps it. -/
theorem AuditWorld.HasFalseStart.step {op : AuditOp} {w' : AuditWorld} {fs : List AuditEntry}
    (h : w.HasFalseStart crates) (hop : op.Decodable crates)
    (hs : w.step crates path op = some (w', fs)) : w'.HasFalseStart crates := by
  obtain ⟨f, hf, e, hash, hd, hlow, hne, hprefix⟩ := h
  obtain ⟨f', hf', hgrown⟩ := AuditWorld.exists_prefix_of_step hop hs hf
  exact ⟨f', hf', e, hash, hd, hlow, hne, hprefix.trans hgrown⟩

/-- A log call that starts a file with another hash than the zero hash in memory. -/
theorem AuditWorld.hasFalseStart_of_step {op : AuditOp} {w' : AuditWorld} {fs : List AuditEntry}
    (hop : op.Decodable crates) (hzero : ¬ op.StartsAtZero w)
    (hs : w.step crates path op = some (w', fs)) : w'.HasFalseStart crates := by
  cases op with
  | log e io =>
    obtain ⟨rfl, hd⟩ := hop
    obtain ⟨rfl, -⟩ := Prod.mk.inj (Option.some.inj hs)
    obtain ⟨hempty, hne⟩ := Classical.not_imp.mp hzero
    have hget : (w.fs.append w.logger.file
        ((e.seal crates w.logger.prevHash).line crates.serde)).files[w.logger.file]? =
          some ((e.seal crates w.logger.prevHash).line crates.serde) := by
      rw [AuditFs.getElem?_append, hempty, Option.map_some, if_pos rfl, List.nil_append]
    exact ⟨_, List.mem_of_getElem? hget, e, w.logger.prevHash, hd, w.logger.lowerHex, hne,
      List.prefix_refl _⟩
  | _ => exact absurd trivial hzero

/-- **When every file is accepted on its own.** Open a log whose files are accepted, and take any
run of log calls, rotations and restarts in which all I/O succeeds and the lines of the entries
decode back. Every file of the log, the live one and the rotated ones, is accepted on its own if
and only if each log call that wrote to an empty file found the zero hash in memory.

**Proof sketch.** As long as this is so, the file that the logger writes to is empty or ends with
the hash in memory. A file whose first entry does not commit to the zero hash is never accepted
again, since files only grow. -/
theorem single_files_accepted_iff {fs₀ : AuditFs} {w₀ : AuditWorld} {ops : List AuditOp}
    (hfs : ∀ f ∈ fs₀.files, ∃ report, verifyReader crates path f = .ok report)
    (ho : AuditLogger.open crates path fs₀ = .ok (w₀.fs, w₀.logger))
    (hrun : Run (AuditWorld.step crates path) (fun _ op => op.Decodable crates) w₀ ops w es) :
    (∀ f ∈ w.fs.files, ∃ report, verifyReader crates path f = .ok report) ↔
      Run (AuditWorld.step crates path) (fun w op => op.Decodable crates ∧ op.StartsAtZero w) w₀
        ops w es := by
  constructor
  · intro hacc
    refine hrun.restrict (fun _ _ _ _ hop hno hs => AuditWorld.hasFalseStart_of_step hop hno hs)
      (fun _ _ _ _ hop hs hfalse => hfalse.step hop hs) fun hfalse => ?_
    exact hfalse.not_accepted hacc
  · intro hzero
    have hinv : FilesInv crates path w :=
      hzero.invariant (fun _ w _ => FilesInv crates path w) (.of_open hfs ho)
        fun _ _ _ _ _ _ hinv hop hs => hinv.step hop.1 hop.2 hs
    exact hinv.accepted

/-- A restart after a rotation starts the new file with the zero hash, so that both files are
accepted. -/
theorem single_files_accepted_iff_restarted :
    ∃ w es, Run (AuditWorld.step .reference "audit.log") (fun _ op => op.Decodable .reference)
        freshWorld [.log (testEntry "req-1") .ok, .log (testEntry "req-2") .ok, .rename, .create,
          .restart, .log (testEntry "req-3") .ok] w es ∧
      es.length = 3 ∧ w.fs.files.length = 2 ∧
      ∀ f ∈ w.fs.files, ∃ report, verifyReader .reference "audit.log" f = .ok report := by
  have hd := testEntry_decodesBack .reference
  have hnil : Run (AuditWorld.step .reference "audit.log")
      (fun w op => op.Decodable .reference ∧ op.StartsAtZero w) freshWorld [] freshWorld [] := .nil
  have hlog := hnil.snoc (AuditOp.log (testEntry "req-1") .ok) ⟨⟨rfl, hd _⟩, fun _ => rfl⟩ rfl
  have hlog₂ := hlog.snoc (AuditOp.log (testEntry "req-2") .ok)
    ⟨⟨rfl, hd _⟩, fun hempty => by simp [AuditEntry.line_eq, AuditFs.append] at hempty⟩ rfl
  have hrotated := (hlog₂.snoc AuditOp.rename ⟨trivial, trivial⟩ rfl).snoc AuditOp.create
    ⟨trivial, trivial⟩ rfl
  have hrun := (hrotated.snoc AuditOp.restart ⟨trivial, trivial⟩ rfl).snoc
    (AuditOp.log (testEntry "req-3") .ok) ⟨⟨rfl, hd _⟩, fun _ => rfl⟩ rfl
  have hall := hrun.mono fun _ _ hop => hop.1
  refine ⟨_, _, hall, rfl, rfl, (single_files_accepted_iff ?_ (open_emptyFs _ _) hall).mpr hrun⟩
  intro f hf
  rw [List.mem_singleton.mp hf]
  exact ⟨_, verifyReader_nil _ _⟩

/-- A file that is written after a rotation is not accepted on its own: its first entry commits
to the last entry of the rotated file, and the verifier starts from the zero hash. -/
theorem rotated_file_rejected :
    ∃ w es f, Run (AuditWorld.step .reference "audit.log") (fun _ op => op.Decodable .reference)
        freshWorld [.log (testEntry "req-1") .ok, .rename, .create, .reopen,
          .log (testEntry "req-2") .ok] w es ∧
      AuditLogger.open .reference "audit.log" emptyFs = .ok (freshWorld.fs, freshWorld.logger) ∧
      w.fs.live = some f ∧ ¬ ∃ report, verifyReader .reference "audit.log" f = .ok report := by
  have hd := testEntry_decodesBack .reference
  have hnil : Run (AuditWorld.step .reference "audit.log")
      (fun _ op => op.Decodable .reference) freshWorld [] freshWorld [] := .nil
  have hlog := hnil.snoc (AuditOp.log (testEntry "req-1") .ok) ⟨rfl, hd _⟩ rfl
  have hrotated := ((hlog.snoc AuditOp.rename trivial rfl).snoc AuditOp.create trivial rfl).snoc
    AuditOp.reopen trivial rfl
  exact ⟨_, _, _, hrotated.snoc (AuditOp.log (testEntry "req-2") .ok) ⟨rfl, hd _⟩ rfl,
    open_emptyFs _ _, rfl, not_verifyReader_append_line (verifyReader_nil _ _) (hd "req-2")
      AuditEntry.isLowerHexHash_seal testEntry_entryHash_ne_zeroHash⟩

end Files

/-! ## Failed calls -/

section Failures

variable {crates : Crates} {path : String} {w : AuditWorld} {es : List AuditEntry}

/-- The call leaves no byte of its line in the file, unless it succeeds. -/
def AuditIo.Clean : AuditIo → Prop
  | .writeFailed written => written = 0
  | .syncFailed => False
  | _ => True

/-- Log calls on entries whose line decodes back, each of which succeeds or leaves no byte. -/
def AuditOp.CleanLog (crates : Crates) : AuditOp → Prop
  | .log e io => e.DecodesBack crates ∧ io.Clean
  | _ => False

/-- The file that the logger writes to is accepted, with `n` entries and the hash in memory as
its last hash. -/
def AuditWorld.InStep (crates : Crates) (path : String) (w : AuditWorld) (n : ℕ) : Prop :=
  ∃ content, w.fs.files[w.logger.file]? = some content ∧
    verifyReader crates path content = .ok ⟨n, w.logger.prevHash⟩

/-- A call that fails without leaving a byte changes nothing. -/
theorem AuditFs.append_nil (fs : AuditFs) (file : ℕ) : fs.append file [] = fs := by
  have hfun : (fun c : Bytes => c ++ []) = id := by
    funext c
    exact List.append_nil c
  cases fs
  simp only [append, hfun, List.modify_id]

/-- A clean log call keeps log and memory in step. -/
theorem AuditWorld.InStep.step {n : ℕ} {op : AuditOp} {w' : AuditWorld} {fs : List AuditEntry}
    (h : w.InStep crates path n) (hop : op.CleanLog crates)
    (hs : w.step crates path op = some (w', fs)) : w'.InStep crates path (n + fs.length) := by
  obtain ⟨content, hget, hv⟩ := h
  cases op with
  | log e io =>
    obtain ⟨hd, hclean⟩ := hop
    cases io with
    | ok =>
      obtain ⟨rfl, rfl⟩ := Prod.mk.inj (Option.some.inj hs)
      refine ⟨_, ?_, verifyReader_append_line hv hd⟩
      rw [AuditFs.getElem?_append, hget, Option.map_some, if_pos rfl]
    | writeFailed written =>
      obtain rfl : written = 0 := hclean
      obtain ⟨rfl, rfl⟩ := Prod.mk.inj (Option.some.inj hs)
      refine ⟨content, ?_, hv⟩
      rw [List.take_zero, AuditFs.append_nil]
      exact hget
    | syncFailed => exact hclean.elim
    | mutexPoisoned =>
      obtain ⟨rfl, rfl⟩ := Prod.mk.inj (Option.some.inj hs)
      exact ⟨content, hget, hv⟩
    | taskFailed =>
      obtain ⟨rfl, rfl⟩ := Prod.mk.inj (Option.some.inj hs)
      exact ⟨content, hget, hv⟩
  | _ => exact hop.elim

/-- **When failed calls leave the log intact.** Open a log that the verifier accepts, and take
any sequence of log calls in which the lines of the entries decode back and every call that fails
leaves no byte of its line in the file. Then in every state reached the file is accepted, with
one more entry for each call that succeeded, and its last hash is the hash in memory. -/
theorem clean_failures_keep_log {fs₀ : AuditFs} {w₀ : AuditWorld} {ops : List AuditOp}
    {content : Bytes} {report : AuditVerifyReport} (hlive : fs₀.live = some content)
    (hv : verifyReader crates path content = .ok report)
    (ho : AuditLogger.open crates path fs₀ = .ok (w₀.fs, w₀.logger))
    (hrun : Run (AuditWorld.step crates path) (fun _ op => op.CleanLog crates) w₀ ops w es) :
    ∃ content', w.fs.files[w.logger.file]? = some content' ∧
      verifyReader crates path content' =
        .ok ⟨report.entries + es.length, w.logger.prevHash⟩ := by
  obtain ⟨hopen, hlast⟩ := AuditLogger.open_eq_ok_iff.mp ho
  obtain ⟨hopen', hget⟩ := AuditFs.openSecureAppend_of_live hlive
  obtain ⟨hfs, hfile⟩ := Prod.mk.inj (hopen'.symm.trans hopen)
  have hin : w₀.InStep crates path report.entries := by
    rw [← hfs, ← hfile, hget] at hlast
    refine ⟨content, ?_, ?_⟩
    · rw [← hfs, ← hfile, ← List.getLast?_eq_getElem?]
      unfold AuditFs.live at hlive
      split at hlive
      · exact hlive
      · cases hlive
    · rw [eq_lastHash_of_lastEntryHash hv hlast]
      exact hv
  exact hrun.invariant (fun _ w es => w.InStep crates path (report.entries + es.length)) hin
    fun _ _ _ _ _ _ hinv hop hs => by
      rw [List.length_append, ← Nat.add_assoc]
      exact hinv.step hop hs

/-- A call that fails before it writes leaves the log intact. -/
theorem clean_failures_keep_log_full_disk :
    ∃ w es content, Run (AuditWorld.step .reference "audit.log")
        (fun _ op => op.CleanLog .reference) freshWorld
        [.log (testEntry "req-1") (.writeFailed 0), .log (testEntry "req-2") .ok] w es ∧
      w.fs.files[w.logger.file]? = some content ∧
      verifyReader .reference "audit.log" content = .ok ⟨0 + 1, w.logger.prevHash⟩ := by
  have hd := testEntry_decodesBack .reference
  have hnil : Run (AuditWorld.step .reference "audit.log") (fun _ op => op.CleanLog .reference)
      freshWorld [] freshWorld [] := .nil
  have hrun := (hnil.snoc (AuditOp.log (testEntry "req-1") (.writeFailed 0)) ⟨hd _, rfl⟩ rfl).snoc
    (AuditOp.log (testEntry "req-2") .ok) ⟨hd _, trivial⟩ rfl
  obtain ⟨content, hget, hv⟩ := clean_failures_keep_log rfl (verifyReader_nil _ _)
    (open_emptyFs .reference "audit.log") hrun
  exact ⟨_, _, content, hrun, hget, hv⟩

/-- A call that fails to sync breaks the log: its line is in the file but its hash is not in
memory, so the line of the next call, which succeeds, does not commit to it. -/
theorem failed_sync_breaks_log :
    ∃ w e content, Run (AuditWorld.step .reference "audit.log")
        (fun _ op => ∃ id io, op = .log (testEntry id) io) freshWorld
        [.log (testEntry "req-1") .syncFailed, .log (testEntry "req-2") .ok] w [e] ∧
      AuditLogger.open .reference "audit.log" emptyFs = .ok (freshWorld.fs, freshWorld.logger) ∧
      verifyReader .reference "audit.log" [] = .ok ⟨0, zeroHash⟩ ∧
      (∀ id, (testEntry id).DecodesBack .reference) ∧ w.fs.live = some content ∧
      ¬ ∃ report, verifyReader .reference "audit.log" content = .ok report := by
  have hd := testEntry_decodesBack .reference
  have hnil : Run (AuditWorld.step .reference "audit.log")
      (fun _ op => ∃ id io, op = .log (testEntry id) io) freshWorld [] freshWorld [] := .nil
  have hrun := (hnil.snoc (AuditOp.log (testEntry "req-1") .syncFailed) ⟨_, _, rfl⟩ rfl).snoc
    (AuditOp.log (testEntry "req-2") .ok) ⟨_, _, rfl⟩ rfl
  have hfirst := verifyReader_append_line (verifyReader_nil .reference "audit.log") (hd "req-1")
  exact ⟨_, _, _, hrun, open_emptyFs _ _, verifyReader_nil _ _, hd, rfl,
    not_verifyReader_append_line hfirst (hd "req-2") isLowerHexHash_zeroHash
      testEntry_entryHash_ne_zeroHash.symm⟩

end Failures

end OlaCore
