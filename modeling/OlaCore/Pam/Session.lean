import OlaCore.Audit.Entry
import OlaCore.Lib.Program
import OlaCore.Pam.CutConnection
import OlaCore.Pam.Responses

set_option relaxedAutoImplicit false
set_option autoImplicit false

/-!
# A login through the PAM module

PAM calls the module to authenticate a user (`pam-ola`). The module asks PAM for the name and the
system for the user id, connects to the daemon, writes one request, reads one line, and takes it for
an allow, a deny or an error. It is a program whose calls may be answered in any way: PAM, the user
database, the socket and the random source belong to the environment. A panic is not modelled; the
module would return an error for it.

## Main definitions

* `OlaCore.PamOp`, `OlaCore.PamProg` — the calls of the module.
* `OlaCore.uidForUser` — the user database, with a buffer that grows.
* `OlaCore.authenticate`, `OlaCore.pamSmAuthenticate` — the module.

## Main results

* `OlaCore.uidForUserLoop_fuel` — the loop over the buffer sizes ends by itself.
* `OlaCore.traces_readLoop` — reading byte by byte is reading a line of the stream.
* `OlaCore.traces_readLoop_reads` — a line that arrives is read.
* `OlaCore.traces_pamSmAuthenticate_success` — the course of a successful login.
-/

namespace OlaCore

open ByteText Program

/-! ## Calls -/

/-- What the user database answers: the user's id, that there is no such user, that the buffer is
too small, or an error. -/
inductive PasswdAnswer where
  | found (uid : UInt32)
  | missing
  | bufferTooSmall
  | failed
  deriving DecidableEq

/-- The calls of the module. -/
inductive PamOp where
  | getUser
  | getpwnam (user : String) (bufLen : ℕ)
  | connect (path : String) (timeoutMs : UInt64)
  | setReadTimeout (timeoutMs : UInt64)
  | setWriteTimeout (timeoutMs : UInt64)
  | fill
  | writeAll (bytes : Bytes)
  | read
  | close

/-- The answers of a call. A read gives a byte, or nothing at end of file. -/
def PamOp.Ans : PamOp → Type
  | .getUser => Option CStr
  | .getpwnam _ _ => PasswdAnswer
  | .connect _ _ => Except String Unit
  | .setReadTimeout _ => Except String Unit
  | .setWriteTimeout _ => Except String Unit
  | .fill => Option (Vector UInt8 16)
  | .writeAll _ => Except String Unit
  | .read => Except String (Option UInt8)
  | .close => Unit

/-- Programs of the module. -/
abbrev PamProg := Prog PamOp PamOp.Ans

/-- One call. -/
def pamCall (o : PamOp) : PamProg o.Ans := call o

/-! ## The user -/

/-- The name of the user, if PAM has one that is UTF-8. -/
def pamUser : PamProg (Option String) := do
  match ← pamCall .getUser with
  | none => return none
  | some user => return fromUtf8 user.bytes

/-- The largest buffer for an entry of the user database. -/
def maxPasswdBuf : ℕ := 1024 * 1024

/-- The user's id, with a buffer that is doubled as long as it is too small, for at most `n`
tries. -/
def uidForUserLoop (user : String) : ℕ → ℕ → PamProg (Option UInt32)
  | 0, _ => return none
  | n + 1, bufLen => do
    match ← pamCall (.getpwnam user bufLen) with
    | .found uid => return some uid
    | .missing => return none
    | .failed => return none
    | .bufferTooSmall =>
      if maxPasswdBuf ≤ bufLen then return none
      else uidForUserLoop user n (min (bufLen * 2) maxPasswdBuf)

/-- The id of the user. A name with a zero byte has none. -/
def uidForUser (user : String) : PamProg (Option UInt32) :=
  if 0 ∈ utf8 user then return none else uidForUserLoop user 7 (16 * 1024)

/-! ## The request -/

/-- An identifier for the request. -/
def requestId : PamProg (Except String String) := do
  match ← pamCall .fill with
  | none => return .error "request id randomness unavailable"
  | some bytes => return .ok ("pam-" ++ encodeHex bytes.toList)

/-- The parameters of the request. -/
def pamParams (config : PamOlaConfig) : Option UInt32 → Json
  | some uid => .obj [("method", .str config.method), ("uid", .num (natNumber uid.toNat))]
  | none => .obj [("method", .str config.method)]

/-- The request. The keys of an object are sorted. -/
def pamRequest (config : PamOlaConfig) (uid : Option UInt32) (id : String) : Json :=
  .obj [("id", .str id), ("method", .str "verify_once"), ("params", pamParams config uid),
    ("version", .num (natNumber 1))]

/-- The line of the request, without its newline. -/
def pamRequestLine (serde : SerdeJson) (config : PamOlaConfig) (uid : Option UInt32)
    (id : String) : String :=
  serde.toString (pamRequest config uid id)

/-! ## The response -/

/-- Read up to a newline, or to the end of the stream, with at most `n` more reads. -/
def readLoop : ℕ → Bytes → PamProg (Except String Bytes)
  | 0, _ => return .error "response too large"
  | n + 1, buf => do
    match ← pamCall .read with
    | .ok none => return .ok buf
    | .error e => return .error ("read failed: " ++ e)
    | .ok (some byte) =>
      if byte = newline then return .ok buf
      else if 64 * 1024 < (buf ++ [byte]).length then return .error "response too large"
      else readLoop n (buf ++ [byte])

/-- The response line. A line is refused as soon as it is longer than 64 KiB. -/
def pamReadLine (utf8Error : Bytes → String) : PamProg (Except String String) := do
  match ← readLoop (64 * 1024 + 1) [] with
  | .error e => return .error e
  | .ok buf =>
    match fromUtf8 buf with
    | none => return .error ("response was not utf-8: " ++ utf8Error buf)
    | some line => return .ok line

section Module

variable (serde : SerdeJson) (utf8Error : Bytes → String)

/-- One request and its response, on an open connection. -/
def exchange (config : PamOlaConfig) (uid : Option UInt32) : PamProg AuthOutcome := do
  match ← pamCall (.setReadTimeout config.timeoutMs) with
  | .error e => return .error ("set read timeout failed: " ++ e)
  | .ok () =>
    match ← pamCall (.setWriteTimeout config.timeoutMs) with
    | .error e => return .error ("set write timeout failed: " ++ e)
    | .ok () =>
      match ← requestId with
      | .error e => return .error e
      | .ok id =>
        let line := utf8 (pamRequestLine serde config uid id) ++ [newline]
        match ← pamCall (.writeAll line) with
        | .error e => return .error ("write failed: " ++ e)
        | .ok () =>
          match ← pamReadLine utf8Error with
          | .error e => return .error e
          | .ok responseLine => return interpretResponse serde responseLine id

/-- Ask the daemon. The connection is closed on every path. -/
def authenticate (config : PamOlaConfig) (uid : Option UInt32) : PamProg AuthOutcome := do
  match ← pamCall (.connect config.socketPath config.timeoutMs) with
  | .error e => return .error ("connect failed: " ++ e)
  | .ok () =>
    let outcome ← exchange serde utf8Error config uid
    let _ ← pamCall .close
    return outcome

/-- `pam_sm_authenticate`, with the arguments of the module. -/
def pamSmAuthenticate (argc : Int32) (argv : Option (ℕ → Option CStr)) : PamProg Int32 :=
  match parseArgv argc argv with
  | .error _ => return 9
  | .ok config => do
    match ← pamUser with
    | none => return 10
    | some name =>
      match ← uidForUser name with
      | none => return 10
      | some uid =>
        let outcome ← authenticate serde utf8Error config (some uid)
        return pamReturnForOutcome outcome

end Module

/-! ## The loops -/

/-- With a large enough buffer in reach, more tries change nothing. -/
theorem uidForUserLoop_add (user : String) (k : ℕ) {m bufLen : ℕ}
    (h : maxPasswdBuf ≤ bufLen * 2 ^ m) :
    uidForUserLoop user (m + 1 + k) bufLen = uidForUserLoop user (m + 1) bufLen := by
  induction m generalizing bufLen with
  | zero =>
    have hlarge : maxPasswdBuf ≤ bufLen := by simpa using h
    rw [show 0 + 1 + k = k + 1 by omega, uidForUserLoop, uidForUserLoop, if_pos hlarge,
      if_pos hlarge]
  | succ m ih =>
    have hnext : maxPasswdBuf ≤ min (bufLen * 2) maxPasswdBuf * 2 ^ m := by
      rw [← Nat.mul_min_mul_right]
      refine le_min ?_ (Nat.le_mul_of_pos_right _ (Nat.two_pow_pos m))
      rwa [Nat.pow_succ', ← Nat.mul_assoc] at h
    rw [show m + 1 + 1 + k = m + 1 + k + 1 by omega, uidForUserLoop, uidForUserLoop, ih hnext]

/-- **The buffer of the user database** reaches its largest size in seven tries, so that more tries
change nothing. -/
theorem uidForUserLoop_fuel (user : String) (k : ℕ) :
    uidForUserLoop user (7 + k) (16 * 1024) = uidForUserLoop user 7 (16 * 1024) :=
  uidForUserLoop_add user k (by decide)

section Traces

variable {W : Type} {step : W → (o : PamOp) → o.Ans → W → Prop}
  {tr : List (Event W PamOp PamOp.Ans)}

/-- The byte that a call reads. -/
def byteOf : Event W PamOp PamOp.Ans → Option UInt8
  | ⟨_, .read, .ok (some byte), _⟩ => some byte
  | _ => none

/-- What a call writes, and whether it has succeeded. -/
def writeOf : Event W PamOp PamOp.Ans → Option (Bytes × Except String Unit)
  | ⟨_, .writeAll bytes, answer, _⟩ => some (bytes, answer)
  | _ => none

/-- Does the call read or write? -/
def PamOp.Transfers : PamOp → Prop
  | .writeAll _ => True
  | .read => True
  | _ => False

/-- Another call reads no byte. -/
theorem byteOf_eq_none (e : Event W PamOp PamOp.Ans) (h : ¬ e.op.Transfers) : byteOf e = none := by
  obtain ⟨w, o, x, w'⟩ := e
  cases o with
  | read => exact absurd trivial h
  | _ => rfl

/-- Another call writes nothing. -/
theorem writeOf_eq_none (e : Event W PamOp PamOp.Ans) (h : ¬ e.op.Transfers) :
    writeOf e = none := by
  obtain ⟨w, o, x, w'⟩ := e
  cases o with
  | writeAll bytes => exact absurd trivial h
  | _ => rfl

/-- What is transferred between calls that transfer nothing. -/
theorem filterMap_of_quiet {α : Type} {f : Event W PamOp PamOp.Ans → Option α}
    (hf : ∀ e : Event W PamOp PamOp.Ans, ¬ e.op.Transfers → f e = none)
    {l l₁ l₂ : List (Event W PamOp PamOp.Ans)} (h₁ : ∀ e ∈ l₁, ¬ e.op.Transfers)
    (h₂ : ∀ e ∈ l₂, ¬ e.op.Transfers) : (l₁ ++ (l ++ l₂)).filterMap f = l.filterMap f := by
  have hnone : ∀ l' : List (Event W PamOp PamOp.Ans), (∀ e ∈ l', ¬ e.op.Transfers) →
      l'.filterMap f = [] := fun l' h => List.filterMap_eq_nil_iff.mpr fun e he => hf e (h e he)
  rw [List.filterMap_append, List.filterMap_append, hnone l₁ h₁, hnone l₂ h₂, List.append_nil,
    List.nil_append]

/-- **Reading byte by byte** is reading a line of the stream that the bytes form. -/
theorem traces_readLoop {n : ℕ} {buf : Bytes} {result : Except String Bytes}
    (hn : buf.length + n = 64 * 1024 + 1) (hbuf : buf.length ≤ 64 * 1024)
    (h : Traces step (readLoop n buf) tr result) :
    (∀ e ∈ tr, e.op = .read) ∧
      ∃ readError, PamStream.readBytes readError buf (tr.filterMap byteOf) = result := by
  induction n generalizing buf tr with
  | zero => omega
  | succ n ih =>
    obtain ⟨w, answer, w', tr', rfl, -, h₁⟩ := traces_call_bind.mp h
    rcases answer with e | _ | byte
    · obtain ⟨rfl, rfl⟩ := traces_pure.mp h₁
      exact ⟨by simp, some e, rfl⟩
    · obtain ⟨rfl, rfl⟩ := traces_pure.mp h₁
      exact ⟨by simp, none, rfl⟩
    have hread : ∀ readError, PamStream.readBytes readError buf
        ((⟨w, .read, .ok (some byte), w'⟩ :: tr' : List (Event W PamOp PamOp.Ans)).filterMap
          byteOf) = PamStream.readBytes readError buf (byte :: tr'.filterMap byteOf) :=
      fun _ => rfl
    dsimp only at h₁
    split_ifs at h₁ with hnl hlong
    · obtain ⟨rfl, rfl⟩ := traces_pure.mp h₁
      refine ⟨by simp, none, ?_⟩
      rw [hread, PamStream.readBytes, if_pos hnl]
    · obtain ⟨rfl, rfl⟩ := traces_pure.mp h₁
      refine ⟨by simp, none, ?_⟩
      rw [hread, PamStream.readBytes, if_neg hnl, if_pos hlong]
    · have hlen : (buf ++ [byte]).length = buf.length + 1 := by simp
      obtain ⟨hops, readError, hrest⟩ := ih (by omega) (by omega) h₁
      refine ⟨List.forall_mem_cons.mpr ⟨rfl, hops⟩, readError, ?_⟩
      rw [hread, PamStream.readBytes, if_neg hnl, if_neg hlong, hrest]

/-- The calls that read the given bytes, in the states `σ k`, `σ (k + 1)`, and so on. -/
def reads (σ : ℕ → W) : ℕ → Bytes → List (Event W PamOp PamOp.Ans)
  | _, [] => []
  | k, byte :: bytes => ⟨σ k, .read, .ok (some byte), σ (k + 1)⟩ :: reads σ (k + 1) bytes

/-- **A line that arrives is read**, if it is not too long. -/
theorem traces_readLoop_reads {σ : ℕ → W} {n k : ℕ} {buf line : Bytes} (hnl : newline ∉ line)
    (hn : line.length < n) (hlen : (buf ++ line).length ≤ 64 * 1024)
    (hstep : ∀ m byte, (line ++ [newline])[m]? = some byte →
      step (σ (k + m)) .read (.ok (some byte)) (σ (k + m + 1))) :
    Traces step (readLoop n buf) (reads σ k (line ++ [newline])) (.ok (buf ++ line)) := by
  induction line generalizing n k buf with
  | nil =>
    obtain ⟨n, rfl⟩ := Nat.exists_eq_succ_of_ne_zero (Nat.ne_of_gt hn)
    refine traces_call_bind.mpr ⟨_, .ok (some newline), _, _, rfl, hstep 0 newline rfl, ?_⟩
    rw [List.append_nil]
    exact traces_pure.mpr ⟨rfl, rfl⟩
  | cons byte line ih =>
    obtain ⟨n, rfl⟩ := Nat.exists_eq_succ_of_ne_zero (Nat.ne_of_gt (Nat.zero_lt_of_lt hn))
    have hbyte : byte ≠ newline := fun heq => hnl (heq ▸ List.mem_cons_self)
    have hshort : ¬ 64 * 1024 < (buf ++ [byte]).length := by
      simp only [List.length_append, List.length_cons, List.length_nil] at hlen ⊢
      omega
    refine traces_call_bind.mpr ⟨_, .ok (some byte), _, _, rfl, hstep 0 byte rfl, ?_⟩
    dsimp only
    have happend : buf ++ byte :: line = buf ++ [byte] ++ line := List.append_cons buf byte line
    rw [if_neg hbyte, if_neg hshort, happend]
    refine ih (fun hmem => hnl (List.mem_cons_of_mem _ hmem)) (by simpa using hn)
      (by rwa [← happend]) fun m b hm => ?_
    rw [show k + 1 + m = k + (m + 1) by omega]
    exact hstep (m + 1) b hm

/-- So is its text. -/
theorem traces_pamReadLine_reads {σ : ℕ → W} {utf8Error : Bytes → String} {text : String}
    (hnl : newline ∉ utf8 text) (hlen : (utf8 text).length ≤ 64 * 1024)
    (hstep : ∀ m byte, (utf8 text ++ [newline])[m]? = some byte →
      step (σ m) .read (.ok (some byte)) (σ (m + 1))) :
    Traces step (pamReadLine utf8Error) (reads σ 0 (utf8 text ++ [newline])) (.ok text) := by
  refine traces_bind.mpr ⟨_, .ok (utf8 text), [], (List.append_nil _).symm, ?_, ?_⟩
  · have hshort : ([] ++ utf8 text).length ≤ 64 * 1024 := hlen
    refine traces_readLoop_reads hnl (Nat.lt_succ_of_le hlen) hshort fun m byte hm => ?_
    rw [Nat.zero_add]
    exact hstep m byte hm
  · dsimp only
    rw [fromUtf8_utf8]
    exact traces_pure.mpr ⟨rfl, rfl⟩

/-- The calls to the user database, and the one that has found the user. -/
theorem traces_uidForUserLoop {user : String} {n bufLen : ℕ} {uid : Option UInt32}
    (h : Traces step (uidForUserLoop user n bufLen) tr uid) :
    (∀ e ∈ tr, ∃ bufLen, e.op = .getpwnam user bufLen) ∧
      ∀ u, uid = some u → ∃ bufLen w w', ⟨w, .getpwnam user bufLen, .found u, w'⟩ ∈ tr := by
  induction n generalizing bufLen tr with
  | zero =>
    obtain ⟨rfl, rfl⟩ := traces_pure.mp h
    exact ⟨List.forall_mem_nil _, nofun⟩
  | succ n ih =>
    obtain ⟨w, answer, w', tr', rfl, -, h₁⟩ := traces_call_bind.mp h
    cases answer with
    | found u =>
      obtain ⟨rfl, rfl⟩ := traces_pure.mp h₁
      refine ⟨by simp, fun u' hu => ?_⟩
      obtain rfl := Option.some.inj hu
      exact ⟨bufLen, w, w', by simp⟩
    | bufferTooSmall =>
      dsimp only at h₁
      split_ifs at h₁
      · obtain ⟨rfl, rfl⟩ := traces_pure.mp h₁
        exact ⟨by simp, nofun⟩
      · obtain ⟨hops, hfound⟩ := ih h₁
        refine ⟨List.forall_mem_cons.mpr ⟨⟨bufLen, rfl⟩, hops⟩, fun u hu => ?_⟩
        obtain ⟨bufLen', v, v', hmem⟩ := hfound u hu
        exact ⟨bufLen', v, v', List.mem_cons_of_mem _ hmem⟩
    | _ =>
      obtain ⟨rfl, rfl⟩ := traces_pure.mp h₁
      exact ⟨by simp, nofun⟩

/-- The line that is read from the stream. -/
theorem traces_pamReadLine {utf8Error : Bytes → String} {result : Except String String}
    (h : Traces step (pamReadLine utf8Error) tr result) :
    (∀ e ∈ tr, e.op = .read) ∧
      ∃ readError, PamStream.readLine utf8Error ⟨tr.filterMap byteOf, readError⟩ = result := by
  obtain ⟨tr₁, buf, tr₂, rfl, hbuf, h₁⟩ := traces_bind.mp h
  obtain ⟨hops, readError, hread⟩ := traces_readLoop rfl (Nat.zero_le _) hbuf
  have htr₂ : tr₂ = [] := by
    rcases buf with e | buf
    · exact (traces_pure.mp h₁).1
    · dsimp only at h₁
      split at h₁ <;> exact (traces_pure.mp h₁).1
  subst htr₂
  rw [List.append_nil]
  refine ⟨hops, readError, ?_⟩
  unfold PamStream.readLine
  rw [hread]
  rcases buf with e | buf
  · exact (traces_pure.mp h₁).2.symm
  · change (match fromUtf8 buf with | none => _ | some line => _) = _
    dsimp only at h₁
    split at h₁ <;> exact (traces_pure.mp h₁).2.symm

/-! ## A successful login -/

/-- A grant is the only outcome for which the module returns success. -/
theorem pamReturnForOutcome_eq_zero_iff {outcome : AuthOutcome} :
    pamReturnForOutcome outcome = 0 ↔ outcome = .allow := by
  cases outcome <;> simp [pamReturnForOutcome]

variable {serde : SerdeJson} {utf8Error : Bytes → String} {config : PamOlaConfig}
  {uid : Option UInt32}

/-- **The course of an exchange that ends with an allow**: one identifier is drawn, one line is
written, and what is read is taken for an allow of that identifier. -/
theorem traces_exchange_allow (h : Traces step (exchange serde utf8Error config uid) tr .allow) :
    ∃ (bytes : Vector UInt8 16) (id : String) (readError : Option String),
      id = "pam-" ++ encodeHex bytes.toList ∧ (∃ w w', ⟨w, .fill, some bytes, w'⟩ ∈ tr) ∧
      tr.filterMap writeOf = [(utf8 (pamRequestLine serde config uid id) ++ [newline], .ok ())] ∧
      PamStream.outcome serde utf8Error ⟨tr.filterMap byteOf, readError⟩ id = .allow := by
  obtain ⟨w₁, answer₁, w₁', tr₁, rfl, -, h₁⟩ := traces_call_bind.mp h
  rcases answer₁ with e | _
  · cases (traces_pure.mp h₁).2
  obtain ⟨w₂, answer₂, w₂', tr₂, rfl, -, h₂⟩ := traces_call_bind.mp h₁
  rcases answer₂ with e | _
  · cases (traces_pure.mp h₂).2
  obtain ⟨_, drawn, tr₃, rfl, hdrawn, h₃⟩ := traces_bind.mp h₂
  obtain ⟨w₄, answer₄, w₄', _, rfl, -, hid⟩ := traces_call_bind.mp hdrawn
  rcases answer₄ with _ | bytes <;> obtain ⟨rfl, rfl⟩ := traces_pure.mp hid
  · cases (traces_pure.mp h₃).2
  obtain ⟨w₅, answer₅, w₅', tr₅, rfl, -, h₅⟩ := traces_call_bind.mp h₃
  rcases answer₅ with e | _
  · cases (traces_pure.mp h₅).2
  obtain ⟨tr₆, line, _, rfl, hline, h₆⟩ := traces_bind.mp h₅
  obtain ⟨hreads, readError, hread⟩ := traces_pamReadLine hline
  rcases line with e | responseLine <;> obtain ⟨rfl, hout⟩ := traces_pure.mp h₆
  · cases hout
  refine ⟨bytes, _, readError, rfl, ⟨w₄, w₄', by simp⟩, ?_, ?_⟩
  · have hno : tr₆.filterMap writeOf = [] := by
      refine List.filterMap_eq_nil_iff.mpr fun ⟨v, o, x, v'⟩ he => ?_
      obtain rfl : o = .read := hreads _ he
      rfl
    change _ :: (tr₆ ++ []).filterMap writeOf = _
    rw [List.append_nil, hno]
  · change PamStream.outcome serde utf8Error ⟨(tr₆ ++ []).filterMap byteOf, readError⟩ _ = _
    rw [List.append_nil, PamStream.outcome, hread]
    exact hout.symm

/-- **The course of a successful login.** PAM names a user, the user database has an id for the
name, and the exchange with the daemon about this id ends with an allow. -/
theorem traces_pamSmAuthenticate_success {argc : Int32} {argv : Option (ℕ → Option CStr)}
    (h : Traces step (pamSmAuthenticate serde utf8Error argc argv) tr 0) :
    ∃ (config : PamOlaConfig) (user : CStr) (name : String) (uid : UInt32)
      (bytes : Vector UInt8 16) (id : String) (readError : Option String),
      parseArgv argc argv = .ok config ∧ fromUtf8 user.bytes = some name ∧
      (∃ w w', ⟨w, .getUser, some user, w'⟩ ∈ tr) ∧
      (∃ bufLen w w', ⟨w, .getpwnam name bufLen, .found uid, w'⟩ ∈ tr) ∧
      id = "pam-" ++ encodeHex bytes.toList ∧ (∃ w w', ⟨w, .fill, some bytes, w'⟩ ∈ tr) ∧
      tr.filterMap writeOf =
        [(utf8 (pamRequestLine serde config (some uid) id) ++ [newline], .ok ())] ∧
      PamStream.outcome serde utf8Error ⟨tr.filterMap byteOf, readError⟩ id = .allow := by
  unfold pamSmAuthenticate at h
  split at h
  · cases (traces_pure.mp h).2
  next config hconfig =>
  obtain ⟨tr₁, name, tr₂, rfl, hname, h₁⟩ := traces_bind.mp h
  obtain ⟨w, user, w', tr₃, rfl, -, huser⟩ := traces_call_bind.mp hname
  rcases user with _ | user <;> obtain ⟨rfl, rfl⟩ := traces_pure.mp huser
  · cases (traces_pure.mp h₁).2
  cases hutf8 : fromUtf8 user.bytes with
  | none =>
    rw [hutf8] at h₁
    cases (traces_pure.mp h₁).2
  | some name =>
  rw [hutf8] at h₁
  obtain ⟨tr₄, uid, tr₅, rfl, huid, h₂⟩ := traces_bind.mp h₁
  rcases uid with _ | uid
  · cases (traces_pure.mp h₂).2
  have hfound : (∀ e ∈ tr₄, ∃ bufLen, e.op = .getpwnam name bufLen) ∧
      ∃ bufLen w w', ⟨w, .getpwnam name bufLen, .found uid, w'⟩ ∈ tr₄ := by
    unfold uidForUser at huid
    split at huid
    · cases (traces_pure.mp huid).2
    · obtain ⟨hops, hmem⟩ := traces_uidForUserLoop huid
      exact ⟨hops, hmem uid rfl⟩
  obtain ⟨tr₆, outcome, tr₇, rfl, hauth, h₃⟩ := traces_bind.mp h₂
  obtain ⟨rfl, hcode⟩ := traces_pure.mp h₃
  obtain rfl := pamReturnForOutcome_eq_zero_iff.mp hcode.symm
  obtain ⟨w₁, connected, w₁', tr₈, rfl, -, h₄⟩ := traces_call_bind.mp hauth
  rcases connected with e | ⟨⟩
  · cases (traces_pure.mp h₄).2
  obtain ⟨tr₉, outcome, tr₁₀, rfl, hexchange, h₅⟩ := traces_bind.mp h₄
  obtain ⟨w₂, ⟨⟩, w₂', _, rfl, -, h₆⟩ := traces_call_bind.mp h₅
  obtain ⟨rfl, rfl⟩ := traces_pure.mp h₆
  obtain ⟨bytes, id, readError, hid, ⟨v, v', hfill⟩, hwrites, hout⟩ :=
    traces_exchange_allow hexchange
  obtain ⟨hops, bufLen, u, u', hmem⟩ := hfound
  -- The calls before and after the exchange transfer no data.
  have hbefore : ∀ e ∈ (⟨w, .getUser, some user, w'⟩ :: (tr₄ ++ [⟨w₁, .connect config.socketPath
      config.timeoutMs, .ok (), w₁'⟩]) : List (Event W PamOp PamOp.Ans)), ¬ e.op.Transfers := by
    refine List.forall_mem_cons.mpr ⟨not_false, List.forall_mem_append.mpr
      ⟨fun e he htransfers => ?_, List.forall_mem_singleton.mpr not_false⟩⟩
    obtain ⟨bufLen, hop⟩ := hops e he
    rw [hop] at htransfers
    exact htransfers
  have hafter : ∀ e ∈ ([⟨w₂, .close, (), w₂'⟩] : List (Event W PamOp PamOp.Ans)),
      ¬ e.op.Transfers := List.forall_mem_singleton.mpr not_false
  refine ⟨config, user, name, uid, bytes, id, readError, hconfig, hutf8, ⟨w, w', by simp⟩,
    ⟨bufLen, u, u', by simp [hmem]⟩, hid, ⟨v, v', by simp [hfill]⟩, ?_, ?_⟩
  · refine Eq.trans ?_ ((filterMap_of_quiet writeOf_eq_none hbefore hafter).trans hwrites)
    simp
  · rw [← filterMap_of_quiet byteOf_eq_none hbefore hafter] at hout
    simpa using hout

end Traces

end OlaCore
