import OlaCore.Ipc.Exchanges
import OlaCore.Lib.Subsystems
import OlaCore.Pam.Session

set_option relaxedAutoImplicit false
set_option autoImplicit false

/-!
# The daemon and its clients

Here the daemon runs together with its clients. Each connection is a socket with a task of the
daemon at one end and a client at the other, which may be any program; some of the clients are
sessions of the PAM module. A socket carries bytes in both directions, in order. It may be cut at
any time: a write may fail after a part of the bytes was written, and a read may fail or find the
end of the stream. A task reads lines from the bytes that have arrived, and the kernel tells it the
user of its client.

## Main definitions

* `OlaCore.Pipe`, `OlaCore.Socket` — the bytes in flight.
* `OlaCore.Socket.TaskStep`, `OlaCore.Socket.PeerStep` — what the calls at both ends do to them.
* `OlaCore.SystemStep`, `OlaCore.SystemEnv`, `OlaCore.systemProgs` — the daemon with its clients.
* `OlaCore.daemonPart`, `OlaCore.peerPart` — the daemon alone, and its clients.

## Main results

* `OlaCore.exec_daemon` — the runs of the system are runs of the daemon.
* `OlaCore.socket_invariant` — what both ends keep holds of a connection.
-/

namespace OlaCore

open ByteText Program

/-! ## Sockets -/

/-- One direction of a socket: all that was written to it, how much of that was taken out, and
whether the writer has closed it. -/
structure Pipe where
  written : Bytes
  taken : ℕ
  closed : Bool

namespace Pipe

/-- Nothing was written. -/
def empty : Pipe := ⟨[], 0, false⟩

/-- What was written and not taken out. -/
def rest (pipe : Pipe) : Bytes := pipe.written.drop pipe.taken

/-- More bytes are written. -/
def write (pipe : Pipe) (bytes : Bytes) : Pipe := { pipe with written := pipe.written ++ bytes }

/-- A line without its carriage return. -/
def withoutCarriageReturn (line : Bytes) : Bytes :=
  if line.getLast? = some 13 then line.dropLast else line

/-- A line without a carriage return at its end. -/
theorem withoutCarriageReturn_of_ne {line : Bytes} (h : line.getLast? ≠ some 13) :
    withoutCarriageReturn line = line :=
  if_neg h

/-- The next line, if there is one. What remains after the last newline is a line when the pipe is
closed. -/
def nextLine (pipe : Pipe) : Option (Bytes × Pipe) :=
  if newline ∈ pipe.rest then
    let line := pipe.rest.takeWhile (· ≠ newline)
    some (withoutCarriageReturn line, { pipe with taken := pipe.taken + (line.length + 1) })
  else if pipe.closed ∧ pipe.rest ≠ [] ∧ pipe.rest ≠ [13] then
    some (withoutCarriageReturn pipe.rest, { pipe with taken := pipe.written.length })
  else none

end Pipe

/-- A socket, with its two directions. -/
structure Socket where
  toDaemon : Pipe
  toPeer : Pipe

namespace Socket

/-- A new socket. -/
def new : Socket := ⟨.empty, .empty⟩

/-- What a call of the task does to its socket: it learns the user at the other end, takes a line,
or writes a response. A write that fails may have written a part. -/
def TaskStep (serde : SerdeJson) (peerUid : UInt32) (s : Socket) :
    (o : ClientOp) → o.Ans → Socket → Prop
  | .peerCredentials, answer, s' => (∀ uid, answer = .ok uid → uid = peerUid) ∧ s' = s
  | .nextLine, .line text, s' => ∃ line toDaemon, s.toDaemon.nextLine = some (line, toDaemon) ∧
      fromUtf8 line = some text ∧ s' = { s with toDaemon }
  | .nextLine, .closed, s' => s.toDaemon.closed ∧ s.toDaemon.nextLine = none ∧ s' = s
  | .respond response, .ok (), s' =>
      s' = { s with toPeer := s.toPeer.write (response.wire serde ++ [newline]) }
  | .respond response, .error _, s' => ∃ part, part <+: response.wire serde ++ [newline] ∧
      s' = { s with toPeer := s.toPeer.write part }
  | _, _, s' => s' = s

/-- What a call of the client does to its socket: it writes, takes a byte, or closes the socket. -/
def PeerStep (s : Socket) : (o : PamOp) → o.Ans → Socket → Prop
  | .writeAll bytes, .ok (), s' => s' = { s with toDaemon := s.toDaemon.write bytes }
  | .writeAll bytes, .error _, s' => ∃ part, part <+: bytes ∧
      s' = { s with toDaemon := s.toDaemon.write part }
  | .read, .ok (some byte), s' => s.toPeer.rest.head? = some byte ∧
      s' = { s with toPeer := { s.toPeer with taken := s.toPeer.taken + 1 } }
  | .close, _, s' => s' = { s with toDaemon := { s.toDaemon with closed := true } }
  | _, _, s' => s' = s

section Steps

variable {serde : SerdeJson} {peerUid : UInt32} {s s' : Socket}

/-- **What a task takes**: nothing, or the next line. -/
theorem TaskStep.toDaemon {o : ClientOp} {x : o.Ans} (h : s.TaskStep serde peerUid o x s')
    (u u' : DaemonWorld) :
    (lineOf ⟨u, o, x, u'⟩ = none ∧ s'.toDaemon = s.toDaemon) ∨
      ∃ line text, lineOf ⟨u, o, x, u'⟩ = some text ∧
        s.toDaemon.nextLine = some (line, s'.toDaemon) ∧ fromUtf8 line = some text := by
  cases o with
  | nextLine =>
    cases x with
    | line text =>
      obtain ⟨line, toDaemon, hnext, htext, rfl⟩ := h
      exact .inr ⟨line, text, rfl, hnext, htext⟩
    | closed =>
      obtain ⟨-, -, rfl⟩ := h
      exact .inl ⟨rfl, rfl⟩
    | _ =>
      obtain rfl : s' = s := h
      exact .inl ⟨rfl, rfl⟩
  | respond response =>
    rcases x with _ | _
    · obtain ⟨part, -, rfl⟩ := h
      exact .inl ⟨rfl, rfl⟩
    · obtain rfl := h
      exact .inl ⟨rfl, rfl⟩
  | peerCredentials =>
    obtain ⟨-, rfl⟩ := h
    exact .inl ⟨rfl, rfl⟩
  | _ =>
    obtain rfl : s' = s := h
    exact .inl ⟨rfl, rfl⟩

/-- **What a task writes**: nothing, or a part of a response. -/
theorem TaskStep.toPeer {o : ClientOp} {x : o.Ans} (h : s.TaskStep serde peerUid o x s')
    (u u' : DaemonWorld) :
    (responseOf ⟨u, o, x, u'⟩ = none ∧ s'.toPeer = s.toPeer) ∨
      ∃ response part, responseOf ⟨u, o, x, u'⟩ = some response ∧
        part <+: response.wire serde ++ [newline] ∧ s'.toPeer = s.toPeer.write part := by
  cases o with
  | nextLine =>
    cases x with
    | line text =>
      obtain ⟨_, _, -, -, rfl⟩ := h
      exact .inl ⟨rfl, rfl⟩
    | closed =>
      obtain ⟨-, -, rfl⟩ := h
      exact .inl ⟨rfl, rfl⟩
    | _ =>
      obtain rfl : s' = s := h
      exact .inl ⟨rfl, rfl⟩
  | respond response =>
    rcases x with _ | _
    · obtain ⟨part, hpart, rfl⟩ := h
      exact .inr ⟨response, part, rfl, hpart, rfl⟩
    · obtain rfl := h
      exact .inr ⟨response, _, rfl, List.prefix_rfl, rfl⟩
  | peerCredentials =>
    obtain ⟨-, rfl⟩ := h
    exact .inl ⟨rfl, rfl⟩
  | _ =>
    obtain rfl : s' = s := h
    exact .inl ⟨rfl, rfl⟩

variable {W : Type}

/-- **What a client writes**: nothing, or a part of its bytes, which is all of them unless the write
has failed. -/
theorem PeerStep.toDaemon {o : PamOp} {x : o.Ans} (h : s.PeerStep o x s') (u u' : W) :
    (writeOf ⟨u, o, x, u'⟩ = none ∧ s'.toDaemon.written = s.toDaemon.written ∧
        s'.toDaemon.taken = s.toDaemon.taken) ∨
      ∃ bytes answer part, writeOf ⟨u, o, x, u'⟩ = some (bytes, answer) ∧ part <+: bytes ∧
        (answer = .ok () → part = bytes) ∧ s'.toDaemon = s.toDaemon.write part := by
  cases o with
  | writeAll bytes =>
    rcases x with e | _
    · obtain ⟨part, hpart, rfl⟩ := h
      exact .inr ⟨bytes, .error e, part, rfl, hpart, nofun, rfl⟩
    · obtain rfl := h
      exact .inr ⟨bytes, .ok (), bytes, rfl, List.prefix_rfl, fun _ => rfl, rfl⟩
  | read =>
    rcases x with e | _ | byte
    · obtain rfl : s' = s := h
      exact .inl ⟨rfl, rfl, rfl⟩
    · obtain rfl : s' = s := h
      exact .inl ⟨rfl, rfl, rfl⟩
    · obtain ⟨-, rfl⟩ := h
      exact .inl ⟨rfl, rfl, rfl⟩
  | close =>
    obtain rfl := h
    exact .inl ⟨rfl, rfl, rfl⟩
  | _ =>
    obtain rfl : s' = s := h
    exact .inl ⟨rfl, rfl, rfl⟩

/-- **What a client takes**: nothing, or the next byte. -/
theorem PeerStep.toPeer {o : PamOp} {x : o.Ans} (h : s.PeerStep o x s') (u u' : W) :
    (byteOf ⟨u, o, x, u'⟩ = none ∧ s'.toPeer = s.toPeer) ∨
      ∃ byte, byteOf ⟨u, o, x, u'⟩ = some byte ∧ s.toPeer.rest.head? = some byte ∧
        s'.toPeer = { s.toPeer with taken := s.toPeer.taken + 1 } := by
  cases o with
  | writeAll bytes =>
    rcases x with e | _
    · obtain ⟨part, -, rfl⟩ := h
      exact .inl ⟨rfl, rfl⟩
    · obtain rfl := h
      exact .inl ⟨rfl, rfl⟩
  | read =>
    rcases x with e | _ | byte
    · obtain rfl : s' = s := h
      exact .inl ⟨rfl, rfl⟩
    · obtain rfl : s' = s := h
      exact .inl ⟨rfl, rfl⟩
    · obtain ⟨hbyte, rfl⟩ := h
      exact .inr ⟨byte, rfl, hbyte, rfl⟩
  | close =>
    obtain rfl := h
    exact .inl ⟨rfl, rfl⟩
  | _ =>
    obtain rfl : s' = s := h
    exact .inl ⟨rfl, rfl⟩

end Steps

end Socket

/-! ## The system -/

/-- The calls of the tasks and of the clients, by connection. -/
inductive SystemOp where
  | task (i : ℕ) (o : ClientOp)
  | peer (i : ℕ) (o : PamOp)

/-- The answers of a call. -/
def SystemOp.Ans : SystemOp → Type
  | .task _ o => o.Ans
  | .peer _ o => o.Ans

/-- The daemon and the sockets. -/
structure SystemWorld where
  daemon : DaemonWorld
  sockets : ℕ → Socket

/-- What a task or a client returns. -/
abbrev SystemRet := Except String Unit ⊕ Int32

/-- A program of the system. -/
abbrev SystemProg := Prog SystemOp SystemOp.Ans SystemRet

/-- A history of the system. -/
abbrev SystemHistory := List (Entry SystemWorld SystemOp SystemOp.Ans SystemRet)

/-- The calls of the system, when the client of connection `i` runs as `uids i`. -/
def SystemStep (crates : Crates) (uids : ℕ → UInt32) (w : SystemWorld) :
    (o : SystemOp) → o.Ans → SystemWorld → Prop
  | .task i o, x, w' => DaemonStep crates w.daemon o x w'.daemon ∧
      ∃ s, (w.sockets i).TaskStep crates.serde (uids i) o x s ∧
        w'.sockets = Function.update w.sockets i s
  | .peer i o, x, w' => w'.daemon = w.daemon ∧
      ∃ s, (w.sockets i).PeerStep o x s ∧ w'.sockets = Function.update w.sockets i s

/-- The environment of the daemon does not touch the sockets. -/
def SystemEnv (toml : String → Except String (List RawPolicyRule)) (config : Config)
    (w w' : SystemWorld) : Prop :=
  DaemonEnv toml config w.daemon w'.daemon ∧ w'.sockets = w.sockets

/-- The daemon as a part of the system: the task of connection `i` is program `2 * i`. -/
def daemonPart : Part DaemonWorld ClientOp ClientOp.Ans (Except String Unit) SystemWorld SystemOp
    SystemOp.Ans SystemRet where
  index i := 2 * i
  inj i o := .task i o
  back _ _ x := x
  value := .inl
  world := SystemWorld.daemon
  entry
    | .step j ⟨w, .task i o, x, w'⟩ =>
      if j = 2 * i then some (.step i ⟨w.daemon, o, x, w'.daemon⟩) else none
    | .ret j (.inl r) => if j % 2 = 0 then some (.ret (j / 2) r) else none
    | _ => none
  index_injective i i' h := by
    change 2 * i = 2 * i' at h
    omega
  entry_step i w o x w' := if_pos rfl
  entry_ret i a := by
    have hhalf : 2 * i / 2 = i := by omega
    change (if 2 * i % 2 = 0 then some (Entry.ret (2 * i / 2) a) else none) = _
    rw [if_pos (by omega), hhalf]
  entry_of_step j e := by
    obtain ⟨w, o, x, w'⟩ := e
    cases o with
    | task i o =>
      by_cases hj : j = 2 * i
      · exact .inr ⟨i, _, hj, if_pos hj⟩
      · exact .inl (if_neg hj)
    | peer i o => exact .inl rfl
  entry_of_ret j b := by
    cases b with
    | inl r =>
      by_cases hj : j % 2 = 0
      · exact .inr ⟨j / 2, r, by omega, if_pos hj⟩
      · exact .inl (if_neg hj)
    | inr code => exact .inl rfl

/-- The clients as a part of the system: the client of connection `i` is program `2 * i + 1`. -/
def peerPart : Part SystemWorld PamOp PamOp.Ans Int32 SystemWorld SystemOp SystemOp.Ans
    SystemRet where
  index i := 2 * i + 1
  inj i o := .peer i o
  back _ _ x := x
  value := .inr
  world := id
  entry
    | .step j ⟨w, .peer i o, x, w'⟩ =>
      if j = 2 * i + 1 then some (.step i ⟨w, o, x, w'⟩) else none
    | .ret j (.inr code) => if j % 2 = 1 then some (.ret (j / 2) code) else none
    | _ => none
  index_injective i i' h := by
    change 2 * i + 1 = 2 * i' + 1 at h
    omega
  entry_step i w o x w' := if_pos rfl
  entry_ret i a := by
    have hhalf : (2 * i + 1) / 2 = i := by omega
    change (if (2 * i + 1) % 2 = 1 then some (Entry.ret ((2 * i + 1) / 2) a) else none) = _
    rw [if_pos (by omega), hhalf]
  entry_of_step j e := by
    obtain ⟨w, o, x, w'⟩ := e
    cases o with
    | task i o => exact .inl rfl
    | peer i o =>
      by_cases hj : j = 2 * i + 1
      · exact .inr ⟨i, _, hj, if_pos hj⟩
      · exact .inl (if_neg hj)
  entry_of_ret j b := by
    cases b with
    | inl r => exact .inl rfl
    | inr code =>
      by_cases hj : j % 2 = 1
      · exact .inr ⟨j / 2, code, by omega, if_pos hj⟩
      · exact .inl (if_neg hj)

/-- The programs of the system: the tasks of the daemon, and the clients. -/
def systemProgs (tasks : ℕ → ClientProg (Except String Unit)) (peers : ℕ → PamProg Int32)
    (j : ℕ) : SystemProg :=
  if j % 2 = 0 then daemonPart.lift (j / 2) (tasks (j / 2))
  else peerPart.lift (j / 2) (peers (j / 2))

/-- A call of a client. -/
abbrev PamEvent := Event SystemWorld PamOp PamOp.Ans

section System

variable {crates : Crates} {toml : String → Except String (List RawPolicyRule)} {config : Config}
  {uids : ℕ → UInt32} {tasks : ℕ → ClientProg (Except String Unit)} {peers : ℕ → PamProg Int32}
  {w₀ w : SystemWorld} {procs : ℕ → SystemProg} {H : SystemHistory}

/-- The programs with even numbers are the tasks. -/
theorem systemProgs_task (i : ℕ) :
    systemProgs tasks peers (daemonPart.index i) = daemonPart.lift i (tasks i) := by
  have hhalf : daemonPart.index i / 2 = i := Nat.mul_div_cancel_left i Nat.two_pos
  have heven : daemonPart.index i % 2 = 0 := Nat.mul_mod_right 2 i
  rw [systemProgs, if_pos heven, hhalf]

/-- Those with odd numbers are the clients. -/
theorem systemProgs_peer (i : ℕ) :
    systemProgs tasks peers (peerPart.index i) = peerPart.lift i (peers i) := by
  have hhalf : peerPart.index i / 2 = i := by
    change (2 * i + 1) / 2 = i
    omega
  have hodd : ¬ peerPart.index i % 2 = 0 := by
    change ¬ (2 * i + 1) % 2 = 0
    omega
  rw [systemProgs, if_neg hodd, hhalf]

/-- A program of the system is a task or a client. -/
theorem exists_index (j : ℕ) : (∃ i, j = daemonPart.index i) ∨ ∃ i, j = peerPart.index i := by
  by_cases hj : j % 2 = 0
  · exact .inl ⟨j / 2, by change j = 2 * (j / 2); omega⟩
  · exact .inr ⟨j / 2, by change j = 2 * (j / 2) + 1; omega⟩

/-- No program is both. -/
theorem index_ne (i i' : ℕ) : daemonPart.index i ≠ peerPart.index i' := by
  change 2 * i ≠ 2 * i' + 1
  omega

/-- **The runs of the system are runs of the daemon**: the clients do nothing to it but send lines
and read responses. -/
theorem exec_daemon (h : Exec (SystemStep crates uids) (SystemEnv toml config)
      (systemProgs tasks peers) w₀ w procs H) :
    ∃ procs', Exec (DaemonStep crates) (DaemonEnv toml config) tasks w₀.daemon w.daemon procs'
      (H.filterMap daemonPart.entry) := by
  have hother : ∀ j, ¬ daemonPart.Inside j → (systemProgs tasks peers j).Avoids
      fun o => ¬ ∃ i o', o = .peer i o' := by
    intro j hj
    obtain hdaemon | ⟨i, rfl⟩ := exists_index j
    · exact absurd hdaemon hj
    · rw [systemProgs_peer]
      exact (peerPart.avoids_lift i (peers i)).mono fun o ho o' heq => ho ⟨i, o', heq⟩
  have houtside : ∀ w o x w', (∃ i o', o = .peer i o') → SystemStep crates uids w o x w' →
      w'.daemon = w.daemon := by
    rintro w _ x w' ⟨i, o, rfl⟩ hs
    exact hs.1
  obtain ⟨procs', -, hexec⟩ := Part.exec systemProgs_task (fun i w o x w' hs => hs.1) hother
    houtside (fun w w' he => .inr he.1) h
  exact ⟨procs', hexec⟩

/-- What a client that has ended has done. -/
theorem traces_peer {i : ℕ} {code : Int32} (h : Exec (SystemStep crates uids)
      (SystemEnv toml config) (systemProgs tasks peers) w₀ w procs H)
    (hr : .ret (peerPart.index i) (.inr code) ∈ H) :
    Traces (fun _ _ _ _ => True) (peers i) (peerPart.callsOf H i) code := by
  obtain ⟨p, hp, hsteps⟩ : ∃ p, procs (peerPart.index i) = peerPart.lift i p ∧
      Steps (fun _ _ _ _ => True) (peers i) (peerPart.callsOf H i) p :=
    Part.project systemProgs_peer (fun _ _ _ _ _ _ => trivial) h i
  have hret := h.procs_of_ret hr
  rw [hp] at hret
  cases p with
  | pure a =>
    obtain rfl := Sum.inr.inj (Prog.pure.inj hret)
    exact hsteps
  | op o k => cases hret

/-- **A property of a connection** that holds of a new one, and that both ends keep, holds of the
socket and of the calls at both ends. -/
theorem socket_invariant {I : Socket → List ClientEvent → List PamEvent → Prop} {i : ℕ}
    (hnew : I .new [] [])
    (htask : ∀ s s' calls sent u o x u', I s calls sent → s.TaskStep crates.serde (uids i) o x s' →
      I s' (calls ++ [⟨u, o, x, u'⟩]) sent)
    (hpeer : ∀ s s' calls sent u o x u', I s calls sent → s.PeerStep o x s' →
      I s' calls (sent ++ [⟨u, o, x, u'⟩]))
    (h : Exec (SystemStep crates uids) (SystemEnv toml config) (systemProgs tasks peers) w₀ w procs
      H) (hw₀ : w₀.sockets i = .new) :
    I (w.sockets i) (daemonPart.callsOf H i) (peerPart.callsOf H i) := by
  induction h with
  | start =>
    rw [hw₀]
    exact hnew
  | @call w w' procs H j o k x hex hj hs ih =>
    have hproject := hex.project j
    rw [hj] at hproject
    obtain ⟨i', rfl⟩ | ⟨i', rfl⟩ := exists_index j
    · rw [systemProgs_task] at hproject
      obtain ⟨o, rfl⟩ : ∃ o', o = daemonPart.inj i' o' := by
        by_contra hno
        exact (daemonPart.avoids_lift i' (tasks i')).steps (hproject.snoc hs) ⟨w, o, x, w'⟩
          (by simp) fun o' heq => hno ⟨o', heq⟩
      obtain ⟨-, s, hsocket, hsockets⟩ := hs
      rw [hsockets, Part.callsOf_concat_of_ne (index_ne i' i).symm]
      by_cases hi : i = i'
      · subst hi
        rw [Function.update_self, Part.callsOf_concat_self]
        exact htask _ s _ _ _ _ _ _ ih hsocket
      · rw [Function.update_of_ne hi,
          Part.callsOf_concat_of_ne (daemonPart.index_injective.ne hi)]
        exact ih
    · rw [systemProgs_peer] at hproject
      obtain ⟨o, rfl⟩ : ∃ o', o = peerPart.inj i' o' := by
        by_contra hno
        exact (peerPart.avoids_lift i' (peers i')).steps (hproject.snoc hs) ⟨w, o, x, w'⟩ (by simp)
          fun o' heq => hno ⟨o', heq⟩
      obtain ⟨-, s, hsocket, hsockets⟩ := hs
      rw [hsockets, Part.callsOf_concat_of_ne (index_ne i i')]
      by_cases hi : i = i'
      · subst hi
        rw [Function.update_self, Part.callsOf_concat_self]
        exact hpeer _ s _ _ _ _ _ _ ih hsocket
      · rw [Function.update_of_ne hi,
          Part.callsOf_concat_of_ne (peerPart.index_injective.ne hi)]
        exact ih
  | ret _ _ _ ih =>
    rw [Part.callsOf_concat_ret, Part.callsOf_concat_ret]
    exact ih
  | environment _ he ih =>
    rw [he.2]
    exact ih

/-- **What a client has read** is what it has taken of what was written to it. -/
theorem filterMap_byteOf (h : Exec (SystemStep crates uids) (SystemEnv toml config)
      (systemProgs tasks peers) w₀ w procs H) {i : ℕ} (hw₀ : w₀.sockets i = .new) :
    (peerPart.callsOf H i).filterMap byteOf =
      (w.sockets i).toPeer.written.take (w.sockets i).toPeer.taken := by
  let I : Socket → List ClientEvent → List PamEvent → Prop := fun s _ sent =>
    sent.filterMap byteOf = s.toPeer.written.take s.toPeer.taken ∧
      s.toPeer.taken ≤ s.toPeer.written.length
  refine (socket_invariant (I := I) ⟨rfl, le_rfl⟩ ?_ ?_ h hw₀).1
  · rintro s s' calls sent u o x u' ⟨hread, hle⟩ hs
    obtain ⟨-, heq⟩ | ⟨_, part, -, -, heq⟩ := hs.toPeer u u'
    · change _ = s'.toPeer.written.take s'.toPeer.taken ∧ _
      rw [heq]
      exact ⟨hread, hle⟩
    · change _ = s'.toPeer.written.take s'.toPeer.taken ∧
        s'.toPeer.taken ≤ s'.toPeer.written.length
      rw [heq]
      refine ⟨?_, hle.trans ?_⟩
      · rw [hread]
        exact (List.take_append_of_le_length hle).symm
      · simp [Pipe.write]
  · rintro s s' calls sent u o x u' ⟨hread, hle⟩ hs
    change (sent ++ [(⟨u, o, x, u'⟩ : PamEvent)]).filterMap byteOf =
      s'.toPeer.written.take s'.toPeer.taken ∧ s'.toPeer.taken ≤ s'.toPeer.written.length
    rw [List.filterMap_append]
    obtain ⟨hnone, heq⟩ | ⟨byte, hsome, hhead, heq⟩ := hs.toPeer u u'
    · rw [heq, List.filterMap_cons, hnone]
      simpa using ⟨hread, hle⟩
    · have hget : s.toPeer.written[s.toPeer.taken]? = some byte := by
        rwa [Pipe.rest, List.head?_drop] at hhead
      rw [heq, List.filterMap_cons, hsome, hread]
      refine ⟨?_, (List.getElem?_eq_some_iff.mp hget).1⟩
      rw [List.take_add_one, hget]
      rfl

/-- **What was written to a client** are parts of the responses that its task has sent. -/
theorem written_toPeer (h : Exec (SystemStep crates uids) (SystemEnv toml config)
      (systemProgs tasks peers) w₀ w procs H) {i : ℕ} (hw₀ : w₀.sockets i = .new) :
    ∃ parts, List.Forall₂ (fun response part => part <+: response.wire crates.serde ++ [newline])
        ((daemonPart.callsOf H i).filterMap responseOf) parts ∧
      (w.sockets i).toPeer.written = parts.flatten := by
  let I : Socket → List ClientEvent → List PamEvent → Prop := fun s calls _ =>
    ∃ parts, List.Forall₂ (fun response part => part <+: response.wire crates.serde ++ [newline])
        (calls.filterMap responseOf) parts ∧ s.toPeer.written = parts.flatten
  refine socket_invariant (I := I) ⟨[], .nil, rfl⟩ ?_ ?_ h hw₀
  · rintro s s' calls sent u o x u' ⟨parts, hparts, hwritten⟩ hs
    change ∃ parts, List.Forall₂ _
      ((calls ++ [(⟨u, o, x, u'⟩ : ClientEvent)]).filterMap responseOf) parts ∧ _
    rw [List.filterMap_append]
    obtain ⟨hnone, heq⟩ | ⟨response, part, hsome, hpart, heq⟩ := hs.toPeer u u'
    · rw [List.filterMap_cons, hnone, heq]
      exact ⟨parts, by simpa using hparts, hwritten⟩
    · rw [List.filterMap_cons, hsome, heq]
      refine ⟨parts ++ [part], List.rel_append hparts (.cons hpart .nil), ?_⟩
      rw [List.flatten_append, ← hwritten]
      simp [Pipe.write]
  · rintro s s' calls sent u o x u' ⟨parts, hparts, hwritten⟩ hs
    refine ⟨parts, hparts, ?_⟩
    obtain ⟨-, heq⟩ | ⟨byte, -, -, heq⟩ := hs.toPeer u u' <;> rw [heq, ← hwritten]

/-- A task knows the user of its client. -/
theorem eq_uid_of_peerCredentials (h : Exec (SystemStep crates uids) (SystemEnv toml config)
      (systemProgs tasks peers) w₀ w procs H) {i : ℕ} (hw₀ : w₀.sockets i = .new)
    {u u' : DaemonWorld} {uid : UInt32}
    (hmem : ⟨u, .peerCredentials, .ok uid, u'⟩ ∈ daemonPart.callsOf H i) : uid = uids i := by
  let I : Socket → List ClientEvent → List PamEvent → Prop := fun _ calls _ =>
    ∀ u uid u', ⟨u, .peerCredentials, .ok uid, u'⟩ ∈ calls → uid = uids i
  refine socket_invariant (I := I) ?_ ?_ (fun _ _ _ _ _ _ _ _ hI _ => hI) h hw₀ u uid u' hmem
  · intro _ _ _ hnil
    cases hnil
  · intro s s' calls sent u o x u' hI hs v uid v' hv
    rcases List.mem_append.mp hv with hold | hnew
    · exact hI v uid v' hold
    · cases List.mem_singleton.mp hnew
      exact hs.1 uid rfl

end System

end OlaCore
