import OlaCore.Adapters.Health
import OlaCore.Audit.Rotation
import OlaCore.Core.Effects

set_option relaxedAutoImplicit false
set_option autoImplicit false

/-!
# The shared state of the daemon

The requests of all connections share the health of the adapters, the nonce store and the audit
logger, each behind a lock, and they read one monotonic clock. `ServerStep` says what one
operation of a request does to that state and what it may answer. The wall clock, random sources,
sockets and the disk may answer anything.

Between the operations of a request time passes and the background tasks run: probes of the
adapters, ticks of the nonce store, and on a hangup signal the reopening of the audit log after a
rotation.

## Main definitions

* `OlaCore.ServerWorld`, `OlaCore.ServerStep` — the shared state and its operations.
* `OlaCore.Background` — the steps of the background tasks.

## Main results

* `OlaCore.serverStep_frame` — what an operation leaves alone.
* `OlaCore.serverStep_log_ok`, `OlaCore.serverStep_consume_ok` — what a log call and the use of a
  nonce have done when they succeed.
* `OlaCore.serverStep_nonces`, `OlaCore.Background.nonces` — what happens to the nonce store.
-/

namespace OlaCore

/-- The monotonic clock, in nanoseconds, and the state that all requests share. -/
structure ServerWorld where
  instant : ℕ
  health : HealthMap
  nonces : NonceStore
  audit : AuditWorld

/-- `ServerStep crates w o a w'`: in the state `w` the operation `o` may answer `a` and leave
`w'`. -/
def ServerStep (crates : Crates) (w : ServerWorld) :
    (o : ServerOp) → o.Ans → ServerWorld → Prop
  | .adapterDown name, down, w' => down = w.health.adapterDown name ∧ w' = w
  | .generate uid, answer, w' => ∃ draw nonces,
      w.nonces.generate uid draw w.instant = (answer, nonces) ∧ w' = { w with nonces }
  | .consume nonce uid, answer, w' => ∃ nonces,
      w.nonces.consume nonce uid w.instant = (answer, nonces) ∧ w' = { w with nonces }
  | .instantNow, now, w' => now = w.instant ∧ w' = w
  | .log entry, answer, w' => ∃ io fs logger,
      AuditLogger.log crates w.audit.fs w.audit.logger entry io = (answer, fs, logger) ∧
        w' = { w with audit := ⟨fs, logger⟩ }
  | _, _, w' => w' = w

/-- What happens besides the operations of requests: time passes, the background tasks run, and
the log is rotated. The background tasks read the clock before they take the lock.

A probe is what the health monitor records of it. Its ping is on a connection of its own, to which
no request has access; and the monitor passes over an adapter whose permit is taken, so that a
probe at any time is more than it does. -/
inductive Background : ServerWorld → ServerWorld → Prop
  | elapse (w : ServerWorld) {instant : ℕ} : w.instant ≤ instant → Background w { w with instant }
  | probe (w : ServerWorld) (name : String) (isUp : Bool) {now : ℕ} : now ≤ w.instant →
      Background w { w with health := w.health.probe name isUp now }
  | cleanup (w : ServerWorld) {now : ℕ} : now ≤ w.instant →
      Background w { w with nonces := w.nonces.cleanup now }
  | rename (w : ServerWorld) {fs : AuditFs} : w.audit.fs.rename = some fs →
      Background w { w with audit := ⟨fs, w.audit.logger⟩ }
  | create (w : ServerWorld) {fs : AuditFs} : w.audit.fs.create = some fs →
      Background w { w with audit := ⟨fs, w.audit.logger⟩ }
  | reopen (w : ServerWorld) {fs : AuditFs} {logger : AuditState} :
      AuditLogger.reopen w.audit.fs w.audit.logger = (fs, logger) →
      Background w { w with audit := ⟨fs, logger⟩ }

/-- An operation leaves the clock and the health of the adapters alone. -/
theorem serverStep_frame {crates : Crates} {w w' : ServerWorld} {o : ServerOp} {answer : o.Ans}
    (h : ServerStep crates w o answer w') : w'.instant = w.instant ∧ w'.health = w.health := by
  cases o with
  | adapterDown name =>
    obtain ⟨-, rfl⟩ := h
    exact ⟨rfl, rfl⟩
  | instantNow =>
    obtain ⟨-, rfl⟩ := h
    exact ⟨rfl, rfl⟩
  | generate uid =>
    obtain ⟨_, _, -, rfl⟩ := h
    exact ⟨rfl, rfl⟩
  | consume nonce uid =>
    obtain ⟨_, -, rfl⟩ := h
    exact ⟨rfl, rfl⟩
  | log entry =>
    obtain ⟨_, _, _, -, rfl⟩ := h
    exact ⟨rfl, rfl⟩
  | _ =>
    obtain rfl : w' = w := h
    exact ⟨rfl, rfl⟩

/-- A log call that succeeds has written the line of the sealed entry to the logger's file, and
synced it. -/
theorem serverStep_log_ok {crates : Crates} {w w' : ServerWorld} {entry : AuditEntry}
    (h : ServerStep crates w (.log entry) (.ok ()) w') :
    w'.audit.fs = w.audit.fs.append w.audit.logger.file
      ((entry.seal crates w.audit.logger.prevHash).line crates.serde) := by
  obtain ⟨io, fs, logger, hlog, rfl⟩ := h
  cases io with
  | ok => exact (Prod.mk.inj (Prod.mk.inj hlog).2).1.symm
  | _ => cases (Prod.mk.inj hlog).1

/-- A nonce that is accepted was pending for the user and not too old, and is gone. -/
theorem serverStep_consume_ok {crates : Crates} {w w' : ServerWorld} {nonce : Nonce}
    {uid : UInt32} (h : ServerStep crates w (.consume nonce uid) (.ok ()) w') :
    ∃ issuedAt, w.nonces.pending.lookup nonce = some (issuedAt, uid) ∧
      w.instant - issuedAt ≤ nonceTtl ∧ w'.nonces.pending.lookup nonce = none := by
  obtain ⟨nonces, hc, rfl⟩ := h
  have hok : (w.nonces.consume nonce uid w.instant).1 = .ok () := by rw [hc]
  obtain ⟨-, issuedAt, hl, hage⟩ := NonceStore.consume_eq_ok_iff.mp hok
  have hgone := NonceStore.lookup_consume hok
  rw [hc] at hgone
  exact ⟨issuedAt, hl, hage, hgone⟩

/-- A nonce that was spent is gone, whatever the answer. -/
theorem notMem_of_consume {crates : Crates} {w w' : ServerWorld} {nonce : Nonce} {uid : UInt32}
    {answer : Except NonceError Unit} (h : ServerStep crates w (.consume nonce uid) answer w')
    (hclean : w.nonces.poisoned = false) : nonce ∉ w'.nonces.pending := by
  obtain ⟨nonces, hc, rfl⟩ := h
  have hgone : nonce ∉ (w.nonces.consume nonce uid w.instant).2.pending :=
    NonceStore.notMem_consume hclean
  rwa [hc] at hgone

/-- Does the operation issue or spend a nonce? -/
def ServerOp.isNonce : ServerOp → Bool
  | .generate _ => true
  | .consume _ _ => true
  | _ => false

/-- **What an operation does to the nonce store.** -/
theorem serverStep_nonces {crates : Crates} {w w' : ServerWorld} {o : ServerOp} {answer : o.Ans}
    (h : ServerStep crates w o answer w') :
    (w'.nonces = w.nonces ∧ (o.isNonce = false ∨
        ∃ uid e, (⟨o, answer⟩ : Sigma ServerOp.Ans) = ⟨.generate uid, .error e⟩)) ∨
      (∃ uid nonce, (⟨o, answer⟩ : Sigma ServerOp.Ans) = ⟨.generate uid, .ok nonce⟩ ∧
        nonce ∉ w.nonces.pending ∧ w'.nonces = w.nonces.add nonce uid w.instant) ∨
      ∃ nonce uid, o = .consume nonce uid ∧
        w'.nonces = (w.nonces.consume nonce uid w.instant).2 := by
  cases o with
  | adapterDown name =>
    obtain ⟨-, rfl⟩ := h
    exact .inl ⟨rfl, .inl rfl⟩
  | instantNow =>
    obtain ⟨-, rfl⟩ := h
    exact .inl ⟨rfl, .inl rfl⟩
  | log entry =>
    obtain ⟨_, _, _, -, rfl⟩ := h
    exact .inl ⟨rfl, .inl rfl⟩
  | consume nonce uid =>
    obtain ⟨nonces, hc, rfl⟩ := h
    exact .inr (.inr ⟨nonce, uid, rfl, by rw [hc]⟩)
  | generate uid =>
    obtain ⟨draw, nonces, hg, rfl⟩ := h
    obtain ⟨e, heq⟩ | ⟨nonce, hnot, -, heq⟩ := w.nonces.generate_cases uid draw w.instant
    · obtain ⟨rfl, rfl⟩ := Prod.mk.inj (hg.symm.trans heq)
      exact .inl ⟨rfl, .inr ⟨uid, e, rfl⟩⟩
    · obtain ⟨rfl, rfl⟩ := Prod.mk.inj (hg.symm.trans heq)
      exact .inr (.inl ⟨uid, nonce, rfl, hnot, rfl⟩)
  | _ =>
    obtain rfl : w' = w := h
    exact .inl ⟨rfl, .inl rfl⟩

/-- **What the background tasks do to the nonce store.** -/
theorem Background.nonces {w w' : ServerWorld} (h : Background w w') :
    w'.nonces = w.nonces ∨ ∃ now, w'.nonces = w.nonces.cleanup now := by
  cases h with
  | cleanup _ => exact .inr ⟨_, rfl⟩
  | _ => exact .inl rfl

/-- How a nonce comes to be pending by an operation: it was pending before, or the operation has
issued it for the user. -/
theorem serverStep_pending {crates : Crates} {w w' : ServerWorld} {o : ServerOp} {answer : o.Ans}
    (h : ServerStep crates w o answer w') {nonce : Nonce} {issuedAt : ℕ} {uid : UInt32}
    (hn : w'.nonces.pending.lookup nonce = some (issuedAt, uid)) :
    w.nonces.pending.lookup nonce = some (issuedAt, uid) ∨
      (⟨o, answer⟩ : Sigma ServerOp.Ans) = ⟨.generate uid, .ok nonce⟩ := by
  obtain ⟨heq, -⟩ | ⟨uid', nonce', hlabel, -, heq⟩ | ⟨nonce', uid', -, heq⟩ := serverStep_nonces h
  · rw [heq] at hn
    exact .inl hn
  · rw [heq] at hn
    by_cases hne : nonce = nonce'
    · subst hne
      simp only [NonceStore.add, AList.lookup_insert, Option.some.injEq, Prod.mk.injEq] at hn
      rw [← hn.2]
      exact .inr hlabel
    · rw [NonceStore.lookup_add_of_ne hne] at hn
      exact .inl hn
  · rw [heq] at hn
    exact .inl (NonceStore.lookup_of_lookup_consume hn)

/-- A nonce that is pending after a step of the background tasks was pending before. -/
theorem Background.pending {w w' : ServerWorld} (h : Background w w') {nonce : Nonce}
    {p : ℕ × UInt32} (hn : w'.nonces.pending.lookup nonce = some p) :
    w.nonces.pending.lookup nonce = some p := by
  obtain heq | ⟨now, heq⟩ := h.nonces
  · rwa [heq] at hn
  · rw [heq] at hn
    exact NonceStore.lookup_of_lookup_cleanup hn

end OlaCore
