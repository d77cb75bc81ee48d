import Mathlib.Data.Finset.Card
import OlaCore.Ipc.Connection

set_option relaxedAutoImplicit false
set_option autoImplicit false

/-!
# No nonce leaks

A request that was issued a nonce spends it on every path to a response. So a nonce is pending only
while the request that it was issued for is under way. At most sixteen connections are served at
once, each with one request at a time, so at most sixteen nonces are pending and the limits of the
store are never reached.

The protocol of a task says this about its program: a nonce is issued only when the task holds
none, it is spent before another call of the task's own, and a task ends without one.

## Main definitions

* `OlaCore.nonceProtocol`, `OlaCore.clientProtocol` — the protocols of a request and of a task.
* `OlaCore.NonceInv` — the invariant of the nonce store and the phases of the tasks.
* `OlaCore.Outstanding` — the nonces that a task has yet to spend.

## Main results

* `OlaCore.obeys_handleVerifyOnce`, `OlaCore.obeys_clientTask` — requests and tasks obey them.
* `OlaCore.no_nonce_leak` — the pending nonces of every run.
-/

namespace OlaCore

open Program

/-! ## The protocol -/

/-- The protocol of a request, whose phase is the nonce that it holds: it is issued a nonce when it
holds none, and spends the one that it holds. -/
def nonceProtocol : Protocol ServerOp ServerOp.Ans (Option Nonce) where
  allowed
    | none, .consume _ _ => False
    | some _, .generate _ => False
    | some nonce, .consume nonce' _ => nonce' = nonce
    | _, _ => True
  next
    | none, .generate _, .ok nonce => some nonce
    | some _, .consume _ _, _ => none
    | held, _, _ => held

/-- The phases of a task: it waits for a permit, it serves its client and may hold a nonce, or it
has given the permit back. -/
inductive ClientPhase where
  | waiting
  | serving (held : Option Nonce)
  | ended

/-- The protocol of a task: it obeys the protocol of a request, and holds no nonce when it makes a
call of its own. -/
def clientProtocol : Protocol ClientOp ClientOp.Ans ClientPhase where
  allowed
    | .waiting, .acquireConn => True
    | .serving held, .server o => nonceProtocol.allowed held o
    | .serving none, .acquireConn => False
    | .serving none, _ => True
    | _, _ => False
  next
    | .waiting, .acquireConn, _ => .serving none
    | .serving held, .server o, answer => .serving (nonceProtocol.next held o answer)
    | .serving none, .releaseConn, _ => .ended
    | phase, _, _ => phase

/-- The other calls of a request do not matter. -/
theorem nonceProtocol_of_not_isNonce {o : ServerOp} (h : ¬ o.isNonce) (held : Option Nonce) :
    nonceProtocol.allowed held o ∧ ∀ answer, nonceProtocol.next held o answer = held := by
  cases o with
  | generate uid => exact absurd rfl h
  | consume nonce uid => exact absurd rfl h
  | _ => cases held <;> exact ⟨trivial, fun _ => rfl⟩

section Request

variable {crates : Crates} {state : ServerState} {reloadable : ReloadableState}
  {callerUid uid : UInt32} {reqId : Option String} {held : Option Nonce}

/-- A part of a request that neither issues nor spends a nonce. -/
theorem obeys_of_avoids {α : Type} {p : ServerProg α} (hp : p.Avoids fun o => o.isNonce) :
    p.Obeys nonceProtocol (fun held' _ => held' = held) held :=
  hp.obeys fun _ ho => nonceProtocol_of_not_isNonce ho held

/-- An exit that refuses. -/
theorem avoids_nonce_denyExit {method reason clientReason : String} {adapterName : Option String}
    {result : Option VerificationResult} :
    (denyExit callerUid uid reqId method reason adapterName result clientReason).Avoids
      fun o => o.isNonce :=
  avoids_denyExit Bool.false_ne_true fun _ => Bool.false_ne_true

/-- The held nonce is spent, and then the request is refused. -/
theorem obeys_consume_bind {nonce : Nonce} {f : Except NonceError Unit → ServerProg Response}
    (hf : ∀ answer, (f answer).Avoids fun o => o.isNonce) :
    (ServerProg.consume nonce uid >>= f).Obeys nonceProtocol (fun held _ => held = none)
      (some nonce) :=
  obeys_call_bind rfl fun answer => obeys_of_avoids (hf answer)

/-- Every path after the adapter's reply spends the nonce. -/
theorem obeys_checkResult {resolved : ResolvedAdapter} (request : VerificationRequest)
    {result : VerificationResult} :
    (checkResult crates state reloadable callerUid uid reqId resolved request result).Obeys
      nonceProtocol (fun held _ => held = none) (some request.nonce) := by
  unfold checkResult
  dsimp only
  split
  · exact obeys_consume_bind fun _ => avoids_nonce_denyExit
  refine obeys_call_bind trivial fun nowMs => ?_
  split
  · exact obeys_consume_bind fun _ => avoids_nonce_denyExit
  refine obeys_consume_bind fun consumed => ?_
  rcases consumed with e | _
  · exact avoids_nonce_denyExit
  dsimp only
  split
  · exact avoids_nonce_denyExit
  split
  · exact avoids_nonce_denyExit
  · exact avoids_evaluateAndAudit Bool.false_ne_true fun _ => Bool.false_ne_true

/-- **A request spends its nonce** on every path: it starts and ends without one. -/
theorem obeys_handleVerifyOnce {method : String} :
    (handleVerifyOnce crates state reloadable callerUid uid reqId method).Obeys nonceProtocol
      (fun held _ => held = none) none := by
  refine obeys_bind (obeys_of_avoids (AdapterRegistry.avoids_resolve
    (by simp [ServerOp.isNonce]) method)) ?_
  rintro _ (e | resolved) rfl
  · exact obeys_of_avoids avoids_nonce_denyExit
  refine obeys_call_bind trivial fun generated => ?_
  rcases generated with e | nonce
  · exact obeys_of_avoids avoids_nonce_denyExit
  -- The nonce is held from here on.
  refine obeys_call_bind trivial fun now => obeys_call_bind trivial fun id =>
    obeys_call_bind trivial fun nowMs => ?_
  refine obeys_bind (obeys_of_avoids (avoids_dispatchResolved (by simp [ServerOp.isNonce])
    (by simp [ServerOp.isNonce]) (by simp [ServerOp.isNonce]) (by simp [ServerOp.isNonce])
    (by simp [ServerOp.isNonce]) (by simp [ServerOp.isNonce]))) ?_
  rintro _ (e | result) rfl
  · exact obeys_consume_bind fun _ => avoids_nonce_denyExit
  · exact obeys_checkResult ⟨protocolVersion, id, uid, nonce, _⟩

end Request

section Task

variable {crates : Crates} {state : ServerState} {ownUid callerUid : UInt32}
  {reloadable : ReloadableState}

/-- A part of a task that serves the client: it starts and ends without a nonce. -/
def Serves {α : Type} (p : ClientProg α) : Prop :=
  p.Obeys clientProtocol (fun phase _ => phase = .serving none) (.serving none)

/-- Parts of a task, one after the other. -/
theorem serves_bind {α β : Type} {p : ClientProg β} {f : β → ClientProg α} (hp : Serves p)
    (hf : ∀ b, Serves (f b)) : Serves (p >>= f) := by
  refine obeys_bind hp ?_
  rintro _ b rfl
  exact hf b

/-- A part of a task that returns. -/
theorem serves_pure {α : Type} (a : α) : Serves (Pure.pure a : ClientProg α) := obeys_pure rfl

/-- A request, or another part of the request path, as a part of a task. -/
theorem serves_server {α : Type} {p : ServerProg α}
    (hp : p.Obeys nonceProtocol (fun held _ => held = none) none) :
    Serves (ClientProg.server p) := by
  refine (hp.embed ClientPhase.serving (fun _ _ h => h) (fun _ _ _ _ => rfl)).mono ?_
  rintro _ a ⟨_, rfl, rfl⟩
  rfl

/-- A response, and then the next line or the end. -/
theorem serves_respondThen {response : Response} {next : Option (Except String Unit)} :
    Serves (respondThen response next) := by
  refine obeys_call_bind trivial fun answer => ?_
  rcases answer with _ | _ <;> exact serves_pure _

/-- A `verify_once` request. -/
theorem serves_answerVerifyOnce {req : Request} :
    Serves (answerVerifyOnce crates state callerUid reloadable req) := by
  unfold answerVerifyOnce
  split
  · exact serves_respondThen
  split
  · exact serves_respondThen
  exact serves_bind (serves_server obeys_handleVerifyOnce) fun _ => serves_respondThen

/-- Any request. -/
theorem serves_answerRequest {req : Request} :
    Serves (answerRequest crates state callerUid reloadable req) := by
  have hmethods : Serves
      (ClientProg.server (state.adapterRegistry.availableMethods ServerProg.adapterDown)) := by
    refine serves_server (obeys_of_avoids (avoids_bind ?_ fun _ => avoids_pure _))
    exact AdapterRegistry.avoids_filterAvailable (by simp [ServerOp.isNonce]) _
  unfold answerRequest
  split_ifs
  · exact serves_respondThen
  · exact serves_bind hmethods fun _ => serves_respondThen
  · exact serves_bind hmethods fun _ => serves_respondThen
  · exact serves_answerVerifyOnce
  · exact serves_respondThen

/-- A line. -/
theorem serves_handleLine {line : String} :
    Serves (handleLine crates state ownUid callerUid line) := by
  refine obeys_call_bind trivial fun reloadable => ?_
  split
  · exact serves_pure _
  refine obeys_call_bind trivial fun admitted => ?_
  cases admitted
  · exact serves_respondThen
  change Serves (answerLine crates state callerUid reloadable line)
  unfold answerLine
  split
  · exact serves_respondThen
  split
  · exact serves_respondThen
  · exact serves_answerRequest

/-- The loop of a task. -/
theorem serves_clientLoop {n : ℕ} : Serves (clientLoop crates state ownUid callerUid n) := by
  induction n with
  | zero => exact serves_pure _
  | succ n ih =>
    refine obeys_call_bind trivial fun input => ?_
    rcases input with _ | _ | _ | line
    · exact serves_pure _
    · exact serves_pure _
    · exact serves_pure _
    · refine serves_bind serves_handleLine fun next => ?_
      rcases next with _ | r
      · exact ih
      · exact serves_pure _

/-- **A task obeys the protocol.** -/
theorem obeys_clientTask {n : ℕ} :
    (clientTask crates state ownUid n).Obeys clientProtocol (fun phase _ => phase = .ended)
      .waiting := by
  have hclient : Serves (handleClient crates state ownUid n) := by
    refine obeys_call_bind trivial fun creds => ?_
    rcases creds with _ | callerUid
    · exact serves_pure _
    refine obeys_call_bind trivial fun reloadable => ?_
    split
    · exact serves_pure _
    · exact serves_clientLoop
  refine obeys_call_bind trivial fun _ => obeys_bind hclient ?_
  rintro _ result rfl
  exact obeys_call_bind trivial fun _ => obeys_pure rfl

end Task

/-! ## The invariant -/

/-- The invariant of the nonce store and the phases of the tasks: the store is not poisoned and its
counts are right, every pending nonce is held by a task, and the tasks that serve a client are those
with a permit. -/
structure NonceInv (w : DaemonWorld) (phases : ℕ → ClientPhase) : Prop where
  clean : w.server.nonces.poisoned = false
  counts : w.server.nonces.CountsPending
  held : ∀ nonce ∈ w.server.nonces.pending, ∃ i, phases i = .serving (some nonce)
  permits : ∃ active : Finset ℕ, (∀ i, i ∈ active ↔ ∃ held, phases i = .serving held) ∧
    active.card + w.permits = maxConnections

section Invariant

variable {crates : Crates} {w w' : DaemonWorld} {phases : ℕ → ClientPhase} {i : ℕ}

/-- A pending nonce that the task does not hold is held by another one, so that the phase of the
task may change. -/
theorem NonceInv.held_update (hI : NonceInv w phases) {nonce : Nonce}
    (hn : nonce ∈ w.server.nonces.pending) (hi : phases i ≠ .serving (some nonce))
    (phase : ClientPhase) : ∃ j, Function.update phases i phase j = .serving (some nonce) := by
  obtain ⟨j, hj⟩ := hI.held nonce hn
  have hji : j ≠ i := by
    rintro rfl
    exact hi hj
  exact ⟨j, by rw [Function.update_of_ne hji, hj]⟩

/-- A task that serves a client changes the store and the nonce that it holds. -/
theorem NonceInv.serve (hI : NonceInv w phases) {server : ServerWorld} {old new : Option Nonce}
    (hi : phases i = .serving old) (hclean : server.nonces.poisoned = false)
    (hcounts : server.nonces.CountsPending)
    (hheld : ∀ nonce ∈ server.nonces.pending,
      new = some nonce ∨ nonce ∈ w.server.nonces.pending ∧ old ≠ some nonce) :
    NonceInv { w with server } (Function.update phases i (.serving new)) := by
  refine ⟨hclean, hcounts, ?_, ?_⟩
  · intro nonce hn
    rcases hheld nonce hn with rfl | ⟨hpending, hne⟩
    · exact ⟨i, Function.update_self ..⟩
    · refine hI.held_update hpending ?_ _
      rw [hi]
      exact fun heq => hne (ClientPhase.serving.inj heq)
  · obtain ⟨active, hactive, hcard⟩ := hI.permits
    refine ⟨active, fun j => ?_, hcard⟩
    rw [hactive j]
    by_cases hji : j = i
    · subst hji
      simp [hi]
    · rw [Function.update_of_ne hji]

/-- **An operation of the request path** keeps the invariant. -/
theorem NonceInv.serverStep (hI : NonceInv w phases) {o : ServerOp} {answer : o.Ans}
    {server : ServerWorld} {held : Option Nonce} (hi : phases i = .serving held)
    (hallowed : nonceProtocol.allowed held o) (hs : ServerStep crates w.server o answer server) :
    NonceInv { w with server }
      (Function.update phases i (.serving (nonceProtocol.next held o answer))) := by
  have hsame : server.nonces = w.server.nonces → nonceProtocol.next held o answer = held →
      NonceInv { w with server }
        (Function.update phases i (.serving (nonceProtocol.next held o answer))) := by
    intro heq hnext
    rw [hnext]
    have hupdate : Function.update phases i (.serving held) = phases := by
      rw [← hi, Function.update_eq_self]
    rw [hupdate]
    exact ⟨heq ▸ hI.clean, heq ▸ hI.counts, heq ▸ hI.held, hI.permits⟩
  obtain ⟨heq, hno | ⟨uid, e, hlabel⟩⟩ | ⟨uid, nonce, hlabel, hnot, heq⟩ | ⟨nonce, uid, rfl, heq⟩ :=
    serverStep_nonces hs
  · exact hsame heq ((nonceProtocol_of_not_isNonce (by simp [hno]) held).2 answer)
  · cases hlabel
    exact hsame heq (by cases held <;> rfl)
  · -- A nonce is issued to a task that holds none.
    cases hlabel
    cases held with
    | some _ => exact hallowed.elim
    | none =>
      refine hI.serve hi (heq ▸ hI.clean) (heq ▸ hI.counts.add hnot) fun nonce' hn => ?_
      rw [heq] at hn
      rcases (AList.mem_insert _).mp hn with rfl | hn
      · exact .inl rfl
      · exact .inr ⟨hn, by simp⟩
  · -- The held nonce is spent.
    cases held with
    | none => exact hallowed.elim
    | some held =>
      obtain rfl : nonce = held := hallowed
      refine hI.serve hi ?_ ?_ fun nonce' hn => ?_
      · rw [heq, NonceStore.poisoned_consume]
        exact hI.clean
      · rw [heq]
        exact hI.counts.consume
      · rw [heq] at hn
        obtain ⟨p, hl⟩ := NonceStore.mem_pending_iff.mp hn
        refine .inr ⟨NonceStore.mem_pending_iff.mpr ⟨p, NonceStore.lookup_of_lookup_consume hl⟩, ?_⟩
        rintro ⟨⟩
        exact NonceStore.notMem_consume hI.clean hn

/-- A task takes a permit. -/
theorem NonceInv.acquire (hI : NonceInv w phases) (hi : phases i = .waiting)
    (hpos : 0 < w.permits) :
    NonceInv { w with permits := w.permits - 1 }
      (Function.update phases i (.serving none)) := by
  obtain ⟨active, hactive, hcard⟩ := hI.permits
  refine ⟨hI.clean, hI.counts, fun nonce hn => ?_, insert i active, fun j => ?_, ?_⟩
  · exact hI.held_update hn (by simp [hi]) _
  · by_cases hji : j = i
    · subst hji
      simp
    · rw [Finset.mem_insert, hactive j, Function.update_of_ne hji]
      simp [hji]
  · have hnot : i ∉ active := by
      rw [hactive, hi]
      simp
    rw [Finset.card_insert_of_notMem hnot]
    simp only
    omega

/-- A task that holds no nonce gives its permit back. -/
theorem NonceInv.release (hI : NonceInv w phases) (hi : phases i = .serving none) :
    NonceInv { w with permits := w.permits + 1 } (Function.update phases i .ended) := by
  obtain ⟨active, hactive, hcard⟩ := hI.permits
  refine ⟨hI.clean, hI.counts, fun nonce hn => ?_, active.erase i, fun j => ?_, ?_⟩
  · exact hI.held_update hn (by simp [hi]) _
  · by_cases hji : j = i
    · subst hji
      simp
    · rw [Finset.mem_erase, hactive j, Function.update_of_ne hji]
      simp [hji]
  · have hmem : i ∈ active := (hactive i).mpr ⟨none, hi⟩
    have hpos := Finset.card_pos.mpr ⟨i, hmem⟩
    rw [Finset.card_erase_of_mem hmem]
    simp only
    omega

/-- **A call of a task** that the protocol allows keeps the invariant. -/
theorem NonceInv.step (hI : NonceInv w phases) {o : ClientOp} {answer : o.Ans}
    (hallowed : clientProtocol.allowed (phases i) o) (hs : DaemonStep crates w o answer w') :
    NonceInv w' (Function.update phases i (clientProtocol.next (phases i) o answer)) := by
  have hsame : w' = w → clientProtocol.next (phases i) o answer = phases i →
      NonceInv w' (Function.update phases i (clientProtocol.next (phases i) o answer)) := by
    intro heq hnext
    rw [heq, hnext, Function.update_eq_self]
    exact hI
  cases hphase : phases i with
  | waiting =>
    rw [hphase] at hallowed
    cases o with
    | acquireConn =>
      obtain ⟨hpos, rfl⟩ := hs
      exact hI.acquire hphase hpos
    | _ => exact hallowed.elim
  | ended =>
    rw [hphase] at hallowed
    cases o <;> exact hallowed.elim
  | serving held =>
    rw [hphase] at hallowed
    cases o with
    | server o =>
      obtain ⟨server, hserver, rfl⟩ := hs
      exact hI.serverStep hphase hallowed hserver
    | acquireConn => cases held <;> exact hallowed.elim
    | releaseConn =>
      cases held with
      | some _ => exact hallowed.elim
      | none =>
        obtain rfl := hs
        exact hI.release hphase
    | loadReloadable =>
      rw [hphase] at hsame
      exact hsame hs.2 (by cases held <;> rfl)
    | _ =>
      rw [hphase] at hsame
      exact hsame hs (by cases held <;> rfl)

/-- **A step of the environment** keeps the invariant. -/
theorem NonceInv.env {toml : String → Except String (List RawPolicyRule)} {config : Config}
    (hI : NonceInv w phases) (he : DaemonEnv toml config w w') : NonceInv w' phases := by
  cases he with
  | reload files => exact ⟨hI.clean, hI.counts, hI.held, hI.permits⟩
  | background hb =>
    obtain heq | ⟨now, heq⟩ := hb.nonces
    · exact ⟨heq ▸ hI.clean, heq ▸ hI.counts, heq ▸ hI.held, hI.permits⟩
    · refine ⟨?_, ?_, fun nonce hn => ?_, hI.permits⟩
      · rw [heq, NonceStore.poisoned_cleanup]
        exact hI.clean
      · rw [heq]
        exact hI.counts.cleanup
      · rw [heq] at hn
        obtain ⟨p, hl⟩ := NonceStore.mem_pending_iff.mp hn
        exact hI.held nonce
          (NonceStore.mem_pending_iff.mpr ⟨p, NonceStore.lookup_of_lookup_cleanup hl⟩)

/-- The nonce that a task holds. -/
def ClientPhase.nonce? : ClientPhase → Option Nonce
  | .serving held => held
  | _ => none

/-- **Few nonces are pending**: each is held by a task of its own, and each such task has a
permit. -/
theorem NonceInv.length_pending_le (hI : NonceInv w phases) :
    w.server.nonces.pending.entries.length ≤ maxConnections := by
  obtain ⟨active, hactive, hcard⟩ := hI.permits
  have hkeys : w.server.nonces.pending.keys.toFinset.card =
      w.server.nonces.pending.entries.length := by
    rw [List.toFinset_card_of_nodup w.server.nonces.pending.keys_nodup]
    exact List.length_map _
  have hsurj : w.server.nonces.pending.keys.toFinset.card ≤ active.card := by
    have hmap : w.server.nonces.pending.keys.toFinset.map Function.Embedding.some ⊆
        active.image fun i => (phases i).nonce? := by
      intro held hmem
      obtain ⟨nonce, hn, rfl⟩ := Finset.mem_map.mp hmem
      obtain ⟨i, hi⟩ := hI.held nonce (AList.mem_keys.mpr (List.mem_toFinset.mp hn))
      exact Finset.mem_image.mpr ⟨i, (hactive i).mpr ⟨_, hi⟩, by rw [hi]; rfl⟩
    calc w.server.nonces.pending.keys.toFinset.card
        = (w.server.nonces.pending.keys.toFinset.map Function.Embedding.some).card :=
          (Finset.card_map _).symm
      _ ≤ (active.image fun i => (phases i).nonce?).card := Finset.card_le_card hmap
      _ ≤ active.card := Finset.card_image_le
  omega

end Invariant

/-! ## Runs -/

/-- The task has yet to spend the nonce: it was issued to the task in a request that is still under
way, which has not reached the call that spends it. -/
def Outstanding (calls : List ClientEvent) (nonce : Nonce) : Prop :=
  ∃ l₁ w uid w' l₂, calls = l₁ ++ ⟨w, .server (.generate uid), .ok nonce, w'⟩ :: l₂ ∧
    ∀ e ∈ l₂, ∃ o, e.op = .server o ∧ o.isNonce = false

/-- The task is not inside the request path: it is about to make a call of its own, such as sending
the response, or it has returned. -/
def OutsideRequest {α : Type} : ClientProg α → Prop
  | .op (.server _) _ => False
  | _ => True

section Calls

variable {calls : List ClientEvent} {nonce : Nonce}

/-- What a call by a task that holds a nonce can be: one that spends it, or another one of the
request path. -/
theorem allowed_holding {o : ClientOp}
    (h : clientProtocol.allowed (.serving (some nonce)) o) :
    (∃ uid, o = .server (.consume nonce uid)) ∨ ∃ o', o = .server o' ∧ o'.isNonce = false := by
  cases o with
  | server o =>
    cases o with
    | consume nonce' uid =>
      obtain rfl : nonce' = nonce := h
      exact .inl ⟨uid, rfl⟩
    | generate uid => exact h.elim
    | _ => exact .inr ⟨_, rfl, rfl⟩
  | _ => exact h.elim

/-- The other calls of the request path do not change the phase. -/
theorem next_of_not_isNonce {o : ServerOp} (h : o.isNonce = false) (held : Option Nonce)
    (answer : o.Ans) :
    clientProtocol.next (.serving held) (.server o) answer = .serving held :=
  congrArg ClientPhase.serving ((nonceProtocol_of_not_isNonce (by simp [h]) held).2 answer)

/-- **A nonce that a task holds is outstanding.** -/
theorem outstanding_of_phase (hadmits : clientProtocol.Admits .waiting calls)
    (hphase : clientProtocol.after .waiting calls = .serving (some nonce)) :
    Outstanding calls nonce := by
  induction calls using List.reverseRecOn with
  | nil => cases hphase
  | append_singleton calls e ih =>
    obtain ⟨hcalls, hlast, -⟩ := admits_append.mp hadmits
    rw [after_append, after_cons, after_nil] at hphase
    obtain ⟨w, o, answer, w'⟩ := e
    cases hbefore : clientProtocol.after .waiting calls with
    | waiting =>
      rw [hbefore] at hlast hphase
      cases o with
      | acquireConn => cases hphase
      | _ => exact hlast.elim
    | ended =>
      rw [hbefore] at hlast
      cases o <;> exact hlast.elim
    | serving held =>
      rw [hbefore] at hlast hphase
      cases held with
      | some nonce' =>
        -- The nonce was held before, and the call does not spend it.
        rcases allowed_holding hlast with ⟨uid, rfl⟩ | ⟨o', rfl, hno⟩
        · cases hphase
        · have hnext := next_of_not_isNonce hno (some nonce') answer
          obtain ⟨l₁, v, uid, v', l₂, rfl, hl₂⟩ :=
            ih hcalls (hbefore.trans (hnext.symm.trans hphase))
          refine ⟨l₁, v, uid, v', l₂ ++ [⟨w, .server o', answer, w'⟩], by simp, ?_⟩
          intro e he
          rcases List.mem_append.mp he with he | he
          · exact hl₂ e he
          · rw [List.mem_singleton.mp he]
            exact ⟨o', rfl, hno⟩
      | none =>
        -- The call has issued the nonce.
        cases o with
        | server o =>
          cases o with
          | generate uid =>
            rcases answer with e | nonce'
            · cases hphase
            · cases hphase
              exact ⟨calls, w, uid, w', [], rfl, by simp⟩
          | consume nonce' uid => exact hlast.elim
          | _ => cases hphase
        | _ => cases hphase

/-- A task that holds a nonce and later holds none has spent it. -/
theorem spent_of_phase (hadmits : clientProtocol.Admits (.serving (some nonce)) calls)
    (hphase : ∀ nonce', clientProtocol.after (.serving (some nonce)) calls ≠
      .serving (some nonce')) :
    ∃ l₁ w uid answer w' l₂,
      calls = l₁ ++ ⟨w, .server (.consume nonce uid), answer, w'⟩ :: l₂ := by
  induction calls with
  | nil => exact absurd rfl (hphase nonce)
  | cons e calls ih =>
    obtain ⟨w, o, answer, w'⟩ := e
    obtain ⟨hfirst, hrest⟩ := hadmits
    rcases allowed_holding hfirst with ⟨uid, rfl⟩ | ⟨o', rfl, hno⟩
    · exact ⟨[], w, uid, answer, w', calls, rfl⟩
    · have hnext := next_of_not_isNonce hno (some nonce) answer
      rw [after_cons, show clientProtocol.next _ _ _ = _ from hnext] at hphase
      rw [show clientProtocol.next _ _ _ = _ from hnext] at hrest
      obtain ⟨l₁, v, uid, answer', v', l₂, rfl⟩ := ih hrest hphase
      exact ⟨_ :: l₁, v, uid, answer', v', l₂, rfl⟩

/-- The phase of a task that has just been issued a nonce. -/
theorem after_issue {l : List ClientEvent} {w w' : DaemonWorld} {uid : UInt32}
    (h : clientProtocol.Admits .waiting (l ++ [⟨w, .server (.generate uid), .ok nonce, w'⟩])) :
    clientProtocol.after .waiting (l ++ [⟨w, .server (.generate uid), .ok nonce, w'⟩]) =
      .serving (some nonce) := by
  obtain ⟨-, hissue, -⟩ := admits_append.mp h
  rw [after_append, after_cons, after_nil]
  cases hbefore : clientProtocol.after .waiting l with
  | serving held =>
    rw [hbefore] at hissue
    cases held with
    | none => rfl
    | some _ => exact hissue.elim
  | _ =>
    rw [hbefore] at hissue
    exact hissue.elim

/-- A task that was issued a nonce and later holds none has spent it in between. -/
theorem spent_of_issued {l₁ l₂ : List ClientEvent} {w w' : DaemonWorld} {uid : UInt32}
    (hadmits : clientProtocol.Admits .waiting
      (l₁ ++ ⟨w, .server (.generate uid), .ok nonce, w'⟩ :: l₂))
    (hphase : ∀ nonce', clientProtocol.after .waiting
      (l₁ ++ ⟨w, .server (.generate uid), .ok nonce, w'⟩ :: l₂) ≠ .serving (some nonce')) :
    ∃ m₁ u uid' answer u' m₂,
      l₂ = m₁ ++ ⟨u, .server (.consume nonce uid'), answer, u'⟩ :: m₂ := by
  rw [List.append_cons] at hadmits hphase
  obtain ⟨hissued, hrest⟩ := admits_append.mp hadmits
  rw [after_issue hissued] at hrest
  rw [after_append, after_issue hissued] at hphase
  exact spent_of_phase hrest hphase

/-- A task outside the request path holds no nonce. -/
theorem phase_of_outsideRequest {α : Type} {p : ClientProg α} {phase : ClientPhase}
    (hp : p.Obeys clientProtocol (fun phase _ => phase = .ended) phase) (hout : OutsideRequest p) :
    phase ≠ .serving (some nonce) := by
  rintro rfl
  cases p with
  | pure a => cases hp
  | op o k =>
    obtain ⟨uid, rfl⟩ | ⟨o', rfl, -⟩ := allowed_holding hp.1
    · exact hout
    · exact hout

end Calls

section Runs

variable {crates : Crates} {toml : String → Except String (List RawPolicyRule)}
  {state : ServerState} {ownUid : UInt32} {lines : ℕ → ℕ} {w₀ w : DaemonWorld}
  {procs : ℕ → ClientProg (Except String Unit)}
  {H : List (Entry DaemonWorld ClientOp ClientOp.Ans (Except String Unit))}

/-- **The invariant holds in every run** of the daemon from a start without nonces and with all
permits. -/
theorem nonceInv_of_exec
    (h : Exec (DaemonStep crates) (DaemonEnv toml state.config)
      (fun i => clientTask crates state ownUid (lines i)) w₀ w procs H)
    (hnonces : w₀.server.nonces = .new) (hpermits : w₀.permits = maxConnections) :
    NonceInv w (clientProtocol.phases .waiting H) := by
  refine h.invariant (fun _ => obeys_clientTask) ?_ ?_ ?_
  · refine ⟨by rw [hnonces]; rfl, ?_, ?_, ∅, ?_, ?_⟩
    · rw [hnonces]
      exact NonceStore.countsPending_new
    · intro nonce hn
      rw [hnonces] at hn
      exact absurd hn (AList.notMem_empty nonce)
    · simp
    · simpa using hpermits
  · intro w phases i o answer w' hI hallowed hs
    exact hI.step hallowed hs
  · intro w phases w' hI he
    exact hI.env he

/-- A nonce is gone after the call that spends it. -/
theorem notMem_after_consume
    (h : Exec (DaemonStep crates) (DaemonEnv toml state.config)
      (fun i => clientTask crates state ownUid (lines i)) w₀ w procs H)
    (hnonces : w₀.server.nonces = .new) (hpermits : w₀.permits = maxConnections) {i : ℕ}
    {u u' : DaemonWorld} {nonce : Nonce} {uid : UInt32} {answer : Except NonceError Unit}
    (hmem : .step i ⟨u, .server (.consume nonce uid), answer, u'⟩ ∈ H) :
    nonce ∉ u'.server.nonces.pending := by
  obtain ⟨H₁, H₂, hH⟩ := List.append_of_mem hmem
  obtain ⟨procs₁, hex, server, hs, hu'⟩ := h.at_call hH
  rw [show u' = _ from hu']
  exact notMem_of_consume hs (nonceInv_of_exec hex hnonces hpermits).clean

/-- **No nonce leaks.** In every run of the daemon, with any number of connections, any reloads and
any steps of the background tasks in between:

* every pending nonce was issued in a request that is under way and has not reached the call that
  spends it;
* a task whose request has returned, on any of its paths, has spent the nonce, which the store did
  not hold afterwards; if the store holds the same bytes now, then they were issued again, in a
  request of another task that has yet to spend them;
* at most sixteen nonces are pending;
* no request is refused because of too many nonces, unless the random source gives sixteen pending
  nonces in a row.

**Proof sketch.** The phase of a task is the nonce that it holds. Every pending nonce is held by a
task with a permit, and a task outside a request holds none. -/
theorem no_nonce_leak
    (h : Exec (DaemonStep crates) (DaemonEnv toml state.config)
      (fun i => clientTask crates state ownUid (lines i)) w₀ w procs H)
    (hnonces : w₀.server.nonces = .new) (hpermits : w₀.permits = maxConnections) :
    (∀ nonce ∈ w.server.nonces.pending,
      ∃ i, Outstanding (H.filterMap (Entry.callOf i)) nonce) ∧
    (∀ i, OutsideRequest (procs i) → ∀ l₁ v uid nonce v' l₂,
      H.filterMap (Entry.callOf i) = l₁ ++ ⟨v, .server (.generate uid), .ok nonce, v'⟩ :: l₂ →
      (∃ m₁ u uid' answer u' m₂,
        l₂ = m₁ ++ ⟨u, .server (.consume nonce uid'), answer, u'⟩ :: m₂ ∧
          nonce ∉ u'.server.nonces.pending) ∧
      (nonce ∈ w.server.nonces.pending →
        ∃ j ≠ i, Outstanding (H.filterMap (Entry.callOf j)) nonce)) ∧
    w.server.nonces.pending.entries.length ≤ maxConnections ∧
    ∀ uid draw, (¬ ∀ a < 16, ∃ nonce ∈ w.server.nonces.pending, draw a = some nonce) →
      (w.server.nonces.generate uid draw w.server.instant).1 ≠ .error .tableFull ∧
      (w.server.nonces.generate uid draw w.server.instant).1 ≠ .error .tooManyForUid := by
  have hI := nonceInv_of_exec h hnonces hpermits
  have hobeys := h.obeys (P := clientProtocol) (s := .waiting) fun _ => obeys_clientTask
  refine ⟨?_, ?_, hI.length_pending_le, ?_⟩
  · intro nonce hn
    obtain ⟨i, hi⟩ := hI.held nonce hn
    exact ⟨i, outstanding_of_phase (hobeys i).1 hi⟩
  · intro i hout l₁ v uid nonce v' l₂ hcalls
    obtain ⟨hadmits, hrest⟩ := hobeys i
    have hphase : ∀ nonce', clientProtocol.phases .waiting H i ≠ .serving (some nonce') :=
      fun _ => phase_of_outsideRequest hrest hout
    constructor
    · rw [hcalls] at hadmits
      rw [Protocol.phases, hcalls] at hphase
      obtain ⟨m₁, u, uid', answer, u', m₂, rfl⟩ := spent_of_issued hadmits hphase
      have hmem : .step i ⟨u, .server (.consume nonce uid'), answer, u'⟩ ∈ H := by
        rw [← mem_filterMap_callOf, hcalls]
        simp
      exact ⟨m₁, u, uid', answer, u', m₂, rfl, notMem_after_consume h hnonces hpermits hmem⟩
    · intro hn
      obtain ⟨j, hj⟩ := hI.held nonce hn
      refine ⟨j, ?_, outstanding_of_phase (hobeys j).1 hj⟩
      rintro rfl
      exact hphase nonce hj
  · intro uid draw hdraw
    refine NonceStore.generate_ne_full hI.counts ?_ hdraw
    have hlen := hI.length_pending_le
    have hlt : maxConnections < maxPendingNoncesPerUid := by decide
    omega

end Runs

/-- The nonce of a request that was granted, while the daemon was reloaded, was spent and was gone
then. -/
theorem no_nonce_leak_connection :
    ∃ u uid answer u', ⟨u, .server (.consume Sample.nonce uid), answer, u'⟩ ∈
        Sample.pathCalls ++ Sample.closingCalls ∧ Sample.nonce ∉ u'.server.nonces.pending := by
  obtain ⟨w, procs, h, hprocs⟩ := Sample.exec_connectionHistory
  obtain ⟨-, hspent, -, -⟩ := no_nonce_leak h rfl rfl
  obtain ⟨⟨m₁, u, uid, answer, u', m₂, hm, hgone⟩, -⟩ := hspent 0 (by rw [hprocs]; trivial)
    Sample.openingCalls Sample.reloaded 1000 Sample.nonce
    { Sample.reloaded with server := Sample.issued }
    (Sample.pathCalls.tail ++ Sample.closingCalls)
    (by
      rw [Sample.connectionHistory]
      simp only [List.filterMap_append, filterMap_callOf_map_step]
      rfl)
  refine ⟨u, uid, answer, u', ?_, hgone⟩
  have hmem : ⟨u, .server (.consume Sample.nonce uid), answer, u'⟩ ∈
      Sample.pathCalls.tail ++ Sample.closingCalls := by simp [hm]
  rcases List.mem_append.mp hmem with hmem | hmem
  · exact List.mem_append_left _ (List.mem_of_mem_tail hmem)
  · exact List.mem_append_right _ hmem

end OlaCore
