import OlaCore.Ipc.Audited

set_option relaxedAutoImplicit false
set_option autoImplicit false

/-!
# Nonces are accepted once

Any number of requests run concurrently over one nonce store, with ticks of its background task in
between. The adapters are not trusted: a line that one of them sends may be a result that was
captured from another request.

When the random source does not repeat itself, no nonce is issued twice. A nonce that was accepted
is gone, so it is not accepted again, and a captured result cannot take part in a second grant.

## Main definitions

* `OlaCore.FreshDraws` — the random source never gives the same bytes twice.
* `OlaCore.Received`, `OlaCore.PassesNonceChecks` — what a request has done with a result.

## Main results

* `OlaCore.nonce_single_use` — single use, and no replay.
-/

namespace OlaCore

open Program

/-- What the history of concurrent requests records. -/
abbrev ServerEntry := Entry ServerWorld ServerOp ServerOp.Ans Response

/-- **The random source never gives the same bytes twice**: `draws k a` is what it gives at the
attempt `a` of the call at position `k` of the history. -/
def FreshDraws (H : List ServerEntry) : Prop :=
  ∃ draws : ℕ → ℕ → Option Nonce,
    (∀ (k i : ℕ) w uid answer w', H[k]? = some (.step i ⟨w, .generate uid, answer, w'⟩) →
      w.nonces.generate uid (draws k) w.instant = (answer, w'.nonces)) ∧
    ∀ k a k' a' nonce, draws k a = some nonce → draws k' a' = some nonce → k = k' ∧ a = a'

/-- Request `i` has received the result: the line that its adapter has sent reads as it. -/
def Received (crates : Crates) (H : List ServerEntry) (i : ℕ) (result : VerificationResult) :
    Prop :=
  ∃ w deadline responseLine w',
    .step i ⟨w, .recv deadline, some (.line responseLine), w'⟩ ∈ H ∧
      (crates.serde.fromStr responseLine).bind (VerificationResult.deserialize crates.serde) =
        some result

/-- The result passes the nonce checks of request `i`, which is about the user `uid`: it was
received, it carries the nonce that was issued to the request, and that nonce was accepted. -/
structure PassesNonceChecks (crates : Crates) (H : List ServerEntry) (i : ℕ) (uid : UInt32)
    (result : VerificationResult) : Prop where
  received : Received crates H i result
  issued : ∃ w w', .step i ⟨w, .generate uid, .ok result.nonce, w'⟩ ∈ H
  accepted : ∃ w w', .step i ⟨w, .consume result.nonce uid, .ok (), w'⟩ ∈ H

section Nonces

variable {crates : Crates} {prog procs : ℕ → ServerProg Response} {w₀ w : ServerWorld}
  {H : List ServerEntry} {nonce : Nonce}

/-- No nonce is issued at two positions of the history. -/
def IssuedOnce (H : List ServerEntry) : Prop :=
  ∀ (k k' i i' : ℕ) w v uid uid' nonce w' v',
    H[k]? = some (.step i ⟨w, .generate uid, .ok nonce, w'⟩) →
    H[k']? = some (.step i' ⟨v, .generate uid', .ok nonce, v'⟩) → k = k'

/-- A random source that does not repeat itself gives no nonce twice. -/
theorem FreshDraws.issuedOnce (h : FreshDraws H) : IssuedOnce H := by
  obtain ⟨draws, hdraws, hinj⟩ := h
  have hdrawn : ∀ (k i : ℕ) w uid nonce w',
      H[k]? = some (.step i ⟨w, .generate uid, .ok nonce, w'⟩) → ∃ a, draws k a = some nonce := by
    intro k i w uid nonce w' hk
    have hg := hdraws k i w uid (.ok nonce) w' hk
    obtain ⟨e, heq⟩ | ⟨nonce', -, ⟨a, -, ha⟩, heq⟩ :=
      w.nonces.generate_cases uid (draws k) w.instant
    · cases (Prod.mk.inj (hg.symm.trans heq)).1
    · obtain rfl := Except.ok.inj (Prod.mk.inj (hg.symm.trans heq)).1
      exact ⟨a, ha⟩
  intro k k' i i' w v uid uid' nonce w' v' hk hk'
  obtain ⟨a, ha⟩ := hdrawn k i w uid nonce w' hk
  obtain ⟨a', ha'⟩ := hdrawn k' i' v uid' nonce v' hk'
  exact (hinj k a k' a' nonce ha ha').1

/-- An initial part of such a history. -/
theorem IssuedOnce.of_append {H' : List ServerEntry} (h : IssuedOnce (H ++ H')) : IssuedOnce H := by
  intro k k' i i' w v uid uid' nonce w' v' hk hk'
  have hextend : ∀ {k : ℕ} {x : ServerEntry},
      H[k]? = some x → (H ++ H')[k]? = some x := by
    intro k x hx
    obtain ⟨hlt, -⟩ := List.getElem?_eq_some_iff.mp hx
    rwa [List.getElem?_append_left hlt]
  exact h k k' i i' w v uid uid' nonce w' v' (hextend hk) (hextend hk')

/-- A nonce that is issued last was not issued before. -/
theorem IssuedOnce.notMem {i j : ℕ} {uid uid' : UInt32} {u u' v v' : ServerWorld}
    (h : IssuedOnce (H ++ [.step j ⟨v, .generate uid', .ok nonce, v'⟩])) :
    .step i ⟨u, .generate uid, .ok nonce, u'⟩ ∉ H := by
  intro hmem
  obtain ⟨n, hn⟩ := List.mem_iff_getElem?.mp hmem
  obtain ⟨hlt, -⟩ := List.getElem?_eq_some_iff.mp hn
  rw [← List.getElem?_append_left hlt] at hn
  have heq := h n H.length i j u v uid uid' nonce u' v' hn (by simp)
  omega

/-- **A pending nonce was issued**, for the user it is pending for. -/
theorem issued_of_pending (h : Exec (ServerStep crates) Background prog w₀ w procs H)
    (hw₀ : w₀.nonces = .new) {issuedAt : ℕ} {uid : UInt32}
    (hn : w.nonces.pending.lookup nonce = some (issuedAt, uid)) :
    ∃ i v v', .step i ⟨v, .generate uid, .ok nonce, v'⟩ ∈ H := by
  induction h with
  | start =>
    rw [hw₀] at hn
    cases hn
  | @call w w' procs H i o k answer _ _ hs ih =>
    rcases serverStep_pending hs hn with hn | hlabel
    · obtain ⟨j, v, v', hmem⟩ := ih hn
      exact ⟨j, v, v', List.mem_append_left _ hmem⟩
    · cases hlabel
      exact ⟨i, w, w', by simp⟩
  | ret _ _ _ ih =>
    obtain ⟨j, v, v', hmem⟩ := ih hn
    exact ⟨j, v, v', List.mem_append_left _ hmem⟩
  | environment _ henv ih => exact ih (henv.pending hn)

/-- An accepted nonce was pending, and issued before, for the user that it is accepted for. -/
theorem issued_of_accepted (h : Exec (ServerStep crates) Background prog w₀ w procs H)
    (hw₀ : w₀.nonces = .new) {H₁ H₂ : List ServerEntry} {i : ℕ} {uid : UInt32}
    {v v' : ServerWorld} (hH : H = H₁ ++ .step i ⟨v, .consume nonce uid, .ok (), v'⟩ :: H₂) :
    nonce ∈ v.nonces.pending ∧ ∃ j u u', .step j ⟨u, .generate uid, .ok nonce, u'⟩ ∈ H₁ := by
  obtain ⟨procs₁, hex, hs⟩ := h.at_call hH
  obtain ⟨issuedAt, hl, -, -⟩ := serverStep_consume_ok hs
  exact ⟨NonceStore.mem_pending_iff.mpr ⟨_, hl⟩, issued_of_pending hex hw₀ hl⟩

/-- **An accepted nonce stays gone**: it would have to be issued again.

**Proof sketch.** Induction over the execution. Only a call that issues the nonce can make it
pending again; but the nonce was issued before it was accepted, and no nonce is issued twice. -/
theorem notMem_of_accepted (h : Exec (ServerStep crates) Background prog w₀ w procs H)
    (hw₀ : w₀.nonces = .new) (honce : IssuedOnce H) {i : ℕ} {uid : UInt32} {v v' : ServerWorld}
    (hmem : .step i ⟨v, .consume nonce uid, .ok (), v'⟩ ∈ H) : nonce ∉ w.nonces.pending := by
  induction h with
  | start => cases hmem
  | @call w w' procs H j o k answer hex hj hs ih =>
    intro hn
    obtain ⟨⟨issuedAt, uid'⟩, hl⟩ := NonceStore.mem_pending_iff.mp hn
    rcases List.mem_append.mp hmem with hold | hnew
    · rcases serverStep_pending hs hl with hl' | hlabel
      · exact ih honce.of_append hold (NonceStore.mem_pending_iff.mpr ⟨_, hl'⟩)
      · -- The nonce is issued at the last position, and was issued before.
        obtain ⟨H₁, H₂, rfl⟩ := List.append_of_mem hold
        obtain ⟨-, j', u, u', hissued⟩ := issued_of_accepted hex hw₀ rfl
        cases hlabel
        exact honce.notMem (List.mem_append_left _ hissued)
    · cases List.mem_singleton.mp hnew
      obtain ⟨-, -, -, hgone⟩ := serverStep_consume_ok hs
      rw [hgone] at hl
      cases hl
  | ret _ _ _ ih => exact ih honce.of_append (by simpa using hmem)
  | environment _ henv ih =>
    intro hn
    obtain ⟨p, hl⟩ := NonceStore.mem_pending_iff.mp hn
    exact ih honce hmem (NonceStore.mem_pending_iff.mpr ⟨p, henv.pending hl⟩)

/-- An accepted nonce has not been accepted before. -/
theorem not_lt_of_accepted (h : Exec (ServerStep crates) Background prog w₀ w procs H)
    (hw₀ : w₀.nonces = .new) (honce : IssuedOnce H) {k k' i i' : ℕ} {uid uid' : UInt32}
    {v v' u u' : ServerWorld}
    (hk : H[k]? = some (.step i ⟨v, .consume nonce uid, .ok (), v'⟩))
    (hk' : H[k']? = some (.step i' ⟨u, .consume nonce uid', .ok (), u'⟩)) : ¬ k < k' := by
  intro hlt
  have hH := eq_take_append_cons_drop hk'
  obtain ⟨procs₁, hex, -⟩ := h.at_call hH
  have hprev : .step i ⟨v, .consume nonce uid, .ok (), v'⟩ ∈ H.take k' := by
    rw [List.mem_iff_getElem?]
    exact ⟨k, by rw [List.getElem?_take, if_pos hlt, hk]⟩
  rw [hH] at honce
  exact notMem_of_accepted hex hw₀ honce.of_append hprev (issued_of_accepted h hw₀ hH).1

/-- **A nonce is accepted once.** -/
theorem eq_of_accepted (h : Exec (ServerStep crates) Background prog w₀ w procs H)
    (hw₀ : w₀.nonces = .new) (honce : IssuedOnce H) {k k' i i' : ℕ} {uid uid' : UInt32}
    {v v' u u' : ServerWorld}
    (hk : H[k]? = some (.step i ⟨v, .consume nonce uid, .ok (), v'⟩))
    (hk' : H[k']? = some (.step i' ⟨u, .consume nonce uid', .ok (), u'⟩)) : k = k' := by
  have h₁ := not_lt_of_accepted h hw₀ honce hk hk'
  have h₂ := not_lt_of_accepted h hw₀ honce hk' hk
  omega

/-- **A nonce is accepted for the user that it was issued for**, and issued for no other. -/
theorem uid_of_accepted (h : Exec (ServerStep crates) Background prog w₀ w procs H)
    (hw₀ : w₀.nonces = .new) (honce : IssuedOnce H) {k i : ℕ} {uid : UInt32} {v v' : ServerWorld}
    (hk : H[k]? = some (.step i ⟨v, .consume nonce uid, .ok (), v'⟩)) :
    (∃ j < k, ∃ i' u u', H[j]? = some (.step i' ⟨u, .generate uid, .ok nonce, u'⟩)) ∧
      ∀ i' u uid' u', .step i' ⟨u, .generate uid', .ok nonce, u'⟩ ∈ H → uid' = uid := by
  obtain ⟨-, i', u, u', hissued⟩ := issued_of_accepted h hw₀ (eq_take_append_cons_drop hk)
  obtain ⟨j, hj⟩ := List.mem_iff_getElem?.mp hissued
  rw [List.getElem?_take] at hj
  split at hj
  · next hlt =>
    refine ⟨⟨j, hlt, i', u, u', hj⟩, ?_⟩
    intro i₁ u₁ uid' u₁' hmem
    obtain ⟨j', hj'⟩ := List.mem_iff_getElem?.mp hmem
    obtain rfl := honce j j' i' i₁ u u₁ uid uid' nonce u' u₁' hj hj'
    cases hj.symm.trans hj'
    rfl
  · cases hj

/-- A result passes the nonce checks of one request. -/
theorem eq_of_passesNonceChecks (h : Exec (ServerStep crates) Background prog w₀ w procs H)
    (hw₀ : w₀.nonces = .new) (honce : IssuedOnce H) {i i' : ℕ} {uid uid' : UInt32}
    {result : VerificationResult} (hi : PassesNonceChecks crates H i uid result)
    (hi' : PassesNonceChecks crates H i' uid' result) : i = i' := by
  obtain ⟨v, v', hmem⟩ := hi.accepted
  obtain ⟨u, u', hmem'⟩ := hi'.accepted
  obtain ⟨k, hk⟩ := List.mem_iff_getElem?.mp hmem
  obtain ⟨k', hk'⟩ := List.mem_iff_getElem?.mp hmem'
  obtain rfl := eq_of_accepted h hw₀ honce hk hk'
  exact (Entry.step.inj (Option.some.inj (hk.symm.trans hk'))).1

end Nonces

/-! ## Grants -/

section Grants

variable {crates : Crates} {state : ServerState} {reloadable : ReloadableState}
  {callerUid uid : UInt32} {reqId : Option String} {method : String} {W : Type}
  {step : W → (o : ServerOp) → o.Ans → W → Prop} {tr : List (Event W ServerOp ServerOp.Ans)}
  {response : Response}

/-- **What a grant rests on**: one result, which carries the issued nonce, and that nonce is
accepted. No other line is received. -/
theorem result_of_allow
    (h : Traces step (handleVerifyOnce crates state reloadable callerUid uid reqId method) tr
      response) (hallow : response.decision = some "allow") :
    ∃ result : VerificationResult,
      (∃ w w', ⟨w, .generate uid, .ok result.nonce, w'⟩ ∈ tr) ∧
      (∃ w w', ⟨w, .consume result.nonce uid, .ok (), w'⟩ ∈ tr) ∧
      (∃ w deadline responseLine w', ⟨w, .recv deadline, some (.line responseLine), w'⟩ ∈ tr) ∧
      ∀ w deadline responseLine w', ⟨w, .recv deadline, some (.line responseLine), w'⟩ ∈ tr →
        (crates.serde.fromStr responseLine).bind (VerificationResult.deserialize crates.serde) =
          some result := by
  obtain ⟨trResolve, _, _, resolved, nonce, now, id, sentMs, result, w₁, w₁', _, _, _, _, _, _,
    rfl, hresolve, hdispatch, hcheck⟩ := traces_handleVerifyOnce_allow h hallow
  obtain ⟨_, _, _, _, _, rfl, hverify⟩ := traces_dispatchResolved_ok hdispatch
  obtain ⟨_, _, _, _, _, _, w₂, w₂', responseLine, rfl, hreply⟩ :=
    AdapterClient.traces_verify_ok hverify
  obtain ⟨hread, -, -⟩ := AdapterClient.readReply_eq_ok_iff.mp hreply
  obtain ⟨hnonce, -, -, _, _, w₃, w₃', checkedMs, trPolicy, -, rfl, -, hpolicy⟩ :=
    traces_checkResult_allow hcheck hallow
  obtain ⟨evaluatedMs, loggedMs, hlabels, -, -⟩ := traces_evaluateAndAudit_allow hpolicy hallow
  obtain rfl : result.nonce = nonce := hnonce
  refine ⟨result, ⟨w₁, w₁', by simp⟩, ⟨w₃, w₃', by simp⟩,
    ⟨w₂, now + resolved.timeoutMs.toNat * 10 ^ 6, responseLine, w₂', by simp⟩, ?_⟩
  intro w deadline line w' hmem
  have hreceived : (⟨.recv deadline, some (.line line)⟩ : Sigma ServerOp.Ans) =
      ⟨.recv (now + resolved.timeoutMs.toNat * 10 ^ 6), some (.line responseLine)⟩ := by
    rcases List.mem_append.mp hmem with hmem | hmem
    · have hno := (AdapterRegistry.avoids_resolve (P := fun o => o = .recv deadline) (by simp)
        method).steps hresolve _ hmem
      exact absurd rfl hno
    · have hlabel := List.mem_map_of_mem (f := Event.label) hmem
      simp only [List.map_cons, hlabels, List.cons_append,
        List.nil_append, List.mem_cons, List.not_mem_nil, or_false] at hlabel
      rcases hlabel with h | h | h | h | h | h | h | h | h | h | h | h | h | h | h
      all_goals first | exact h | cases h
  cases hreceived
  exact hread

/-- **A granted request** has received one result, which has passed its nonce checks. -/
theorem passesNonceChecks_of_allow {env : ServerWorld → ServerWorld → Prop}
    {prog procs : ℕ → ServerProg Response} {w₀ w : ServerWorld} {H : List ServerEntry}
    (h : Exec (ServerStep crates) env prog w₀ w procs H) {i : ℕ}
    (hi : prog i = handleVerifyOnce crates state reloadable callerUid uid reqId method)
    (hret : .ret i response ∈ H) (hallow : response.decision = some "allow") :
    ∃ result, PassesNonceChecks crates H i uid result ∧
      ∀ result', Received crates H i result' → result' = result := by
  obtain ⟨H₁, H₂, hH⟩ := List.append_of_mem hret
  obtain ⟨htraces, -, -, hafter⟩ := h.ret_split hH
  rw [hi] at htraces
  obtain ⟨result, ⟨u, u', hissued⟩, ⟨v, v', haccepted⟩, ⟨w, deadline, line, w', hline⟩, honly⟩ :=
    result_of_allow htraces hallow
  have hin : ∀ {e : Event ServerWorld ServerOp ServerOp.Ans},
      e ∈ H₁.filterMap (Entry.callOf i) → .step i e ∈ H := by
    intro e he
    rw [hH]
    exact List.mem_append_left _ (mem_filterMap_callOf.mp he)
  refine ⟨result, ⟨⟨w, deadline, line, w', hin hline, honly w deadline line w' hline⟩,
    ⟨u, u', hin hissued⟩, ⟨v, v', hin haccepted⟩⟩, ?_⟩
  rintro result' ⟨w₁, deadline₁, line₁, w₁', hmem, hread⟩
  -- The request makes no call after its return.
  have hmem₁ : .step i ⟨w₁, .recv deadline₁, some (.line line₁), w₁'⟩ ∈ H₁ := by
    rw [hH, List.mem_append, List.mem_cons] at hmem
    rcases hmem with hmem | hmem | hmem
    · exact hmem
    · cases hmem
    · exact absurd hmem (hafter _)
  have hread₁ := honly w₁ deadline₁ line₁ w₁' (mem_filterMap_callOf.mpr hmem₁)
  exact Option.some.inj (hread.symm.trans hread₁)

end Grants

/-- **Single use, and no replay.** In every execution of any number of concurrent requests, with
ticks of the background task in between, whatever the adapters reply and whether or not signatures
are demanded:

* for each nonce at most one call that spends it succeeds, and that call is about the user for whom
  the nonce was issued;
* a result passes the nonce checks of at most one request;
* a request that is granted has received one result, which has passed its nonce checks, so a
  captured result takes part in at most one grant.

**Proof sketch.** A nonce that is accepted is pending, so it was issued before. Afterwards it is
not pending, and it does not become pending again since no nonce is issued twice. -/
theorem nonce_single_use {crates : Crates} {state : ServerState} {calls : ℕ → VerifyOnceCall}
    {w₀ w : ServerWorld} {procs : ℕ → ServerProg Response} {H : List ServerEntry}
    (h : Exec (ServerStep crates) Background (fun i => (calls i).program crates state) w₀ w procs H)
    (hw₀ : w₀.nonces = .new) (hfresh : FreshDraws H) :
    (∀ (k k' i i' : ℕ) nonce uid uid' v v' u u',
      H[k]? = some (.step i ⟨v, .consume nonce uid, .ok (), v'⟩) →
      H[k']? = some (.step i' ⟨u, .consume nonce uid', .ok (), u'⟩) → k = k') ∧
    (∀ (k i : ℕ) nonce uid v v', H[k]? = some (.step i ⟨v, .consume nonce uid, .ok (), v'⟩) →
      (∃ j < k, ∃ i' u u', H[j]? = some (.step i' ⟨u, .generate uid, .ok nonce, u'⟩)) ∧
      ∀ i' u uid' u', .step i' ⟨u, .generate uid', .ok nonce, u'⟩ ∈ H → uid' = uid) ∧
    (∀ i i' result, PassesNonceChecks crates H i (calls i).uid result →
      PassesNonceChecks crates H i' (calls i').uid result → i = i') ∧
    (∀ i response, .ret i response ∈ H → response.decision = some "allow" →
      ∃ result, PassesNonceChecks crates H i (calls i).uid result ∧
        ∀ result', Received crates H i result' → result' = result) ∧
    ∀ i i' response response' result, .ret i response ∈ H → .ret i' response' ∈ H →
      response.decision = some "allow" → response'.decision = some "allow" →
      Received crates H i result → Received crates H i' result → i = i' := by
  have honce := hfresh.issuedOnce
  have hgrant : ∀ i response, .ret i response ∈ H → response.decision = some "allow" →
      ∃ result, PassesNonceChecks crates H i (calls i).uid result ∧
        ∀ result', Received crates H i result' → result' = result :=
    fun i response => passesNonceChecks_of_allow h rfl
  refine ⟨?_, ?_, ?_, hgrant, ?_⟩
  · intro k k' i i' nonce uid uid' v v' u u' hk hk'
    exact eq_of_accepted h hw₀ honce hk hk'
  · intro k i nonce uid v v' hk
    exact uid_of_accepted h hw₀ honce hk
  · intro i i' result hi hi'
    exact eq_of_passesNonceChecks h hw₀ honce hi hi'
  · intro i i' response response' result hret hret' hallow hallow' hreceived hreceived'
    obtain ⟨r, hpasses, honly⟩ := hgrant i response hret hallow
    obtain ⟨r', hpasses', honly'⟩ := hgrant i' response' hret' hallow'
    obtain rfl := honly result hreceived
    obtain rfl := honly' result hreceived'
    exact eq_of_passesNonceChecks h hw₀ honce hpasses hpasses'

/-! ### A result that is replayed -/

namespace Sample

/-- A request for the method that the adapter offers. -/
def fido2Call : VerifyOnceCall := ⟨reloadable, 1000, 1000, some "req-1", "fido2"⟩

/-- The nonce of a second request. -/
def otherNonce : Nonce := Vector.replicate 32 2

/-- The second request. Its identifier is that of the first one, which core does not rule out. -/
def otherRequest : VerificationRequest := { request with nonce := otherNonce }

/-- The first request was granted, and the nonce of the second one is pending. -/
def reissued : ServerWorld :=
  { logged with nonces := (logged.nonces.generate 1000 (fun _ => some otherNonce) 0).2 }

/-- That nonce is gone again. -/
def respent : ServerWorld :=
  { logged with nonces := (reissued.nonces.consume otherNonce 1000 0).2 }

/-- The entry of the refusal. -/
def replayEntry : AuditEntry :=
  .deny 1000 1000 1000 "fido2" "nonce_mismatch" (some "fido2-adapter") (some "req-1") (some result)

/-- The entry is in the log. -/
def replayLogged : ServerWorld :=
  let (_, fs, logger) :=
    AuditLogger.log .reference respent.audit.fs respent.audit.logger replayEntry .ok
  { respent with audit := ⟨fs, logger⟩ }

/-- The calls of the second request, whose adapter sends the result of the first one. -/
def replayCalls : List (Event ServerWorld ServerOp ServerOp.Ans) :=
  ⟨logged, .generate 1000, .ok otherNonce, reissued⟩ ::
    ⟨reissued, .instantNow, (0 : ℕ), reissued⟩ :: ⟨reissued, .newUuid, request.id, reissued⟩ ::
    ⟨reissued, .nowMs, (1000 : UInt64), reissued⟩ ::
    (dispatchCalls reissued otherRequest ++
      [⟨reissued, .consume otherNonce 1000, .ok (), respent⟩,
        ⟨respent, .nowMs, (1000 : UInt64), respent⟩,
        ⟨respent, .log replayEntry, .ok (), replayLogged⟩])

/-- The second request is refused. -/
theorem traces_replayCalls : Traces (ServerStep .reference) (fido2Call.program .reference state)
    replayCalls (.deny (some "req-1") "nonce mismatch detected") := by
  refine traces_handleVerifyOnce_of_check ⟨fun _ => some otherNonce, _, rfl, rfl⟩ rfl rfl ?_
  rw [checkResult, if_pos (show result.nonce ≠ otherNonce by decide)]
  refine traces_call_bind.mpr ⟨reissued, .ok (), respent, _, rfl, ⟨_, rfl, rfl⟩, ?_⟩
  refine traces_call_bind.mpr ⟨respent, (1000 : UInt64), respent, _, rfl, rfl, ?_⟩
  refine traces_bind.mpr ⟨_, .ok (), [], (List.append_nil _).symm, ?_, traces_pure.mpr ⟨rfl, rfl⟩⟩
  exact traces_call_bind.mpr ⟨respent, .ok (), replayLogged, _, rfl, ⟨.ok, _, _, rfl, rfl⟩,
    traces_pure.mpr ⟨rfl, rfl⟩⟩

/-- Nothing else happens during the second request. -/
theorem linked_replayCalls : Linked logged replayCalls replayLogged := by
  simp [replayCalls, dispatchCalls, Linked]

/-- The history of both requests: the first one is granted, and the second one refused. -/
def replayHistory : List ServerEntry :=
  grantCalls.map (.step 0) ++ [.ret 0 (.allow (some "req-1") "fido2")] ++
    replayCalls.map (.step 1) ++ [.ret 1 (.deny (some "req-1") "nonce mismatch detected")]

/-- Is the entry a call that issues a nonce? -/
def isIssue : ServerEntry → Bool
  | .step _ ⟨_, .generate _, _, _⟩ => true
  | _ => false

/-- The random source is asked twice. -/
theorem isIssue_replayHistory {k : ℕ} {x : ServerEntry} (hk : replayHistory[k]? = some x)
    (hx : isIssue x = true) : k = 0 ∨ k = 16 := by
  have hflags : replayHistory.map isIssue =
      true :: (List.replicate 15 false ++ true :: List.replicate 13 false) := rfl
  have hflag : (replayHistory.map isIssue)[k]? = some true := by
    rw [List.getElem?_map, hk, Option.map_some, hx]
  rw [hflags] at hflag
  obtain ⟨hlt, -⟩ := List.getElem?_eq_some_iff.mp hflag
  have hall : ∀ k < 30, (true :: (List.replicate 15 false ++ true :: List.replicate 13 false))[k]? =
      some true → k = 0 ∨ k = 16 := by decide
  exact hall k (by simpa using hlt) hflag

/-- What the random source gives. -/
def replayDraws : ℕ → ℕ → Option Nonce
  | 0, 0 => some nonce
  | 16, 0 => some otherNonce
  | _, _ => none

/-- It gives two nonces. -/
theorem replayDraws_eq_some {k a : ℕ} {n : Nonce} (h : replayDraws k a = some n) :
    a = 0 ∧ (k = 0 ∧ n = nonce ∨ k = 16 ∧ n = otherNonce) := by
  unfold replayDraws at h
  split at h
  · exact ⟨rfl, .inl ⟨rfl, (Option.some.inj h).symm⟩⟩
  · exact ⟨rfl, .inr ⟨rfl, (Option.some.inj h).symm⟩⟩
  · cases h

/-- The random source has not repeated itself. -/
theorem freshDraws_replayHistory : FreshDraws replayHistory := by
  refine ⟨replayDraws, ?_, ?_⟩
  · intro k i w uid answer w' hk
    obtain rfl | rfl := isIssue_replayHistory hk rfl
    · cases hk
      rfl
    · cases hk
      rfl
  · intro k a k' a' n hn hn'
    have hne : nonce ≠ otherNonce := by decide
    obtain ⟨rfl, ⟨rfl, rfl⟩ | ⟨rfl, rfl⟩⟩ := replayDraws_eq_some hn
    · obtain ⟨rfl, ⟨rfl, -⟩ | ⟨-, heq⟩⟩ := replayDraws_eq_some hn'
      · exact ⟨rfl, rfl⟩
      · exact absurd heq hne
    · obtain ⟨rfl, ⟨-, heq⟩ | ⟨rfl, -⟩⟩ := replayDraws_eq_some hn'
      · exact absurd heq.symm hne
      · exact ⟨rfl, rfl⟩

/-- The history is that of an execution. -/
theorem exec_replayHistory : ∃ procs, Exec (ServerStep .reference) Background
    (fun _ => fido2Call.program .reference state) idle replayLogged procs replayHistory := by
  have hstart : Exec (ServerStep .reference) Background
      (fun _ => fido2Call.program .reference state) idle idle _ [] := .start
  have hgranted := (hstart.append_steps (i := 0) traces_grantCalls rfl linked_grantCalls).ret
    (i := 0) (Function.update_self ..) (by simp)
  have hrefused := hgranted.append_steps (i := 1) traces_replayCalls
    (Function.update_of_ne Nat.one_ne_zero _ _) linked_replayCalls
  exact ⟨_, hrefused.ret (i := 1) (Function.update_self ..) (by simp [grantCalls])⟩

/-- Both requests have received the result. -/
theorem received_replayHistory {i : ℕ} {w : ServerWorld}
    (hmem : .step i ⟨w, .recv 5000000000, some (.line line), w⟩ ∈ replayHistory) :
    Received .reference replayHistory i result :=
  ⟨w, _, line, w, hmem, (AdapterClient.readReply_eq_ok_iff.mp
    (readReply_line (rfl : result.id = request.id))).1⟩

end Sample

/-- A second request is handed the result of the first one, which was granted. Both have received
it, and it passes the nonce checks of the first one only. -/
theorem nonce_single_use_replayed :
    ∃ procs, Exec (ServerStep .reference) Background
        (fun _ => Sample.fido2Call.program .reference Sample.state) Sample.idle Sample.replayLogged
        procs Sample.replayHistory ∧
      Received .reference Sample.replayHistory 0 Sample.result ∧
      Received .reference Sample.replayHistory 1 Sample.result ∧
      PassesNonceChecks .reference Sample.replayHistory 0 1000 Sample.result ∧
      ¬ PassesNonceChecks .reference Sample.replayHistory 1 1000 Sample.result := by
  obtain ⟨procs, h⟩ := Sample.exec_replayHistory
  have hfirst : Received .reference Sample.replayHistory 0 Sample.result :=
    Sample.received_replayHistory (w := Sample.issued)
      (by simp [Sample.replayHistory, Sample.grantCalls, Sample.grantCallsOf, Sample.dispatchCalls])
  have hsecond : Received .reference Sample.replayHistory 1 Sample.result :=
    Sample.received_replayHistory (w := Sample.reissued)
      (by simp [Sample.replayHistory, Sample.replayCalls, Sample.dispatchCalls])
  obtain ⟨-, -, hone, hgrant, -⟩ := nonce_single_use h rfl Sample.freshDraws_replayHistory
  obtain ⟨result, hpasses, honly⟩ := hgrant 0 (.allow (some "req-1") "fido2")
    (by simp [Sample.replayHistory]) rfl
  obtain rfl := honly _ hfirst
  exact ⟨procs, h, hfirst, hsecond, hpasses,
    fun hreplayed => absurd (hone 0 1 _ hpasses hreplayed) (by decide)⟩

end OlaCore
