import OlaCore.Ipc.NonceLeak
import OlaCore.Ipc.SingleUse
import OlaCore.Security.NonceRuns

set_option relaxedAutoImplicit false
set_option autoImplicit false

/-!
# Answers in time

A request gives its adapter a deadline on the wall clock, and its nonce expires on the monotonic
clock. Here the two clocks advance together, and the world of the requests remembers the ticks of
the nonce store. An answer that is in time finds its nonce accepted, unless the nonce has become
too old in the meantime.

## Main definitions

* `OlaCore.ClockedStep` — the operations, with a wall clock that follows the monotonic one.
* `OlaCore.TickedBackground` — the background steps, with the instants that ticks have read.
* `OlaCore.InTimeRun`, `OlaCore.InTimeRun.Describes` — a request up to the check of its deadline.

## Main results

* `OlaCore.pending_iff_of_issued` — when an issued nonce is still pending.
* `OlaCore.in_time_accepted_iff` — when an answer in time is accepted.
* `OlaCore.in_time_answer_expired` — an answer in time whose nonce has expired.
-/

namespace OlaCore

open Program

/-! ## Clocks and ticks -/

/-- The operations, with a wall clock in milliseconds that is `offset` nanoseconds ahead of the
monotonic clock. -/
def ClockedStep (crates : Crates) (offset : ℕ) (w : ServerWorld) (o : ServerOp) (answer : o.Ans)
    (w' : ServerWorld) : Prop :=
  ServerStep crates w o answer w' ∧
    ∀ ms, (⟨o, answer⟩ : Sigma ServerOp.Ans) = ⟨.nowMs, ms⟩ →
      ms = UInt64.ofNat ((w.instant + offset) / 10 ^ 6)

/-- A step of the background tasks, labelled with the instant that a tick of the nonce store has
read, if it is one. -/
inductive TickedBackground : ServerWorld → Option ℕ → ServerWorld → Prop
  | cleanup (w : ServerWorld) {now : ℕ} : now ≤ w.instant →
      TickedBackground w (some now) { w with nonces := w.nonces.cleanup now }
  | other {w w' : ServerWorld} : Background w w' → w'.nonces = w.nonces →
      TickedBackground w none w'

/-- The shared state, with the ticks so far. -/
abbrev TickedWorld := ServerWorld × List (Option ℕ)

/-- What the history of requests records. -/
abbrev TickedEntry := Entry TickedWorld ServerOp ServerOp.Ans Response

/-- Time does not go back. -/
theorem TickedBackground.instant_le {w w' : ServerWorld} {label : Option ℕ}
    (h : TickedBackground w label w') : w.instant ≤ w'.instant := by
  cases h with
  | cleanup _ => exact le_rfl
  | other hbackground _ =>
    cases hbackground with
    | elapse hle => exact hle
    | _ => exact le_rfl

section Runs

variable {crates : Crates} {offset : ℕ} {prog procs : ℕ → ServerProg Response} {w₀ : ServerWorld}
  {w : TickedWorld} {H : List TickedEntry}

/-- A tick has read an instant that is not later than now. -/
theorem tick_le_of_exec
    (h : Exec (recordStep (ClockedStep crates offset)) (recordEnv TickedBackground) prog (w₀, []) w
      procs H) {now : ℕ} (hnow : some now ∈ w.2) : now ≤ w.1.instant := by
  have hinv : ∀ now, some now ∈ w.2 → now ≤ w.1.instant := by
    refine h.world_invariant (I := fun w => ∀ now, some now ∈ w.2 → now ≤ w.1.instant)
      (fun _ hmem => by cases hmem) ?_ ?_
    · rintro ⟨w, labels⟩ o answer ⟨w', labels'⟩ hle ⟨⟨hs, -⟩, rfl⟩ now hmem
      rw [(serverStep_frame hs).1]
      exact hle now hmem
    · rintro ⟨w, labels⟩ ⟨w', labels'⟩ hle ⟨label, hlabel, rfl⟩ now hmem
      rcases List.mem_append.mp hmem with hmem | hmem
      · exact (hle now hmem).trans hlabel.instant_le
      · obtain rfl := List.mem_singleton.mp hmem
        cases hlabel with
        | cleanup hnow => exact hnow
  exact hinv now hnow

/-- A store that issues a nonce is not poisoned. -/
theorem NonceStore.poisoned_of_generate {s s' : NonceStore} {uid : UInt32} {nonce : Nonce}
    {draw : ℕ → Option Nonce} {now : ℕ} (h : s.generate uid draw now = (.ok nonce, s')) :
    s.poisoned = false := by
  by_contra hp
  rw [Bool.not_eq_false] at hp
  simp [NonceStore.generate, hp] at h

/-- Spending another nonce does not matter. -/
theorem NonceStore.lookup_consume_of_ne {s : NonceStore} {nonce nonce' : Nonce} {uid : UInt32}
    {now : ℕ} (hne : nonce' ≠ nonce) :
    (s.consume nonce uid now).2.pending.lookup nonce' = s.pending.lookup nonce' := by
  obtain ⟨heq, -⟩ | ⟨_, _, -, heq⟩ := s.consume_cases nonce uid now <;> rw [heq]
  exact AList.lookup_erase_ne hne

/-- **When an issued nonce is still pending.** As long as nobody has tried to spend it, and if no
nonce is issued twice: until a tick reads the clock thirty seconds after the nonce was issued, or
later.

**Proof sketch.** Induction over the execution. Only the call that issued the nonce can have made it
pending, and besides the calls that spend it only a tick removes it. -/
theorem pending_iff_of_issued
    (h : Exec (recordStep (ClockedStep crates offset)) (recordEnv TickedBackground) prog (w₀, []) w
      procs H)
    (honce : IssuedOnce (H.map Entry.forget)) {i : ℕ} {issued issued' : TickedWorld} {uid : UInt32}
    {nonce : Nonce} (hissued : .step i ⟨issued, .generate uid, .ok nonce, issued'⟩ ∈ H)
    (hunspent : ∀ j u uid' answer u', .step j ⟨u, .consume nonce uid', answer, u'⟩ ∉ H) :
    w.1.nonces.poisoned = false ∧ ∀ issuedAt owner,
      w.1.nonces.pending.lookup nonce = some (issuedAt, owner) ↔
        (issuedAt = issued.1.instant ∧ owner = uid) ∧
          ∀ now, some now ∈ w.2 → now - issuedAt < nonceTtl := by
  induction h with
  | start => cases hissued
  | @call w w' procs H j o k answer hex _ hs ih =>
    obtain ⟨w, labels⟩ := w
    obtain ⟨w', labels'⟩ := w'
    obtain ⟨⟨hserver, -⟩, hlabels⟩ := hs
    obtain rfl : labels' = labels := hlabels
    dsimp only at hserver ⊢
    rw [List.map_append] at honce
    rcases List.mem_append.mp hissued with hold | hnew
    · obtain ⟨hpoisoned, hpending⟩ := ih honce.of_append hold
        fun j u uid' answer u' hmem => hunspent j u uid' answer u' (List.mem_append_left _ hmem)
      obtain ⟨heq, -⟩ | ⟨uid', nonce', hlabel, -, heq⟩ | ⟨nonce', uid', rfl, heq⟩ :=
        serverStep_nonces hserver
      · rw [heq]
        exact ⟨hpoisoned, hpending⟩
      · -- Another nonce is issued, because no nonce is issued twice.
        have hne : nonce ≠ nonce' := by
          rintro rfl
          cases hlabel
          exact honce.notMem (List.mem_map.mpr ⟨_, hold, rfl⟩)
        rw [heq, NonceStore.lookup_add_of_ne hne]
        exact ⟨hpoisoned, hpending⟩
      · -- Another nonce is spent.
        have hne : nonce ≠ nonce' := by
          rintro rfl
          exact hunspent j _ uid' answer _ (List.mem_append_right _ (List.mem_singleton_self _))
        rw [heq, NonceStore.lookup_consume_of_ne hne, NonceStore.poisoned_consume]
        exact ⟨hpoisoned, hpending⟩
    · -- The nonce is issued by this call, and all ticks so far were before it.
      cases List.mem_singleton.mp hnew
      obtain ⟨draw, nonces, hg, rfl⟩ := hserver
      have hpoisoned := NonceStore.poisoned_of_generate hg
      obtain ⟨e, heq⟩ | ⟨nonce', -, -, heq⟩ := w.nonces.generate_cases uid draw w.instant
      · cases (Prod.mk.inj (hg.symm.trans heq)).1
      obtain ⟨hnonce, rfl⟩ := Prod.mk.inj (hg.symm.trans heq)
      obtain rfl := Except.ok.inj hnonce
      refine ⟨hpoisoned, fun issuedAt owner => ?_⟩
      have hticks : ∀ now, some now ∈ labels' → now - w.instant < nonceTtl := by
        intro now hnow
        have hle : now ≤ w.instant := tick_le_of_exec hex hnow
        have hpos : 0 < nonceTtl := by decide
        omega
      simp only [NonceStore.add, AList.lookup_insert, Option.some.injEq, Prod.mk.injEq]
      constructor
      · rintro ⟨rfl, rfl⟩
        exact ⟨⟨rfl, rfl⟩, hticks⟩
      · rintro ⟨⟨rfl, rfl⟩, -⟩
        exact ⟨rfl, rfl⟩
  | ret _ _ _ ih =>
    rw [List.map_append] at honce
    refine ih honce.of_append ?_ fun j u uid' answer u' hmem =>
      hunspent j u uid' answer u' (List.mem_append_left _ hmem)
    simpa using hissued
  | @environment w w' procs H _ he ih =>
    obtain ⟨w, labels⟩ := w
    obtain ⟨w', labels'⟩ := w'
    obtain ⟨label, hlabel, rfl⟩ := he
    obtain ⟨hpoisoned, hpending⟩ := ih honce hissued hunspent
    dsimp only at hlabel hpoisoned hpending ⊢
    cases hlabel with
    | other _ heq =>
      rw [heq]
      refine ⟨hpoisoned, fun issuedAt owner => (hpending issuedAt owner).trans ?_⟩
      simp
    | @cleanup now _ =>
      refine ⟨NonceStore.poisoned_cleanup.trans hpoisoned, fun issuedAt owner => ?_⟩
      rw [NonceStore.lookup_cleanup hpoisoned, hpending]
      simp only [List.mem_append, List.mem_singleton, Option.some.injEq]
      constructor
      · rintro ⟨⟨hsame, hticks⟩, hyoung⟩
        refine ⟨hsame, ?_⟩
        rintro now' (hmem | rfl)
        · exact hticks now' hmem
        · exact hyoung
      · rintro ⟨hsame, hticks⟩
        exact ⟨⟨hsame, fun now' hmem => hticks now' (.inl hmem)⟩, hticks now (.inr rfl)⟩

end Runs

/-! ## Requests with an answer in time -/

/-- A request up to the check of its deadline: what was resolved, issued, read from the clocks and
received, and the worlds in which the nonce was issued, the deadline was computed and the deadline
was checked. -/
structure InTimeRun (W : Type) where
  resolved : ResolvedAdapter
  nonce : Nonce
  now : ℕ
  id : Uuid
  sentMs : UInt64
  result : VerificationResult
  checkedMs : UInt64
  issued : W
  sent : W
  checked : W

section Requests

variable {W : Type} {step : W → (o : ServerOp) → o.Ans → W → Prop} {crates : Crates}
  {state : ServerState} {request : VerifyOnceCall} {run : InTimeRun W}
  {l l₂ : List (Event W ServerOp ServerOp.Ans)} {e : Event W ServerOp ServerOp.Ans}
  {q : ServerProg Response}

/-- What the adapter is sent. -/
def InTimeRun.sentRequest (run : InTimeRun W) (uid : UInt32) : VerificationRequest :=
  ⟨protocolVersion, run.id, uid, run.nonce, saturatingAdd run.sentMs run.resolved.timeoutMs⟩

/-- The request has made the calls `l`: the dispatch has returned a result with the right nonce, and
the last call was the check of the deadline, which has not passed. -/
structure InTimeRun.Describes (step : W → (o : ServerOp) → o.Ans → W → Prop) (crates : Crates)
    (state : ServerState) (request : VerifyOnceCall) (run : InTimeRun W)
    (l : List (Event W ServerOp ServerOp.Ans)) : Prop where
  calls_eq : ∃ resolving issued' u u' v v' sent' dispatching checked',
    l = resolving ++ ⟨run.issued, .generate request.uid, .ok run.nonce, issued'⟩ ::
        ⟨u, .instantNow, run.now, u'⟩ :: ⟨v, .newUuid, run.id, v'⟩ ::
        ⟨run.sent, .nowMs, run.sentMs, sent'⟩ ::
        (dispatching ++ [⟨run.checked, .nowMs, run.checkedMs, checked'⟩]) ∧
      Traces step (state.adapterRegistry.resolve ServerProg.adapterDown request.method) resolving
        (.ok run.resolved) ∧
      Traces step (dispatchResolved crates.serde run.resolved (run.sentRequest request.uid)
        (run.now + run.resolved.timeoutMs.toNat * 10 ^ 6)) dispatching (.ok run.result)
  nonce_eq : run.result.nonce = run.nonce
  inTime : run.checkedMs ≤ (run.sentRequest request.uid).deadlineMs

/-- The next call spends the nonce. -/
theorem InTimeRun.Describes.next (h : run.Describes step crates state request l)
    (hsteps : Steps step (request.program crates state) (l ++ e :: l₂) q) :
    e.op = .consume run.nonce request.uid := by
  obtain ⟨resolving, issued', u, u', v, v', sent', dispatching, checked', rfl, hresolve,
    hdispatch⟩ := h.calls_eq
  simp only [List.append_assoc, List.cons_append, List.nil_append] at hsteps
  have h₁ := (steps_bind_iff hresolve).mp hsteps
  cases h₁ with
  | head _ h₂ =>
  cases h₂ with
  | head _ h₃ =>
  cases h₃ with
  | head _ h₄ =>
  cases h₄ with
  | head _ h₅ =>
  have h₆ := (steps_bind_iff hdispatch).mp h₅
  dsimp only [checkResult] at h₆
  rw [if_neg (by simpa [InTimeRun.sentRequest] using h.nonce_eq)] at h₆
  cases h₆ with
  | head _ h₇ =>
  have hinTime : ¬ saturatingAdd run.sentMs run.resolved.timeoutMs < run.checkedMs :=
    UInt64.not_lt.mpr h.inTime
  dsimp only [Prog.bind] at h₇
  rw [if_neg hinTime] at h₇
  cases h₇ with
  | head _ _ => rfl

/-- A nonce that a request holds was issued to it. -/
theorem issued_of_after {held : Option Nonce} {nonce : Nonce}
    (h : nonceProtocol.after held l = some nonce) :
    held = some nonce ∨ ∃ v uid v', ⟨v, .generate uid, .ok nonce, v'⟩ ∈ l := by
  induction l generalizing held with
  | nil => exact .inl h
  | cons e l ih =>
    rw [after_cons] at h
    rcases ih h with hnext | ⟨v, uid, v', hmem⟩
    swap
    · exact .inr ⟨v, uid, v', List.mem_cons_of_mem _ hmem⟩
    obtain ⟨v, o, answer, v'⟩ := e
    by_cases ho : o.isNonce
    swap
    · rw [(nonceProtocol_of_not_isNonce ho held).2] at hnext
      exact .inl hnext
    cases o with
    | generate uid =>
      rcases held with _ | nonce'
      · rcases answer with _ | nonce'
        · cases hnext
        · obtain rfl := Option.some.inj hnext
          exact .inr ⟨v, uid, v', List.mem_cons_self⟩
      · exact .inl hnext
    | consume nonce' uid =>
      rcases held with _ | nonce'
      · exact .inl hnext
      · cases hnext
    | _ => cases ho

/-- **A request spends only a nonce that was issued to it.** -/
theorem issued_of_consume {nonce : Nonce} {uid : UInt32} {u u' : W}
    {answer : (ServerOp.consume nonce uid).Ans}
    (hsteps : Steps step (request.program crates state)
      (l ++ ⟨u, .consume nonce uid, answer, u'⟩ :: l₂) q) :
    ∃ v uid' v', ⟨v, .generate uid', .ok nonce, v'⟩ ∈ l := by
  obtain ⟨hadmits, -⟩ := obeys_handleVerifyOnce.steps hsteps
  have hallowed := (admits_append.mp hadmits).2.1
  cases hheld : nonceProtocol.after none l with
  | none =>
    rw [hheld] at hallowed
    exact hallowed.elim
  | some nonce' =>
    rw [hheld] at hallowed
    obtain rfl : nonce = nonce' := hallowed
    exact (issued_of_after hheld).resolve_left (by simp)

/-- Before the deadline is checked, the request has not spent a nonce. -/
theorem InTimeRun.Describes.not_consume (h : run.Describes step crates state request l)
    {nonce : Nonce} {uid : UInt32} {u u' : W} {answer : (ServerOp.consume nonce uid).Ans} :
    ⟨u, .consume nonce uid, answer, u'⟩ ∉ l := by
  obtain ⟨resolving, issued', v, v', x, x', sent', dispatching, checked', rfl, hresolve,
    hdispatch⟩ := h.calls_eq
  have hno₁ := (AdapterRegistry.avoids_resolve (P := fun o => o.isNonce)
    (fun _ => Bool.false_ne_true) _).steps hresolve
  have hno₂ := (avoids_dispatchResolved (P := fun o => o.isNonce) (by simp [ServerOp.isNonce])
    (by simp [ServerOp.isNonce]) (by simp [ServerOp.isNonce]) (by simp [ServerOp.isNonce])
    (by simp [ServerOp.isNonce]) (by simp [ServerOp.isNonce])).steps hdispatch
  intro hmem
  rcases List.mem_append.mp hmem with hmem | hmem
  · exact hno₁ _ hmem rfl
  replace hmem := (List.mem_cons.mp hmem).resolve_left (by rintro ⟨⟩)
  replace hmem := (List.mem_cons.mp hmem).resolve_left (by rintro ⟨⟩)
  replace hmem := (List.mem_cons.mp hmem).resolve_left (by rintro ⟨⟩)
  replace hmem := (List.mem_cons.mp hmem).resolve_left (by rintro ⟨⟩)
  rcases List.mem_append.mp hmem with hmem | hmem
  · exact hno₂ _ hmem rfl
  · cases List.mem_singleton.mp hmem

end Requests

/-! ## Accepted or too old -/

section Accepted

variable {crates : Crates} {offset : ℕ} {state : ServerState} {calls : ℕ → VerifyOnceCall}
  {procs : ℕ → ServerProg Response} {w₀ : ServerWorld} {w : TickedWorld} {H : List TickedEntry}
  {i : ℕ} {run : InTimeRun TickedWorld} {l l₂ : List (Event TickedWorld ServerOp ServerOp.Ans)}

/-- A nonce is issued to one request. -/
theorem task_eq_of_issuedOnce (honce : IssuedOnce (H.map Entry.forget)) {j : ℕ} {nonce : Nonce}
    {uid uid' : UInt32} {u u' v v' : TickedWorld}
    (hi : .step i ⟨u, .generate uid, .ok nonce, u'⟩ ∈ H)
    (hj : .step j ⟨v, .generate uid', .ok nonce, v'⟩ ∈ H) : i = j := by
  obtain ⟨k, hk⟩ := List.mem_iff_getElem?.mp hi
  obtain ⟨k', hk'⟩ := List.mem_iff_getElem?.mp hj
  have hforget : ∀ {k : ℕ} {x : TickedEntry}, H[k]? = some x →
      (H.map Entry.forget)[k]? = some x.forget := by
    intro k x hx
    rw [List.getElem?_map, hx]
    rfl
  obtain rfl := honce k k' i j _ _ uid uid' nonce _ _ (hforget hk) (hforget hk')
  exact (Entry.step.inj (Option.some.inj (hk.symm.trans hk'))).1

/-- The nonce of a request was not spent before its deadline is checked. -/
theorem unspent_of_describes
    (h : Exec (recordStep (ClockedStep crates offset)) (recordEnv TickedBackground)
      (fun i => (calls i).program crates state) (w₀, []) w procs H)
    (honce : IssuedOnce (H.map Entry.forget)) (hcalls : H.filterMap (Entry.callOf i) = l)
    (hrun : run.Describes (recordStep (ClockedStep crates offset)) crates state (calls i) l)
    {issued' : TickedWorld}
    (hissued : .step i ⟨run.issued, .generate (calls i).uid, .ok run.nonce, issued'⟩ ∈ H) :
    ∀ j u uid answer u', .step j ⟨u, .consume run.nonce uid, answer, u'⟩ ∉ H := by
  intro j u uid answer u' hspent
  obtain ⟨l₁, l₂, hsplit⟩ := List.append_of_mem (mem_filterMap_callOf.mpr hspent)
  have hsteps := h.project j
  rw [hsplit] at hsteps
  obtain ⟨v, uid', v', hmem⟩ := issued_of_consume hsteps
  have hown : .step j ⟨v, .generate uid', .ok run.nonce, v'⟩ ∈ H :=
    mem_filterMap_callOf.mp (by rw [hsplit]; exact List.mem_append_left _ hmem)
  obtain rfl := task_eq_of_issuedOnce honce hissued hown
  rw [← mem_filterMap_callOf, hcalls] at hspent
  exact hrun.not_consume hspent

/-- The sum that saturates is not larger. -/
theorem toNat_saturatingAdd_le (a b : UInt64) :
    (saturatingAdd a b).toNat ≤ a.toNat + b.toNat := by
  unfold saturatingAdd
  split
  · rw [UInt64.toNat_add]
    exact Nat.mod_le _ _
  · next hlarge =>
    have hmax : (0xffffffffffffffff : UInt64).toNat = 2 ^ 64 - 1 := rfl
    omega

/-- **When an answer in time is accepted.** In every run of requests with ticks of the nonce store
in between, with a wall clock that follows the monotonic one and if no nonce is issued twice: let
the adapter have answered with the right nonce, and let the deadline not have passed. The next call
of the request spends the nonce. If no time passes before it:

* it is accepted exactly when the nonce was issued at most thirty seconds before and no tick has
  read the clock thirty seconds after that or later;
* so it is accepted if the time between the issue of the nonce and the computation of the deadline,
  and the timeout, and one more millisecond fit in thirty seconds.

**Proof sketch.** Nobody else spends the nonce, because every request spends only a nonce that was
issued to it. So the nonce is pending until a tick finds it too old. -/
theorem in_time_accepted_iff
    (h : Exec (recordStep (ClockedStep crates offset)) (recordEnv TickedBackground)
      (fun i => (calls i).program crates state) (w₀, []) w procs H)
    (honce : IssuedOnce (H.map Entry.forget)) {e : Event TickedWorld ServerOp ServerOp.Ans}
    (hcalls : H.filterMap (Entry.callOf i) = l ++ e :: l₂)
    (hrun : run.Describes (recordStep (ClockedStep crates offset)) crates state (calls i) l)
    (hsame : e.before.1.instant = run.checked.1.instant) :
    e.op = .consume run.nonce (calls i).uid ∧
    (e.label = ⟨.consume run.nonce (calls i).uid, .ok ()⟩ ↔
      run.checked.1.instant - run.issued.1.instant ≤ nonceTtl ∧
        ∀ now, some now ∈ e.before.2 → now - run.issued.1.instant < nonceTtl) ∧
    (run.sent.1.instant + (run.resolved.timeoutMs.toNat + 1) * 10 ^ 6 ≤
        run.issued.1.instant + nonceTtl →
      (run.checked.1.instant + offset) / 10 ^ 6 < 2 ^ 64 →
      e.label = ⟨.consume run.nonce (calls i).uid, .ok ()⟩) := by
  obtain ⟨H₁, H₂, rfl, hbefore⟩ := exists_split_of_filterMap_callOf hcalls
  obtain ⟨procs₁, hexec, hstep⟩ := h.at_call rfl
  have hsteps := h.project i
  rw [hcalls] at hsteps
  have hop := hrun.next hsteps
  rw [List.map_append] at honce
  have honce₁ := honce.of_append
  obtain ⟨resolving, issued', _, _, _, _, sent', dispatching, checked', hl, -, -⟩ := hrun.calls_eq
  have hmem : ∀ x ∈ l, .step i x ∈ H₁ := by
    intro x hx
    rw [← mem_filterMap_callOf, hbefore]
    exact hx
  have hissued := hmem ⟨run.issued, .generate (calls i).uid, .ok run.nonce, issued'⟩
    (by rw [hl]; simp)
  obtain ⟨hpoisoned, hpending⟩ := pending_iff_of_issued hexec honce₁ hissued
    (unspent_of_describes hexec honce₁ hbefore hrun hissued)
  obtain ⟨⟨v, labels⟩, o, answer, ⟨v', labels'⟩⟩ := e
  dsimp only at hop hsame hstep hpoisoned hpending hexec ⊢
  subst hop
  obtain ⟨⟨⟨nonces, hconsume, -⟩, -⟩, -⟩ := hstep
  -- What the store answers, in terms of the clock and the ticks.
  have haccepted : (⟨.consume run.nonce (calls i).uid, answer⟩ : Sigma ServerOp.Ans) =
      ⟨.consume run.nonce (calls i).uid, .ok ()⟩ ↔
        run.checked.1.instant - run.issued.1.instant ≤ nonceTtl ∧
          ∀ now, some now ∈ labels → now - run.issued.1.instant < nonceTtl := by
    have hanswer : answer = (v.nonces.consume run.nonce (calls i).uid v.instant).1 := by
      rw [hconsume]
    have hok : answer = .ok () ↔ ∃ issuedAt,
        v.nonces.pending.lookup run.nonce = some (issuedAt, (calls i).uid) ∧
          run.checked.1.instant - issuedAt ≤ nonceTtl := by
      rw [hanswer]
      refine NonceStore.consume_eq_ok_iff.trans ?_
      rw [and_iff_right hpoisoned, hsame]
    refine Iff.trans ⟨fun heq => eq_of_heq (Sigma.mk.inj heq).2, fun heq => by rw [heq]⟩
      (hok.trans ?_)
    constructor
    · rintro ⟨issuedAt, hlookup, hage⟩
      obtain ⟨⟨rfl, -⟩, hticks⟩ := (hpending issuedAt _).mp hlookup
      exact ⟨hage, hticks⟩
    · rintro ⟨hage, hticks⟩
      exact ⟨_, (hpending _ _).mpr ⟨⟨rfl, rfl⟩, hticks⟩, hage⟩
  refine ⟨rfl, haccepted, fun hfits hclock => haccepted.mpr ?_⟩
  -- The deadline bounds the age of the nonce.
  have hms : ∀ (x x' : TickedWorld) (ms : UInt64), ⟨x, .nowMs, ms, x'⟩ ∈ l →
      ms = UInt64.ofNat ((x.1.instant + offset) / 10 ^ 6) := by
    intro x x' ms hx
    obtain ⟨K₁, K₂, hK⟩ := List.append_of_mem (hmem _ hx)
    obtain ⟨_, -, ⟨-, hwall⟩, -⟩ := hexec.at_call hK
    exact hwall ms rfl
  have hsent := hms run.sent sent' run.sentMs (by rw [hl]; simp)
  have hchecked := hms run.checked checked' run.checkedMs (by rw [hl]; simp)
  have hsentLe : run.sentMs.toNat ≤ (run.sent.1.instant + offset) / 10 ^ 6 := by
    rw [hsent, UInt64.toNat_ofNat']
    exact Nat.mod_le _ _
  have hcheckedEq : run.checkedMs.toNat = (run.checked.1.instant + offset) / 10 ^ 6 := by
    rw [hchecked, UInt64.toNat_ofNat']
    exact Nat.mod_eq_of_lt hclock
  have hdeadline := UInt64.le_iff_toNat_le.mp hrun.inTime
  have hsum := toNat_saturatingAdd_le run.sentMs run.resolved.timeoutMs
  dsimp only [InTimeRun.sentRequest] at hdeadline
  have hyoung : run.checked.1.instant < run.issued.1.instant + nonceTtl := by omega
  refine ⟨by omega, fun now hnow => ?_⟩
  have hle := tick_le_of_exec hexec hnow
  have hpos : 0 < nonceTtl := by decide
  dsimp only at hle
  omega

end Accepted

/-! ### A slow answer -/

namespace Sample

/-- An adapter with the longest timeout. -/
def slowConfig : AdapterConfig := ⟨"fido2-adapter", "/run/ola/fido2.sock", 990, ["fido2"], 30000⟩

/-- What the method `fido2` resolves to. -/
def slowResolved : ResolvedAdapter := ⟨"fido2-adapter", "fido2", 30000, slowConfig.client⟩

/-- The daemon with that adapter. -/
def slowState : ServerState :=
  { state with adapterRegistry := ⟨AList.singleton "fido2" slowConfig.client, ["fido2-adapter"]⟩ }

/-- What the adapter is sent, one millisecond after the nonce was issued. -/
def slowRequest : VerificationRequest := ⟨1, request.id, 1000, nonce, 30001⟩

/-- The world when the adapter is asked. -/
def slowSent : TickedWorld := ({ issued with instant := 10 ^ 6 }, [none])

/-- The world when the adapter answers, at the instant `t`. -/
def slowAnswered (t : ℕ) : TickedWorld := ({ issued with instant := t }, [none, none])

/-- The nonce is issued. -/
def issueCalls : List (Event TickedWorld ServerOp ServerOp.Ans) :=
  [⟨(idle, []), .generate 1000, .ok nonce, (issued, [])⟩]

/-- The adapter is asked. -/
def askCalls : List (Event TickedWorld ServerOp ServerOp.Ans) :=
  [⟨slowSent, .instantNow, (10 ^ 6 : ℕ), slowSent⟩, ⟨slowSent, .newUuid, request.id, slowSent⟩,
    ⟨slowSent, .nowMs, (1 : UInt64), slowSent⟩,
    ⟨slowSent, .adapterDown "fido2-adapter", false, slowSent⟩,
    ⟨slowSent, .acquire "fido2-adapter", .ok (), slowSent⟩,
    ⟨slowSent, .connect "/run/ola/fido2.sock" 30001000000, .ok (), slowSent⟩,
    ⟨slowSent, .peerUid, .ok 990, slowSent⟩,
    ⟨slowSent, .send (Crates.reference.serde.toString slowRequest.serialize) 30001000000, .ok (),
      slowSent⟩]

/-- The adapter answers, and the deadline is checked. -/
def answerCalls (t : ℕ) : List (Event TickedWorld ServerOp ServerOp.Ans) :=
  [⟨slowAnswered t, .recv 30001000000, some (.line line), slowAnswered t⟩,
    ⟨slowAnswered t, .nowMs, UInt64.ofNat (t / 10 ^ 6), slowAnswered t⟩]

/-- The nonce is spent. -/
def spendCall (t : ℕ) : Event TickedWorld ServerOp ServerOp.Ans :=
  ⟨slowAnswered t, .consume nonce 1000, (issued.nonces.consume nonce 1000 t).1,
    ({ (slowAnswered t).1 with nonces := (issued.nonces.consume nonce 1000 t).2 }, [none, none])⟩

/-- The request, up to the check of its deadline. -/
def slowRun (t : ℕ) : InTimeRun TickedWorld :=
  ⟨slowResolved, nonce, 10 ^ 6, request.id, 1, result, UInt64.ofNat (t / 10 ^ 6), (idle, []),
    slowSent, slowAnswered t⟩

/-- The history of the request. -/
def slowHistory (t : ℕ) : List TickedEntry :=
  issueCalls.map (.step 0) ++ askCalls.map (.step 0) ++
    (answerCalls t ++ [spendCall t]).map (.step 0)

/-- The method is resolved. -/
theorem traces_slowResolve : Traces (recordStep (ClockedStep .reference 0))
    (slowState.adapterRegistry.resolve ServerProg.adapterDown "fido2")
    ([] : List (Event TickedWorld ServerOp ServerOp.Ans)) (.ok slowResolved) :=
  traces_bind.mpr ⟨[], .ok ("fido2", slowConfig.client), [], rfl, traces_pure.mpr ⟨rfl, rfl⟩,
    traces_pure.mpr ⟨rfl, rfl⟩⟩

/-- An operation whose answer is not a time. -/
theorem recordStep_of_ne_nowMs {w w' : ServerWorld} {labels : List (Option ℕ)} {o : ServerOp}
    {answer : o.Ans} (hs : ServerStep .reference w o answer w') (ho : o ≠ .nowMs) :
    recordStep (ClockedStep .reference 0) (w, labels) o answer (w', labels) := by
  refine ⟨⟨hs, fun ms heq => ?_⟩, rfl⟩
  exact absurd (congrArg Sigma.fst heq) ho

/-- The wall clock is read. -/
theorem recordStep_nowMs (w : TickedWorld) :
    recordStep (ClockedStep .reference 0) w .nowMs (UInt64.ofNat (w.1.instant / 10 ^ 6)) w := by
  refine ⟨⟨rfl, fun ms heq => ?_⟩, rfl⟩
  exact (eq_of_heq (Sigma.mk.inj heq).2).symm

/-- The adapter is asked and answers. -/
theorem traces_slowDispatch (t : ℕ) : Traces (recordStep (ClockedStep .reference 0))
    (dispatchResolved Crates.reference.serde slowResolved slowRequest 30001000000)
    (askCalls.drop 3 ++ (answerCalls t).take 1) (.ok result) := by
  have hreply : AdapterClient.readReply Crates.reference.serde slowRequest line = .ok result :=
    readReply_line rfl
  refine .head (recordStep_of_ne_nowMs ⟨rfl, rfl⟩ (by simp)) ?_
  refine .head (recordStep_of_ne_nowMs rfl (by simp)) ?_
  refine .head (recordStep_of_ne_nowMs rfl (by simp)) ?_
  refine .head (recordStep_of_ne_nowMs rfl (by simp)) ?_
  refine .head (recordStep_of_ne_nowMs rfl (by simp)) ?_
  refine .head (recordStep_of_ne_nowMs rfl (by simp)) ?_
  exact traces_pure.mpr ⟨rfl, hreply.symm⟩

/-- The deadline of the request, on the monotonic clock. -/
theorem slowDeadline : 10 ^ 6 + slowResolved.timeoutMs.toNat * 10 ^ 6 = 30001000000 := by decide

/-- What the adapter is sent. -/
theorem sentRequest_slowRun (t : ℕ) : (slowRun t).sentRequest 1000 = slowRequest := by
  have hsum : saturatingAdd 1 30000 = 30001 := by decide
  dsimp only [InTimeRun.sentRequest, slowRun, slowResolved]
  rw [hsum]
  rfl

/-- The adapter has answered in time. -/
theorem describes_slowRun {t : ℕ} (ht : UInt64.ofNat (t / 10 ^ 6) ≤ 30001) :
    (slowRun t).Describes (recordStep (ClockedStep .reference 0)) .reference slowState fido2Call
      (issueCalls ++ askCalls ++ answerCalls t) where
  calls_eq := by
    refine ⟨[], (issued, []), slowSent, slowSent, slowSent, slowSent, slowSent,
      askCalls.drop 3 ++ (answerCalls t).take 1, slowAnswered t, rfl, traces_slowResolve, ?_⟩
    have hdispatch := traces_slowDispatch t
    rw [← slowDeadline, ← sentRequest_slowRun t] at hdispatch
    exact hdispatch
  nonce_eq := rfl
  inTime := by
    have hrequest : (slowRun t).sentRequest fido2Call.uid = slowRequest := sentRequest_slowRun t
    rw [hrequest]
    exact ht

/-- The nonce is spent after the deadline was checked. -/
theorem steps_slowCheck {t : ℕ} (ht : UInt64.ofNat (t / 10 ^ 6) ≤ 30001) :
    ∃ q, Steps (recordStep (ClockedStep .reference 0))
      (checkResult .reference slowState reloadable 1000 1000 (some "req-1") slowResolved
        slowRequest result) ((answerCalls t).drop 1 ++ [spendCall t]) q := by
  have hnonce : ¬ result.nonce ≠ slowRequest.nonce := not_not.mpr rfl
  have hinTime : ¬ slowRequest.deadlineMs < UInt64.ofNat (t / 10 ^ 6) := UInt64.not_lt.mpr ht
  have hconsume : recordStep (ClockedStep .reference 0) (slowAnswered t) (.consume nonce 1000)
      (issued.nonces.consume nonce 1000 t).1 (spendCall t).after :=
    recordStep_of_ne_nowMs ⟨_, rfl, rfl⟩ (by simp)
  unfold checkResult
  dsimp only
  rw [if_neg hnonce]
  refine Exists.imp (fun q hq => .head (recordStep_nowMs (slowAnswered t)) hq) ?_
  dsimp only [Prog.bind]
  rw [if_neg hinTime]
  exact ⟨_, .head hconsume (.refl _)⟩

/-- The request makes these calls. -/
theorem steps_slowRun {t : ℕ} (ht : UInt64.ofNat (t / 10 ^ 6) ≤ 30001) :
    ∃ q, Steps (recordStep (ClockedStep .reference 0)) (fido2Call.program .reference slowState)
      (issueCalls ++ (askCalls ++ (answerCalls t ++ [spendCall t]))) q := by
  have hgenerate : recordStep (ClockedStep .reference 0) (idle, []) (.generate 1000) (.ok nonce)
      (issued, []) := recordStep_of_ne_nowMs serverStep_generate (by simp)
  obtain ⟨q, hcheck⟩ := steps_slowCheck ht
  have hdispatch := traces_slowDispatch t
  rw [← slowDeadline, ← sentRequest_slowRun t] at hdispatch
  rw [← sentRequest_slowRun t] at hcheck
  refine ⟨q, (steps_bind_iff traces_slowResolve).mpr (.head hgenerate ?_)⟩
  refine .head (recordStep_of_ne_nowMs ⟨rfl, rfl⟩ (by simp)) ?_
  refine .head (recordStep_of_ne_nowMs rfl (by simp)) ?_
  refine .head (recordStep_nowMs slowSent) ?_
  exact (steps_bind_iff hdispatch).mpr hcheck

/-- The nonce is issued once. -/
theorem issuedOnce_slowHistory (t : ℕ) : IssuedOnce ((slowHistory t).map Entry.forget) := by
  have hfirst : ∀ (k i : ℕ) w uid nonce w', ((slowHistory t).map Entry.forget)[k]? =
      some (.step i ⟨w, .generate uid, .ok nonce, w'⟩) → k = 0 := by
    intro k i w uid nonce w' hk
    cases k with
    | zero => rfl
    | succ k =>
      have hno : ∀ x ∈ ((slowHistory t).map Entry.forget).tail, isIssue x = false := by
        simp [slowHistory, issueCalls, askCalls, answerCalls, spendCall, isIssue, Entry.forget]
      rw [← List.getElem?_tail] at hk
      cases hno _ (List.mem_of_getElem? hk)
  intro k k' i i' w v uid uid' nonce w' v' hk hk'
  rw [hfirst k i w uid nonce w' hk, hfirst k' i' v uid' nonce v' hk']

/-- The history is that of an execution. -/
theorem exec_slowHistory {t : ℕ} (hle : 10 ^ 6 ≤ t) (ht : UInt64.ofNat (t / 10 ^ 6) ≤ 30001) :
    ∃ procs, Exec (recordStep (ClockedStep .reference 0)) (recordEnv TickedBackground)
      (fun _ => fido2Call.program .reference slowState) (idle, []) (spendCall t).after procs
      (slowHistory t) := by
  obtain ⟨q, hsteps⟩ := steps_slowRun ht
  obtain ⟨p₁, hissue, hrest⟩ := hsteps.split
  obtain ⟨p₂, hask, hanswer⟩ := hrest.split
  have hstart : Exec (recordStep (ClockedStep .reference 0)) (recordEnv TickedBackground)
      (fun _ => fido2Call.program .reference slowState) (idle, []) (idle, []) _ [] := .start
  have hlinked₁ : Linked (idle, []) issueCalls (issued, []) := by simp [issueCalls, Linked]
  have h₁ := hstart.append_steps (i := 0) hissue rfl hlinked₁
  have hwait₁ : recordEnv TickedBackground (issued, []) slowSent :=
    ⟨none, .other (.elapse issued (Nat.zero_le _)) rfl, rfl⟩
  have hlinked₂ : Linked slowSent askCalls slowSent := by simp [askCalls, Linked]
  have h₂ := (h₁.environment hwait₁).append_steps (i := 0) hask (Function.update_self ..) hlinked₂
  have hwait₂ : recordEnv TickedBackground slowSent (slowAnswered t) :=
    ⟨none, .other (.elapse slowSent.1 hle) rfl, rfl⟩
  have hlinked₃ : Linked (slowAnswered t) (answerCalls t ++ [spendCall t])
      (spendCall t).after := by
    simp [answerCalls, spendCall, Linked]
  have h₃ := (h₂.environment hwait₂).append_steps (i := 0) hanswer (Function.update_self ..)
    hlinked₃
  exact ⟨_, h₃⟩

/-- The calls of the request in the history. -/
theorem callsOf_slowHistory (t : ℕ) : (slowHistory t).filterMap (Entry.callOf 0) =
    (issueCalls ++ askCalls ++ answerCalls t) ++ [spendCall t] := by
  simp only [slowHistory, List.filterMap_append, filterMap_callOf_map_step, List.append_assoc]

end Sample

/-- An answer after one more millisecond is accepted. -/
theorem in_time_accepted_iff_soon :
    ∃ (run : InTimeRun TickedWorld) (l : List (Event TickedWorld ServerOp ServerOp.Ans))
      (e : Event TickedWorld ServerOp ServerOp.Ans),
      run.Describes (recordStep (ClockedStep .reference 0)) .reference Sample.slowState
        Sample.fido2Call l ∧
      e.label = ⟨.consume run.nonce 1000, .ok ()⟩ := by
  have ht : UInt64.ofNat (2 * 10 ^ 6 / 10 ^ 6) ≤ 30001 := by decide
  obtain ⟨procs, h⟩ := Sample.exec_slowHistory (t := 2 * 10 ^ 6) (by decide) ht
  have hrun := Sample.describes_slowRun ht
  obtain ⟨-, hiff, -⟩ := in_time_accepted_iff h
    (Sample.issuedOnce_slowHistory _) (Sample.callsOf_slowHistory _) hrun rfl
  refine ⟨_, _, _, hrun, hiff.mpr ⟨by decide, ?_⟩⟩
  intro now hnow
  simp [Sample.spendCall, Sample.slowAnswered] at hnow

/-- **An answer in time whose nonce has expired.** The adapter has the longest timeout that is
accepted. Its deadline is computed one millisecond after the nonce was issued, and it answers when
that deadline has not passed, at the last millisecond: the nonce is then thirty seconds and one
millisecond old. -/
theorem in_time_answer_expired :
    validateAdapterConfig Sample.slowConfig = .ok () ∧
    AdapterRegistry.ofConfigs [Sample.slowConfig] = .ok Sample.slowState.adapterRegistry ∧
    ∃ (w : TickedWorld) (procs : ℕ → ServerProg Response) (H : List TickedEntry)
      (run : InTimeRun TickedWorld) (l : List (Event TickedWorld ServerOp ServerOp.Ans))
      (e : Event TickedWorld ServerOp ServerOp.Ans),
      Exec (recordStep (ClockedStep .reference 0)) (recordEnv TickedBackground)
        (fun _ => Sample.fido2Call.program .reference Sample.slowState) (Sample.idle, []) w procs
        H ∧
      IssuedOnce (H.map Entry.forget) ∧ H.filterMap (Entry.callOf 0) = l ++ [e] ∧
      run.Describes (recordStep (ClockedStep .reference 0)) .reference Sample.slowState
        Sample.fido2Call l ∧
      e.before.1.instant = run.checked.1.instant ∧
      e.label = ⟨.consume run.nonce 1000, .error .expired⟩ := by
  have ht : UInt64.ofNat (30001 * 10 ^ 6 / 10 ^ 6) ≤ 30001 := by decide
  obtain ⟨procs, h⟩ := Sample.exec_slowHistory (t := 30001 * 10 ^ 6) (by decide) ht
  have hexpired : (Sample.issued.nonces.consume Sample.nonce 1000 (30001 * 10 ^ 6)).1 =
      .error .expired := by decide +kernel
  refine ⟨by decide, by rfl, _, procs, _, Sample.slowRun (30001 * 10 ^ 6), _, _, h,
    Sample.issuedOnce_slowHistory _, Sample.callsOf_slowHistory _, Sample.describes_slowRun ht, rfl,
    ?_⟩
  rw [← hexpired]
  rfl

end OlaCore
