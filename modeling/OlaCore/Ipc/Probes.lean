import OlaCore.Ipc.Audited
import OlaCore.Lib.Protocols

set_option relaxedAutoImplicit false
set_option autoImplicit false

/-!
# Probes and routing

The adapters are probed in the background while requests are routed. Here the world of the requests
remembers the outcomes of the probes, so that what routing does can be compared with all of them.

## Main definitions

* `OlaCore.LabelledBackground` — the background steps, with the probe that they record.
* `OlaCore.outcomesOf` — the outcomes of the probes of an adapter.
* `OlaCore.UsableAtCheck` — a check that found the adapter not down, while it was usable.

## Main results

* `OlaCore.AdapterRegistry.traces_availableMethods` — what is asked about the methods that are
  listed.
* `OlaCore.reaches_handleVerifyOnce_connect` — what a request does before it connects to an adapter.
* `OlaCore.health_and_routing` — the runs of requests with probes.
-/

namespace OlaCore

open Program

/-- What routing asks before it lists a method or talks to an adapter. -/
def ServerOp.isDown : ServerOp → Bool
  | .adapterDown _ => true
  | _ => false

/-! ## What is asked before an adapter is used -/

section Programs

variable {W : Type} {step : W → (o : ServerOp) → o.Ans → W → Prop}
  {tr l : List (Event W ServerOp ServerOp.Ans)} {e : Event W ServerOp ServerOp.Ans}

/-- The methods that are kept have an adapter that was found not down. -/
theorem AdapterRegistry.traces_filterAvailable {reg : AdapterRegistry} {methods : List String}
    {ms : List String}
    (h : Traces step (reg.filterAvailable ServerProg.adapterDown methods) tr ms) {m : String}
    (hm : m ∈ ms) :
    ∃ client w w', reg.clients.lookup m = some client ∧
      ⟨w, .adapterDown client.name, false, w'⟩ ∈ tr := by
  induction methods generalizing tr ms with
  | nil =>
    rw [(traces_pure.mp h).2] at hm
    cases hm
  | cons method methods ih =>
    obtain ⟨tr₁, keep, tr₂, rfl, hkeep, h₁⟩ := traces_bind.mp h
    obtain ⟨tr₃, rest, tr₄, rfl, hrest, h₂⟩ := traces_bind.mp h₁
    obtain ⟨rfl, rfl⟩ := traces_pure.mp h₂
    have hlater : m ∈ rest → ∃ client w w', reg.clients.lookup m = some client ∧
        ⟨w, .adapterDown client.name, false, w'⟩ ∈ tr₁ ++ (tr₃ ++ []) := by
      intro hmem
      obtain ⟨client, w, w', hclient, he⟩ := ih hrest hmem
      exact ⟨client, w, w', hclient, by simp [he]⟩
    cases keep with
    | false => exact hlater hm
    | true =>
      rcases List.mem_cons.mp hm with rfl | hm
      · -- The method is kept because its adapter was found not down.
        unfold isAvailable at hkeep
        split at hkeep
        · next client hclient =>
          obtain ⟨w, down, w', tr', rfl, -, h₃⟩ := traces_call_bind.mp hkeep
          cases down with
          | true => cases (traces_pure.mp h₃).2
          | false => exact ⟨client, w, w', hclient, by simp⟩
        · cases (traces_pure.mp hkeep).2
      · exact hlater hm

/-- **What is asked about the methods that are listed**: their adapters were found not down. -/
theorem AdapterRegistry.traces_availableMethods {reg : AdapterRegistry} {ms : List String}
    (h : Traces step (reg.availableMethods ServerProg.adapterDown) tr ms) {m : String}
    (hm : m ∈ ms) :
    ∃ client w w', reg.clients.lookup m = some client ∧
      ⟨w, .adapterDown client.name, false, w'⟩ ∈ tr := by
  obtain ⟨tr₁, methods, tr₂, rfl, hfilter, h₁⟩ := traces_bind.mp h
  obtain ⟨rfl, rfl⟩ := traces_pure.mp h₁
  rw [List.append_nil]
  exact traces_filterAvailable hfilter ((List.mem_insertionSort byteLe).mp hm)

/-- A dispatch goes on only after the adapter was found not down. -/
theorem reaches_dispatchResolved {serde : SerdeJson} {resolved : ResolvedAdapter}
    {request : VerificationRequest} {deadline : ℕ}
    (h : Reaches step (dispatchResolved serde resolved request deadline) l e)
    (he : e.op.isDown = false) :
    ∃ w w', ⟨w, .adapterDown resolved.client.name, false, w'⟩ ∈ l := by
  obtain ⟨w, down, w', l₁, rfl, -, h₁⟩ :=
    reaches_call_bind_of_not (K := fun o => o.isDown = false) h he (by simp [ServerOp.isDown])
  cases down with
  | true => exact absurd h₁ not_reaches_pure
  | false => exact ⟨w, w', List.mem_cons_self⟩

/-- Does the operation connect to an adapter? -/
def ServerOp.isConnect : ServerOp → Bool
  | .connect _ _ => true
  | _ => false

/-- The connection of a dispatch is made to its adapter. -/
theorem reaches_dispatchResolved_connect {serde : SerdeJson} {resolved : ResolvedAdapter}
    {request : VerificationRequest} {deadline : ℕ}
    (h : Reaches step (dispatchResolved serde resolved request deadline) l e)
    (he : e.op.isConnect = true) : e.op = .connect resolved.client.socketPath deadline := by
  obtain ⟨_, down, _, l₁, rfl, -, h₁⟩ :=
    reaches_call_bind_of_not (K := fun o => o.isConnect = true) h he Bool.false_ne_true
  cases down with
  | true => exact absurd h₁ not_reaches_pure
  | false =>
    obtain ⟨_, acquired, _, l₂, rfl, -, h₂⟩ :=
      reaches_call_bind_of_not (K := fun o => o.isConnect = true) h₁ he Bool.false_ne_true
    rcases acquired with (_ | _) | _
    · exact absurd h₂ not_reaches_pure
    · exact absurd h₂ not_reaches_pure
    · by_contra hother
      have havoids : (resolved.client.verify serde request deadline).Avoids fun o =>
          o.isConnect = true ∧ o ≠ .connect resolved.client.socketPath deadline :=
        AdapterClient.avoids_verify _ _ _ _ (by simp) (by simp [ServerOp.isConnect])
          (by simp [ServerOp.isConnect]) (by simp [ServerOp.isConnect])
      exact havoids.not_reaches h₂ ⟨he, hother⟩

section Path

variable {crates : Crates} {state : ServerState} {reloadable : ReloadableState}
  {callerUid uid : UInt32} {reqId : Option String}

/-- **What a request does before it connects to an adapter**: the adapter is one of the registry,
and it was found not down. -/
theorem reaches_handleVerifyOnce_connect {method path : String} {deadline : ℕ}
    (h : Reaches step (handleVerifyOnce crates state reloadable callerUid uid reqId method) l e)
    (he : e.op = .connect path deadline) :
    ∃ m client w w', state.adapterRegistry.clients.lookup m = some client ∧
      client.socketPath = path ∧ ⟨w, .adapterDown client.name, false, w'⟩ ∈ l := by
  have hK : e.op.isConnect = true := by rw [he]; rfl
  have hexit : ∀ {method reason clientReason : String} {adapterName : Option String}
      {result : Option VerificationResult},
      (denyExit callerUid uid reqId method reason adapterName result clientReason).Avoids
        fun o => o.isConnect = true :=
    avoids_denyExit Bool.false_ne_true fun _ => Bool.false_ne_true
  have hnext := fun {o : ServerOp} {β : Type} {f : o.Ans → ServerProg β}
      {l : List (Event W ServerOp ServerOp.Ans)} (h : Reaches step (call o >>= f) l e)
      (ho : ¬ o.isConnect = true) =>
    reaches_call_bind_of_not (K := fun o => o.isConnect = true) h hK ho
  rcases reaches_bind h with hresolve | ⟨l₁, resolved, l₂, rfl, hresolved, h₁⟩
  · have havoids : (state.adapterRegistry.resolve ServerProg.adapterDown method).Avoids
        fun o => o.isConnect = true :=
      AdapterRegistry.avoids_resolve (fun _ => Bool.false_ne_true) method
    exact absurd hK (havoids.not_reaches hresolve)
  rcases resolved with _ | resolved
  · exact absurd hK (hexit.not_reaches h₁)
  obtain ⟨_, generated, _, l₃, rfl, -, h₂⟩ := hnext h₁ Bool.false_ne_true
  rcases generated with _ | nonce
  · exact absurd hK (hexit.not_reaches h₂)
  obtain ⟨_, now, _, l₄, rfl, -, h₃⟩ := hnext h₂ Bool.false_ne_true
  obtain ⟨_, id, _, l₅, rfl, -, h₄⟩ := hnext h₃ Bool.false_ne_true
  obtain ⟨_, nowMs, _, l₆, rfl, -, h₅⟩ := hnext h₄ Bool.false_ne_true
  rcases reaches_bind h₅ with hdispatch | ⟨l₇, dispatched, l₈, rfl, -, h₆⟩
  · obtain ⟨hlookup, -⟩ := AdapterRegistry.traces_resolve_ok hresolved
    obtain ⟨w, w', hmem⟩ := reaches_dispatchResolved hdispatch (by rw [he]; rfl)
    have hpath := reaches_dispatchResolved_connect hdispatch hK
    rw [he] at hpath
    exact ⟨resolved.method, resolved.client, w, w', hlookup, (ServerOp.connect.inj hpath).1.symm,
      by simp [hmem]⟩
  · rcases dispatched with _ | result
    · obtain ⟨_, _, _, l₉, rfl, -, h₇⟩ := hnext h₆ Bool.false_ne_true
      exact absurd hK (hexit.not_reaches h₇)
    · have havoids : (checkResult crates state reloadable callerUid uid reqId resolved
          ⟨protocolVersion, id, uid, nonce, saturatingAdd nowMs resolved.timeoutMs⟩ result).Avoids
            fun o => o.isConnect = true :=
        avoids_checkResult Bool.false_ne_true (fun _ => Bool.false_ne_true) Bool.false_ne_true
      exact absurd hK (havoids.not_reaches h₆)

end Path

end Programs

/-! ## Runs with probes -/

/-- A step of the background tasks, labelled with the probe that it records, if any. -/
inductive LabelledBackground : ServerWorld → Option (String × Bool) → ServerWorld → Prop
  | probe (w : ServerWorld) (name : String) (isUp : Bool) {now : ℕ} : now ≤ w.instant →
      LabelledBackground w (some (name, isUp))
        { w with health := w.health.probe name isUp now }
  | other {w w' : ServerWorld} : Background w w' → w'.health = w.health →
      LabelledBackground w none w'

/-- Every step of the background tasks has a label. -/
theorem Background.labelled {w w' : ServerWorld} (h : Background w w') :
    ∃ label, LabelledBackground w label w' := by
  cases h with
  | probe name isUp hnow => exact ⟨_, .probe w name isUp hnow⟩
  | elapse hle => exact ⟨none, .other (.elapse w hle) rfl⟩
  | cleanup hnow => exact ⟨none, .other (.cleanup w hnow) rfl⟩
  | rename hfs => exact ⟨none, .other (.rename w hfs) rfl⟩
  | create hfs => exact ⟨none, .other (.create w hfs) rfl⟩
  | reopen hfs => exact ⟨none, .other (.reopen w hfs) rfl⟩

/-- The outcomes of the probes of an adapter. -/
def outcomesOf (labels : List (Option (String × Bool))) (name : String) : List Bool :=
  labels.filterMap fun label =>
    label.bind fun probe => if probe.1 = name then some probe.2 else none

/-- The shared state, with the probes so far. -/
abbrev ProbedWorld := ServerWorld × List (Option (String × Bool))

/-- The check found the adapter not down, and it was usable: some probe before the check had
succeeded and fewer than three had failed since, unless the counter of failures had overflowed. -/
def UsableAtCheck (check : Event ProbedWorld ServerOp ServerOp.Ans) (name : String) : Prop :=
  check.label = ⟨.adapterDown name, false⟩ ∧
    (failuresSince (outcomesOf check.before.2 name) < 2 ^ 32 →
      Usable (outcomesOf check.before.2 name))

section Runs

variable {crates : Crates} {prog procs : ℕ → ServerProg Response} {w₀ : ServerWorld}
  {w : ProbedWorld} {H : List (Entry ProbedWorld ServerOp ServerOp.Ans Response)}

/-- Every run of requests is one in which the probes are remembered. -/
theorem exists_probed_exec {w : ServerWorld}
    {H : List (Entry ServerWorld ServerOp ServerOp.Ans Response)}
    (h : Exec (ServerStep crates) Background prog w₀ w procs H) :
    ∃ labels H', H'.map Entry.forget = H ∧
      Exec (recordStep (ServerStep crates)) (recordEnv LabelledBackground) prog (w₀, [])
        (w, labels) procs H' :=
  h.recorded fun _ _ hbackground => hbackground.labelled

/-- **The health of the adapters follows the probes**, in every run. -/
theorem follows_of_exec (hinit : w₀.health.Follows fun _ => [])
    (h : Exec (recordStep (ServerStep crates)) (recordEnv LabelledBackground) prog (w₀, []) w procs
      H) : w.1.health.Follows (outcomesOf w.2) := by
  refine h.world_invariant (I := fun w => w.1.health.Follows (outcomesOf w.2)) hinit ?_ ?_
  · rintro ⟨w, labels⟩ o answer ⟨w', labels'⟩ hfollows ⟨hs, rfl⟩
    rw [(serverStep_frame hs).2]
    exact hfollows
  · rintro ⟨w, labels⟩ ⟨w', labels'⟩ hfollows ⟨label, hlabel, rfl⟩
    dsimp only at hfollows hlabel ⊢
    cases hlabel with
    | probe name isUp _ =>
      have hupdate : outcomesOf (labels ++ [some (name, isUp)]) =
          Function.update (outcomesOf labels) name (outcomesOf labels name ++ [isUp]) := by
        funext name'
        by_cases hname : name = name'
        · subst hname
          simp [outcomesOf]
        · simp [outcomesOf, hname, Function.update_of_ne (Ne.symm hname)]
      rw [hupdate]
      exact hfollows.probe name isUp _
    | other _ hhealth =>
      have hsame : outcomesOf (labels ++ [none]) = outcomesOf labels := by
        funext name
        simp [outcomesOf]
      rw [hsame, hhealth]
      exact hfollows

/-- A check in a run, answered that the adapter is not down. -/
theorem usableAtCheck_of_exec (hinit : w₀.health.Follows fun _ => [])
    (h : Exec (recordStep (ServerStep crates)) (recordEnv LabelledBackground) prog (w₀, []) w procs
      H) {i : ℕ} {v v' : ProbedWorld} {name : String}
    (hmem : ⟨v, .adapterDown name, false, v'⟩ ∈ H.filterMap (Entry.callOf i)) :
    UsableAtCheck ⟨v, .adapterDown name, false, v'⟩ name := by
  obtain ⟨H₁, H₂, hH⟩ := List.append_of_mem (mem_filterMap_callOf.mp hmem)
  obtain ⟨procs₁, hexec, ⟨hanswer, -⟩, -⟩ := h.at_call hH
  exact ⟨rfl, fun hcount => (follows_of_exec hinit hexec).usable hcount hanswer.symm⟩

/-- **Health and routing.**

* With fewer than `2 ^ 32` failures since the last success, the status after a history of probes is
  up if the last one succeeded, degraded if one succeeded and one or two have failed since, and down
  otherwise.
* In every run of requests with probes in between, from the first start of the daemon: whenever an
  adapter is found not down, it is usable, that is, one of its probes has succeeded and fewer than
  three have failed since.
* So a dispatch that goes on after its check has found the adapter usable, an adapter was usable
  when one of its methods was listed, and a request connects only to an adapter that it has found
  usable.

**Proof sketch.** The counter and the last success are functions of the history, step by step; the
health map holds the outcome of all probes of each adapter in every reachable state. -/
theorem health_and_routing {names : List String} {now : ℕ}
    (hinit : w₀.health = .spawn names now)
    (h : Exec (recordStep (ServerStep crates)) (recordEnv LabelledBackground) prog (w₀, []) w procs
      H) :
    (∀ start history, failuresSince (history.map Prod.fst) < 2 ^ 32 →
      ((recordProbes start history).status = .up ↔
        (history.map Prod.fst).getLast? = some true) ∧
      ((recordProbes start history).status = .degraded ↔ true ∈ history.map Prod.fst ∧
        (failuresSince (history.map Prod.fst) = 1 ∨ failuresSince (history.map Prod.fst) = 2)) ∧
      ((recordProbes start history).status = .down ↔
        ¬ (history.map Prod.fst).getLast? = some true ∧
        ¬ (true ∈ history.map Prod.fst ∧
          (failuresSince (history.map Prod.fst) = 1 ∨
            failuresSince (history.map Prod.fst) = 2)))) ∧
    (∀ i v v' name, .step i ⟨v, .adapterDown name, false, v'⟩ ∈ H →
      UsableAtCheck ⟨v, .adapterDown name, false, v'⟩ name) ∧
    (∀ i l₁ l e l₂ serde resolved request deadline,
      H.filterMap (Entry.callOf i) = l₁ ++ l ++ e :: l₂ →
      Reaches (recordStep (ServerStep crates))
        (dispatchResolved serde resolved request deadline) l e →
      e.op.isDown = false → ∃ check ∈ l, UsableAtCheck check resolved.client.name) ∧
    (∀ i l₁ l l₂ (reg : AdapterRegistry) ms,
      H.filterMap (Entry.callOf i) = l₁ ++ l ++ l₂ →
      Traces (recordStep (ServerStep crates)) (reg.availableMethods ServerProg.adapterDown) l ms →
      ∀ m ∈ ms, ∃ client, reg.clients.lookup m = some client ∧
        ∃ check ∈ l, UsableAtCheck check client.name) ∧
    ∀ i state reloadable callerUid uid reqId method,
      prog i = handleVerifyOnce crates state reloadable callerUid uid reqId method →
      ∀ l v path deadline answer v' l₂,
        H.filterMap (Entry.callOf i) = l ++ ⟨v, .connect path deadline, answer, v'⟩ :: l₂ →
        ∃ m client, state.adapterRegistry.clients.lookup m = some client ∧
          client.socketPath = path ∧ ∃ check ∈ l, UsableAtCheck check client.name := by
  have hfollows : w₀.health.Follows fun _ => [] := by
    rw [hinit]
    exact HealthMap.follows_spawn names now
  refine ⟨?_, ?_, ?_, ?_, ?_⟩
  · intro start history hcount
    obtain ⟨hup, hdegraded⟩ := @status_recordProbes start history hcount
    refine ⟨hup, hdegraded, ?_⟩
    rw [← hup, ← hdegraded]
    cases (recordProbes start history).status <;> simp
  · intro i v v' name hmem
    exact usableAtCheck_of_exec hfollows h (mem_filterMap_callOf.mpr hmem)
  · intro i l₁ l e l₂ serde resolved request deadline hcalls hreaches he
    obtain ⟨v, v', hmem⟩ := reaches_dispatchResolved hreaches he
    exact ⟨_, hmem, usableAtCheck_of_exec hfollows h (i := i) (by rw [hcalls]; simp [hmem])⟩
  · intro i l₁ l l₂ reg ms hcalls htraces m hm
    obtain ⟨client, v, v', hclient, hmem⟩ := AdapterRegistry.traces_availableMethods htraces hm
    exact ⟨client, hclient, _, hmem,
      usableAtCheck_of_exec hfollows h (i := i) (by rw [hcalls]; simp [hmem])⟩
  · intro i state reloadable callerUid uid reqId method hprog l v path deadline answer v' l₂ hcalls
    have hsteps := h.project i
    rw [hprog, hcalls] at hsteps
    obtain ⟨m, client, v₁, v₁', hclient, hpath, hmem⟩ :=
      reaches_handleVerifyOnce_connect ⟨l₂, _, hsteps⟩ rfl
    exact ⟨m, client, hclient, hpath, _, hmem,
      usableAtCheck_of_exec hfollows h (i := i) (by rw [hcalls]; simp [hmem])⟩

end Runs

namespace Sample

/-- The daemon before the first probe. -/
def started : ServerWorld := { idle with health := .spawn ["fido2-adapter"] 0 }

/-- The daemon after the adapter has answered its first probe. -/
def probed : ProbedWorld :=
  ({ started with health := started.health.probe "fido2-adapter" true 0 },
    [some ("fido2-adapter", true)])

/-- A request for any method. -/
def anyRequest : ServerProg Response :=
  handleVerifyOnce .reference state reloadable 1000 1000 (some "req-1") "any"

end Sample

/-- The daemon starts, the adapter answers its first probe, and a request for any method asks about
it. -/
theorem health_and_routing_probe :
    ∃ procs H, Exec (recordStep (ServerStep .reference)) (recordEnv LabelledBackground)
        (fun _ => Sample.anyRequest) (Sample.started, []) Sample.probed procs H ∧
      .step 0 ⟨Sample.probed, .adapterDown "fido2-adapter", false, Sample.probed⟩ ∈ H ∧
      Usable (outcomesOf Sample.probed.2 "fido2-adapter") := by
  have hstart : Exec (recordStep (ServerStep .reference)) (recordEnv LabelledBackground)
      (fun _ => Sample.anyRequest) (Sample.started, []) _ _ [] := .start
  have hprobe : recordEnv LabelledBackground (Sample.started, []) Sample.probed :=
    ⟨_, .probe Sample.started "fido2-adapter" true (le_refl 0), rfl⟩
  have hcheck : recordStep (ServerStep .reference) Sample.probed (.adapterDown "fido2-adapter")
      false Sample.probed :=
    ⟨⟨rfl, rfl⟩, rfl⟩
  obtain ⟨k, hk⟩ : ∃ k, Sample.anyRequest = .op (.adapterDown "fido2-adapter") k := ⟨_, rfl⟩
  have hchecked := (hstart.environment hprobe).call (i := 0) hk hcheck
  have hmem : .step 0 ⟨Sample.probed, .adapterDown "fido2-adapter", false, Sample.probed⟩ ∈
      ([] ++ [.step 0 ⟨Sample.probed, .adapterDown "fido2-adapter", false, Sample.probed⟩] :
        List (Entry ProbedWorld ServerOp ServerOp.Ans Response)) := by simp
  exact ⟨_, _, hchecked, hmem,
    ((health_and_routing rfl hchecked).2.1 0 _ _ _ hmem).2 (by decide)⟩

end OlaCore
