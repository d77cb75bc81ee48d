import Mathlib.Algebra.Group.Nat.Defs
import Mathlib.Data.List.AList
import Mathlib.Data.List.Induction

set_option relaxedAutoImplicit false
set_option autoImplicit false

/-!
# Adapter health

A background task probes the adapters and records the outcomes (`adapters/health`). An adapter
that has never answered, or has failed three probes in a row, is down: no request is routed to it.

Instants are nanoseconds on the monotonic clock.

## Main definitions

* `OlaCore.AdapterHealth`, `OlaCore.newHealth`, `OlaCore.recordProbe`.
* `OlaCore.HealthMap.adapterDown` — the question that routing asks.
* `OlaCore.recordProbes`, `OlaCore.failuresSince`, `OlaCore.Usable` — the health after a history of
  probes, and what the history says about the adapter.
* `OlaCore.HealthMap.Follows` — the map holds the outcome of the probes.

## Main results

* `OlaCore.status_recordProbes` — the status as a property of the whole history.
* `OlaCore.HealthMap.Follows.usable` — an adapter that is not down is usable.
-/

namespace OlaCore

/-- Up, failing, or not to be used. Down is also the initial state. -/
inductive HealthStatus where
  | up
  | degraded
  | down
  deriving DecidableEq

/-- What is known about an adapter. -/
structure AdapterHealth where
  status : HealthStatus
  consecutiveFailures : UInt32
  lastChecked : ℕ
  lastSuccess : Option ℕ
  deriving DecidableEq

/-- The health of an adapter before its first probe. -/
def newHealth (status : HealthStatus) (now : ℕ) : AdapterHealth :=
  ⟨status, 0, now, if status = .up then some now else none⟩

/-- The health after one more probe. A single success restores the adapter. -/
def recordProbe (health : AdapterHealth) (isUp : Bool) (now : ℕ) : AdapterHealth :=
  if isUp then ⟨.up, 0, now, some now⟩
  else
    let consecutiveFailures := health.consecutiveFailures + 1
    let status := if health.lastSuccess.isSome && consecutiveFailures < 3 then .degraded else .down
    ⟨status, consecutiveFailures, now, health.lastSuccess⟩

/-- The health of the adapters by name, behind a lock; `none` when the lock is poisoned. -/
abbrev HealthMap := Option (AList fun _ : String => AdapterHealth)

namespace HealthMap

/-- The map before the first probes of the configured adapters. -/
def spawn (names : List String) (now : ℕ) : HealthMap :=
  some (names.foldl (fun map name => map.insert name (newHealth .down now)) ∅)

/-- The map after a probe of the named adapter. With a poisoned lock the probe is dropped. -/
def probe (health : HealthMap) (name : String) (isUp : Bool) (now : ℕ) : HealthMap :=
  health.map fun map =>
    map.insert name (recordProbe ((map.lookup name).getD (newHealth .down now)) isUp now)

/-- Is the adapter down? An adapter that is not known is, and so is every adapter when the lock
is poisoned. -/
def adapterDown (health : HealthMap) (name : String) : Bool :=
  match health with
  | none => true
  | some map =>
    match map.lookup name with
    | none => true
    | some entry => entry.status = .down

end HealthMap

/-! ## Histories of probes -/

/-- The health after a history of probes, each with its outcome and its instant. -/
def recordProbes (start : ℕ) (history : List (Bool × ℕ)) : AdapterHealth :=
  history.foldl (fun health probe => recordProbe health probe.1 probe.2) (newHealth .down start)

/-- The number of failures since the last success, or since the start. -/
def failuresSince (outcomes : List Bool) : ℕ := (outcomes.reverse.takeWhile (!·)).length

/-- Some probe has succeeded, and fewer than three have failed since. -/
def Usable (outcomes : List Bool) : Prop := true ∈ outcomes ∧ failuresSince outcomes < 3

@[simp] theorem failuresSince_append_true (outcomes : List Bool) :
    failuresSince (outcomes ++ [true]) = 0 := by
  simp [failuresSince]

@[simp] theorem failuresSince_append_false (outcomes : List Bool) :
    failuresSince (outcomes ++ [false]) = failuresSince outcomes + 1 := by
  simp [failuresSince]

section History

variable {start : ℕ} {history : List (Bool × ℕ)}

/-- One more probe. -/
theorem recordProbes_append (isUp : Bool) (now : ℕ) :
    recordProbes start (history ++ [(isUp, now)]) =
      recordProbe (recordProbes start history) isUp now := by
  simp [recordProbes]

/-- **What the fields say about the history**: the counter, up to its overflow, is the number of
failures since the last success, and there is a last success if a probe has succeeded. -/
theorem fields_recordProbes :
    (recordProbes start history).consecutiveFailures =
        UInt32.ofNat (failuresSince (history.map Prod.fst)) ∧
      ((recordProbes start history).lastSuccess.isSome = true ↔ true ∈ history.map Prod.fst) := by
  induction history using List.reverseRecOn with
  | nil => exact ⟨rfl, by simp [recordProbes, newHealth]⟩
  | append_singleton history probe ih =>
    obtain ⟨isUp, now⟩ := probe
    obtain ⟨hcount, hsuccess⟩ := ih
    rw [recordProbes_append, List.map_append]
    cases isUp with
    | true => simp [recordProbe]
    | false =>
      refine ⟨?_, by simpa [recordProbe] using hsuccess⟩
      simp only [recordProbe, List.map_cons, List.map_nil, failuresSince_append_false, hcount]
      exact (UInt32.ofNat_add _ 1).symm

/-- **The status as a property of the whole history**, with fewer than `2 ^ 32` failures since the
last success. -/
theorem status_recordProbes (hcount : failuresSince (history.map Prod.fst) < 2 ^ 32) :
    ((recordProbes start history).status = .up ↔
      (history.map Prod.fst).getLast? = some true) ∧
    ((recordProbes start history).status = .degraded ↔ true ∈ history.map Prod.fst ∧
      (failuresSince (history.map Prod.fst) = 1 ∨ failuresSince (history.map Prod.fst) = 2)) := by
  rcases List.eq_nil_or_concat history with rfl | ⟨history, ⟨isUp, now⟩, rfl⟩
  · simp [recordProbes, newHealth]
  rw [List.concat_eq_append] at hcount ⊢
  rw [List.map_append] at hcount
  obtain ⟨hfailures, hsuccess⟩ := @fields_recordProbes start history
  rw [recordProbes_append, List.map_append]
  cases isUp with
  | true => simp [recordProbe]
  | false =>
    simp only [List.map_cons, List.map_nil, failuresSince_append_false] at hcount
    have hsum : (recordProbes start history).consecutiveFailures + 1 =
        UInt32.ofNat (failuresSince (history.map Prod.fst) + 1) := by
      rw [hfailures]
      exact (UInt32.ofNat_add _ 1).symm
    have hthree : UInt32.ofNat (failuresSince (history.map Prod.fst) + 1) < 3 ↔
        failuresSince (history.map Prod.fst) + 1 < 3 := by
      rw [UInt32.lt_iff_toNat_lt, UInt32.toNat_ofNat_of_lt' hcount]
      exact Iff.rfl
    have hrange : true ∈ history.map Prod.fst ∧ failuresSince (history.map Prod.fst) + 1 < 3 ↔
        true ∈ history.map Prod.fst ++ [false] ∧
          (failuresSince (history.map Prod.fst) + 1 = 1 ∨
            failuresSince (history.map Prod.fst) + 1 = 2) := by
      rw [List.mem_append]
      refine and_congr (by simp) ?_
      omega
    simp only [List.map_cons, List.map_nil, failuresSince_append_false, List.getLast?_concat,
      ← hrange, recordProbe, hsum, Bool.and_eq_true, hsuccess, decide_eq_true_eq, hthree,
      Bool.false_eq_true, if_false]
    split
    · next h => simp only [h, reduceCtorEq, Option.some.injEq, Bool.false_eq_true, and_self]
    · next h => simp only [h, reduceCtorEq, Option.some.injEq, Bool.false_eq_true, and_self]

/-- An adapter is not down exactly when it is usable. -/
theorem status_recordProbes_ne_down_iff (hcount : failuresSince (history.map Prod.fst) < 2 ^ 32) :
    (recordProbes start history).status ≠ .down ↔ Usable (history.map Prod.fst) := by
  obtain ⟨hup, hdegraded⟩ := @status_recordProbes start history hcount
  have hlast : (history.map Prod.fst).getLast? = some true ↔
      true ∈ history.map Prod.fst ∧ failuresSince (history.map Prod.fst) = 0 := by
    generalize history.map Prod.fst = outcomes
    rcases List.eq_nil_or_concat outcomes with rfl | ⟨outcomes, _ | _, rfl⟩ <;> simp
  rw [hlast] at hup
  unfold Usable
  cases hstatus : (recordProbes start history).status <;> simp only [hstatus, true_iff,
    reduceCtorEq, false_iff, ne_eq, not_false_eq_true, not_true_eq_false] at hup hdegraded ⊢
  · exact ⟨hup.1, by omega⟩
  · exact ⟨hdegraded.1, by omega⟩
  · rintro ⟨hmem, hlt⟩
    have h0 : failuresSince (history.map Prod.fst) ≠ 0 := fun h0 => hup ⟨hmem, h0⟩
    exact hdegraded ⟨hmem, by omega⟩

end History

/-! ## The map of the adapters -/

namespace HealthMap

/-- The map holds the outcome of the probes: `outcomes name` are those of the adapter, since the
start. -/
def Follows (health : HealthMap) (outcomes : String → List Bool) : Prop :=
  ∀ map, health = some map → ∀ name,
    match map.lookup name with
    | none => outcomes name = []
    | some entry => ∃ start history, history.map Prod.fst = outcomes name ∧
        entry = recordProbes start history

variable {health : HealthMap} {outcomes : String → List Bool}

/-- Nothing was probed at the start. -/
theorem follows_spawn (names : List String) (now : ℕ) :
    (spawn names now).Follows fun _ => [] := by
  intro map hmap
  obtain rfl := Option.some.inj hmap
  have hfold : ∀ (names : List String) (map : AList fun _ : String => AdapterHealth),
      (∀ name entry, map.lookup name = some entry → entry = newHealth .down now) →
      ∀ name entry, (names.foldl (fun map name => map.insert name (newHealth .down now))
        map).lookup name = some entry → entry = newHealth .down now := by
    intro names
    induction names with
    | nil => exact fun _ h => h
    | cons first names ih =>
      intro map hfresh
      refine ih _ fun name entry hentry => ?_
      by_cases hname : name = first
      · rw [hname, AList.lookup_insert] at hentry
        exact (Option.some.inj hentry).symm
      · rw [AList.lookup_insert_ne hname] at hentry
        exact hfresh name entry hentry
  intro name
  split
  · rfl
  · next entry hentry =>
    exact ⟨now, [], rfl, hfold names ∅ (fun _ _ h => by cases h) name entry hentry⟩

/-- One more probe. -/
theorem Follows.probe (h : health.Follows outcomes) (name : String) (isUp : Bool) (now : ℕ) :
    (health.probe name isUp now).Follows
      (Function.update outcomes name (outcomes name ++ [isUp])) := by
  intro map' hmap' name'
  obtain ⟨map, rfl, rfl⟩ := Option.map_eq_some_iff.mp hmap'
  have hold := h map rfl
  by_cases hname : name' = name
  · subst hname
    rw [AList.lookup_insert, Function.update_self]
    have hname' := hold name'
    cases hentry : map.lookup name' with
    | none =>
      rw [hentry] at hname'
      exact ⟨now, [(isUp, now)], by rw [hname']; rfl, rfl⟩
    | some entry =>
      rw [hentry] at hname'
      obtain ⟨start, history, houtcomes, rfl⟩ := hname'
      exact ⟨start, history ++ [(isUp, now)], by rw [← houtcomes]; simp,
        (recordProbes_append isUp now).symm⟩
  · rw [AList.lookup_insert_ne hname, Function.update_of_ne hname]
    exact hold name'

/-- **An adapter that is not down is usable**, with fewer than `2 ^ 32` failures since the last
success. -/
theorem Follows.usable (h : health.Follows outcomes) {name : String}
    (hcount : failuresSince (outcomes name) < 2 ^ 32) (hup : health.adapterDown name = false) :
    Usable (outcomes name) := by
  unfold adapterDown at hup
  split at hup
  · cases hup
  next map =>
  have hname := h map rfl name
  split at hup
  · cases hup
  next entry hentry =>
  rw [hentry] at hname
  obtain ⟨start, history, houtcomes, rfl⟩ := hname
  rw [← houtcomes] at hcount ⊢
  exact (status_recordProbes_ne_down_iff hcount).mp (of_decide_eq_false hup)

end HealthMap

end OlaCore
