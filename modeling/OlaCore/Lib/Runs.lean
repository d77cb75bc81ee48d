import Mathlib.Data.List.Basic

set_option relaxedAutoImplicit false
set_option autoImplicit false

/-!
# Runs of a system with outputs

A system is a partial step function: from a state, an operation leads to a next state with some
outputs, or is not enabled. A run is a sequence of operations from an initial state, each of
them allowed in the state it is taken from; `Allowed` is how assumptions about the environment
are stated.

## Main definitions

* `Runs.Run` — the runs from an initial state, with the outputs of all their steps.

## Main results

* `Runs.Run.invariant` — what every step keeps holds after every run.
* `Runs.Run.mono`, `Runs.Run.restrict` — runs with other assumptions about their steps.
-/

namespace Runs

variable {S Op E : Type*}

/-- `Run step Allowed s₀ ops s es`: the operations `ops`, taken one after another from `s₀` and
each allowed where it is taken, lead to `s` with the outputs `es`. -/
inductive Run (step : S → Op → Option (S × List E)) (Allowed : S → Op → Prop) (s₀ : S) :
    List Op → S → List E → Prop
  | nil : Run step Allowed s₀ [] s₀ []
  | snoc {ops : List Op} {s s' : S} {es fs : List E} (op : Op) :
      Run step Allowed s₀ ops s es → Allowed s op → step s op = some (s', fs) →
      Run step Allowed s₀ (ops ++ [op]) s' (es ++ fs)

variable {step : S → Op → Option (S × List E)} {Allowed : S → Op → Prop} {s₀ : S}

/-- **The invariant rule.** What holds at the start and is kept by every allowed step holds
after every run. The invariant may mention the operations taken and the outputs so far. -/
theorem Run.invariant {ops : List Op} {s : S} {es : List E} (Inv : List Op → S → List E → Prop)
    (hinit : Inv [] s₀ [])
    (hstep : ∀ ops s es op s' fs, Inv ops s es → Allowed s op → step s op = some (s', fs) →
      Inv (ops ++ [op]) s' (es ++ fs))
    (h : Run step Allowed s₀ ops s es) : Inv ops s es := by
  induction h with
  | nil => exact hinit
  | snoc op _ hallowed hs ih => exact hstep _ _ _ _ _ _ ih hallowed hs

/-- A run is one under weaker assumptions. -/
theorem Run.mono {Allowed' : S → Op → Prop} {ops : List Op} {s : S} {es : List E}
    (hmono : ∀ s op, Allowed s op → Allowed' s op) (h : Run step Allowed s₀ ops s es) :
    Run step Allowed' s₀ ops s es := by
  induction h with
  | nil => exact .nil
  | snoc op _ hallowed hs ih => exact ih.snoc op (hmono _ _ hallowed) hs

/-- **The rule of lasting damage.** Suppose that a step outside `B` does damage, and that no step
repairs it. Then the steps of a run without damage at its end were all in `B`. -/
theorem Run.restrict {B : S → Op → Prop} {Damaged : S → Prop} {ops : List Op} {s : S} {es : List E}
    (hdamage : ∀ s op s' fs, Allowed s op → ¬ B s op → step s op = some (s', fs) → Damaged s')
    (hlasts : ∀ s op s' fs, Allowed s op → step s op = some (s', fs) → Damaged s → Damaged s')
    (h : Run step Allowed s₀ ops s es) (hend : ¬ Damaged s) :
    Run step (fun s op => Allowed s op ∧ B s op) s₀ ops s es := by
  induction h with
  | nil => exact .nil
  | @snoc ops s s' es fs op _ hallowed hs ih =>
    have hbefore := ih fun hdamaged => hend (hlasts s op s' fs hallowed hs hdamaged)
    have hB : B s op := by
      by_contra hno
      exact hend (hdamage s op s' fs hallowed hno hs)
    exact hbefore.snoc op ⟨hallowed, hB⟩ hs

end Runs
