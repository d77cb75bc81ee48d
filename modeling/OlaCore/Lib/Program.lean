import Mathlib.Logic.Function.Basic
import Mathlib.Data.List.Basic

set_option relaxedAutoImplicit false
set_option autoImplicit false

/-!
# Programs over a shared world

A program is a tree of operations: each node calls an operation and continues with its answer.
A `step` relation says which answers an operation may give in a world and which world it leaves.

A trace of one program lists its calls with the worlds around them. The worlds of consecutive
calls are unrelated: anything may happen between two calls. So what holds of every trace holds
under every interference. An execution of a system interleaves the calls of many programs over
one world, with steps of the environment in between, and records a history.

## Main definitions

* `Program.Prog` — programs, a monad.
* `Program.Steps`, `Program.Traces` — partial and complete executions of one program.
* `Program.Completes` — the existence of an execution with a given end.
* `Program.Exec` — executions of a family of programs over one world.
* `Program.Prog.Returns` — what a program returns.
* `Program.Prog.Avoids`, `Program.Prog.Ends` — which operations a program calls, and with which
  one it ends.
* `Program.recordStep`, `Program.recordEnv` — a world that remembers the steps of the environment.

## Main results

* `Program.traces_bind`, `Program.steps_bind` — the executions of a sequential composition.
* `Program.Prog.Ends.steps`, `Program.Prog.Ends.traces` — a program that ends with one call of a
  kind makes no other call of that kind.
* `Program.Exec.project`, `Program.Exec.ret_split` — the history of a system, seen from one of its
  programs.
* `Program.Exec.take`, `Program.Exec.at_call` — the system at an earlier moment.
* `Program.Exec.append_steps` — one program of a system runs alone for a while.
* `Program.exists_matching_of_split`, `Program.Exec.exists_matching` — the calls and the returns of
  a system are matched with earlier calls.
* `Program.Exec.world_invariant` — an invariant of the world.
* `Program.Exec.recorded` — every execution is one of a world that remembers.
-/

namespace Program

/-- Programs that call operations from `Op`, with answers in `Ans`, and return an `α`. -/
inductive Prog (Op : Type) (Ans : Op → Type) (α : Type) where
  | pure (a : α)
  | op (o : Op) (k : Ans o → Prog Op Ans α)

variable {Op : Type} {Ans : Op → Type} {α β : Type}

/-- Sequential composition. -/
def Prog.bind : Prog Op Ans α → (α → Prog Op Ans β) → Prog Op Ans β
  | .pure a, f => f a
  | .op o k, f => .op o fun x => (k x).bind f

instance : Monad (Prog Op Ans) where
  pure := Prog.pure
  bind := Prog.bind

/-- Call one operation. -/
def call (o : Op) : Prog Op Ans (Ans o) := .op o .pure

/-- A call of an operation: its answer and the worlds before and after it. -/
structure Event (W Op : Type) (Ans : Op → Type) where
  before : W
  op : Op
  answer : Ans op
  after : W

/-- The operation and its answer. -/
def Event.label {W : Type} (e : Event W Op Ans) : Sigma Ans := ⟨e.op, e.answer⟩

/-! ## Executions of one program -/

section Traces

variable {W : Type} (step : W → (o : Op) → Ans o → W → Prop)

/-- `Steps step p tr q`: the calls in `tr` take the program `p` to the program `q`. -/
inductive Steps : Prog Op Ans α → List (Event W Op Ans) → Prog Op Ans α → Prop
  | refl (p : Prog Op Ans α) : Steps p [] p
  | head {o : Op} {k : Ans o → Prog Op Ans α} {w w' : W} {a : Ans o} {tr : List (Event W Op Ans)}
      {q : Prog Op Ans α} : step w o a w' → Steps (k a) tr q →
      Steps (.op o k) (⟨w, o, a, w'⟩ :: tr) q

/-- `Traces step p tr a`: the program `p` makes the calls `tr` and returns `a`. -/
def Traces (p : Prog Op Ans α) (tr : List (Event W Op Ans)) (a : α) : Prop :=
  Steps step p tr (.pure a)

variable {step}

/-- A program that returns makes no call. -/
theorem traces_pure {a b : α} {tr : List (Event W Op Ans)} :
    Traces step (Pure.pure a : Prog Op Ans α) tr b ↔ tr = [] ∧ b = a := by
  constructor
  · intro h
    cases h
    exact ⟨rfl, rfl⟩
  · rintro ⟨rfl, rfl⟩
    exact .refl _

/-- A program that returns makes no call. -/
theorem notMem_of_traces_pure {a b : α} {tr : List (Event W Op Ans)} {e : Event W Op Ans}
    (h : Traces step (Pure.pure a : Prog Op Ans α) tr b) : e ∉ tr := by
  rw [(traces_pure.mp h).1]
  exact List.not_mem_nil

/-- The traces of a program that starts with a call. -/
theorem traces_op {o : Op} {k : Ans o → Prog Op Ans α} {tr : List (Event W Op Ans)} {b : α} :
    Traces step (.op o k) tr b ↔ ∃ w a w' tr', tr = ⟨w, o, a, w'⟩ :: tr' ∧ step w o a w' ∧
      Traces step (k a) tr' b := by
  constructor
  · intro h
    cases h with
    | head hs ht => exact ⟨_, _, _, _, rfl, hs, ht⟩
  · rintro ⟨w, a, w', tr', rfl, hs, ht⟩
    exact .head hs ht

/-- **The traces of a sequential composition** are a trace of the first program followed by a
trace of the second one. -/
theorem traces_bind {p : Prog Op Ans α} {f : α → Prog Op Ans β} {tr : List (Event W Op Ans)}
    {b : β} : Traces step (p >>= f) tr b ↔
      ∃ tr₁ a tr₂, tr = tr₁ ++ tr₂ ∧ Traces step p tr₁ a ∧ Traces step (f a) tr₂ b := by
  induction p generalizing tr with
  | pure a =>
    constructor
    · intro h
      exact ⟨[], a, tr, rfl, .refl _, h⟩
    · rintro ⟨tr₁, a', tr₂, rfl, h₁, h₂⟩
      cases h₁
      exact h₂
  | op o k ih =>
    constructor
    · intro h
      obtain ⟨w, x, w', tr', rfl, hs, ht⟩ := traces_op.mp h
      obtain ⟨tr₁, a, tr₂, rfl, h₁, h₂⟩ := (ih x).mp ht
      exact ⟨_ :: tr₁, a, tr₂, rfl, .head hs h₁, h₂⟩
    · rintro ⟨tr₁, a, tr₂, rfl, h₁, h₂⟩
      obtain ⟨w, x, w', tr', rfl, hs, ht⟩ := traces_op.mp h₁
      exact traces_op.mpr ⟨w, x, w', tr' ++ tr₂, rfl, hs, (ih x).mpr ⟨tr', a, tr₂, rfl, ht, h₂⟩⟩

/-- A composition goes on with the second program after a trace of the first one. -/
theorem steps_bind_iff {p : Prog Op Ans α} {f : α → Prog Op Ans β} {tr₁ tr₂ : List (Event W Op Ans)}
    {a : α} {q : Prog Op Ans β} (h : Traces step p tr₁ a) :
    Steps step (p >>= f) (tr₁ ++ tr₂) q ↔ Steps step (f a) tr₂ q := by
  induction p generalizing tr₁ with
  | pure b =>
    obtain ⟨rfl, rfl⟩ := traces_pure.mp h
    exact Iff.rfl
  | op o k ih =>
    obtain ⟨w, x, w', tr, rfl, hs, ht⟩ := traces_op.mp h
    rw [← ih x ht]
    constructor
    · intro hsteps
      cases hsteps with
      | head _ hrest => exact hrest
    · exact fun hrest => .head hs hrest

/-- **A partial execution of a sequential composition** has not finished the first program, or is a
trace of it followed by a partial execution of the second one. -/
theorem steps_bind {p : Prog Op Ans α} {f : α → Prog Op Ans β} {tr : List (Event W Op Ans)}
    {q : Prog Op Ans β} (h : Steps step (p >>= f) tr q) :
    (∃ o k, Steps step p tr (.op o k) ∧ q = .op o fun x => k x >>= f) ∨
      ∃ tr₁ a tr₂, tr = tr₁ ++ tr₂ ∧ Traces step p tr₁ a ∧ Steps step (f a) tr₂ q := by
  induction p generalizing tr with
  | pure a => exact .inr ⟨[], a, tr, rfl, .refl _, h⟩
  | op o k ih =>
    cases h with
    | refl => exact .inl ⟨o, k, .refl _, rfl⟩
    | head hs ht =>
      rcases ih _ ht with ⟨o', k', hsteps, rfl⟩ | ⟨tr₁, a, tr₂, rfl, h₁, h₂⟩
      · exact .inl ⟨o', k', .head hs hsteps, rfl⟩
      · exact .inr ⟨_ :: tr₁, a, tr₂, rfl, .head hs h₁, h₂⟩

/-- A partial execution of a program that returns. -/
theorem steps_pure {a : α} {tr : List (Event W Op Ans)} {q : Prog Op Ans α}
    (h : Steps step (Pure.pure a : Prog Op Ans α) tr q) : tr = [] ∧ q = .pure a := by
  cases h
  exact ⟨rfl, rfl⟩

/-- A partial execution of a call and the program for its answer. -/
theorem steps_call_bind {o : Op} {f : Ans o → Prog Op Ans β} {tr : List (Event W Op Ans)}
    {q : Prog Op Ans β} (h : Steps step (call o >>= f) tr q) :
    (tr = [] ∧ q = .op o f) ∨ ∃ w a w' tr', tr = ⟨w, o, a, w'⟩ :: tr' ∧ step w o a w' ∧
      Steps step (f a) tr' q := by
  cases h with
  | refl => exact .inl ⟨rfl, rfl⟩
  | head hs ht => exact .inr ⟨_, _, _, _, rfl, hs, ht⟩

/-- A call, and then the program for its answer. -/
theorem traces_call_bind {o : Op} {f : Ans o → Prog Op Ans β} {tr : List (Event W Op Ans)} {b : β} :
    Traces step (call o >>= f) tr b ↔ ∃ w a w' tr', tr = ⟨w, o, a, w'⟩ :: tr' ∧ step w o a w' ∧
      Traces step (f a) tr' b :=
  traces_op

/-- Some execution of the program ends with the calls `tr` and returns `a`. -/
def Completes (step : W → (o : Op) → Ans o → W → Prop) (p : Prog Op Ans α)
    (tr : List (Event W Op Ans)) (a : α) : Prop :=
  ∃ tr₀, Traces step p (tr₀ ++ tr) a

/-- A program that returns can complete. -/
theorem completes_pure {a b : α} (h : b = a) :
    Completes step (Pure.pure a : Prog Op Ans α) [] b :=
  ⟨[], traces_pure.mpr ⟨rfl, h⟩⟩

/-- A composition can complete if its parts can. -/
theorem completes_bind {p : Prog Op Ans α} {f : α → Prog Op Ans β} {a : α} {b : β}
    {tr : List (Event W Op Ans)} (hp : Completes step p [] a) (hf : Completes step (f a) tr b) :
    Completes step (p >>= f) tr b := by
  obtain ⟨tr₁, h₁⟩ := hp
  obtain ⟨tr₂, h₂⟩ := hf
  exact ⟨tr₁ ++ [] ++ tr₂, traces_bind.mpr ⟨_, a, _, List.append_assoc _ _ _, h₁, h₂⟩⟩

/-- A call may be answered in any way that the step relation allows. -/
theorem completes_call_bind (w : W) (o : Op) (a : Ans o) {w' : W} {f : Ans o → Prog Op Ans β}
    {b : β} {tr : List (Event W Op Ans)} (hs : step w o a w') (hf : Completes step (f a) tr b) :
    Completes step (call o >>= f) tr b :=
  hf.imp' (⟨w, o, a, w'⟩ :: ·) fun _ => .head hs

/-- The last call. -/
theorem completes_last {w w' : W} {o : Op} {a : Ans o} {f : Ans o → Prog Op Ans β} {b : β}
    (hs : step w o a w') (hf : f a = Pure.pure b) :
    Completes step (call o >>= f) [⟨w, o, a, w'⟩] b :=
  ⟨[], .head hs (by change Steps step (f a) [] _; rw [hf]; exact .refl _)⟩

/-- One more call at the end. -/
theorem Steps.snoc {p : Prog Op Ans α} {tr : List (Event W Op Ans)} {o : Op}
    {k : Ans o → Prog Op Ans α} (h : Steps step p tr (.op o k)) {w w' : W} {a : Ans o}
    (hs : step w o a w') : Steps step p (tr ++ [⟨w, o, a, w'⟩]) (k a) := by
  generalize hq : Prog.op o k = q at h
  induction h with
  | refl p =>
    subst hq
    exact .head hs (.refl _)
  | head hs' _ ih => exact .head hs' (ih hq)

/-- Every call of an execution is a step. -/
theorem Steps.step_of_mem {p q : Prog Op Ans α} {tr : List (Event W Op Ans)}
    (h : Steps step p tr q) : ∀ e ∈ tr, step e.before e.op e.answer e.after := by
  induction h with
  | refl p => exact List.forall_mem_nil _
  | head hs _ ih => exact List.forall_mem_cons.mpr ⟨hs, ih⟩

/-- An execution, stopped in between. -/
theorem Steps.split {p q : Prog Op Ans α} {tr₁ tr₂ : List (Event W Op Ans)}
    (h : Steps step p (tr₁ ++ tr₂) q) : ∃ p₁, Steps step p tr₁ p₁ ∧ Steps step p₁ tr₂ q := by
  induction tr₁ generalizing p with
  | nil => exact ⟨p, .refl p, h⟩
  | cons e tr₁ ih =>
    cases h with
    | head hs hrest =>
      obtain ⟨p₁, h₁, h₂⟩ := ih hrest
      exact ⟨p₁, .head hs h₁, h₂⟩

end Traces

/-! ## Which operations a program calls -/

/-- No path of the program calls an operation of the kind `P`. -/
def Prog.Avoids (P : Op → Prop) : Prog Op Ans α → Prop
  | .pure _ => True
  | .op o k => ¬ P o ∧ ∀ a, (k a).Avoids P

/-- Every path of the program calls exactly one operation of the kind `P`, as its last call, and
returns a value that is related to that call by `Q`. -/
def Prog.Ends (P : Op → Prop) (Q : (o : Op) → Ans o → α → Prop) : Prog Op Ans α → Prop
  | .pure _ => False
  | .op o k => (P o ∧ ∀ a, ∃ r, k a = .pure r ∧ Q o a r) ∨ (¬ P o ∧ ∀ a, (k a).Ends P Q)

/-- Every value that the program may return satisfies `R`. -/
def Prog.Returns (R : α → Prop) : Prog Op Ans α → Prop
  | .pure a => R a
  | .op _ k => ∀ a, (k a).Returns R

section Returns

variable {R : α → Prop}

/-- A program that returns a value. -/
theorem returns_pure {a : α} (h : R a) : (Pure.pure a : Prog Op Ans α).Returns R := h

/-- A composition returns what its second program returns. -/
theorem returns_bind {S : β → Prop} {p : Prog Op Ans β} {f : β → Prog Op Ans α} (hp : p.Returns S)
    (hf : ∀ b, S b → (f b).Returns R) : (p >>= f).Returns R := by
  induction p with
  | pure b => exact hf b hp
  | op o k ih => exact fun a => ih a (hp a)

/-- A composition whose second program always returns a value of the kind. -/
theorem returns_bind_of_forall {p : Prog Op Ans β} {f : β → Prog Op Ans α}
    (hf : ∀ b, (f b).Returns R) : (p >>= f).Returns R := by
  induction p with
  | pure b => exact hf b
  | op o k ih => exact fun a => ih a

/-- The value of a trace. -/
theorem Prog.Returns.traces {W : Type} {step : W → (o : Op) → Ans o → W → Prop}
    {p : Prog Op Ans α} {tr : List (Event W Op Ans)} {a : α} (hp : p.Returns R)
    (h : Traces step p tr a) : R a := by
  unfold Traces at h
  generalize hq : Prog.pure a = q at h
  induction h with
  | refl p =>
    subst hq
    exact hp
  | head _ _ ih => exact ih (hp _) hq

end Returns

section Kinds

variable {P : Op → Prop} {Q : (o : Op) → Ans o → α → Prop}

/-- A program that returns avoids every kind. -/
theorem avoids_pure (a : α) : (Pure.pure a : Prog Op Ans α).Avoids P := trivial

/-- One call of another kind. -/
theorem avoids_call {o : Op} (ho : ¬ P o) : (call o : Prog Op Ans (Ans o)).Avoids P :=
  ⟨ho, fun _ => trivial⟩

/-- A program that avoids a kind avoids a narrower one. -/
theorem Prog.Avoids.mono {P' : Op → Prop} {p : Prog Op Ans α} (hp : p.Avoids P)
    (h : ∀ o, P' o → P o) : p.Avoids P' := by
  induction p with
  | pure a => exact trivial
  | op o k ih => exact ⟨fun ho => hp.1 (h o ho), fun a => ih a (hp.2 a)⟩

/-- A composition of programs that avoid a kind avoids it. -/
theorem avoids_bind {p : Prog Op Ans β} {f : β → Prog Op Ans α} (hp : p.Avoids P)
    (hf : ∀ b, (f b).Avoids P) : (p >>= f).Avoids P := by
  induction p with
  | pure b => exact hf b
  | op o k ih => exact ⟨hp.1, fun a => ih a (hp.2 a)⟩

/-- A program that avoids a kind, followed by programs that end with it, ends with it. -/
theorem ends_bind {p : Prog Op Ans β} {f : β → Prog Op Ans α} (hp : p.Avoids P)
    (hf : ∀ b, (f b).Ends P Q) : (p >>= f).Ends P Q := by
  induction p with
  | pure b => exact hf b
  | op o k ih => exact .inr ⟨hp.1, fun a => ih a (hp.2 a)⟩

/-- So is a composition whose first program returns a value of some kind. -/
theorem ends_bind_of_returns {S : β → Prop} {p : Prog Op Ans β} {f : β → Prog Op Ans α}
    (hp : p.Avoids P) (hS : p.Returns S) (hf : ∀ b, S b → (f b).Ends P Q) :
    (p >>= f).Ends P Q := by
  induction p with
  | pure b => exact hf b hS
  | op o k ih => exact .inr ⟨hp.1, fun a => ih a (hp.2 a) (hS a)⟩

/-- A weaker relation between the last call and the value. -/
theorem Prog.Ends.mono {Q' : (o : Op) → Ans o → α → Prop} {p : Prog Op Ans α} (hp : p.Ends P Q)
    (h : ∀ o a r, Q o a r → Q' o a r) : p.Ends P Q' := by
  induction p with
  | pure a => exact hp
  | op o k ih =>
    rcases hp with ⟨ho, hk⟩ | ⟨ho, hk⟩
    · refine .inl ⟨ho, fun a => ?_⟩
      obtain ⟨r, hr, hq⟩ := hk a
      exact ⟨r, hr, h o a r hq⟩
    · exact .inr ⟨ho, fun a => ih a (hk a)⟩

variable {W : Type} {step : W → (o : Op) → Ans o → W → Prop}

/-- A program that avoids a kind makes no call of it. -/
theorem Prog.Avoids.steps {p q : Prog Op Ans α} {tr : List (Event W Op Ans)} (hp : p.Avoids P)
    (h : Steps step p tr q) : ∀ e ∈ tr, ¬ P e.op := by
  induction h with
  | refl p => simp
  | head hs ht ih => exact List.forall_mem_cons.mpr ⟨hp.1, ih (hp.2 _)⟩

/-- A call of a kind that the first program of a composition avoids is made by the second. -/
theorem traces_bind_of_mem {p : Prog Op Ans β} {f : β → Prog Op Ans α} (hp : p.Avoids P)
    {tr : List (Event W Op Ans)} {r : α} (h : Traces step (p >>= f) tr r) {e : Event W Op Ans}
    (he : e ∈ tr) (ho : P e.op) :
    ∃ tr₁ b tr₂, tr = tr₁ ++ tr₂ ∧ Traces step p tr₁ b ∧ Traces step (f b) tr₂ r ∧ e ∈ tr₂ := by
  obtain ⟨tr₁, b, tr₂, rfl, h₁, h₂⟩ := traces_bind.mp h
  refine ⟨tr₁, b, tr₂, rfl, h₁, h₂, (List.mem_append.mp he).resolve_left fun hmem => ?_⟩
  exact hp.steps h₁ e hmem ho

/-- A partial execution of a program that ends with one call of the kind `P` makes at most one
such call; after it, the program has returned. -/
theorem Prog.Ends.steps {p q : Prog Op Ans α} {tr : List (Event W Op Ans)} (hp : p.Ends P Q)
    (h : Steps step p tr q) :
    (∀ e ∈ tr, ¬ P e.op) ∧ q.Ends P Q ∨
      ∃ tr' e r, tr = tr' ++ [e] ∧ (∀ e' ∈ tr', ¬ P e'.op) ∧ P e.op ∧
        step e.before e.op e.answer e.after ∧ Q e.op e.answer r ∧ q = .pure r := by
  induction h with
  | refl p => exact .inl ⟨by simp, hp⟩
  | @head o k w w' a tr q hs ht ih =>
    rcases hp with ⟨ho, hk⟩ | ⟨ho, hk⟩
    · obtain ⟨r, hr, hq⟩ := hk a
      rw [hr] at ht
      cases ht
      exact .inr ⟨[], ⟨w, o, a, w'⟩, r, rfl, by simp, ho, hs, hq, rfl⟩
    · rcases ih (hk a) with ⟨hno, hq⟩ | ⟨tr', e, r, rfl, hno, he, hstep, hq, rfl⟩
      · exact .inl ⟨List.forall_mem_cons.mpr ⟨ho, hno⟩, hq⟩
      · exact .inr ⟨_ :: tr', e, r, rfl, List.forall_mem_cons.mpr ⟨ho, hno⟩, he, hstep, hq, rfl⟩

/-- A complete execution of such a program ends with its only call of the kind `P`. -/
theorem Prog.Ends.traces {p : Prog Op Ans α} {tr : List (Event W Op Ans)} {r : α} (hp : p.Ends P Q)
    (h : Traces step p tr r) :
    ∃ tr' e, tr = tr' ++ [e] ∧ (∀ e' ∈ tr', ¬ P e'.op) ∧ P e.op ∧
      step e.before e.op e.answer e.after ∧ Q e.op e.answer r := by
  obtain ⟨-, hq⟩ | ⟨tr', e, r', htr, hno, he, hstep, hq, heq⟩ := hp.steps h
  · exact hq.elim
  · obtain rfl := Prog.pure.inj heq
    exact ⟨tr', e, htr, hno, he, hstep, hq⟩

/-- Every call of the kind `P` in a complete execution is related to the value. -/
theorem Prog.Ends.of_mem {p : Prog Op Ans α} {tr : List (Event W Op Ans)} {r : α}
    (hp : p.Ends P Q) (h : Traces step p tr r) {e : Event W Op Ans} (he : e ∈ tr) (ho : P e.op) :
    Q e.op e.answer r := by
  obtain ⟨tr', e', rfl, hno, -, -, hq⟩ := hp.traces h
  rcases List.mem_append.mp he with hmem | hmem
  · exact absurd ho (hno e hmem)
  · rwa [List.mem_singleton.mp hmem]

end Kinds

/-! ## Systems of programs -/

/-- What a history records: a call made by a program, or the value that a program returned. -/
inductive Entry (W Op : Type) (Ans : Op → Type) (α : Type) where
  | step (i : ℕ) (e : Event W Op Ans)
  | ret (i : ℕ) (r : α)

/-- The calls of program `i`. -/
def Entry.callOf {W : Type} (i : ℕ) : Entry W Op Ans α → Option (Event W Op Ans)
  | .step j e => if j = i then some e else none
  | .ret _ _ => none

/-- `Exec step env prog w₀ w procs H`: from the world `w₀`, the programs `prog 0, prog 1, …` have
been executed in some interleaving, with steps of the environment in between, up to the world `w`
and the remaining programs `procs`; `H` is the history, oldest entry first. -/
inductive Exec {W : Type} (step : W → (o : Op) → Ans o → W → Prop) (env : W → W → Prop)
    (prog : ℕ → Prog Op Ans α) (w₀ : W) :
    W → (ℕ → Prog Op Ans α) → List (Entry W Op Ans α) → Prop
  | start : Exec step env prog w₀ w₀ prog []
  | call {w w' : W} {procs : ℕ → Prog Op Ans α} {H : List (Entry W Op Ans α)} {i : ℕ} {o : Op}
      {k : Ans o → Prog Op Ans α} {a : Ans o} : Exec step env prog w₀ w procs H →
      procs i = .op o k → step w o a w' →
      Exec step env prog w₀ w' (Function.update procs i (k a)) (H ++ [.step i ⟨w, o, a, w'⟩])
  | ret {w : W} {procs : ℕ → Prog Op Ans α} {H : List (Entry W Op Ans α)} {i : ℕ} {r : α} :
      Exec step env prog w₀ w procs H → procs i = .pure r → (∀ r', .ret i r' ∉ H) →
      Exec step env prog w₀ w procs (H ++ [.ret i r])
  | environment {w w' : W} {procs : ℕ → Prog Op Ans α} {H : List (Entry W Op Ans α)} :
      Exec step env prog w₀ w procs H → env w w' → Exec step env prog w₀ w' procs H

section Exec

variable {W : Type} {step : W → (o : Op) → Ans o → W → Prop} {env : W → W → Prop}
  {prog procs : ℕ → Prog Op Ans α} {w₀ w : W} {H : List (Entry W Op Ans α)}

/-- The calls of one program in a history are a partial execution of it. -/
theorem Exec.project (h : Exec step env prog w₀ w procs H) (i : ℕ) :
    Steps step (prog i) (H.filterMap (Entry.callOf i)) (procs i) := by
  induction h with
  | start => exact .refl _
  | @call w w' procs H j o k a _ hj hs ih =>
    rw [List.filterMap_append]
    by_cases hij : j = i
    · subst hij
      rw [hj] at ih
      simpa [Entry.callOf] using ih.snoc hs
    · simpa [Entry.callOf, hij, Function.update_of_ne (Ne.symm hij)] using ih
  | ret _ _ _ ih => simpa [List.filterMap_append, List.filterMap_cons, Entry.callOf] using ih
  | environment _ _ ih => exact ih

/-- A program that has returned has nothing left to do. -/
theorem Exec.procs_of_ret (h : Exec step env prog w₀ w procs H) {i : ℕ} {r : α}
    (hr : .ret i r ∈ H) : procs i = .pure r := by
  induction h with
  | start => cases hr
  | @call w w' procs H j o k a _ hj _ ih =>
    have hi : procs i = .pure r := ih (by simpa using hr)
    have hij : i ≠ j := by
      rintro rfl
      rw [hi] at hj
      cases hj
    rw [Function.update_of_ne hij, hi]
  | @ret w procs H j r' _ hj _ ih =>
    rcases List.mem_append.mp hr with hr | hr
    · exact ih hr
    · obtain ⟨rfl, rfl⟩ := Entry.ret.inj (List.mem_singleton.mp hr)
      exact hj
  | environment _ _ ih => exact ih hr

/-- **A return in a history.** When a program returns, its calls so far are a complete trace of
it; afterwards it makes no call and does not return again. -/
theorem Exec.ret_split (h : Exec step env prog w₀ w procs H) {H₁ H₂ : List (Entry W Op Ans α)}
    {i : ℕ} {r : α} (hH : H = H₁ ++ .ret i r :: H₂) :
    Traces step (prog i) (H₁.filterMap (Entry.callOf i)) r ∧
      (∀ r', .ret i r' ∉ H₁) ∧ (∀ r', .ret i r' ∉ H₂) ∧ ∀ e, .step i e ∉ H₂ := by
  induction h generalizing H₂ with
  | start => simp at hH
  | @call w w' procs H j o k a hex hj _ ih =>
    rcases List.eq_nil_or_concat H₂ with rfl | ⟨H₃, x, rfl⟩
    · exact absurd (List.append_inj_right' hH rfl) (by simp)
    · rw [List.concat_eq_append, ← List.cons_append, ← List.append_assoc] at hH
      obtain ⟨rfl, hx⟩ := List.append_inj' hH rfl
      obtain ⟨ht, h₁, h₂, h₃⟩ := ih rfl
      have hij : j ≠ i := by
        rintro rfl
        rw [hex.procs_of_ret (r := r) (by simp)] at hj
        cases hj
      obtain rfl := (List.cons.inj hx).1
      exact ⟨ht, h₁, fun r' => by simpa using h₂ r', fun e => by simp [h₃ e, Ne.symm hij]⟩
  | @ret w procs H j r' hex hj hno ih =>
    rcases List.eq_nil_or_concat H₂ with rfl | ⟨H₃, x, rfl⟩
    · obtain ⟨rfl, hx⟩ := List.append_inj' hH rfl
      obtain ⟨rfl, rfl⟩ := Entry.ret.inj (List.cons.inj hx).1
      have hp := hex.project j
      rw [hj] at hp
      exact ⟨hp, hno, by simp, by simp⟩
    · rw [List.concat_eq_append, ← List.cons_append, ← List.append_assoc] at hH
      obtain ⟨rfl, hx⟩ := List.append_inj' hH rfl
      obtain ⟨ht, h₁, h₂, h₃⟩ := ih rfl
      have hij : j ≠ i := by
        rintro rfl
        exact hno r (by simp)
      obtain rfl := (List.cons.inj hx).1
      exact ⟨ht, h₁, fun r'' => by simp [h₂ r'', Ne.symm hij], fun e => by simpa using h₃ e⟩
  | environment _ _ ih => exact ih hH

/-- A history, split at a position. -/
theorem eq_take_append_cons_drop {k : ℕ} {x : Entry W Op Ans α} (hk : H[k]? = some x) :
    H = H.take k ++ x :: H.drop (k + 1) := by
  obtain ⟨hlt, rfl⟩ := List.getElem?_eq_some_iff.mp hk
  simp

/-- A history up to a position is the history of an execution. -/
theorem Exec.take (h : Exec step env prog w₀ w procs H) (n : ℕ) :
    ∃ w' procs', Exec step env prog w₀ w' procs' (H.take n) := by
  have hsnoc : ∀ (H : List (Entry W Op Ans α)) (x : Entry W Op Ans α) {v procs₁},
      Exec step env prog w₀ v procs₁ (H ++ [x]) →
      (∃ w' procs', Exec step env prog w₀ w' procs' (H.take n)) →
      ∃ w' procs', Exec step env prog w₀ w' procs' ((H ++ [x]).take n) := by
    intro H x v procs₁ hex ih
    by_cases hn : n ≤ H.length
    · rwa [List.take_append_of_le_length hn]
    · rw [List.take_of_length_le (by simp; omega)]
      exact ⟨v, procs₁, hex⟩
  induction h with
  | start =>
    rw [List.take_nil]
    exact ⟨_, _, .start⟩
  | call hex hi hs ih => exact hsnoc _ _ (hex.call hi hs) ih
  | ret hex hi hno ih => exact hsnoc _ _ (hex.ret hi hno) ih
  | environment _ _ ih => exact ih

/-- **A call in a history.** The system had reached the world before the call with the history so
far, and the call was a step of it. -/
theorem Exec.at_call (h : Exec step env prog w₀ w procs H) {H₁ H₂ : List (Entry W Op Ans α)}
    {i : ℕ} {e : Event W Op Ans} (hH : H = H₁ ++ .step i e :: H₂) :
    ∃ procs₁, Exec step env prog w₀ e.before procs₁ H₁ ∧
      step e.before e.op e.answer e.after := by
  induction h generalizing H₂ with
  | start => simp at hH
  | @call w w' procs H j o k a hex hj hs ih =>
    rcases List.eq_nil_or_concat H₂ with rfl | ⟨H₃, x, rfl⟩
    · obtain ⟨rfl, hx⟩ := List.append_inj' hH rfl
      obtain ⟨rfl, rfl⟩ := Entry.step.inj (List.cons.inj hx).1
      exact ⟨procs, hex, hs⟩
    · rw [List.concat_eq_append, ← List.cons_append, ← List.append_assoc] at hH
      exact ih (List.append_inj' hH rfl).1
  | @ret w procs H j r hex hj hno ih =>
    rcases List.eq_nil_or_concat H₂ with rfl | ⟨H₃, x, rfl⟩
    · exact absurd (List.append_inj_right' hH rfl) (by simp)
    · rw [List.concat_eq_append, ← List.cons_append, ← List.append_assoc] at hH
      exact ih (List.append_inj' hH rfl).1
  | environment _ _ ih => exact ih hH

/-- The calls of a program in a history. -/
theorem mem_filterMap_callOf {i : ℕ} {e : Event W Op Ans} :
    e ∈ H.filterMap (Entry.callOf i) ↔ .step i e ∈ H := by
  simp only [List.mem_filterMap]
  constructor
  · rintro ⟨x, hx, he⟩
    cases x with
    | step j e' =>
      simp only [Entry.callOf] at he
      split at he
      · next hij =>
        obtain rfl := Option.some.inj he
        rwa [← hij]
      · cases he
    | ret j r => cases he
  · intro he
    exact ⟨_, he, by simp [Entry.callOf]⟩

/-- A call of a program, as a call in the history. -/
theorem exists_split_of_filterMap_callOf {i : ℕ} {l l' : List (Event W Op Ans)}
    {e : Event W Op Ans} (h : H.filterMap (Entry.callOf i) = l ++ e :: l') :
    ∃ H₁ H₂, H = H₁ ++ .step i e :: H₂ ∧ H₁.filterMap (Entry.callOf i) = l := by
  obtain ⟨H₁, H₂, rfl, rfl, h₂⟩ := List.filterMap_eq_append_iff.mp h
  obtain ⟨H₃, x, H₄, rfl, hno, hx, -⟩ := List.filterMap_eq_cons_iff.mp h₂
  have hstep : x = .step i e := by
    cases x with
    | step j e' =>
      simp only [Entry.callOf] at hx
      split at hx
      · next hij => rw [hij, Option.some.inj hx]
      · cases hx
    | ret j r => cases hx
  refine ⟨H₁ ++ H₃, H₄, by rw [hstep, List.append_assoc], ?_⟩
  rw [List.filterMap_append, List.filterMap_eq_nil_iff.mpr hno, List.append_nil]

/-- The calls of a program that runs alone. -/
@[simp] theorem filterMap_callOf_map_step {i : ℕ} {tr : List (Event W Op Ans)} :
    (tr.map (Entry.step i : _ → Entry W Op Ans α)).filterMap (Entry.callOf i) = tr := by
  induction tr with
  | nil => rfl
  | cons e tr ih => simpa [Entry.callOf] using ih

/-- **Calls are matched with earlier calls of the same program.** Suppose that before every call of
the kind `K`, its program has made a call which is related to it, and none of the kind `K` since.
Then the calls of the kind `K` are matched one-to-one with such calls. -/
theorem exists_matching_of_split {K : Op → Prop}
    {R : List (Entry W Op Ans α) → ℕ → Event W Op Ans → Event W Op Ans → Prop}
    (h : ∀ H₁ i e H₂, H = H₁ ++ .step i e :: H₂ → K e.op → ∃ l e' l',
      H₁.filterMap (Entry.callOf i) = l ++ e' :: l' ∧ (∀ x ∈ l', ¬ K x.op) ∧ R H₁ i e' e) :
    ∃ f : ℕ → ℕ,
      (∀ (j i : ℕ) (e : Event W Op Ans), H[j]? = some (.step i e) → K e.op →
        f j < j ∧ ∃ e', H[f j]? = some (.step i e') ∧ R (H.take j) i e' e) ∧
      ∀ (j j' i i' : ℕ) (e e' : Event W Op Ans), H[j]? = some (.step i e) → K e.op →
        H[j']? = some (.step i' e') → K e'.op → f j = f j' → j = j' := by
  have hcall : ∀ j : ℕ, ∃ k : ℕ, ∀ (i : ℕ) (e : Event W Op Ans), H[j]? = some (.step i e) →
      K e.op → k < j ∧ (∃ e', H[k]? = some (.step i e') ∧ R (H.take j) i e' e) ∧
        ∀ (n : ℕ) (x : Event W Op Ans), k < n → n < j → H[n]? = some (.step i x) → ¬ K x.op := by
    intro j
    by_cases hj : ∃ i e, H[j]? = some (.step i e) ∧ K e.op
    · obtain ⟨i, e, hj, hK⟩ := hj
      obtain ⟨l, e', l', hcalls, hno, hR⟩ := h _ i e _ (eq_take_append_cons_drop hj) hK
      obtain ⟨H₁, H₂, htake, hl⟩ := exists_split_of_filterMap_callOf hcalls
      have hlater : H₂.filterMap (Entry.callOf i) = l' := by
        rw [htake, List.filterMap_append, hl] at hcalls
        simpa [Entry.callOf] using List.append_cancel_left hcalls
      have hget : ∀ (n : ℕ) (x : Entry W Op Ans α), n < j → (H[n]? = some x ↔
          (H₁ ++ .step i e' :: H₂)[n]? = some x) := by
        intro n x hn
        rw [← htake, List.getElem?_take, if_pos hn]
      have hlen : H₁.length < j := by
        have hlt := (List.getElem?_eq_some_iff.mp hj).1
        have hsum := congrArg List.length htake
        rw [List.length_take, List.length_append, List.length_cons] at hsum
        omega
      refine ⟨H₁.length, fun i' x hj' _ => ?_⟩
      obtain ⟨rfl, rfl⟩ := Entry.step.inj (Option.some.inj (hj.symm.trans hj'))
      refine ⟨hlen, ⟨e', (hget _ _ hlen).mpr (by simp), hR⟩, fun n y hlt hn hy => hno y ?_⟩
      -- The call is one of those after the related call.
      rw [← hlater, mem_filterMap_callOf, List.mem_iff_getElem?]
      have hn' := (hget n _ hn).mp hy
      rw [List.getElem?_append_right (Nat.le_of_lt hlt), List.getElem?_cons] at hn'
      rw [if_neg (by omega)] at hn'
      exact ⟨_, hn'⟩
    · exact ⟨0, fun i e hj' hK => absurd ⟨i, e, hj', hK⟩ hj⟩
  choose f hf using hcall
  refine ⟨f, fun j i e hj hK => ?_, fun j j' i i' e e' hj hK hj' hK' hff => ?_⟩
  · obtain ⟨hlt, hmatched, -⟩ := hf j i e hj hK
    exact ⟨hlt, hmatched⟩
  · obtain ⟨hlt, ⟨x, hx, -⟩, hno⟩ := hf j i e hj hK
    obtain ⟨hlt', ⟨x', hx', -⟩, hno'⟩ := hf j' i' e' hj' hK'
    rw [hff, hx'] at hx
    obtain ⟨rfl, -⟩ := Entry.step.inj (Option.some.inj hx)
    -- Of two calls that are matched with the same call, the first one lies in between.
    rcases Nat.lt_trichotomy j j' with hjj | rfl | hjj
    · exact absurd hK (hno' j e (hff ▸ hlt) hjj hj)
    · rfl
    · exact absurd hK' (hno j' e' (hff ▸ hlt') hjj hj')

/-- The worlds of the calls follow one another, from the first world to the last one. -/
def Linked : W → List (Event W Op Ans) → W → Prop
  | w, [], w' => w = w'
  | w, e :: tr, w' => e.before = w ∧ Linked e.after tr w'

/-- Calls that follow one another, and then more of them. -/
theorem linked_append {w w' w'' : W} {tr tr' : List (Event W Op Ans)} (h : Linked w tr w')
    (h' : Linked w' tr' w'') : Linked w (tr ++ tr') w'' := by
  induction tr generalizing w with
  | nil =>
    obtain rfl : w = w' := h
    exact h'
  | cons e tr ih => exact ⟨h.1, ih h.2⟩

/-- Calls that follow one another still do in other worlds. -/
theorem linked_map {W' Op' : Type} {Ans' : Op' → Type} {f : Event W Op Ans → Event W' Op' Ans'}
    {g : W → W'} (hbefore : ∀ e, (f e).before = g e.before) (hafter : ∀ e, (f e).after = g e.after)
    {w w' : W} {tr : List (Event W Op Ans)} (h : Linked w tr w') :
    Linked (g w) (tr.map f) (g w') := by
  induction tr generalizing w with
  | nil => exact congrArg g h
  | cons e tr ih => exact ⟨by rw [hbefore, h.1], by rw [hafter]; exact ih h.2⟩

/-- One program of the system makes some calls, without any interference. -/
theorem Exec.append_steps {p q : Prog Op Ans α} {tr : List (Event W Op Ans)}
    (hs : Steps step p tr q) {w w' : W} {procs : ℕ → Prog Op Ans α}
    {H : List (Entry W Op Ans α)} {i : ℕ} (h : Exec step env prog w₀ w procs H)
    (hp : procs i = p) (hlinked : Linked w tr w') :
    Exec step env prog w₀ w' (Function.update procs i q) (H ++ tr.map (.step i)) := by
  induction hs generalizing w procs H with
  | refl p =>
    obtain rfl : w = w' := hlinked
    rw [← hp, Function.update_eq_self, List.map_nil, List.append_nil]
    exact h
  | @head o k v v' a tr q hstep _ ih =>
    obtain ⟨rfl, hlinked⟩ : v = w ∧ Linked v' tr w' := hlinked
    have hnext := ih (h.call hp hstep) (Function.update_self ..) hlinked
    rw [Function.update_idem] at hnext
    simpa using hnext

/-! ### Systems whose programs end with a call of a kind -/

section Ends

variable {P : Op → Prop} {Q : ℕ → (o : Op) → Ans o → α → Prop}

/-- No program makes more than one call of the kind `P`. -/
theorem Exec.countP_le_one [DecidablePred P] (hprog : ∀ i, (prog i).Ends P (Q i))
    (h : Exec step env prog w₀ w procs H) (i : ℕ) :
    (H.filterMap (Entry.callOf i)).countP (fun e => P e.op) ≤ 1 := by
  have hzero : ∀ tr : List (Event W Op Ans), (∀ e ∈ tr, ¬ P e.op) →
      tr.countP (fun e => P e.op) = 0 := fun tr hno => List.countP_eq_zero.mpr (by simpa using hno)
  rcases (hprog i).steps (h.project i) with ⟨hno, -⟩ | ⟨tr, e, -, heq, hno, -⟩
  · rw [hzero _ hno]
    exact Nat.zero_le 1
  · rw [heq, List.countP_append, hzero _ hno, Nat.zero_add]
    exact List.countP_le_length

/-- A program that has returned made one call of the kind `P` before, and its value is related to
that call. -/
theorem Exec.call_of_ret (hprog : ∀ i, (prog i).Ends P (Q i))
    (h : Exec step env prog w₀ w procs H) {H₁ H₂ : List (Entry W Op Ans α)} {i : ℕ} {r : α}
    (hH : H = H₁ ++ .ret i r :: H₂) :
    ∃ e, .step i e ∈ H₁ ∧ P e.op ∧ step e.before e.op e.answer e.after ∧ Q i e.op e.answer r ∧
      ∀ e', .step i e' ∈ H → P e'.op → e' = e := by
  obtain ⟨ht, -, -, hafter⟩ := h.ret_split hH
  obtain ⟨tr, e, heq, hno, he, hs, hq⟩ := (hprog i).traces ht
  refine ⟨e, mem_filterMap_callOf.mp (by rw [heq]; simp), he, hs, hq, fun e' he' hp => ?_⟩
  -- The other call is among the same calls, and all but the last are of another kind.
  have hmem : .step i e' ∈ H₁ := by
    rw [hH, List.mem_append, List.mem_cons] at he'
    rcases he' with he' | he' | he'
    · exact he'
    · cases he'
    · exact absurd he' (hafter e')
  rw [← mem_filterMap_callOf, heq, List.mem_append, List.mem_singleton] at hmem
  rcases hmem with hmem | hmem
  · exact absurd hp (hno e' hmem)
  · exact hmem

/-- **Returns are matched with calls.** In every execution of a system whose programs end with a
call of the kind `P`, the returns are matched one-to-one with earlier calls of that kind by the
same programs. -/
theorem Exec.exists_matching (hprog : ∀ i, (prog i).Ends P (Q i))
    (h : Exec step env prog w₀ w procs H) :
    ∃ f : ℕ → ℕ,
      (∀ (j i : ℕ) (r : α), H[j]? = some (.ret i r) → f j < j ∧ ∃ e, H[f j]? = some (.step i e) ∧
        P e.op ∧ step e.before e.op e.answer e.after ∧ Q i e.op e.answer r) ∧
      ∀ (j j' i i' : ℕ) (r r' : α), H[j]? = some (.ret i r) → H[j']? = some (.ret i' r') →
        f j = f j' → j = j' := by
  have hcall : ∀ j : ℕ, ∃ k : ℕ, ∀ (i : ℕ) (r : α), H[j]? = some (.ret i r) → k < j ∧
      ∃ e, H[k]? = some (.step i e) ∧ P e.op ∧ step e.before e.op e.answer e.after ∧
        Q i e.op e.answer r := by
    intro j
    by_cases hj : ∃ i r, H[j]? = some (.ret i r)
    · obtain ⟨i, r, hj⟩ := hj
      obtain ⟨e, hmem, he, hs, hq, -⟩ := h.call_of_ret hprog (eq_take_append_cons_drop hj)
      obtain ⟨k, hk⟩ := List.mem_iff_getElem?.mp hmem
      rw [List.getElem?_take] at hk
      split at hk
      · next hlt =>
        refine ⟨k, fun i' r' hj' => ?_⟩
        obtain ⟨rfl, rfl⟩ := Entry.ret.inj (Option.some.inj (hj.symm.trans hj'))
        exact ⟨hlt, e, hk, he, hs, hq⟩
      · cases hk
    · exact ⟨0, fun i r hj' => absurd ⟨i, r, hj'⟩ hj⟩
  choose f hf using hcall
  refine ⟨f, hf, fun j j' i i' r r' hj hj' hff => ?_⟩
  -- The matched calls are by the same program, and a program returns once.
  obtain ⟨-, e, he, -⟩ := hf j i r hj
  obtain ⟨-, e', he', -⟩ := hf j' i' r' hj'
  rw [hff, he'] at he
  obtain ⟨rfl, -⟩ := Entry.step.inj (Option.some.inj he)
  obtain ⟨-, hbefore, hafter, -⟩ := h.ret_split (eq_take_append_cons_drop hj)
  rcases Nat.lt_trichotomy j j' with hlt | rfl | hlt
  · refine absurd ?_ (hafter r')
    rw [List.mem_iff_getElem?]
    exact ⟨j' - (j + 1), by rw [List.getElem?_drop, ← hj']; congr 1; omega⟩
  · rfl
  · refine absurd ?_ (hbefore r')
    rw [List.mem_iff_getElem?]
    exact ⟨j', by rw [List.getElem?_take, if_pos hlt, hj']⟩

end Ends

/-- **An invariant of the world** holds in every execution if it holds at the start and every call
and every step of the environment keeps it. -/
theorem Exec.world_invariant {I : W → Prop} (hinit : I w₀)
    (hstep : ∀ w o a w', I w → step w o a w' → I w') (henv : ∀ w w', I w → env w w' → I w')
    (h : Exec step env prog w₀ w procs H) : I w := by
  induction h with
  | start => exact hinit
  | call _ _ hs ih => exact hstep _ _ _ _ ih hs
  | ret _ _ _ ih => exact ih
  | environment _ he ih => exact henv _ _ ih he

/-! ### Remembering the environment -/

section Record

variable {L : Type}

/-- The calls of programs, in a world that remembers the steps of the environment. -/
def recordStep (step : W → (o : Op) → Ans o → W → Prop) (w : W × List L) (o : Op) (a : Ans o)
    (w' : W × List L) : Prop :=
  step w.1 o a w'.1 ∧ w'.2 = w.2

/-- The steps of the environment, with labels that are remembered. -/
def recordEnv (envL : W → L → W → Prop) (w w' : W × List L) : Prop :=
  ∃ l, envL w.1 l w'.1 ∧ w'.2 = w.2 ++ [l]

/-- An entry of the history, without what is remembered. -/
def Entry.forget : Entry (W × List L) Op Ans α → Entry W Op Ans α
  | .step i e => .step i ⟨e.before.1, e.op, e.answer, e.after.1⟩
  | .ret i r => .ret i r

/-- **Every execution is one of a world that remembers**, if every step of the environment has a
label. -/
theorem Exec.recorded {envL : W → L → W → Prop} (henv : ∀ w w', env w w' → ∃ l, envL w l w')
    (h : Exec step env prog w₀ w procs H) :
    ∃ labels H', H'.map Entry.forget = H ∧
      Exec (recordStep step) (recordEnv envL) prog (w₀, []) (w, labels) procs H' := by
  induction h with
  | start => exact ⟨[], [], rfl, .start⟩
  | @call w w' procs H i o k a _ hi hs ih =>
    obtain ⟨labels, H', rfl, hexec⟩ := ih
    have hs' : recordStep step (w, labels) o a (w', labels) := ⟨hs, rfl⟩
    exact ⟨labels, _, by simp [Entry.forget], hexec.call hi hs'⟩
  | @ret w procs H i r _ hi hno ih =>
    obtain ⟨labels, H', rfl, hexec⟩ := ih
    refine ⟨labels, _, by simp [Entry.forget], hexec.ret hi fun r' hmem => hno r' ?_⟩
    exact List.mem_map.mpr ⟨_, hmem, rfl⟩
  | @environment w w' procs H _ he ih =>
    obtain ⟨labels, H', rfl, hexec⟩ := ih
    obtain ⟨l, hl⟩ := henv w w' he
    have hl' : recordEnv envL (w, labels) (w', labels ++ [l]) := ⟨l, hl, rfl⟩
    exact ⟨labels ++ [l], H', rfl, hexec.environment hl'⟩

end Record

end Exec

end Program
