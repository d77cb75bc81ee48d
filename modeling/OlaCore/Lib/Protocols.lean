import OlaCore.Lib.Program

set_option relaxedAutoImplicit false
set_option autoImplicit false

/-!
# Programs that follow a protocol

A protocol is an automaton over the operations of a program: it says which operations may be
called in a phase, and which phase a call with its answer leads to. A program obeys a protocol if
none of its paths makes a call out of phase.

In a system whose programs obey a protocol, the phase of each program is a function of its calls
so far. So an invariant of the world may mention the phases of all programs, and it is enough to
show that it is kept by the calls which the protocol admits.

A program over few operations can be embedded into programs over more operations. It obeys there
what it obeyed before, and its executions are the same.

## Main definitions

* `Program.Protocol`, `Program.Prog.Obeys` — protocols, and the programs that obey them.
* `Program.Protocol.after`, `Program.Protocol.Admits` — the phase after some calls, and whether
  they were in phase.
* `Program.Prog.embed` — a program over more operations.
* `Program.Reaches` — the calls that a program may have made before a given call.
* `Program.Prog.Guarantees` — what a program does as long as its calls are answered as assumed.

## Main results

* `Program.obeys_bind` — sequential composition.
* `Program.Exec.invariant` — the invariant rule for systems whose programs obey a protocol.
* `Program.Traces.of_embed` — the executions of an embedded program.
* `Program.reaches_bind` — what a sequential composition may have done before a call.
* `Program.Prog.Guarantees.steps` — the executions in which the calls are answered as assumed.
-/

namespace Program

/-- A protocol: the operations that may be called in a phase, and the phase after a call. -/
structure Protocol (Op : Type) (Ans : Op → Type) (S : Type) where
  allowed : S → Op → Prop
  next : S → (o : Op) → Ans o → S

section Protocols

variable {Op : Type} {Ans : Op → Type} {S : Type} {α β : Type} (P : Protocol Op Ans S)

/-- Every path of the program makes only calls that are allowed, and ends in a phase that is
related to the returned value by `Q`. -/
def Prog.Obeys (Q : S → α → Prop) : S → Prog Op Ans α → Prop
  | s, .pure a => Q s a
  | s, .op o k => P.allowed s o ∧ ∀ x, (k x).Obeys Q (P.next s o x)

variable {P} {Q : S → α → Prop} {s : S}

/-- A program that returns. -/
theorem obeys_pure {a : α} (h : Q s a) : (Pure.pure a : Prog Op Ans α).Obeys P Q s := h

/-- **Sequential composition** of programs that obey the protocol. -/
theorem obeys_bind {p : Prog Op Ans β} {f : β → Prog Op Ans α} {R : S → β → Prop}
    (hp : p.Obeys P R s) (hf : ∀ s' b, R s' b → (f b).Obeys P Q s') : (p >>= f).Obeys P Q s := by
  induction p generalizing s with
  | pure b => exact hf s b hp
  | op o k ih => exact ⟨hp.1, fun x => ih x (hp.2 x)⟩

/-- A weaker relation between the last phase and the value. -/
theorem Prog.Obeys.mono {Q' : S → α → Prop} {p : Prog Op Ans α} (hp : p.Obeys P Q s)
    (h : ∀ s a, Q s a → Q' s a) : p.Obeys P Q' s := by
  induction p generalizing s with
  | pure a => exact h s a hp
  | op o k ih => exact ⟨hp.1, fun x => ih x (hp.2 x)⟩

/-- What the program returns, as a part of the relation. -/
theorem Prog.Obeys.and_returns {R : α → Prop} {p : Prog Op Ans α} (hp : p.Obeys P Q s)
    (hr : p.Returns R) : p.Obeys P (fun s a => Q s a ∧ R a) s := by
  induction p generalizing s with
  | pure a => exact ⟨hp, hr⟩
  | op o k ih => exact ⟨hp.1, fun x => ih x (hp.2 x) (hr x)⟩

/-- A call, and then the program for its answer. -/
theorem obeys_call_bind {o : Op} {f : Ans o → Prog Op Ans α} (ho : P.allowed s o)
    (hf : ∀ x, (f x).Obeys P Q (P.next s o x)) : (call o >>= f).Obeys P Q s :=
  ⟨ho, hf⟩

/-- A program that avoids the calls which matter for the protocol stays in its phase. -/
theorem Prog.Avoids.obeys {K : Op → Prop} {p : Prog Op Ans α} (hp : p.Avoids K)
    (h : ∀ o, ¬ K o → P.allowed s o ∧ ∀ x, P.next s o x = s) :
    p.Obeys P (fun s' _ => s' = s) s := by
  induction p with
  | pure a => rfl
  | op o k ih =>
    obtain ⟨hallowed, hnext⟩ := h o hp.1
    refine ⟨hallowed, fun x => ?_⟩
    rw [hnext x]
    exact ih x (hp.2 x)

/-! ## Executions -/

variable {W : Type} {step : W → (o : Op) → Ans o → W → Prop}

variable (P) in
/-- The phase after some calls. -/
def Protocol.after (s : S) (tr : List (Event W Op Ans)) : S :=
  tr.foldl (fun s e => P.next s e.op e.answer) s

variable (P) in
/-- The calls were allowed in the phases in which they were made. -/
def Protocol.Admits : S → List (Event W Op Ans) → Prop
  | _, [] => True
  | s, e :: tr => P.allowed s e.op ∧ Protocol.Admits (P.next s e.op e.answer) tr

@[simp] theorem after_nil : P.after s ([] : List (Event W Op Ans)) = s := rfl

@[simp] theorem after_cons {e : Event W Op Ans} {tr : List (Event W Op Ans)} :
    P.after s (e :: tr) = P.after (P.next s e.op e.answer) tr := rfl

@[simp] theorem after_append {tr tr' : List (Event W Op Ans)} :
    P.after s (tr ++ tr') = P.after (P.after s tr) tr' :=
  List.foldl_append ..

/-- Two runs of calls, one after the other. -/
theorem admits_append {tr tr' : List (Event W Op Ans)} :
    P.Admits s (tr ++ tr') ↔ P.Admits s tr ∧ P.Admits (P.after s tr) tr' := by
  induction tr generalizing s with
  | nil => simp [Protocol.Admits]
  | cons e tr ih => simp [Protocol.Admits, ih, and_assoc]

/-- The calls of a program that obeys the protocol are in phase, and what remains of the program
obeys the protocol from the phase that was reached. -/
theorem Prog.Obeys.steps {p q : Prog Op Ans α} {tr : List (Event W Op Ans)}
    (hp : p.Obeys P Q s) (h : Steps step p tr q) : P.Admits s tr ∧ q.Obeys P Q (P.after s tr) := by
  induction h generalizing s with
  | refl p => exact ⟨trivial, hp⟩
  | head _ _ ih =>
    obtain ⟨hadmits, hq⟩ := ih (hp.2 _)
    exact ⟨⟨hp.1, hadmits⟩, hq⟩

variable {env : W → W → Prop} {prog procs : ℕ → Prog Op Ans α} {w₀ w : W}
  {H : List (Entry W Op Ans α)}

variable (P) in
/-- The phases of the programs of a system. -/
def Protocol.phases (s : S) (H : List (Entry W Op Ans α)) (i : ℕ) : S :=
  P.after s (H.filterMap (Entry.callOf i))

/-- A call changes the phase of the program that makes it. -/
theorem phases_call {i : ℕ} {e : Event W Op Ans} :
    P.phases s (H ++ [.step i e]) =
      Function.update (P.phases s H) i (P.next (P.phases s H i) e.op e.answer) := by
  funext j
  by_cases hij : i = j
  · subst hij
    simp [Protocol.phases, Entry.callOf]
  · simp [Protocol.phases, Entry.callOf, hij, Function.update_of_ne (Ne.symm hij)]

/-- A return changes no phase. -/
theorem phases_ret {i : ℕ} {r : α} : P.phases s (H ++ [.ret i r]) = P.phases s H := by
  funext j
  simp [Protocol.phases, List.filterMap_cons, Entry.callOf]

/-- The programs of the system obey the protocol, each from its phase. -/
theorem Exec.obeys (h : Exec step env prog w₀ w procs H)
    (hprog : ∀ i, (prog i).Obeys P Q s) (i : ℕ) :
    P.Admits s (H.filterMap (Entry.callOf i)) ∧ (procs i).Obeys P Q (P.phases s H i) :=
  (hprog i).steps (h.project i)

/-- **The invariant rule.** In a system whose programs obey a protocol, an invariant of the world
and of the phases holds in every execution if it holds at the start, every call that the protocol
admits keeps it, and so does the environment. -/
theorem Exec.invariant {I : W → (ℕ → S) → Prop} (hprog : ∀ i, (prog i).Obeys P Q s)
    (hinit : I w₀ fun _ => s)
    (hstep : ∀ w ph i o x w', I w ph → P.allowed (ph i) o → step w o x w' →
      I w' (Function.update ph i (P.next (ph i) o x)))
    (henv : ∀ w ph w', I w ph → env w w' → I w' ph)
    (h : Exec step env prog w₀ w procs H) : I w (P.phases s H) := by
  induction h with
  | start => exact hinit
  | @call w w' procs H i o k x hex hi hs ih =>
    have hobeys := (hex.obeys hprog i).2
    rw [hi] at hobeys
    rw [phases_call]
    exact hstep w _ i o x w' ih hobeys.1 hs
  | ret _ _ _ ih =>
    rw [phases_ret]
    exact ih
  | environment _ he ih => exact henv _ _ _ ih he

end Protocols

/-! ## Programs inside larger programs -/

section Embed

variable {Op Op' : Type} {Ans : Op → Type} {Ans' : Op' → Type} {α β : Type}

/-- The program, with its operations taken as operations of a larger set. -/
def Prog.embed (inj : Op → Op') (back : (o : Op) → Ans' (inj o) → Ans o) :
    Prog Op Ans α → Prog Op' Ans' α
  | .pure a => .pure a
  | .op o k => .op (inj o) fun x => (k (back o x)).embed inj back

variable {inj : Op → Op'} {back : (o : Op) → Ans' (inj o) → Ans o}

/-- An embedded program obeys a protocol of the larger set if the protocol does with its operations
what a protocol of the smaller set does. -/
theorem Prog.Obeys.embed {S S' : Type} {P : Protocol Op Ans S} {P' : Protocol Op' Ans' S'}
    (f : S → S') {Q : S → α → Prop} {s : S} {p : Prog Op Ans α} (hp : p.Obeys P Q s)
    (hallowed : ∀ s o, P.allowed s o → P'.allowed (f s) (inj o))
    (hnext : ∀ s o x, P.allowed s o → P'.next (f s) (inj o) x = f (P.next s o (back o x))) :
    (p.embed inj back).Obeys P' (fun s' a => ∃ s, s' = f s ∧ Q s a) (f s) := by
  induction p generalizing s with
  | pure a => exact ⟨s, rfl, hp⟩
  | op o k ih =>
    refine ⟨hallowed s o hp.1, fun x => ?_⟩
    rw [hnext s o x hp.1]
    exact ih (back o x) (hp.2 (back o x))

/-- An embedded program avoids the calls that the program avoids. -/
theorem Prog.Avoids.embed {K : Op → Prop} {K' : Op' → Prop} {p : Prog Op Ans α} (hp : p.Avoids K)
    (h : ∀ o, K' (inj o) → K o) : (p.embed inj back).Avoids K' := by
  induction p with
  | pure a => exact trivial
  | op o k ih => exact ⟨fun ho => hp.1 (h o ho), fun x => ih _ (hp.2 _)⟩

variable {W W' : Type} {step : W → (o : Op) → Ans o → W → Prop}
  {step' : W' → (o : Op') → Ans' o → W' → Prop} {proj : W' → W}

/-- A call of an embedded program, and the call that it embeds. -/
inductive Embeds (inj : Op → Op') (back : (o : Op) → Ans' (inj o) → Ans o) (proj : W' → W) :
    Event W' Op' Ans' → Event W Op Ans → Prop
  | intro (w : W') (o : Op) (x : Ans' (inj o)) (w' : W') :
      Embeds inj back proj ⟨w, inj o, x, w'⟩ ⟨proj w, o, back o x, proj w'⟩

/-- **The executions of an embedded program** are executions of the program. -/
theorem Traces.of_embed
    (hstep : ∀ w o x w', step' w (inj o) x w' → step (proj w) o (back o x) (proj w'))
    {p : Prog Op Ans α} {tr' : List (Event W' Op' Ans')} {a : α}
    (h : Traces step' (p.embed inj back) tr' a) :
    ∃ tr, List.Forall₂ (Embeds inj back proj) tr' tr ∧ Traces step p tr a := by
  induction p generalizing tr' with
  | pure b =>
    cases h
    exact ⟨[], .nil, .refl _⟩
  | op o k ih =>
    obtain ⟨w, x, w', tr₁', rfl, hs, h₁⟩ := traces_op.mp h
    obtain ⟨tr₁, hembeds, htr⟩ := ih (back o x) h₁
    exact ⟨_ :: tr₁, .cons (.intro w o x w') hembeds, .head (hstep w o x w' hs) htr⟩

/-- An execution of the program, as one of the embedded program. -/
theorem Traces.embed {p : Prog Op Ans α} {tr : List (Event W Op Ans)} {a : α}
    (h : Traces step p tr a) (inj : Op → Op') (back : (o : Op) → Ans' (inj o) → Ans o)
    (up : W → W') (fwd : (o : Op) → Ans o → Ans' (inj o)) (hback : ∀ o x, back o (fwd o x) = x)
    (hstep : ∀ w o x w', step w o x w' → step' (up w) (inj o) (fwd o x) (up w')) :
    Traces step' (p.embed inj back)
      (tr.map fun e => ⟨up e.before, inj e.op, fwd e.op e.answer, up e.after⟩) a := by
  induction p generalizing tr with
  | pure b =>
    cases h
    exact .refl _
  | op o k ih =>
    obtain ⟨w, x, w', tr₁, rfl, hs, h₁⟩ := traces_op.mp h
    refine .head (hstep w o x w' hs) ?_
    rw [hback]
    exact ih x h₁

end Embed

/-! ## What happens before a call -/

section Reaches

variable {Op : Type} {Ans : Op → Type} {α β : Type} {W : Type}
  {step : W → (o : Op) → Ans o → W → Prop} {l : List (Event W Op Ans)} {e : Event W Op Ans}

/-- The program may make the calls `l` and then the call `e`. -/
def Reaches (step : W → (o : Op) → Ans o → W → Prop) (p : Prog Op Ans α)
    (l : List (Event W Op Ans)) (e : Event W Op Ans) : Prop :=
  ∃ l' q, Steps step p (l ++ e :: l') q

/-- A program that returns makes no call. -/
theorem not_reaches_pure {a : α} : ¬ Reaches step (Pure.pure a : Prog Op Ans α) l e := by
  rintro ⟨l', q, h⟩
  generalize htr : l ++ e :: l' = tr at h
  cases h
  simp at htr

/-- The first call of a program, or a later one. -/
theorem reaches_call_bind {o : Op} {f : Ans o → Prog Op Ans β}
    (h : Reaches step (call o >>= f) l e) :
    (l = [] ∧ e.op = o) ∨ ∃ w x w' l₁, l = ⟨w, o, x, w'⟩ :: l₁ ∧ step w o x w' ∧
      Reaches step (f x) l₁ e := by
  obtain ⟨l', q, h⟩ := h
  generalize htr : l ++ e :: l' = tr at h
  cases h with
  | refl => simp at htr
  | @head _ _ w w' x tr₁ _ hs hrest =>
    cases l with
    | nil =>
      obtain ⟨rfl, rfl⟩ := List.cons.inj htr
      exact .inl ⟨rfl, rfl⟩
    | cons e₁ l₁ =>
      obtain ⟨rfl, rfl⟩ := List.cons.inj htr
      exact .inr ⟨w, x, w', l₁, rfl, hs, l', q, hrest⟩

/-- A call of a kind that the first call of the program is not of comes later. -/
theorem reaches_call_bind_of_not {K : Op → Prop} {o : Op} {f : Ans o → Prog Op Ans β}
    (h : Reaches step (call o >>= f) l e) (he : K e.op) (ho : ¬ K o) :
    ∃ w x w' l₁, l = ⟨w, o, x, w'⟩ :: l₁ ∧ step w o x w' ∧ Reaches step (f x) l₁ e := by
  rcases reaches_call_bind h with ⟨-, hop⟩ | hlater
  · exact absurd (hop ▸ he) ho
  · exact hlater

/-- **What a sequential composition may have done before a call**: the call is one of the first
program, or the first program has returned before. -/
theorem reaches_bind {p : Prog Op Ans α} {f : α → Prog Op Ans β}
    (h : Reaches step (p >>= f) l e) :
    Reaches step p l e ∨
      ∃ l₁ a l₂, l = l₁ ++ l₂ ∧ Traces step p l₁ a ∧ Reaches step (f a) l₂ e := by
  induction p generalizing l with
  | pure a => exact .inr ⟨[], a, l, rfl, .refl _, h⟩
  | op o k ih =>
    have h' : Reaches step (call o >>= fun x => k x >>= f) l e := h
    rcases reaches_call_bind h' with ⟨rfl, ho⟩ | ⟨w, x, w', l₁, rfl, hs, hrest⟩
    · left
      obtain ⟨l', q, h⟩ := h
      cases h with
      | head hs _ => exact ⟨[], _, .head hs (.refl _)⟩
    · rcases ih x hrest with ⟨l', q, hk⟩ | ⟨l₂, a, l₃, rfl, htr, hf⟩
      · exact .inl ⟨l', q, .head hs hk⟩
      · exact .inr ⟨_ :: l₂, a, l₃, rfl, .head hs htr, hf⟩

/-- A call that the program avoids. -/
theorem Prog.Avoids.not_reaches {K : Op → Prop} {p : Prog Op Ans α} (hp : p.Avoids K)
    (h : Reaches step p l e) : ¬ K e.op := by
  obtain ⟨l', q, h⟩ := h
  exact hp.steps h e (by simp)

/-- A call in the history of a system, and the calls of the same program before it. -/
theorem Exec.reaches {env : W → W → Prop} {prog procs : ℕ → Prog Op Ans α} {w₀ w : W}
    {H H₁ H₂ : List (Entry W Op Ans α)} {i : ℕ} (h : Exec step env prog w₀ w procs H)
    (hH : H = H₁ ++ .step i e :: H₂) :
    Reaches step (prog i) (H₁.filterMap (Entry.callOf i)) e := by
  refine ⟨H₂.filterMap (Entry.callOf i), procs i, ?_⟩
  have hsteps := h.project i
  rw [hH] at hsteps
  simpa [Entry.callOf] using hsteps

end Reaches

/-! ## Assumptions about answers -/

section Guarantees

variable {Op : Type} {Ans : Op → Type} {α β : Type}

/-- As long as the calls of the program are answered according to `A`, its calls are of the kind
`G`; and it returns a value of the kind `Q`. -/
def Prog.Guarantees (A : (o : Op) → Ans o → Prop) (G : Op → Prop) (Q : α → Prop) :
    Prog Op Ans α → Prop
  | .pure a => Q a
  | .op o k => G o ∧ ∀ x, A o x → (k x).Guarantees A G Q

variable {A : (o : Op) → Ans o → Prop} {G : Op → Prop} {Q : α → Prop}

/-- A program that returns. -/
theorem guarantees_pure {a : α} (h : Q a) : (Pure.pure a : Prog Op Ans α).Guarantees A G Q := h

/-- **Sequential composition.** -/
theorem guarantees_bind {R : β → Prop} {p : Prog Op Ans β} {f : β → Prog Op Ans α}
    (hp : p.Guarantees A G R) (hf : ∀ b, R b → (f b).Guarantees A G Q) :
    (p >>= f).Guarantees A G Q := by
  induction p with
  | pure b => exact hf b hp
  | op o k ih => exact ⟨hp.1, fun x hx => ih x (hp.2 x hx)⟩

/-- A call, and then the program for its answer. -/
theorem guarantees_call_bind {o : Op} {f : Ans o → Prog Op Ans α} (ho : G o)
    (hf : ∀ x, A o x → (f x).Guarantees A G Q) : (call o >>= f).Guarantees A G Q :=
  ⟨ho, hf⟩

/-- A program that makes no call of another kind, whatever it returns. -/
theorem Prog.Avoids.guarantees {p : Prog Op Ans α} (hp : p.Avoids fun o => ¬ G o)
    (hr : p.Returns Q) : p.Guarantees A G Q := by
  induction p with
  | pure a => exact hr
  | op o k ih => exact ⟨not_not.mp hp.1, fun x _ => ih x (hp.2 x) (hr x)⟩

/-- **Executions in which the calls are answered as assumed**: the calls are as guaranteed, and so
are the further calls of the program and the value it returns. -/
theorem Prog.Guarantees.steps {W : Type} {step : W → (o : Op) → Ans o → W → Prop}
    {p q : Prog Op Ans α} {tr : List (Event W Op Ans)} (hp : p.Guarantees A G Q)
    (h : Steps step p tr q) (hA : ∀ e ∈ tr, A e.op e.answer) :
    (∀ e ∈ tr, G e.op) ∧ q.Guarantees A G Q := by
  induction h with
  | refl p => exact ⟨fun _ he => absurd he List.not_mem_nil, hp⟩
  | head hs hrest ih =>
    obtain ⟨hx, hA⟩ := List.forall_mem_cons.mp hA
    obtain ⟨hG, hq⟩ := ih (hp.2 _ hx) hA
    exact ⟨List.forall_mem_cons.mpr ⟨hp.1, hG⟩, hq⟩

/-- A program with the same guarantees for the operations that it is embedded in. -/
theorem Prog.Guarantees.embed {Op' : Type} {Ans' : Op' → Type} {inj : Op → Op'}
    {back : (o : Op) → Ans' (inj o) → Ans o} {A' : (o : Op') → Ans' o → Prop} {G' : Op' → Prop}
    {p : Prog Op Ans α} (hp : p.Guarantees A G Q) (hA : ∀ o x, A' (inj o) x → A o (back o x))
    (hG : ∀ o, G o → G' (inj o)) : (p.embed inj back).Guarantees A' G' Q := by
  induction p with
  | pure a => exact hp
  | op o k ih => exact ⟨hG o hp.1, fun x hx => ih _ (hp.2 _ (hA o x hx))⟩

end Guarantees

end Program
