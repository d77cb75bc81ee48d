import Mathlib.Data.Finset.Card
import OlaCore.Lib.Protocols

set_option relaxedAutoImplicit false
set_option autoImplicit false

/-!
# Guards

A guard is a permit that a program holds while a value is in scope. A call hands it out, and it is
given back where the scope ends, whatever the path that leads there. The text of such a program
does not mention the end of the scope. Here it is made explicit: the permit is given back before
the first call that is not made under it.

Programs that make certain calls only under a permit can then be run over a pool of permits. The
permits in the pool and those in the hands of programs always add up, and the runs are those of the
programs without permits, with the returns of permits in between.

## Main definitions

* `Program.Guards` — which answers hand out a permit, and which calls are made under it.
* `Program.Guards.scope` — a program with the ends of its scopes.
* `Program.Guards.PoolExec`, `Program.PermitsCount` — runs over a pool, and its invariant.
* `Program.Guards.protocol` — the phase of a program is the permit that it holds.

## Main results

* `Program.Guards.obeys_scope` — a program that needs its permits, with the ends of its scopes.
* `Program.Guards.permitsCount` — permits are neither lost nor duplicated.
* `Program.Guards.release_between` — the only permit passes from one program to another.
* `Program.Guards.exec_erase` — the runs over a pool are runs.
* `Program.Guards.steps_scope` — a program that runs alone is never short of permits.
-/

namespace Program

/-- Which answers hand out a permit, and which calls are made under it. A call that is made under a
permit hands out no other one. -/
structure Guards (Op : Type) (Ans : Op → Type) (R : Type) where
  takes : (o : Op) → Ans o → Option R
  covers : Op → Bool
  takes_of_covers : ∀ o x, covers o = true → takes o x = none

/-- Operations, and the return of a permit. -/
inductive GuardOp (Op R : Type) where
  | call (o : Op)
  | release (r : R)

/-- The answers of an operation. -/
def GuardOp.Ans {Op R : Type} (Ans : Op → Type) : GuardOp Op R → Type
  | .call o => Ans o
  | .release _ => Unit

/-- Programs with returns of permits. -/
abbrev GuardProg (Op : Type) (Ans : Op → Type) (R α : Type) :=
  Prog (GuardOp Op R) (GuardOp.Ans Ans) α

variable {Op : Type} {Ans : Op → Type} {R α : Type} (G : Guards Op Ans R)

namespace Guards

/-- Give the permit back, if there is one. -/
def releaseThen : Option R → GuardProg Op Ans R α → GuardProg Op Ans R α
  | none, p => p
  | some r, p => .op (.release r) fun _ => p

/-- **The program with the ends of its scopes**, when it holds the given permit. -/
def scope : Option R → Prog Op Ans α → GuardProg Op Ans R α
  | held, .pure a => releaseThen held (.pure a)
  | held, .op o k =>
    if G.covers o then .op (.call o) fun x => scope held (k x)
    else releaseThen held (.op (.call o) fun x => scope (G.takes o x) (k x))

/-- The permit that is held after a call. -/
def next (held : Option R) (o : Op) (x : Ans o) : Option R :=
  if G.covers o then held else G.takes o x

section Scope

variable {G} {held : Option R}

@[simp] theorem scope_pure {a : α} : G.scope none (.pure a) = .pure a := rfl

/-- A call under a permit. -/
theorem scope_op_of_covers {o : Op} {k : Ans o → Prog Op Ans α} (ho : G.covers o = true) :
    G.scope held (.op o k) = .op (.call o) fun x => G.scope held (k x) := by
  rw [scope, if_pos ho]

/-- Another call, which ends the scope. -/
theorem scope_op {o : Op} {k : Ans o → Prog Op Ans α} (ho : G.covers o = false) :
    G.scope held (.op o k) =
      releaseThen held (.op (.call o) fun x => G.scope (G.takes o x) (k x)) := by
  rw [scope, if_neg (by simp [ho])]

/-- The end of a scope before a call. -/
theorem scope_some_op {r : R} {o : Op} {k : Ans o → Prog Op Ans α} (ho : G.covers o = false) :
    G.scope (some r) (.op o k) = .op (.release r) fun _ => G.scope none (.op o k) := by
  rw [scope_op ho, scope_op ho]
  rfl

/-- A program that makes only covered calls, in a scope of its own. -/
theorem scope_some_of_avoids {r : R} {p : Prog Op Ans α}
    (hp : p.Avoids fun o => G.covers o = false) :
    G.scope (some r) p = ((p.embed GuardOp.call fun _ x => x) >>= fun a =>
      call (.release r) >>= fun _ => Pure.pure a : GuardProg Op Ans R α) := by
  induction p with
  | pure a => rfl
  | op o k ih =>
    rw [scope_op_of_covers (by simpa using hp.1)]
    exact congrArg (Prog.op (GuardOp.call o)) (funext fun x => ih x (hp.2 x))

/-- A program with the ends of its scopes has returned only if the program has. -/
theorem eq_pure_of_scope {p : Prog Op Ans α} {a : α} (h : G.scope held p = .pure a) :
    p = .pure a := by
  cases p with
  | pure b =>
    cases held with
    | none =>
      cases h
      rfl
    | some r => cases h
  | op o k =>
    rw [scope] at h
    split_ifs at h
    cases held <;> cases h

end Scope

/-! ## The protocol -/

section Protocol

variable (needs : R → Op → Prop)

/-- What a program has to obey: it makes the covered calls only when it holds the permit that they
need. -/
def base : Protocol Op Ans (Option R) where
  allowed held o := G.covers o = true → ∃ r, held = some r ∧ needs r o
  next := G.next

/-- The protocol of a program with the ends of its scopes: it makes other calls only without a
permit, and gives back the permit that it holds. -/
def protocol : Protocol (GuardOp Op R) (GuardOp.Ans Ans) (Option R) where
  allowed
    | held, .call o => if G.covers o then ∃ r, held = some r ∧ needs r o else held = none
    | held, .release r => held = some r
  next
    | held, .call o, x => G.next held o x
    | _, .release _, _ => none

variable {G needs} {held : Option R} {Q : Option R → α → Prop}

/-- Giving a permit back is in phase. -/
theorem obeys_releaseThen {p : GuardProg Op Ans R α}
    (hp : p.Obeys (G.protocol needs) Q none) :
    (releaseThen held p).Obeys (G.protocol needs) Q held := by
  cases held with
  | none => exact hp
  | some r => exact ⟨rfl, fun _ => hp⟩

/-- **The ends of scopes**: a program that makes the covered calls only under the permit that they
need gives every permit back before it goes on, and ends without one. -/
theorem obeys_scope {p : Prog Op Ans α} (hp : p.Obeys (G.base needs) Q held) :
    (G.scope held p).Obeys (G.protocol needs) (fun held' _ => held' = none) held := by
  induction p generalizing held with
  | pure a => exact obeys_releaseThen rfl
  | op o k ih =>
    obtain ⟨hallowed, hk⟩ := hp
    cases ho : G.covers o with
    | true =>
      rw [scope_op_of_covers ho]
      refine ⟨?_, fun x => ?_⟩
      · change if G.covers o then _ else _
        rw [if_pos ho]
        exact hallowed ho
      · have hnext : G.next held o x = held := if_pos ho
        change (G.scope held (k x)).Obeys _ _ (G.next held o x)
        rw [hnext]
        exact ih x (hnext ▸ hk x)
    | false =>
      rw [scope_op ho]
      refine obeys_releaseThen ⟨?_, fun x => ?_⟩
      · change if G.covers o then _ else _
        rw [if_neg (by simp [ho])]
      · have hnext : ∀ held', G.next held' o x = G.takes o x := fun _ => if_neg (by simp [ho])
        change (G.scope (G.takes o x) (k x)).Obeys _ _ (G.next none o x)
        rw [hnext]
        exact ih x (hnext held ▸ hk x)

/-- A program that makes the covered calls only under the permit that they need, whatever it holds
at first. -/
def Guarded (G : Guards Op Ans R) (needs : R → Op → Prop) (p : Prog Op Ans α) : Prop :=
  ∀ held, p.Obeys (G.base needs) (fun _ _ => True) held

/-- A program that returns. -/
theorem guarded_pure (a : α) : G.Guarded needs (Pure.pure a : Prog Op Ans α) :=
  fun _ => obeys_pure trivial

/-- Programs one after the other. -/
theorem guarded_bind {β : Type} {p : Prog Op Ans β} {f : β → Prog Op Ans α}
    (hp : G.Guarded needs p) (hf : ∀ b, G.Guarded needs (f b)) : G.Guarded needs (p >>= f) :=
  fun held => obeys_bind (hp held) fun held' b _ => hf b held'

/-- The second program may depend on what the first one may return. -/
theorem guarded_bind_of_returns {β : Type} {S : β → Prop} {p : Prog Op Ans β}
    {f : β → Prog Op Ans α} (hp : G.Guarded needs p) (hr : p.Returns S)
    (hf : ∀ b, S b → G.Guarded needs (f b)) : G.Guarded needs (p >>= f) :=
  fun held => obeys_bind ((hp held).and_returns hr) fun held' b hb => hf b hb.2 held'

/-- A call without a permit, and then the program for its answer. -/
theorem guarded_call_bind {o : Op} {f : Ans o → Prog Op Ans α} (ho : G.covers o = false)
    (hf : ∀ x, G.Guarded needs (f x)) : G.Guarded needs (call o >>= f) :=
  fun _ => obeys_call_bind (fun h => absurd (ho.symm.trans h) Bool.false_ne_true) fun x => hf x _

/-- A program without covered calls. -/
theorem guarded_of_avoids {p : Prog Op Ans α}
    (hp : p.Avoids fun o => G.covers o = true) : G.Guarded needs p := by
  induction p with
  | pure a => exact guarded_pure a
  | op o k ih => exact guarded_call_bind (by simpa using hp.1) fun x => ih x (hp.2 x)

end Protocol

/-! ## The pool -/

section Pool

variable [DecidableEq R] {W : Type}

/-- The pool after an answer that may hand out a permit. -/
def takePermit (permits : R → ℕ) : Option R → (R → ℕ) → Prop
  | none, permits' => permits' = permits
  | some r, permits' => 0 < permits r ∧ permits' = Function.update permits r (permits r - 1)

/-- Calls over a pool of permits: a permit is handed out only if there is one. -/
def poolStep (step : W → (o : Op) → Ans o → W → Prop) (w : W × (R → ℕ)) :
    (o : GuardOp Op R) → o.Ans Ans → W × (R → ℕ) → Prop
  | .call o, x, w' => step w.1 o x w'.1 ∧ takePermit w.2 (G.takes o x) w'.2
  | .release r, _, w' => w' = (w.1, Function.update w.2 r (w.2 r + 1))

/-- The environment does not touch the pool. -/
def poolEnv (env : W → W → Prop) (w w' : W × (R → ℕ)) : Prop := env w.1 w'.1 ∧ w'.2 = w.2

/-- The runs of programs over a pool, which starts with `cap r` permits of the kind `r`. -/
abbrev PoolExec (step : W → (o : Op) → Ans o → W → Prop) (env : W → W → Prop)
    (prog : ℕ → Prog Op Ans α) (cap : R → ℕ) (w₀ : W) :
    W × (R → ℕ) → (ℕ → GuardProg Op Ans R α) →
      List (Entry (W × (R → ℕ)) (GuardOp Op R) (GuardOp.Ans Ans) α) → Prop :=
  Exec (G.poolStep step) (poolEnv env) (fun i => G.scope none (prog i)) (w₀, cap)

end Pool

end Guards

/-- **The permits add up**: those in the pool and those in the hands of programs are as many as
there were at the start. -/
def PermitsCount (cap permits : R → ℕ) (held : ℕ → Option R) : Prop :=
  ∀ r, ∃ holders : Finset ℕ, (∀ i, i ∈ holders ↔ held i = some r) ∧
    holders.card + permits r = cap r

section PermitsCount

variable {cap permits permits' : R → ℕ} {held : ℕ → Option R} {i i' : ℕ} {r : R}

/-- At the start no permit is handed out. -/
theorem PermitsCount.init : PermitsCount cap cap fun _ => none :=
  fun r => ⟨∅, by simp, by simp⟩

/-- If there is one permit, two programs do not hold it. -/
theorem PermitsCount.eq_of_held (h : PermitsCount cap permits held) (hcap : cap r = 1)
    (hi : held i = some r) (hi' : held i' = some r) : i = i' := by
  obtain ⟨holders, hmem, hcard⟩ := h r
  exact Finset.card_le_one.mp (by omega) i ((hmem i).mpr hi) i' ((hmem i').mpr hi')

/-- The only permit is in the pool, or in the hands of one program. -/
theorem PermitsCount.one (h : PermitsCount cap permits held) (hcap : cap r = 1) :
    (permits r = 1 ∧ ∀ i, held i ≠ some r) ∨ (permits r = 0 ∧ ∃ i, held i = some r) := by
  obtain ⟨holders, hmem, hcard⟩ := h r
  rcases holders.eq_empty_or_nonempty with rfl | ⟨i, hi⟩
  · refine .inl ⟨by simpa [hcap] using hcard, fun i hi => ?_⟩
    exact absurd ((hmem i).mpr hi) (Finset.notMem_empty i)
  · have hpos := Finset.card_pos.mpr ⟨i, hi⟩
    exact .inr ⟨by omega, i, (hmem i).mp hi⟩

variable [DecidableEq R]

/-- A program without a permit may get one from the pool. -/
theorem PermitsCount.take (h : PermitsCount cap permits held) (hi : held i = none)
    {taken : Option R} (ht : Guards.takePermit permits taken permits') :
    PermitsCount cap permits' (Function.update held i taken) := by
  cases taken with
  | none =>
    obtain rfl : permits' = permits := ht
    rwa [← hi, Function.update_eq_self]
  | some r =>
    obtain ⟨hpos, rfl⟩ := ht
    intro r'
    obtain ⟨holders, hmem, hcard⟩ := h r'
    by_cases hr : r' = r
    · subst hr
      have hnot : i ∉ holders := by simp [hmem, hi]
      refine ⟨insert i holders, fun j => ?_, ?_⟩
      · by_cases hj : j = i
        · simp [hj]
        · simp [hj, hmem]
      · rw [Finset.card_insert_of_notMem hnot, Function.update_self]
        omega
    · refine ⟨holders, fun j => ?_, by rwa [Function.update_of_ne hr]⟩
      by_cases hj : j = i
      · subst hj
        simp [hmem, hi, Ne.symm hr]
      · rw [hmem, Function.update_of_ne hj]

/-- A program gives its permit back. -/
theorem PermitsCount.release (h : PermitsCount cap permits held) (hi : held i = some r) :
    PermitsCount cap (Function.update permits r (permits r + 1)) (Function.update held i none) := by
  intro r'
  obtain ⟨holders, hmem, hcard⟩ := h r'
  by_cases hr : r' = r
  · subst hr
    have hin : i ∈ holders := (hmem i).mpr hi
    have hpos := Finset.card_pos.mpr ⟨i, hin⟩
    refine ⟨holders.erase i, fun j => ?_, ?_⟩
    · by_cases hj : j = i
      · simp [hj]
      · simp [hj, hmem]
    · rw [Finset.card_erase_of_mem hin, Function.update_self]
      omega
  · refine ⟨holders, fun j => ?_, by rwa [Function.update_of_ne hr]⟩
    by_cases hj : j = i
    · subst hj
      simp [hmem, hi, Ne.symm hr]
    · rw [hmem, Function.update_of_ne hj]

end PermitsCount

/-! ## Runs over a pool -/

namespace Guards

section Runs

variable {W : Type}

/-- The permit that a program of the system holds. -/
def holding (H : List (Entry (W × (R → ℕ)) (GuardOp Op R) (GuardOp.Ans Ans) α)) (i : ℕ) :
    Option R :=
  (G.protocol fun _ _ => True).phases none H i

variable {G}

section Holding

variable {H : List (Entry (W × (R → ℕ)) (GuardOp Op R) (GuardOp.Ans Ans) α)} {i : ℕ}

/-- What a call does to the permits that are held. -/
theorem holding_call {e : Event (W × (R → ℕ)) (GuardOp Op R) (GuardOp.Ans Ans)} :
    G.holding (H ++ [.step i e]) = Function.update (G.holding H) i
      ((G.protocol fun _ _ => True).next (G.holding H i) e.op e.answer) :=
  phases_call

/-- A return changes nothing. -/
theorem holding_ret {a : α} : G.holding (H ++ [.ret i a]) = G.holding H := phases_ret

end Holding

variable [DecidableEq R] {step : W → (o : Op) → Ans o → W → Prop}
  {env : W → W → Prop} {prog : ℕ → Prog Op Ans α} {needs : R → Op → Prop} {cap : R → ℕ} {w₀ : W}
  {w : W × (R → ℕ)} {procs : ℕ → GuardProg Op Ans R α}
  {H : List (Entry (W × (R → ℕ)) (GuardOp Op R) (GuardOp.Ans Ans) α)}

/-- **Permits are neither lost nor duplicated.** -/
theorem permitsCount (hprog : ∀ i, G.Guarded needs (prog i))
    (h : G.PoolExec step env prog cap w₀ w procs H) :
    PermitsCount cap w.2 (G.holding H) := by
  refine h.invariant (I := fun w held => PermitsCount cap w.2 held)
    (fun i => obeys_scope (hprog i none)) .init ?_ ?_
  · intro w held i o x w' hI hallowed hs
    cases o with
    | call o =>
      obtain ⟨-, ht⟩ := hs
      change if G.covers o then _ else _ at hallowed
      change PermitsCount cap w'.2 (Function.update held i (G.next (held i) o x))
      unfold next
      split_ifs at hallowed ⊢ with ho
      · rw [G.takes_of_covers o x ho] at ht
        have heq : w'.2 = w.2 := ht
        rwa [heq, Function.update_eq_self]
      · exact hI.take hallowed ht
    | release r =>
      obtain rfl := hs
      exact hI.release hallowed
  · rintro w held w' hI ⟨-, heq⟩
    exact heq ▸ hI

/-- A program that has returned holds no permit. -/
theorem phases_of_pure (hprog : ∀ i, G.Guarded needs (prog i))
    (h : G.PoolExec step env prog cap w₀ w procs H)
    {i : ℕ} {a : α} (hi : procs i = .pure a) : G.holding H i = none := by
  have hobeys := (h.obeys (fun i => obeys_scope (hprog i none)) i).2
  rw [hi] at hobeys
  exact hobeys

/-- What a program holds when it makes a call. -/
theorem allowed_of_call (hprog : ∀ i, G.Guarded needs (prog i))
    (h : G.PoolExec step env prog cap w₀ w procs H)
    {k i : ℕ} {e : Event (W × (R → ℕ)) (GuardOp Op R) (GuardOp.Ans Ans)}
    (hk : H[k]? = some (.step i e)) :
    (G.protocol needs).allowed (G.holding (H.take k) i) e.op := by
  have hadmits := (h.obeys (fun i => obeys_scope (hprog i none)) i).1
  rw [eq_take_append_cons_drop hk, List.filterMap_append, admits_append] at hadmits
  have hlater := hadmits.2
  rw [List.filterMap_cons] at hlater
  simp only [Entry.callOf, if_true] at hlater
  exact hlater.1

/-- **The only permit passes from one program to another** only after it was given back. -/
theorem release_between (hprog : ∀ i, G.Guarded needs (prog i))
    (h : G.PoolExec step env prog cap w₀ w procs H)
    {r : R} (hcap : cap r = 1) {j k i i' : ℕ} (hjk : j ≤ k) (hne : i ≠ i')
    (hj : G.holding (H.take j) i = some r)
    (hk : G.holding (H.take k) i' = some r) :
    ∃ m, j ≤ m ∧ m < k ∧ ∃ v v', H[m]? = some (.step i ⟨v, .release r, (), v'⟩) := by
  by_contra hno
  push Not at hno
  -- As long as the permit is not given back, its holder has it.
  have hkeeps : ∀ n, j ≤ n → n ≤ k → G.holding (H.take n) i = some r := by
    intro n hjn
    induction n, hjn using Nat.le_induction with
    | base => exact fun _ => hj
    | succ n hjn ih =>
      intro hnk
      have hheld := ih (by omega)
      rw [List.take_add_one]
      cases hx : H[n]? with
      | none => simpa using hheld
      | some x =>
        cases x with
        | ret i₁ a => rwa [Option.toList_some, holding_ret]
        | step i₁ e =>
          rw [Option.toList_some, holding_call]
          by_cases hi : i₁ = i
          · subst hi
            have hallowed := allowed_of_call hprog h hx
            rw [hheld] at hallowed ⊢
            rw [Function.update_self]
            obtain ⟨v, o, x, v'⟩ := e
            cases o with
            | call o =>
              change if G.covers o then _ else _ at hallowed
              change G.next (some r) o x = some r
              split_ifs at hallowed with ho
              exact if_pos ho
            | release r' =>
              obtain rfl : r = r' := Option.some.inj hallowed
              exact absurd hx (hno n hjn (by omega) v v')
          · rwa [Function.update_of_ne (Ne.symm hi)]
  obtain ⟨v, procs', hprefix⟩ := h.take k
  exact hne ((permitsCount hprog hprefix).eq_of_held hcap (hkeeps k hjk le_rfl) hk)

/-- An entry of the history, without the pool. -/
def erase : Entry (W × (R → ℕ)) (GuardOp Op R) (GuardOp.Ans Ans) α → Option (Entry W Op Ans α)
  | .step i ⟨w, .call o, x, w'⟩ => some (.step i ⟨w.1, o, x, w'.1⟩)
  | .step _ ⟨_, .release _, _, _⟩ => none
  | .ret i a => some (.ret i a)

/-- **The runs over a pool are runs** of the programs, with the returns of permits in between. -/
theorem exec_erase
    (h : G.PoolExec step env prog cap w₀ w procs H) :
    ∃ procs', (∀ i, ∃ held, procs i = G.scope held (procs' i)) ∧
      Exec step env prog w₀ w.1 procs' (H.filterMap erase) := by
  induction h with
  | start => exact ⟨prog, fun i => ⟨none, rfl⟩, .start⟩
  | @call w w' procs H i o k x _ hi hs ih =>
    obtain ⟨procs', hprocs, hexec⟩ := ih
    obtain ⟨held, hheld⟩ := hprocs i
    rw [hi] at hheld
    -- The program goes on as the one without permits, or gives its permit back.
    have hupdate : ∀ {q : GuardProg Op Ans R α} {q' : Prog Op Ans α} {held' : Option R},
        q = G.scope held' q' → ∀ j, ∃ held'', Function.update procs i q j =
          G.scope held'' (Function.update procs' i q' j) := by
      intro q q' held' hq j
      by_cases hj : j = i
      · subst hj
        exact ⟨held', by simpa using hq⟩
      · simpa [Function.update_of_ne hj] using hprocs j
    have hcall : ∀ {o' : Op} {k' : Ans o' → Prog Op Ans α} {held' : Ans o' → Option R},
        procs' i = .op o' k' →
        Prog.op o k = (.op (.call o') fun x => G.scope (held' x) (k' x) :
          GuardProg Op Ans R α) →
        ∃ procs'', (∀ j, ∃ held, Function.update procs i (k x) j = G.scope held (procs'' j)) ∧
          Exec step env prog w₀ w'.1 procs''
            ((H ++ [Entry.step i ⟨w, o, x, w'⟩]).filterMap erase) := by
      intro o' k' held' hp heq
      cases heq
      refine ⟨Function.update procs' i (k' x), hupdate rfl, ?_⟩
      rw [List.filterMap_append]
      exact hexec.call hp hs.1
    have hrelease : ∀ {r : R}, Prog.op o k = (.op (.release r) fun _ => G.scope none (procs' i) :
          GuardProg Op Ans R α) →
        ∃ procs'', (∀ j, ∃ held, Function.update procs i (k x) j = G.scope held (procs'' j)) ∧
          Exec step env prog w₀ w'.1 procs''
            ((H ++ [Entry.step i ⟨w, o, x, w'⟩]).filterMap erase) := by
      intro r heq
      cases heq
      obtain rfl := hs
      refine ⟨procs', ?_, ?_⟩
      · have hscope : G.scope none (procs' i) = G.scope none (procs' i) := rfl
        simpa using hupdate hscope
      · simpa [List.filterMap_append, List.filterMap_cons, erase] using hexec
    cases hp : procs' i with
    | pure a =>
      rw [hp] at hheld hrelease
      cases held with
      | none => cases hheld
      | some r => exact hrelease hheld
    | op o' k' =>
      rw [hp] at hheld hrelease
      cases ho : G.covers o' with
      | true => exact hcall hp (hheld.trans (scope_op_of_covers ho))
      | false =>
        cases held with
        | none => exact hcall hp (hheld.trans (scope_op ho))
        | some r => exact hrelease (hheld.trans (scope_some_op ho))
  | @ret w procs H i a _ hi hno ih =>
    obtain ⟨procs', hprocs, hexec⟩ := ih
    refine ⟨procs', hprocs, ?_⟩
    rw [List.filterMap_append]
    refine hexec.ret ?_ fun a' hmem => ?_
    · obtain ⟨held, hheld⟩ := hprocs i
      exact eq_pure_of_scope (hheld.symm.trans hi)
    · obtain ⟨x, hx, hret⟩ := List.mem_filterMap.mp hmem
      cases x with
      | ret i' a'' =>
        obtain ⟨rfl, rfl⟩ := Entry.ret.inj (Option.some.inj hret)
        exact hno _ hx
      | step i' e =>
        obtain ⟨v, o, x, v'⟩ := e
        cases o <;> cases hret
  | environment _ he ih =>
    obtain ⟨procs', hprocs, hexec⟩ := ih
    exact ⟨procs', hprocs, hexec.environment he.1⟩

/-- The permits that are left while a program holds the given one. -/
def permitsLeft (cap : R → ℕ) : Option R → R → ℕ
  | none => cap
  | some r => Function.update cap r (cap r - 1)

/-- The permit that a program holds after some calls. -/
def after (G : Guards Op Ans R) (held : Option R) (tr : List (Event W Op Ans)) : Option R :=
  tr.foldl (fun held e => G.next held e.op e.answer) held

/-- A program gives its permit back before it goes on. -/
theorem steps_releaseThen (hcap : ∀ r, 0 < cap r) {held : Option R} {p q : GuardProg Op Ans R α}
    {tr : List (Event (W × (R → ℕ)) (GuardOp Op R) (GuardOp.Ans Ans))} {v : W} {w' : W × (R → ℕ)}
    (hs : Steps (G.poolStep step) p tr q) (hlinked : Linked (v, cap) tr w') (i : ℕ) :
    ∃ tr', Steps (G.poolStep step) (releaseThen held p) tr' q ∧
      Linked (v, permitsLeft cap held) tr' w' ∧
      (tr'.map (Entry.step i)).filterMap (erase (α := α)) = (tr.map (.step i)).filterMap erase := by
  cases held with
  | none => exact ⟨tr, hs, hlinked, rfl⟩
  | some r =>
    have hgiven : Function.update (permitsLeft cap (some r)) r (permitsLeft cap (some r) r + 1) =
        cap := by
      have hpos := hcap r
      rw [permitsLeft, Function.update_self, Function.update_idem, Nat.sub_add_cancel hpos,
        Function.update_eq_self]
    have hback : G.poolStep step (v, permitsLeft cap (some r)) (.release r) () (v, cap) :=
      congrArg (Prod.mk v) hgiven.symm
    exact ⟨_ :: tr, .head hback hs, ⟨rfl, hlinked⟩, by simp [List.filterMap_cons, erase]⟩

/-- **A program that runs alone is never short of permits**: with at least one permit of each kind
in the pool, it goes on as it would without. -/
theorem steps_scope (hcap : ∀ r, 0 < cap r) {p q : Prog Op Ans α} {tr : List (Event W Op Ans)}
    (hs : Steps step p tr q) {v v' : W} (hlinked : Linked v tr v') (held : Option R) (i : ℕ) :
    ∃ tr', Steps (G.poolStep step) (G.scope held p) tr' (G.scope (G.after held tr) q) ∧
      Linked (v, permitsLeft cap held) tr' (v', permitsLeft cap (G.after held tr)) ∧
      (tr'.map (Entry.step i)).filterMap (erase (α := α)) = tr.map (.step i) := by
  induction hs generalizing v held with
  | refl p =>
    obtain rfl : v = v' := hlinked
    exact ⟨[], .refl _, rfl, rfl⟩
  | @head o k u u' x tr q hstep _ ih =>
    obtain ⟨rfl, hlinked⟩ : u = v ∧ Linked u' tr v' := hlinked
    obtain ⟨tr', hs', hlinked', herase⟩ := ih hlinked (G.next held o x)
    change Linked _ _ (v', permitsLeft cap (G.after held (⟨u, o, x, u'⟩ :: tr))) at hlinked'
    change Steps _ _ _ (G.scope (G.after held (⟨u, o, x, u'⟩ :: tr)) q) at hs'
    cases ho : G.covers o with
    | true =>
      have hnext : G.next held o x = held := if_pos ho
      rw [hnext] at hs' hlinked'
      rw [scope_op_of_covers ho]
      refine ⟨⟨(u, permitsLeft cap held), .call o, x, (u', permitsLeft cap held)⟩ :: tr',
        .head ⟨hstep, ?_⟩ hs', ⟨rfl, hlinked'⟩, ?_⟩
      · rw [G.takes_of_covers o x ho]
        rfl
      · simpa [List.filterMap_cons, erase] using herase
    | false =>
      have hnext : G.next held o x = G.takes o x := if_neg (by simp [ho])
      rw [hnext] at hs' hlinked'
      rw [scope_op ho]
      have htake : takePermit cap (G.takes o x) (permitsLeft cap (G.takes o x)) := by
        cases G.takes o x with
        | none => rfl
        | some r => exact ⟨hcap r, rfl⟩
      have hcall : G.poolStep step (u, cap) (.call o) x (u', permitsLeft cap (G.takes o x)) :=
        ⟨hstep, htake⟩
      have hfirst : Steps (G.poolStep step)
          (.op (.call o) fun x => G.scope (G.takes o x) (k x) : GuardProg Op Ans R α)
          (⟨_, .call o, x, _⟩ :: tr') _ := .head hcall hs'
      obtain ⟨tr'', hsteps, hlinked'', herase''⟩ := steps_releaseThen hcap hfirst ⟨rfl, hlinked'⟩ i
      refine ⟨tr'', hsteps, hlinked'', ?_⟩
      rw [herase'']
      simpa [List.filterMap_cons, erase] using herase

end Runs

end Guards

end Program
