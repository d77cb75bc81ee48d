import OlaCore.Lib.Program

set_option relaxedAutoImplicit false
set_option autoImplicit false

/-!
# Parts of systems

A system may be a part of a larger one: its programs run there with their operations taken as
operations of the larger system, next to other programs, and over a world of which its own world is
a part. Seen from the part, the other programs do nothing. So the runs of the larger system are runs
of the part, and what is known about all runs of the part holds in the larger system.

## Main definitions

* `Program.Prog.lift` — a program of a part, as a program of the larger system.
* `Program.Part` — a part of a system.

## Main results

* `Program.Part.exec` — the runs of a system are runs of its part.
* `Program.Part.project` — the history of a part, seen from one of its programs.
-/

namespace Program

variable {Op Op' : Type} {Ans : Op → Type} {Ans' : Op' → Type} {α β : Type}

/-- The program, with its operations and its value taken as those of a larger system. -/
def Prog.lift (inj : Op → Op') (back : (o : Op) → Ans' (inj o) → Ans o) (value : α → β) :
    Prog Op Ans α → Prog Op' Ans' β
  | .pure a => .pure (value a)
  | .op o k => .op (inj o) fun x => (k (back o x)).lift inj back value

/-- A part of a system: program `i` of the part is program `index i` of the system. The history of
the part is what the entries of its programs say about its own world. -/
structure Part (W Op : Type) (Ans : Op → Type) (α W' Op' : Type) (Ans' : Op' → Type) (β : Type)
    where
  index : ℕ → ℕ
  inj : ℕ → Op → Op'
  back : (i : ℕ) → (o : Op) → Ans' (inj i o) → Ans o
  value : α → β
  world : W' → W
  entry : Entry W' Op' Ans' β → Option (Entry W Op Ans α)
  index_injective : Function.Injective index
  entry_step : ∀ i w o x w', entry (.step (index i) ⟨w, inj i o, x, w'⟩) =
    some (.step i ⟨world w, o, back i o x, world w'⟩)
  entry_ret : ∀ i a, entry (.ret (index i) (value a)) = some (.ret i a)
  entry_of_step : ∀ j e, entry (.step j e) = none ∨
    ∃ i e', j = index i ∧ entry (.step j e) = some (.step i e')
  entry_of_ret : ∀ j b, entry (.ret j b) = none ∨
    ∃ i a, j = index i ∧ entry (.ret j b) = some (.ret i a)

namespace Part

variable {W W' : Type} (P : Part W Op Ans α W' Op' Ans' β)

/-- A program of the part, as a program of the system. -/
def lift (i : ℕ) (p : Prog Op Ans α) : Prog Op' Ans' β := p.lift (P.inj i) (P.back i) P.value

/-- Is the program one of the part? -/
def Inside (j : ℕ) : Prop := ∃ i, j = P.index i

variable {P} {step : W → (o : Op) → Ans o → W → Prop} {env : W → W → Prop}
  {step' : W' → (o : Op') → Ans' o → W' → Prop} {env' : W' → W' → Prop}
  {prog : ℕ → Prog Op Ans α} {prog' procs' : ℕ → Prog Op' Ans' β} {outside : Op' → Prop}
  {w₀ w : W'} {H : List (Entry W' Op' Ans' β)}

/-- A call of another program is not seen. -/
theorem entry_step_of_not_inside {j : ℕ} (hj : ¬ P.Inside j) (e : Event W' Op' Ans') :
    P.entry (.step j e) = none := by
  obtain hnone | ⟨i, e', hi, -⟩ := P.entry_of_step j e
  · exact hnone
  · exact absurd ⟨i, hi⟩ hj

/-- A return of another program is not seen. -/
theorem entry_ret_of_not_inside {j : ℕ} (hj : ¬ P.Inside j) (b : β) :
    P.entry (.ret j b) = none := by
  obtain hnone | ⟨i, a, hi, -⟩ := P.entry_of_ret j b
  · exact hnone
  · exact absurd ⟨i, hi⟩ hj

/-- A return in the history of the part is one in the history of the system. -/
theorem eq_ret_of_entry {x : Entry W' Op' Ans' β} {i : ℕ} {a : α}
    (h : P.entry x = some (.ret i a)) : ∃ b, x = .ret (P.index i) b := by
  cases x with
  | step j e =>
    obtain hnone | ⟨i', e', -, hsome⟩ := P.entry_of_step j e
    · cases hnone.symm.trans h
    · cases hsome.symm.trans h
  | ret j b =>
    obtain hnone | ⟨i', a', rfl, hsome⟩ := P.entry_of_ret j b
    · cases hnone.symm.trans h
    · obtain ⟨rfl, -⟩ := Entry.ret.inj (Option.some.inj (hsome.symm.trans h))
      exact ⟨b, rfl⟩

/-- What the history of the part says about program `i` of it. -/
def callsOf (P : Part W Op Ans α W' Op' Ans' β) (H : List (Entry W' Op' Ans' β)) (i : ℕ) :
    List (Event W Op Ans) :=
  (H.filterMap P.entry).filterMap (Entry.callOf i)

/-- One more call of the program. -/
theorem callsOf_concat_self (i : ℕ) (w : W') (o : Op) (x : Ans' (P.inj i o)) (w' : W') :
    P.callsOf (H ++ [.step (P.index i) ⟨w, P.inj i o, x, w'⟩]) i =
      P.callsOf H i ++ [⟨P.world w, o, P.back i o x, P.world w'⟩] := by
  unfold callsOf
  rw [List.filterMap_append, List.filterMap_append, List.filterMap_cons, P.entry_step]
  simp [Entry.callOf]

/-- One more call of another program. -/
theorem callsOf_concat_of_ne {i j : ℕ} (hij : P.index i ≠ j) (e : Event W' Op' Ans') :
    P.callsOf (H ++ [.step j e]) i = P.callsOf H i := by
  unfold callsOf
  rw [List.filterMap_append, List.filterMap_append]
  obtain hnone | ⟨i', e', rfl, hsome⟩ := P.entry_of_step j e
  · simp [hnone]
  · have hne : i' ≠ i := fun heq => hij (congrArg P.index heq.symm)
    simp [hsome, Entry.callOf, hne]

/-- A return is not a call. -/
theorem callsOf_concat_ret (i j : ℕ) (b : β) :
    P.callsOf (H ++ [.ret j b]) i = P.callsOf H i := by
  unfold callsOf
  rw [List.filterMap_append, List.filterMap_append]
  obtain hnone | ⟨i', a, -, hsome⟩ := P.entry_of_ret j b
  · simp [hnone]
  · simp [hsome, Entry.callOf]

/-- A program of the part makes calls of its own. -/
theorem avoids_lift (i : ℕ) (p : Prog Op Ans α) :
    (P.lift i p).Avoids fun o' => ∀ o, o' ≠ P.inj i o := by
  induction p with
  | pure a => exact trivial
  | op o k ih => exact ⟨fun h => h o rfl, fun x => ih (P.back i o x)⟩

/-- **One program of a part**: what the history of the part says about the program is a partial
execution of it, whatever the other programs do. -/
theorem project (hprog : ∀ i, prog' (P.index i) = P.lift i (prog i))
    (hstep : ∀ i w o x w', step' w (P.inj i o) x w' →
      step (P.world w) o (P.back i o x) (P.world w'))
    (h : Exec step' env' prog' w₀ w procs' H) (i : ℕ) :
    ∃ p, procs' (P.index i) = P.lift i p ∧ Steps step (prog i) (P.callsOf H i) p := by
  induction h with
  | start => exact ⟨prog i, hprog i, .refl _⟩
  | @call w w' procs' H j o' k' x hex hj hs ih =>
    obtain ⟨p, hp, hsteps⟩ := ih
    by_cases hij : P.index i = j
    · subst hij
      rw [hj] at hp
      cases p with
      | pure a => cases hp
      | op o k =>
        cases hp
        rw [Function.update_self, callsOf_concat_self]
        exact ⟨k (P.back i o x), rfl, hsteps.snoc (hstep i w o x w' hs)⟩
    · rw [Function.update_of_ne hij, callsOf_concat_of_ne hij]
      exact ⟨p, hp, hsteps⟩
  | ret hex hj hno ih =>
    rw [callsOf_concat_ret]
    exact ih
  | environment _ _ ih => exact ih

/-- A call of program `i` of the part, as it is seen in the system. -/
inductive Lifts (P : Part W Op Ans α W' Op' Ans' β)
    (step' : W' → (o : Op') → Ans' o → W' → Prop) (i : ℕ) :
    Event W Op Ans → Event W' Op' Ans' → Prop
  | intro (w : W') (o : Op) (x : Ans' (P.inj i o)) (w' : W') : step' w (P.inj i o) x w' →
    Lifts P step' i ⟨P.world w, o, P.back i o x, P.world w'⟩ ⟨w, P.inj i o, x, w'⟩

/-- **An execution of a program of the part** is one in the system, if the system makes its
steps. -/
theorem steps_lift {i : ℕ} {p q : Prog Op Ans α} {tr : List (Event W Op Ans)}
    {tr' : List (Event W' Op' Ans')} (h : Steps step p tr q)
    (hlift : List.Forall₂ (P.Lifts step' i) tr tr') :
    Steps step' (P.lift i p) tr' (P.lift i q) := by
  induction h generalizing tr' with
  | refl p =>
    cases hlift
    exact .refl _
  | head _ _ ih =>
    cases hlift with
    | cons he hrest =>
      cases he with
      | intro w o x w' hs => exact .head hs (ih hrest)

/-- What the history of the part says about the calls of its program. -/
theorem filterMap_entry_of_lifts {i : ℕ} {tr : List (Event W Op Ans)}
    {tr' : List (Event W' Op' Ans')} (hlift : List.Forall₂ (P.Lifts step' i) tr tr') :
    (tr'.map (.step (P.index i))).filterMap P.entry = tr.map (.step i) := by
  induction hlift with
  | nil => rfl
  | cons he _ ih =>
    cases he with
    | intro w o x w' hs => rw [List.map_cons, List.filterMap_cons, P.entry_step, ih, List.map_cons]

/-- What the history of the part says about the calls of another program. -/
theorem filterMap_entry_of_not_inside {j : ℕ} (hj : ¬ P.Inside j) (tr : List (Event W' Op' Ans')) :
    (tr.map (.step j)).filterMap P.entry = [] := by
  refine List.filterMap_eq_nil_iff.mpr fun x hx => ?_
  obtain ⟨e, -, rfl⟩ := List.mem_map.mp hx
  exact entry_step_of_not_inside hj e

/-- **The runs of a system are runs of its part.** The programs of the part do in the system what
they do in the part; the other programs make only calls that leave the world of the part alone, and
a step of the environment is one of the part's, or leaves its world alone. -/
theorem exec (hprog : ∀ i, prog' (P.index i) = P.lift i (prog i))
    (hstep : ∀ i w o x w', step' w (P.inj i o) x w' →
      step (P.world w) o (P.back i o x) (P.world w'))
    (hother : ∀ j, ¬ P.Inside j → (prog' j).Avoids fun o => ¬ outside o)
    (houtside : ∀ w o x w', outside o → step' w o x w' → P.world w' = P.world w)
    (henv : ∀ w w', env' w w' → P.world w' = P.world w ∨ env (P.world w) (P.world w'))
    (h : Exec step' env' prog' w₀ w procs' H) :
    ∃ procs, (∀ i, procs' (P.index i) = P.lift i (procs i)) ∧
      Exec step env prog (P.world w₀) (P.world w) procs (H.filterMap P.entry) := by
  induction h with
  | start => exact ⟨prog, hprog, .start⟩
  | @call w w' procs' H j o' k' x hex hj hs ih =>
    obtain ⟨procs, hprocs, hexec⟩ := ih
    rw [List.filterMap_append]
    by_cases hin : P.Inside j
    · obtain ⟨i, rfl⟩ := hin
      have hlift := hprocs i
      rw [hj] at hlift
      cases hp : procs i with
      | pure a =>
        rw [hp] at hlift
        cases hlift
      | op o k =>
        rw [hp] at hlift
        cases hlift
        refine ⟨Function.update procs i (k (P.back i o x)), fun i' => ?_, ?_⟩
        · by_cases hi : i' = i
          · subst hi
            rw [Function.update_self, Function.update_self]
            rfl
          · rw [Function.update_of_ne (P.index_injective.ne hi), Function.update_of_ne hi]
            exact hprocs i'
        · rw [List.filterMap_cons, P.entry_step]
          exact hexec.call hp (hstep i w o x w' hs)
    · -- The call of another program is not seen.
      have havoids : ¬ ¬ outside o' := by
        have hproject := hex.project j
        rw [hj] at hproject
        exact (hother j hin).steps (hproject.snoc hs) ⟨w, o', x, w'⟩ (by simp)
      refine ⟨procs, fun i => ?_, ?_⟩
      · have hne : P.index i ≠ j := fun hi => hin ⟨i, hi.symm⟩
        rw [Function.update_of_ne hne]
        exact hprocs i
      · rw [houtside w o' x w' (not_not.mp havoids) hs, List.filterMap_cons,
          entry_step_of_not_inside hin, List.filterMap_nil, List.append_nil]
        exact hexec
  | @ret w procs' H j b hex hj hno ih =>
    obtain ⟨procs, hprocs, hexec⟩ := ih
    rw [List.filterMap_append]
    refine ⟨procs, hprocs, ?_⟩
    by_cases hin : P.Inside j
    · obtain ⟨i, rfl⟩ := hin
      have hlift := hprocs i
      rw [hj] at hlift
      cases hp : procs i with
      | pure a =>
        rw [hp] at hlift
        obtain rfl := Prog.pure.inj hlift
        rw [List.filterMap_cons, P.entry_ret]
        refine hexec.ret hp fun a' hmem => ?_
        obtain ⟨y, hy, hret⟩ := List.mem_filterMap.mp hmem
        obtain ⟨b, rfl⟩ := eq_ret_of_entry hret
        exact hno b hy
      | op o k =>
        rw [hp] at hlift
        cases hlift
    · rw [List.filterMap_cons, entry_ret_of_not_inside hin, List.filterMap_nil, List.append_nil]
      exact hexec
  | environment _ he ih =>
    obtain ⟨procs, hprocs, hexec⟩ := ih
    refine ⟨procs, hprocs, ?_⟩
    obtain heq | henvironment := henv _ _ he
    · exact heq ▸ hexec
    · exact hexec.environment henvironment

end Part

end Program
