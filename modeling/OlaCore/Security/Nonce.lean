import Mathlib.Data.List.AList
import OlaCore.Core.Types

set_option relaxedAutoImplicit false
set_option autoImplicit false

/-!
# The nonce store

The store of single-use challenges (`security/nonce`). A nonce is issued for a target user and
removed when it is consumed, whether it is accepted or not. A background task removes the nonces
that have expired.

Instants are nanoseconds on the monotonic clock, and `Instant::duration_since` saturates at zero.
The two hash maps are association lists with unique keys.

## Main definitions

* `OlaCore.NonceStore` — the pending nonces and their number for each user.
* `OlaCore.NonceStore.generate`, `OlaCore.NonceStore.consume`, `OlaCore.NonceStore.cleanup`.
* `OlaCore.NonceStore.add`, `OlaCore.NonceStore.remove` — the two changes that they make.
* `OlaCore.NonceStore.CountsPending` — the numbers for the users are right.

## Main results

* `OlaCore.NonceStore.generate_cases`, `OlaCore.NonceStore.consume_cases`,
  `OlaCore.NonceStore.cleanup_induction` — what each operation does to the store.
* `OlaCore.NonceStore.consume_eq_ok_iff` — what consuming accepts.
* `OlaCore.NonceStore.lookup_consume` — a consumed nonce is gone.
* `OlaCore.NonceStore.CountsPending.add`, `OlaCore.NonceStore.CountsPending.remove` — the counts
  stay right.
* `OlaCore.NonceStore.generate_ne_full` — a store with few nonces issues one.
-/

namespace OlaCore

/-- How long a nonce is valid: thirty seconds. -/
def nonceTtl : ℕ := 30 * 10 ^ 9

/-- How many nonces may be pending. -/
def maxPendingNonces : ℕ := 1024

/-- How many nonces may be pending for one user. -/
def maxPendingNoncesPerUid : ℕ := 32

/-- Why the store refuses to issue or to accept a nonce. -/
inductive NonceError where
  | notFound
  | expired
  | uidMismatch
  | tableFull
  | tooManyForUid
  | statePoisoned
  | randomUnavailable
  deriving DecidableEq

/-- The pending nonces, with the instant and the user they were issued for, and the number of
pending nonces of each user. -/
structure NonceStore where
  poisoned : Bool
  pending : AList fun _ : Nonce => ℕ × UInt32
  pendingPerUid : AList fun _ : UInt32 => ℕ

namespace NonceStore

/-- A store without nonces. -/
def new : NonceStore := ⟨false, ∅, ∅⟩

/-- One nonce less for a user; a user without nonces has no count. -/
def decrementUidCount (counts : AList fun _ : UInt32 => ℕ) (uid : UInt32) :
    AList fun _ : UInt32 => ℕ :=
  match counts.lookup uid with
  | some count => if 0 < count - 1 then counts.insert uid (count - 1) else counts.erase uid
  | none => counts.erase uid

/-- The attempts to draw a nonce that is not pending: `draw i` is what the random source gives at
attempt `i`, and `attempts` of them are left. -/
def drawNonce (pending : AList fun _ : Nonce => ℕ × UInt32) (draw : ℕ → Option Nonce) :
    ℕ → ℕ → Except NonceError Nonce
  | _, 0 => .error .tableFull
  | i, attempts + 1 =>
    match draw i with
    | none => .error .randomUnavailable
    | some nonce =>
      if nonce ∈ pending then drawNonce pending draw (i + 1) attempts else .ok nonce

/-- Issue a nonce for a user at the instant `now`. -/
def generate (s : NonceStore) (uid : UInt32) (draw : ℕ → Option Nonce) (now : ℕ) :
    Except NonceError Nonce × NonceStore :=
  if s.poisoned then (.error .statePoisoned, s)
  else if maxPendingNonces ≤ s.pending.entries.length then (.error .tableFull, s)
  else if maxPendingNoncesPerUid ≤ (s.pendingPerUid.lookup uid).getD 0 then
    (.error .tooManyForUid, s)
  else
    match drawNonce s.pending draw 0 16 with
    | .error e => (.error e, s)
    | .ok nonce =>
      (.ok nonce, { s with
        pending := s.pending.insert nonce (now, uid)
        pendingPerUid := s.pendingPerUid.insert uid ((s.pendingPerUid.lookup uid).getD 0 + 1) })

/-- Spend a nonce at the instant `now`. It is removed first, and checked then. -/
def consume (s : NonceStore) (nonce : Nonce) (uid : UInt32) (now : ℕ) :
    Except NonceError Unit × NonceStore :=
  if s.poisoned then (.error .statePoisoned, s)
  else
    match s.pending.lookup nonce with
    | none => (.error .notFound, s)
    | some (issuedAt, storedUid) =>
      let s' := { s with
        pending := s.pending.erase nonce
        pendingPerUid := decrementUidCount s.pendingPerUid storedUid }
      if nonceTtl < now - issuedAt then (.error .expired, s')
      else if storedUid ≠ uid then (.error .uidMismatch, s')
      else (.ok (), s')

/-- Remove the given nonces, with their counts. -/
def removeAll (s : NonceStore) : List Nonce → NonceStore
  | [] => s
  | nonce :: nonces =>
    match s.pending.lookup nonce with
    | none => s.removeAll nonces
    | some (_, uid) =>
      removeAll { s with
        pending := s.pending.erase nonce
        pendingPerUid := decrementUidCount s.pendingPerUid uid } nonces

/-- One tick of the background task at the instant `now`. -/
def cleanup (s : NonceStore) (now : ℕ) : NonceStore :=
  if s.poisoned then s
  else s.removeAll ((s.pending.entries.filter fun e => nonceTtl ≤ now - e.2.1).map Sigma.fst)

variable {s s' : NonceStore} {nonce : Nonce} {uid : UInt32} {now : ℕ}

/-- **What consuming accepts**: a pending nonce that was issued for this user and has not
expired. -/
theorem consume_eq_ok_iff : (s.consume nonce uid now).1 = .ok () ↔
    s.poisoned = false ∧ ∃ issuedAt, s.pending.lookup nonce = some (issuedAt, uid) ∧
      now - issuedAt ≤ nonceTtl := by
  unfold consume
  cases s.poisoned with
  | true => simp
  | false =>
    cases hl : s.pending.lookup nonce with
    | none => simp
    | some p =>
      obtain ⟨issuedAt, storedUid⟩ := p
      by_cases he : nonceTtl < now - issuedAt
      · simp only [Bool.false_eq_true, if_false, he, if_true, reduceCtorEq, Option.some.injEq,
          Prod.mk.injEq, true_and, false_iff, not_exists, not_and]
        rintro _ ⟨rfl, -⟩
        omega
      · by_cases hu : storedUid = uid
        · subst hu
          simpa [he] using Nat.le_of_not_lt he
        · simp [he, hu]

/-- A nonce that was accepted is gone. -/
theorem lookup_consume (h : (s.consume nonce uid now).1 = .ok ()) :
    (s.consume nonce uid now).2.pending.lookup nonce = none := by
  obtain ⟨hp, issuedAt, hl, hold⟩ := consume_eq_ok_iff.mp h
  have hne : ¬ nonceTtl < now - issuedAt := by omega
  simp [consume, hp, hl, hne]

/-- A nonce that was drawn is not pending and was given at one of the attempts left. -/
theorem drawNonce_eq_ok {pending : AList fun _ : Nonce => ℕ × UInt32} {draw : ℕ → Option Nonce}
    {i attempts : ℕ} (h : drawNonce pending draw i attempts = .ok nonce) :
    nonce ∉ pending ∧ ∃ a < i + attempts, draw a = some nonce := by
  induction attempts generalizing i with
  | zero => cases h
  | succ attempts ih =>
    rw [drawNonce] at h
    split at h
    · cases h
    · next hdraw =>
      split at h
      · obtain ⟨hnot, a, ha, hd⟩ := ih h
        exact ⟨hnot, a, by omega, hd⟩
      · next hnot =>
        obtain rfl := Except.ok.inj h
        exact ⟨hnot, i, by omega, hdraw⟩

/-! ## What the operations do -/

/-- The store with one more nonce. -/
def add (s : NonceStore) (nonce : Nonce) (uid : UInt32) (now : ℕ) : NonceStore :=
  { s with
    pending := s.pending.insert nonce (now, uid)
    pendingPerUid := s.pendingPerUid.insert uid ((s.pendingPerUid.lookup uid).getD 0 + 1) }

/-- The store without a nonce that is pending for the user. -/
def remove (s : NonceStore) (nonce : Nonce) (uid : UInt32) : NonceStore :=
  { s with
    pending := s.pending.erase nonce
    pendingPerUid := decrementUidCount s.pendingPerUid uid }

/-- **Issuing** fails and changes nothing, or adds a nonce that was not pending. -/
theorem generate_cases (s : NonceStore) (uid : UInt32) (draw : ℕ → Option Nonce) (now : ℕ) :
    (∃ e, s.generate uid draw now = (.error e, s)) ∨
      ∃ nonce, nonce ∉ s.pending ∧ (∃ a < 16, draw a = some nonce) ∧
        s.generate uid draw now = (.ok nonce, s.add nonce uid now) := by
  unfold generate
  split_ifs
  · exact .inl ⟨_, rfl⟩
  · exact .inl ⟨_, rfl⟩
  · exact .inl ⟨_, rfl⟩
  · split
    · exact .inl ⟨_, rfl⟩
    · next nonce hd =>
      obtain ⟨hnot, a, ha, hdraw⟩ := drawNonce_eq_ok hd
      exact .inr ⟨nonce, hnot, ⟨a, by omega, hdraw⟩, rfl⟩

/-- **Spending** a nonce that is not pending changes nothing; a pending nonce is removed. -/
theorem consume_cases (s : NonceStore) (nonce : Nonce) (uid : UInt32) (now : ℕ) :
    ((s.consume nonce uid now).2 = s ∧ (s.poisoned = false → nonce ∉ s.pending)) ∨
      ∃ issuedAt storedUid, s.pending.lookup nonce = some (issuedAt, storedUid) ∧
        (s.consume nonce uid now).2 = s.remove nonce storedUid := by
  unfold consume
  split
  · next hp => exact .inl ⟨rfl, by simp [hp]⟩
  · split
    · next hl => exact .inl ⟨rfl, fun _ => AList.lookup_eq_none.mp hl⟩
    · next issuedAt storedUid hl =>
      refine .inr ⟨issuedAt, storedUid, hl, ?_⟩
      dsimp only
      split_ifs <;> rfl

/-- What holds of the store and is kept by the removal of a pending nonce holds after a list of
nonces was removed. -/
theorem removeAll_induction {P : NonceStore → Prop}
    (hremove : ∀ s nonce issuedAt uid, P s → s.pending.lookup nonce = some (issuedAt, uid) →
      P (s.remove nonce uid)) (nonces : List Nonce) : ∀ s, P s → P (s.removeAll nonces) := by
  induction nonces with
  | nil => exact fun s hs => hs
  | cons nonce nonces ih =>
    intro s hs
    rw [removeAll]
    split
    · exact ih s hs
    · next issuedAt uid hl => exact ih _ (hremove s nonce issuedAt uid hs hl)

/-- **A tick** removes pending nonces: what holds of the store and is kept by such removals holds
after the tick. -/
theorem cleanup_induction {P : NonceStore → Prop}
    (hremove : ∀ s nonce issuedAt uid, P s → s.pending.lookup nonce = some (issuedAt, uid) →
      P (s.remove nonce uid)) (hs : P s) : P (s.cleanup now) := by
  unfold cleanup
  split
  · exact hs
  · exact removeAll_induction hremove _ s hs

/-- A nonce that is pending after a removal was pending before. -/
theorem lookup_of_lookup_remove {nonce' : Nonce} {p : ℕ × UInt32}
    (h : (s.remove nonce uid).pending.lookup nonce' = some p) :
    s.pending.lookup nonce' = some p := by
  by_cases hne : nonce' = nonce
  · subst hne
    simp [remove] at h
  · rwa [remove, AList.lookup_erase_ne hne] at h

/-- A nonce that is pending after another one was added was pending before. -/
theorem lookup_add_of_ne {nonce' : Nonce} (hne : nonce' ≠ nonce) :
    (s.add nonce uid now).pending.lookup nonce' = s.pending.lookup nonce' :=
  AList.lookup_insert_ne hne

/-- A nonce that is pending after a nonce was spent was pending before. -/
theorem lookup_of_lookup_consume {nonce' : Nonce} {p : ℕ × UInt32}
    (h : (s.consume nonce uid now).2.pending.lookup nonce' = some p) :
    s.pending.lookup nonce' = some p := by
  obtain ⟨heq, -⟩ | ⟨_, _, -, heq⟩ := s.consume_cases nonce uid now
  · rwa [heq] at h
  · rw [heq] at h
    exact lookup_of_lookup_remove h

/-- A nonce that is pending after a tick was pending before. -/
theorem lookup_of_lookup_cleanup {nonce' : Nonce} {p : ℕ × UInt32}
    (h : (s.cleanup now).pending.lookup nonce' = some p) : s.pending.lookup nonce' = some p := by
  have hkept : ∀ p, (s.cleanup now).pending.lookup nonce' = some p →
      s.pending.lookup nonce' = some p :=
    cleanup_induction (P := fun t => ∀ p, t.pending.lookup nonce' = some p →
        s.pending.lookup nonce' = some p)
      (fun t nonce issuedAt uid ht _ p hp => ht p (lookup_of_lookup_remove hp)) fun _ hp => hp
  exact hkept p h

/-- Spending a nonce does not poison the store. -/
@[simp] theorem poisoned_consume : (s.consume nonce uid now).2.poisoned = s.poisoned := by
  obtain ⟨heq, -⟩ | ⟨_, _, -, heq⟩ := s.consume_cases nonce uid now <;> rw [heq]
  rfl

/-- A tick does not poison the store. -/
@[simp] theorem poisoned_cleanup : (s.cleanup now).poisoned = s.poisoned := by
  have hkept : ∀ t : NonceStore, t.poisoned = s.poisoned → (t.cleanup now).poisoned = s.poisoned :=
    fun t => cleanup_induction (P := fun t => t.poisoned = s.poisoned) fun _ _ _ _ h _ => h
  exact hkept s rfl

/-- A nonce is pending if it is found. -/
theorem mem_pending_iff : nonce ∈ s.pending ↔ ∃ p, s.pending.lookup nonce = some p := by
  rw [← AList.lookup_isSome, Option.isSome_iff_exists]

/-- A nonce that was spent, accepted or not, is gone. -/
theorem notMem_consume (hp : s.poisoned = false) :
    nonce ∉ (s.consume nonce uid now).2.pending := by
  obtain ⟨heq, hnot⟩ | ⟨_, _, -, heq⟩ := s.consume_cases nonce uid now
  · rw [heq]
    exact hnot hp
  · rw [heq]
    simp [remove, AList.mem_erase]

/-! ## The counts -/

/-- How many nonces are pending for a user. -/
def owned (s : NonceStore) (uid : UInt32) : ℕ := s.pending.entries.countP fun e => e.2.2 = uid

/-- **The counts are right**: exactly the users with pending nonces have one, and it is the number
of their pending nonces. -/
def CountsPending (s : NonceStore) : Prop :=
  ∀ uid, s.pendingPerUid.lookup uid = if s.owned uid = 0 then none else some (s.owned uid)

/-- The count of a user, zero if there is none. -/
theorem CountsPending.getD (h : s.CountsPending) (uid : UInt32) :
    (s.pendingPerUid.lookup uid).getD 0 = s.owned uid := by
  rw [h uid]
  split
  · next hzero => rw [hzero, Option.getD_none]
  · rw [Option.getD_some]

/-- The counts of a store without nonces. -/
theorem countsPending_new : new.CountsPending := fun _ => rfl

/-- A new nonce counts for its user. -/
theorem owned_add (hnot : nonce ∉ s.pending) (uid' : UInt32) :
    (s.add nonce uid now).owned uid' = s.owned uid' + if uid = uid' then 1 else 0 := by
  have hentries :
      (s.add nonce uid now).pending.entries = ⟨nonce, (now, uid)⟩ :: s.pending.entries :=
    AList.entries_insert_of_notMem hnot
  rw [owned, hentries, List.countP_cons]
  simp [owned]

/-- A removed nonce no longer counts for its user. -/
theorem owned_remove {issuedAt : ℕ} (hl : s.pending.lookup nonce = some (issuedAt, uid))
    (uid' : UInt32) :
    s.owned uid' = (s.remove nonce uid).owned uid' + if uid = uid' then 1 else 0 := by
  have hmem : nonce ∈ s.pending.entries.keys := by
    refine AList.lookup_isSome.mp ?_
    rw [hl]
    rfl
  obtain ⟨b, l₁, l₂, -, hentries, herase⟩ := List.exists_of_kerase hmem
  have hb : b = (issuedAt, uid) := by
    have hin : (⟨nonce, b⟩ : Sigma fun _ : Nonce => ℕ × UInt32) ∈ s.pending.entries := by
      rw [hentries]
      simp
    exact Option.some.inj ((AList.mem_lookup_iff.mpr hin).symm.trans hl)
  subst hb
  have hremoved : (s.remove nonce uid).owned uid' =
      (l₁ ++ l₂).countP fun e => e.2.2 = uid' := by
    rw [owned, remove, ← herase]
    rfl
  rw [hremoved, owned, hentries, List.countP_append, List.countP_cons, List.countP_append]
  simp only [decide_eq_true_eq]
  omega

/-- Issuing a nonce keeps the counts right. -/
theorem CountsPending.add (h : s.CountsPending) (hnot : nonce ∉ s.pending) :
    (s.add nonce uid now).CountsPending := by
  intro uid'
  rw [owned_add hnot]
  by_cases hu : uid = uid'
  · subst hu
    simp only [NonceStore.add, AList.lookup_insert, h.getD, if_true]
    simp
  · simp only [NonceStore.add, AList.lookup_insert_ne (Ne.symm hu), if_neg hu, Nat.add_zero]
    exact h uid'

/-- Removing a pending nonce keeps the counts right. -/
theorem CountsPending.remove (h : s.CountsPending) {issuedAt : ℕ}
    (hl : s.pending.lookup nonce = some (issuedAt, uid)) : (s.remove nonce uid).CountsPending := by
  intro uid'
  have howned := owned_remove hl uid'
  have hcounts : (s.remove nonce uid).pendingPerUid = decrementUidCount s.pendingPerUid uid := rfl
  rw [hcounts, decrementUidCount]
  by_cases hu : uid = uid'
  · subst hu
    rw [if_pos rfl] at howned
    have hcount : s.pendingPerUid.lookup uid = some (s.owned uid) := by
      rw [h uid, if_neg (by omega)]
    simp only [hcount]
    split
    · next hpos =>
      rw [AList.lookup_insert, if_neg (by omega)]
      congr 1
      omega
    · next hpos =>
      rw [AList.lookup_erase, if_pos (by omega)]
  · rw [if_neg hu, Nat.add_zero] at howned
    rw [← howned, ← h uid']
    split
    · split
      · rw [AList.lookup_insert_ne (Ne.symm hu)]
      · rw [AList.lookup_erase_ne (Ne.symm hu)]
    · rw [AList.lookup_erase_ne (Ne.symm hu)]

/-- Spending a nonce keeps the counts right. -/
theorem CountsPending.consume (h : s.CountsPending) :
    (s.consume nonce uid now).2.CountsPending := by
  obtain ⟨heq, -⟩ | ⟨_, _, hl, heq⟩ := s.consume_cases nonce uid now
  · rwa [heq]
  · rw [heq]
    exact h.remove hl

/-- A tick keeps the counts right. -/
theorem CountsPending.cleanup (h : s.CountsPending) : (s.cleanup now).CountsPending :=
  cleanup_induction (fun _ _ _ _ ht hl => ht.remove hl) h

/-! ## Refusals -/

/-- All attempts to draw a nonce have failed only when all of them gave pending nonces. -/
theorem drawNonce_eq_tableFull {pending : AList fun _ : Nonce => ℕ × UInt32}
    {draw : ℕ → Option Nonce} {i attempts : ℕ}
    (h : drawNonce pending draw i attempts = .error .tableFull) :
    ∀ a, i ≤ a → a < i + attempts → ∃ nonce ∈ pending, draw a = some nonce := by
  induction attempts generalizing i with
  | zero =>
    intro a _ _
    omega
  | succ attempts ih =>
    intro a hia hlt
    rw [drawNonce] at h
    split at h
    · cases h
    · next nonce hdraw =>
      split at h
      · next hmem =>
        by_cases ha : a = i
        · subst ha
          exact ⟨nonce, hmem, hdraw⟩
        · exact ih h a (by omega) (by omega)
      · cases h

/-- No attempt to draw a nonce fails because of a user's number of nonces. -/
theorem drawNonce_ne_tooManyForUid {pending : AList fun _ : Nonce => ℕ × UInt32}
    {draw : ℕ → Option Nonce} {i attempts : ℕ} :
    drawNonce pending draw i attempts ≠ .error .tooManyForUid := by
  induction attempts generalizing i with
  | zero => simp [drawNonce]
  | succ attempts ih =>
    rw [drawNonce]
    split
    · simp
    · split
      · exact ih
      · simp

/-- **A store with few nonces does not refuse to issue one**, unless the random source gives
sixteen pending nonces in a row. -/
theorem generate_ne_full {draw : ℕ → Option Nonce} (h : s.CountsPending)
    (hlen : s.pending.entries.length < maxPendingNoncesPerUid)
    (hdraw : ¬ ∀ a < 16, ∃ nonce ∈ s.pending, draw a = some nonce) :
    (s.generate uid draw now).1 ≠ .error .tableFull ∧
      (s.generate uid draw now).1 ≠ .error .tooManyForUid := by
  have howned : s.owned uid ≤ s.pending.entries.length := List.countP_le_length
  have hbounds : maxPendingNoncesPerUid < maxPendingNonces := by decide
  unfold generate
  rw [h.getD, if_neg (show ¬ maxPendingNonces ≤ s.pending.entries.length by omega),
    if_neg (show ¬ maxPendingNoncesPerUid ≤ s.owned uid by omega)]
  split
  · simp
  · split
    · next e hd =>
      constructor
      · intro he
        obtain rfl := Except.error.inj he
        exact hdraw fun a ha => drawNonce_eq_tableFull hd a (Nat.zero_le a) (by omega)
      · intro he
        obtain rfl := Except.error.inj he
        exact drawNonce_ne_tooManyForUid hd
    · simp

end NonceStore

end OlaCore
