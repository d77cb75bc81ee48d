import OlaCore.Security.Nonce

set_option relaxedAutoImplicit false
set_option autoImplicit false

/-!
# Runs of the nonce store

The store keeps two maps, the pending nonces and their number for each user. They stay in step in
every run: whatever the random source gives, whatever is spent and by whom, and whenever the
background task ticks.

The background task and `consume` decide on their own when a nonce has expired. They do not agree
on a nonce that is exactly as old as a nonce may get: `consume` accepts it, but a tick removes it.

## Main definitions

* `OlaCore.NonceStore.Reached` — the states of the store, with the instant of the last operation.
* `OlaCore.NonceStore.Bounded` — the counts are right, and within their limits.

## Main results

* `OlaCore.NonceStore.representation` — the representation invariant, and what the operations do.
* `OlaCore.NonceStore.consume_cleanup_iff` — when a tick does not matter for `consume`.
-/

namespace OlaCore

namespace NonceStore

/-- `Reached s now`: the store `s` is reached by some operations at instants that do not decrease,
the last one at `now`. -/
inductive Reached : NonceStore → ℕ → Prop
  | new (now : ℕ) : Reached new now
  | generate {s : NonceStore} {now now' : ℕ} (uid : UInt32) (draw : ℕ → Option Nonce) :
      Reached s now → now ≤ now' → Reached (s.generate uid draw now').2 now'
  | consume {s : NonceStore} {now now' : ℕ} (nonce : Nonce) (uid : UInt32) :
      Reached s now → now ≤ now' → Reached (s.consume nonce uid now').2 now'
  | cleanup {s : NonceStore} {now now' : ℕ} :
      Reached s now → now ≤ now' → Reached (s.cleanup now') now'

variable {s s' : NonceStore} {nonce : Nonce} {uid : UInt32} {now : ℕ}

/-! ## The representation -/

/-- The counts are right, and neither they nor the number of nonces exceed their limits. -/
structure Bounded (s : NonceStore) : Prop where
  unpoisoned : s.poisoned = false
  counts : s.CountsPending
  perUid : ∀ uid, s.owned uid ≤ maxPendingNoncesPerUid
  total : s.pending.entries.length ≤ maxPendingNonces

/-- A store without nonces. -/
theorem bounded_new : new.Bounded where
  unpoisoned := rfl
  counts := countsPending_new
  perUid := fun _ => Nat.zero_le _
  total := Nat.zero_le _

/-- A nonce was issued only below the limits. -/
theorem lt_of_generate {draw : ℕ → Option Nonce} (hs : s.CountsPending)
    (h : s.generate uid draw now = (.ok nonce, s')) :
    s.pending.entries.length < maxPendingNonces ∧ s.owned uid < maxPendingNoncesPerUid := by
  unfold generate at h
  rw [hs.getD] at h
  split_ifs at h with hp hfull hmany
  · cases (Prod.mk.inj h).1
  · cases (Prod.mk.inj h).1
  · cases (Prod.mk.inj h).1
  · exact ⟨by omega, by omega⟩

/-- One more nonce below the limits. -/
theorem Bounded.add (h : s.Bounded) (hnot : nonce ∉ s.pending)
    (htotal : s.pending.entries.length < maxPendingNonces)
    (huid : s.owned uid < maxPendingNoncesPerUid) : (s.add nonce uid now).Bounded where
  unpoisoned := h.unpoisoned
  counts := h.counts.add hnot
  perUid := by
    intro uid'
    rw [owned_add hnot]
    split
    · next heq =>
      subst heq
      omega
    · exact h.perUid uid'
  total := by
    have hentries :
        (s.add nonce uid now).pending.entries = ⟨nonce, (now, uid)⟩ :: s.pending.entries :=
      AList.entries_insert_of_notMem hnot
    rw [hentries, List.length_cons]
    omega

/-- One nonce less. -/
theorem Bounded.remove (h : s.Bounded) {issuedAt : ℕ}
    (hl : s.pending.lookup nonce = some (issuedAt, uid)) : (s.remove nonce uid).Bounded where
  unpoisoned := h.unpoisoned
  counts := h.counts.remove hl
  perUid := by
    intro uid'
    have howned := owned_remove hl uid'
    have hle := h.perUid uid'
    omega
  total := by
    have hle : (s.remove nonce uid).pending.entries.length ≤ s.pending.entries.length :=
      (List.kerase_sublist nonce s.pending.entries).length_le
    have htotal := h.total
    omega

/-- Issuing a nonce keeps the limits. -/
theorem Bounded.generate (h : s.Bounded) (uid : UInt32) (draw : ℕ → Option Nonce) (now : ℕ) :
    (s.generate uid draw now).2.Bounded := by
  obtain ⟨e, heq⟩ | ⟨nonce, hnot, -, heq⟩ := s.generate_cases uid draw now
  · rw [heq]
    exact h
  · obtain ⟨htotal, huid⟩ := lt_of_generate h.counts heq
    rw [heq]
    exact h.add hnot htotal huid

/-- Spending a nonce keeps the limits. -/
theorem Bounded.consume (h : s.Bounded) (nonce : Nonce) (uid : UInt32) (now : ℕ) :
    (s.consume nonce uid now).2.Bounded := by
  obtain ⟨heq, -⟩ | ⟨_, _, hl, heq⟩ := s.consume_cases nonce uid now
  · rwa [heq]
  · rw [heq]
    exact h.remove hl

/-- A tick keeps the limits. -/
theorem Bounded.cleanup (h : s.Bounded) (now : ℕ) : (s.cleanup now).Bounded :=
  cleanup_induction (fun _ _ _ _ ht hl => ht.remove hl) h

/-- **The invariant holds in every run.** -/
theorem Reached.bounded (h : s.Reached now) : s.Bounded := by
  induction h with
  | new now => exact bounded_new
  | generate uid draw _ _ ih => exact ih.generate uid draw _
  | consume nonce uid _ _ ih => exact ih.consume nonce uid _
  | cleanup _ _ ih => exact ih.cleanup _

/-- The count of the owner of a removed nonce is one less, and no other count changes. -/
theorem CountsPending.lookup_remove (h : s.CountsPending) {issuedAt : ℕ}
    (hl : s.pending.lookup nonce = some (issuedAt, uid)) :
    ((s.remove nonce uid).pendingPerUid.lookup uid).getD 0 + 1 =
        (s.pendingPerUid.lookup uid).getD 0 ∧
      ∀ uid' ≠ uid, (s.remove nonce uid).pendingPerUid.lookup uid' =
        s.pendingPerUid.lookup uid' := by
  have hremoved := h.remove hl
  constructor
  · rw [hremoved.getD, h.getD, owned_remove hl uid, if_pos rfl]
  · intro uid' hne
    have howned := owned_remove hl uid'
    rw [if_neg (Ne.symm hne), Nat.add_zero] at howned
    rw [hremoved uid', h uid', howned]

/-- What a nonce that was refused although it was pending has done to the store. -/
theorem consume_refused {e : NonceError}
    (h : s.consume nonce uid now = (.error e, s')) (he : e = .expired ∨ e = .uidMismatch) :
    ∃ issuedAt owner, s.pending.lookup nonce = some (issuedAt, owner) ∧
      s' = s.remove nonce owner := by
  unfold consume at h
  split at h
  · obtain ⟨rfl, -⟩ := And.imp_left Except.error.inj (Prod.mk.inj h)
    simp at he
  split at h
  · obtain ⟨rfl, -⟩ := And.imp_left Except.error.inj (Prod.mk.inj h)
    simp at he
  next issuedAt owner hl =>
  refine ⟨issuedAt, owner, hl, ?_⟩
  dsimp only at h
  split_ifs at h
  · exact (Prod.mk.inj h).2.symm
  · exact (Prod.mk.inj h).2.symm
  · cases (Prod.mk.inj h).1

/-- **The representation invariant.** In every state that the store can reach:

* exactly the users with pending nonces have a count, and it is the number of their nonces;
* no count exceeds 32, and at most 1024 nonces are pending;
* a nonce that is issued was not pending, and it is all that is added; when none is issued, nothing
  changes;
* a pending nonce that is refused, because it has expired or is claimed by another user, is gone,
  and the count of the user it was issued for is one less, with no other count changed. -/
theorem representation (h : s.Reached now) :
    (∀ uid, s.pendingPerUid.lookup uid = if s.owned uid = 0 then none else some (s.owned uid)) ∧
    (∀ uid count, s.pendingPerUid.lookup uid = some count → count ≤ 32) ∧
    s.pending.entries.length ≤ 1024 ∧
    (∀ uid draw now nonce s', s.generate uid draw now = (.ok nonce, s') →
      nonce ∉ s.pending ∧ s'.pending.lookup nonce = some (now, uid) ∧
      (∀ nonce' ≠ nonce, s'.pending.lookup nonce' = s.pending.lookup nonce') ∧
      ∀ uid', s'.owned uid' = s.owned uid' + if uid = uid' then 1 else 0) ∧
    (∀ uid draw now e s', s.generate uid draw now = (.error e, s') → s' = s) ∧
    ∀ nonce uid now e s', s.consume nonce uid now = (.error e, s') →
      e = .expired ∨ e = .uidMismatch →
      ∃ issuedAt owner, s.pending.lookup nonce = some (issuedAt, owner) ∧
        nonce ∉ s'.pending ∧
        (∀ nonce' ≠ nonce, s'.pending.lookup nonce' = s.pending.lookup nonce') ∧
        (s'.pendingPerUid.lookup owner).getD 0 + 1 = (s.pendingPerUid.lookup owner).getD 0 ∧
        ∀ uid' ≠ owner, s'.pendingPerUid.lookup uid' = s.pendingPerUid.lookup uid' := by
  have hb := h.bounded
  refine ⟨hb.counts, ?_, hb.total, ?_, ?_, ?_⟩
  · intro uid count hl
    have hcount := hb.counts.getD uid
    rw [hl, Option.getD_some] at hcount
    rw [hcount]
    exact hb.perUid uid
  · intro uid draw now nonce s' hg
    obtain ⟨e, heq⟩ | ⟨nonce', hnot, -, heq⟩ := s.generate_cases uid draw now
    · cases (Prod.mk.inj (hg.symm.trans heq)).1
    · obtain ⟨hok, rfl⟩ := Prod.mk.inj (hg.symm.trans heq)
      obtain rfl := Except.ok.inj hok
      exact ⟨hnot, AList.lookup_insert _, fun _ hne => lookup_add_of_ne hne, owned_add hnot⟩
  · intro uid draw now e s' hg
    obtain ⟨e', heq⟩ | ⟨nonce', -, -, heq⟩ := s.generate_cases uid draw now
    · exact (Prod.mk.inj (hg.symm.trans heq)).2
    · cases (Prod.mk.inj (hg.symm.trans heq)).1
  · intro nonce uid now e s' hc he
    obtain ⟨issuedAt, owner, hl, rfl⟩ := consume_refused hc he
    obtain ⟨hcount, hother⟩ := hb.counts.lookup_remove hl
    refine ⟨issuedAt, owner, hl, ?_, ?_, hcount, hother⟩
    · simp [NonceStore.remove, AList.mem_erase]
    · intro nonce' hne
      exact AList.lookup_erase_ne hne

/-- A store with one nonce, issued for the user 1000. -/
def sampleIssued : NonceStore := (new.generate 1000 (fun _ => some (.replicate 32 7)) 5).2

/-- The store is reached by one operation. -/
theorem reached_sampleIssued : sampleIssued.Reached 5 :=
  .generate 1000 _ (.new 5) le_rfl

/-- A nonce that is claimed by another user is gone, and counts no longer for its owner. -/
theorem representation_uid_mismatch :
    ∃ s', sampleIssued.consume (.replicate 32 7) 1001 6 = (.error .uidMismatch, s') ∧
      (.replicate 32 7 : Nonce) ∉ s'.pending ∧ (s'.pendingPerUid.lookup 1000).getD 0 = 0 := by
  have hlookup : sampleIssued.pending.lookup (.replicate 32 7) = some (5, 1000) := rfl
  have hrefused : (sampleIssued.consume (.replicate 32 7) 1001 6).1 = .error .uidMismatch := by
    decide +kernel
  obtain ⟨-, -, -, -, -, hspend⟩ := representation reached_sampleIssued
  obtain ⟨issuedAt, owner, hl, hgone, -, hcount, -⟩ :=
    hspend (.replicate 32 7) 1001 6 .uidMismatch _ (Prod.ext hrefused rfl) (.inr rfl)
  obtain ⟨-, rfl⟩ := Prod.mk.inj (Option.some.inj (hlookup.symm.trans hl))
  refine ⟨_, Prod.ext hrefused rfl, hgone, ?_⟩
  have hone : (sampleIssued.pendingPerUid.lookup 1000).getD 0 = 1 := rfl
  omega

/-! ## The two expiry checks -/

/-- What is pending after some nonces were removed. -/
theorem lookup_removeAll (nonces : List Nonce) :
    (s.removeAll nonces).pending.lookup nonce =
      if nonce ∈ nonces then none else s.pending.lookup nonce := by
  induction nonces generalizing s with
  | nil => rfl
  | cons nonce' nonces ih =>
    rw [removeAll]
    by_cases hne : nonce = nonce'
    · subst hne
      split
      · next hl => simp [ih, hl]
      · simp [ih]
    · split
      · simp [ih, hne]
      · simp [ih, hne, AList.lookup_erase_ne hne]

/-- **What a tick leaves**: the nonces that are not as old as a nonce may get. -/
theorem lookup_cleanup (hp : s.poisoned = false) {issuedAt : ℕ} :
    (s.cleanup now).pending.lookup nonce = some (issuedAt, uid) ↔
      s.pending.lookup nonce = some (issuedAt, uid) ∧ now - issuedAt < nonceTtl := by
  have hexpired : nonce ∈ (s.pending.entries.filter
      (fun e => nonceTtl ≤ now - e.2.1)).map Sigma.fst ↔
        ∃ p, s.pending.lookup nonce = some p ∧ nonceTtl ≤ now - p.1 := by
    simp only [List.mem_map, List.mem_filter, decide_eq_true_eq]
    constructor
    · rintro ⟨⟨_, p⟩, ⟨hmem, hold⟩, rfl⟩
      exact ⟨p, AList.mem_lookup_iff.mpr hmem, hold⟩
    · rintro ⟨p, hl, hold⟩
      exact ⟨⟨nonce, p⟩, ⟨AList.mem_lookup_iff.mp hl, hold⟩, rfl⟩
  rw [cleanup, hp, if_neg Bool.false_ne_true, lookup_removeAll]
  split
  · next hmem =>
    obtain ⟨p, hl, hold⟩ := hexpired.mp hmem
    constructor
    · rintro ⟨⟩
    · rintro ⟨hl', hyoung⟩
      obtain rfl := Option.some.inj (hl.symm.trans hl')
      omega
  · next hmem =>
    constructor
    · intro hl
      refine ⟨hl, ?_⟩
      by_contra hold
      exact hmem (hexpired.mpr ⟨_, hl, by simpa using hold⟩)
    · exact And.left

/-- **When a tick does not matter.** A tick just before a nonce is spent changes whether the nonce
is accepted in one case only: the nonce is pending for the user who spends it and is exactly thirty
seconds old. -/
theorem consume_cleanup_iff (h : s.Reached now) (t : ℕ) (nonce : Nonce) (uid : UInt32) :
    ((s.consume nonce uid t).1 = .ok () ↔ ((s.cleanup t).consume nonce uid t).1 = .ok ()) ↔
      ¬ ∃ issuedAt, s.pending.lookup nonce = some (issuedAt, uid) ∧ t - issuedAt = nonceTtl := by
  have hp := h.bounded.unpoisoned
  rw [consume_eq_ok_iff, consume_eq_ok_iff, poisoned_cleanup]
  simp only [hp, true_and, lookup_cleanup hp]
  constructor
  · rintro hiff ⟨issuedAt, hl, hage⟩
    obtain ⟨issuedAt', ⟨hl', hyoung⟩, -⟩ := hiff.mp ⟨issuedAt, hl, by omega⟩
    obtain ⟨rfl, -⟩ := Prod.mk.inj (Option.some.inj (hl.symm.trans hl'))
    omega
  · intro hnot
    constructor
    · rintro ⟨issuedAt, hl, hage⟩
      have hne : t - issuedAt ≠ nonceTtl := fun heq => hnot ⟨issuedAt, hl, heq⟩
      exact ⟨issuedAt, ⟨hl, by omega⟩, hage⟩
    · rintro ⟨issuedAt, ⟨hl, -⟩, hage⟩
      exact ⟨issuedAt, hl, hage⟩

/-- One instant before, a tick does not matter: the nonce is accepted with it, too. -/
theorem consume_cleanup_iff_early :
    sampleIssued.Reached 5 ∧
      ((sampleIssued.cleanup 30000000004).consume (.replicate 32 7) 1000 30000000004).1 =
        .ok () := by
  refine ⟨reached_sampleIssued, (consume_cleanup_iff reached_sampleIssued _ _ _).mpr ?_ |>.mp ?_⟩
  · rintro ⟨issuedAt, hl, hage⟩
    have hlookup : sampleIssued.pending.lookup (.replicate 32 7) = some (5, 1000) := rfl
    obtain ⟨rfl, -⟩ := Prod.mk.inj (Option.some.inj (hlookup.symm.trans hl))
    simp [nonceTtl] at hage
  · exact consume_eq_ok_iff.mpr ⟨rfl, 5, rfl, by decide⟩

/-- Thirty seconds after it was issued, a nonce is accepted, but not when a tick comes first. -/
theorem tick_removes_valid_nonce :
    sampleIssued.Reached 5 ∧ (∀ e ∈ sampleIssued.pending.entries, e.2.1 ≤ 30000000005) ∧
      (sampleIssued.consume (.replicate 32 7) 1000 30000000005).1 = .ok () ∧
      ((sampleIssued.cleanup 30000000005).consume (.replicate 32 7) 1000 30000000005).1 ≠
        .ok () := by
  refine ⟨reached_sampleIssued, ?_, ?_, ?_⟩
  · intro e he
    have hentries : sampleIssued.pending.entries = [⟨.replicate 32 7, (5, 1000)⟩] := rfl
    rw [hentries, List.mem_singleton] at he
    subst he
    decide
  · exact consume_eq_ok_iff.mpr ⟨rfl, 5, rfl, by decide⟩
  · decide +kernel

end NonceStore

end OlaCore
