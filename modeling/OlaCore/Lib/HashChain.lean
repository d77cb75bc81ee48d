import Mathlib.Data.List.Induction

set_option relaxedAutoImplicit false
set_option autoImplicit false

/-!
# Hash chains

Records of an arbitrary type `R` carry two hashes: `prev r`, the hash they commit to, and
`hash r`, their own. A list of records is *linked* from a starting hash when the first record
commits to it and every later one to the hash of the record before it.

The commitment theorem says that the last hash of a linked list determines the whole list, as
long as no two records of the two lists share a hash and none has the starting hash.

## Main definitions

* `HashChain.Linked` — linkedness from a starting hash.
* `HashChain.tip` — the hash a next record has to commit to.

## Main results

* `HashChain.linked_append` — linkedness of a concatenation.
* `HashChain.Linked.prev_getElem` — the links, by index.
* `HashChain.Linked.eq_of_tip_eq` — the last hash commits to the list.
* `HashChain.Linked.eq_take_of_hash_eq_tip` — a record's hash commits to the list up to it.
-/

namespace HashChain

variable {R H : Type*} (prev hash : R → H)

/-- `Linked prev hash h rs`: the records of `rs` are chained, starting from the hash `h`. -/
def Linked : H → List R → Prop
  | _, [] => True
  | h, r :: rs => prev r = h ∧ Linked (hash r) rs

/-- The last hash of a list of records, or the starting hash of an empty one. -/
def tip (h : H) (rs : List R) : H := rs.foldl (fun _ r => hash r) h

@[simp] theorem tip_nil (h : H) : tip hash h [] = h := rfl

@[simp] theorem tip_cons (h : H) (r : R) (rs : List R) :
    tip hash h (r :: rs) = tip hash (hash r) rs := rfl

@[simp] theorem tip_append (h : H) (rs ss : List R) :
    tip hash h (rs ++ ss) = tip hash (tip hash h rs) ss := List.foldl_append

/-- The tip is the hash of the last record, or the starting hash if there is none. -/
theorem tip_eq_getLast? (h : H) (rs : List R) :
    tip hash h rs = (rs.getLast?.map hash).getD h := by
  rcases List.eq_nil_or_concat rs with rfl | ⟨rs', r, rfl⟩
  · rfl
  · rw [List.concat_eq_append, tip_append]
    simp

variable {prev hash}

/-- A concatenation is linked when the first list is, and the second is from the tip of the
first. -/
theorem linked_append {h : H} {rs ss : List R} :
    Linked prev hash h (rs ++ ss) ↔
      Linked prev hash h rs ∧ Linked prev hash (tip hash h rs) ss := by
  induction rs generalizing h with
  | nil => simp [Linked]
  | cons r rs ih => simp [Linked, ih, and_assoc]

/-- Appending one record: it has to commit to the tip. -/
theorem linked_concat {h : H} {rs : List R} {r : R} :
    Linked prev hash h (rs ++ [r]) ↔ Linked prev hash h rs ∧ prev r = tip hash h rs := by
  rw [linked_append]
  simp [Linked]

/-- The links of a chain, by index: record `i + 1` commits to the hash of record `i`, and the
first record to the starting hash. -/
theorem Linked.prev_getElem {h : H} {rs : List R} (hl : Linked prev hash h rs) :
    (∀ r, rs[0]? = some r → prev r = h) ∧
      ∀ i r s, rs[i]? = some r → rs[i + 1]? = some s → prev s = hash r := by
  induction rs generalizing h with
  | nil => simp
  | cons r rs ih =>
    obtain ⟨hr, hrs⟩ := hl
    obtain ⟨ih0, ihs⟩ := ih hrs
    refine ⟨fun r' hr' => ?_, fun i r' s hi hs => ?_⟩
    · obtain rfl : r = r' := by simpa using hr'
      exact hr
    · cases i with
      | zero =>
        obtain rfl : r = r' := by simpa using hi
        exact ih0 s (by simpa using hs)
      | succ i => exact ihs i r' s (by simpa using hi) (by simpa using hs)

/-- **The last hash commits to the whole chain.** Two chains from the same start with the same
last hash are equal, if equal hashes mean equal records across the two chains and no record
has the starting hash.

**Proof sketch.** Induction from the end of the first chain. If it is empty, the second one is
too, for a last record would have the starting hash. If both end in a record, the two records
have the same hash, so they are equal and commit to the same hash, which is the tip of what
precedes them. -/
theorem Linked.eq_of_tip_eq {h : H} {rs ss : List R} (hr : Linked prev hash h rs)
    (hs : Linked prev hash h ss) (hinj : ∀ r ∈ rs, ∀ s ∈ ss, hash r = hash s → r = s)
    (hr0 : ∀ r ∈ rs, hash r ≠ h) (hs0 : ∀ s ∈ ss, hash s ≠ h)
    (ht : tip hash h rs = tip hash h ss) : rs = ss := by
  induction rs using List.reverseRecOn generalizing ss with
  | nil =>
    rcases List.eq_nil_or_concat ss with rfl | ⟨ss', s, rfl⟩
    · rfl
    · rw [List.concat_eq_append, tip_append] at ht
      exact absurd ht.symm (hs0 s (by simp))
  | append_singleton rs r ih =>
    rcases List.eq_nil_or_concat ss with rfl | ⟨ss', s, rfl⟩
    · rw [tip_append] at ht
      exact absurd ht (hr0 r (by simp))
    · rw [List.concat_eq_append] at hs hinj hs0 ht ⊢
      have hrs : r = s := by
        refine hinj r (by simp) s (by simp) ?_
        simpa using ht
      subst hrs
      rw [linked_concat] at hr hs
      have htip : tip hash h rs = tip hash h ss' := hr.2.symm.trans hs.2
      rw [ih hr.1 hs.1 (fun x hx y hy => hinj x (by simp [hx]) y (by simp [hy]))
        (fun x hx => hr0 x (by simp [hx])) (fun y hy => hs0 y (by simp [hy])) htip]

/-- A record's hash commits to the chain up to it: if record `n` of a chain has the last hash
of another chain from the same start, that other chain is the first `n + 1` records. -/
theorem Linked.eq_take_of_hash_eq_tip {h : H} {rs ss : List R} (hr : Linked prev hash h rs)
    (hs : Linked prev hash h ss) (hinj : ∀ r ∈ rs, ∀ s ∈ ss, hash r = hash s → r = s)
    (hr0 : ∀ r ∈ rs, hash r ≠ h) (hs0 : ∀ s ∈ ss, hash s ≠ h) {n : ℕ} {s : R}
    (hn : ss[n]? = some s) (ht : hash s = tip hash h rs) : rs = ss.take (n + 1) := by
  have htake : ss.take (n + 1) = ss.take n ++ [s] := by
    rw [List.take_add_one, hn]
    rfl
  have hmem : ∀ x ∈ ss.take (n + 1), x ∈ ss := fun x hx => List.mem_of_mem_take hx
  have hlink : Linked prev hash h (ss.take (n + 1)) := by
    rw [← List.take_append_drop (n + 1) ss] at hs
    exact (linked_append.mp hs).1
  refine hr.eq_of_tip_eq hlink (fun x hx y hy => hinj x hx y (hmem y hy)) hr0
    (fun y hy => hs0 y (hmem y hy)) ?_
  rw [htake, tip_append, ← ht]
  rfl

end HashChain
