import Mathlib.Algebra.Order.Group.Nat
import Mathlib.Data.List.AList
import OlaCore.Lib.Runs
import OlaCore.Lib.Windows

set_option relaxedAutoImplicit false
set_option autoImplicit false

/-!
# The rate limiter

The daemon counts the requests of each user (`security/rate_limit`). A user's window starts with a
request and is over when more than a second has passed. The table of users is bounded: stale
entries are removed by a background task, and by a new user's request when the table is full.

Instants are nanoseconds on the monotonic clock, and `Instant::duration_since` saturates at zero.
The hash map is an association list with unique keys.

## Main definitions

* `OlaCore.RateLimiter`, `OlaCore.RateLimiter.check`, `OlaCore.RateLimiter.cleanupStale`.
* `OlaCore.RateWorld.step` — runs of a limiter.

## Main results

* `OlaCore.RateLimiter.check_cases` — what a check does.
* `OlaCore.rate_bound` — how many requests of a user are admitted, over whole runs.
* `OlaCore.cleanup_invisible` — removing stale entries changes no verdict.
-/

namespace OlaCore

open Runs Windows

/-- How many users are tracked. -/
def maxTrackedUids : ℕ := 4096

/-- The length of a window: one second. -/
def rateWindow : ℕ := 10 ^ 9

/-- The age at which an entry is stale: one minute. -/
def staleAfter : ℕ := 60 * 10 ^ 9

/-- The window of a user: when it has started, and the requests since. -/
structure RateEntry where
  lastReset : ℕ
  count : UInt32
  deriving DecidableEq

/-- The windows of the tracked users. -/
abbrev RateTable := AList fun _ : UInt32 => RateEntry

/-- The table behind its lock, and its capacity. -/
structure RateLimiter where
  poisoned : Bool
  limits : RateTable
  maxTrackedUids : ℕ

namespace RateLimiter

/-- A limiter without entries. -/
def withMaxTrackedUids (maxTrackedUids : ℕ) : RateLimiter := ⟨false, ∅, maxTrackedUids⟩

/-- The limiter of the daemon. -/
def new : RateLimiter := withMaxTrackedUids OlaCore.maxTrackedUids

/-- The entries that are not stale (`retain`). -/
def cleanupStaleLocked (limits : RateTable) (now : ℕ) : RateTable where
  entries := limits.entries.filter fun e => now - e.2.lastReset < staleAfter
  nodupKeys := limits.nodupKeys.sublist List.filter_sublist

/-- The tick of the background task. -/
def cleanupStale (l : RateLimiter) (now : ℕ) : RateLimiter :=
  if l.poisoned then l else { l with limits := cleanupStaleLocked l.limits now }

/-- One more than a count, or the largest count. -/
def saturatingSucc (count : UInt32) : UInt32 := if count = 0xffffffff then count else count + 1

/-- Count a request of a user for whom there is room. -/
def countRequest (l : RateLimiter) (limits : RateTable) (uid maxPerSec : UInt32) (now : ℕ) :
    Bool × RateLimiter :=
  let entry := (limits.lookup uid).getD ⟨now, 0⟩
  let entry := if rateWindow < now - entry.lastReset then ⟨now, 0⟩ else entry
  let entry : RateEntry := { entry with count := saturatingSucc entry.count }
  (decide (entry.count ≤ maxPerSec), { l with limits := limits.insert uid entry })

/-- Is a request of the user admitted? -/
def check (l : RateLimiter) (uid maxPerSec : UInt32) (now : ℕ) : Bool × RateLimiter :=
  if l.poisoned then (false, l)
  else if uid ∉ l.limits ∧ l.maxTrackedUids ≤ l.limits.entries.length then
    let limits := cleanupStaleLocked l.limits now
    if l.maxTrackedUids ≤ limits.entries.length then (false, { l with limits })
    else l.countRequest limits uid maxPerSec now
  else l.countRequest l.limits uid maxPerSec now

/-! ## What the operations do -/

variable {l l' : RateLimiter} {limits : RateTable} {uid uid' maxPerSec : UInt32} {now n : ℕ}

/-- **What the removal of stale entries leaves.** -/
theorem lookup_cleanupStaleLocked {entry : RateEntry} :
    (cleanupStaleLocked limits now).lookup uid = some entry ↔
      limits.lookup uid = some entry ∧ now - entry.lastReset < staleAfter := by
  have hmem : (⟨uid, entry⟩ : Sigma fun _ : UInt32 => RateEntry) ∈
      (cleanupStaleLocked limits now).entries ↔
        ⟨uid, entry⟩ ∈ limits.entries ∧ now - entry.lastReset < staleAfter := by
    simp [cleanupStaleLocked]
  exact (AList.mem_lookup_iff.trans hmem).trans (and_congr_left' AList.mem_lookup_iff.symm)

/-- The removal of stale entries makes room. -/
theorem length_cleanupStaleLocked_le :
    (cleanupStaleLocked limits now).entries.length ≤ limits.entries.length :=
  List.length_filter_le _ _

/-- A request is admitted with an exact count, when the limit is not the largest number. -/
theorem toNat_saturatingSucc {count : UInt32} (hmax : maxPerSec < 0xffffffff)
    (h : saturatingSucc count ≤ maxPerSec) :
    (saturatingSucc count).toNat = count.toNat + 1 := by
  rw [UInt32.lt_iff_toNat_lt] at hmax
  rw [UInt32.le_iff_toNat_le] at h
  have hlargest : (0xffffffff : UInt32).toNat = 4294967295 := rfl
  unfold saturatingSucc at h ⊢
  split at h
  · next heq =>
    rw [heq] at h
    omega
  · next hne =>
    have hcount : count.toNat ≠ 4294967295 := fun heq => hne (UInt32.toNat_inj.mp heq)
    have hlt := count.toNat_lt
    have hone : (1 : UInt32).toNat = 1 := rfl
    rw [if_neg hne, UInt32.toNat_add, hone]
    omega

/-- A count does not go down. -/
theorem le_toNat_saturatingSucc {count : UInt32} :
    count.toNat ≤ (saturatingSucc count).toNat := by
  unfold saturatingSucc
  split
  · exact le_rfl
  · next hne =>
    have hcount : count.toNat ≠ 4294967295 := fun heq => hne (UInt32.toNat_inj.mp heq)
    have hlt := count.toNat_lt
    have hone : (1 : UInt32).toNat = 1 := rfl
    rw [UInt32.toNat_add, hone]
    omega

/-- A request that starts a window: the user has no entry, or one whose window is over. -/
theorem countRequest_start (h : ∀ e, limits.lookup uid = some e → rateWindow < now - e.lastReset) :
    l.countRequest limits uid maxPerSec now =
      (decide (1 ≤ maxPerSec), { l with limits := limits.insert uid ⟨now, 1⟩ }) := by
  have hone : saturatingSucc 0 = 1 := rfl
  cases hl : limits.lookup uid with
  | none => simp [countRequest, hl, hone]
  | some e => simp [countRequest, hl, h e hl, hone]

/-- A request that is counted in the window of the user. -/
theorem countRequest_next {e : RateEntry} (hl : limits.lookup uid = some e)
    (h : now - e.lastReset ≤ rateWindow) :
    l.countRequest limits uid maxPerSec now = (decide (saturatingSucc e.count ≤ maxPerSec),
      { l with limits := limits.insert uid ⟨e.lastReset, saturatingSucc e.count⟩ }) := by
  simp [countRequest, hl, not_lt.mpr h]

/-- A user without an entry has none after the removal of stale entries. -/
theorem lookup_cleanupStaleLocked_eq_none (h : limits.lookup uid = none) :
    (cleanupStaleLocked limits now).lookup uid = none := by
  rw [Option.eq_none_iff_forall_ne_some]
  intro e he
  rw [lookup_cleanupStaleLocked, h] at he
  cases he.1

/-- **What a check does.** It refuses the request without counting it, because there is no room for
the user, or starts a window, or counts the request in the window of the user. In the first two
cases the stale entries may have been removed. -/
theorem check_cases (l : RateLimiter) (uid maxPerSec : UInt32) (now : ℕ) :
    (∃ limits, (limits = l.limits ∨ limits = cleanupStaleLocked l.limits now) ∧
      (l.poisoned = true ∧ limits = l.limits ∨ uid ∉ l.limits) ∧
      l.check uid maxPerSec now = (false, { l with limits })) ∨
    (∃ limits, (limits = l.limits ∨ limits = cleanupStaleLocked l.limits now) ∧
      (uid ∈ limits ∨ limits.entries.length < l.maxTrackedUids) ∧
      (∀ e, l.limits.lookup uid = some e → rateWindow < now - e.lastReset) ∧
      l.check uid maxPerSec now =
        (decide (1 ≤ maxPerSec), { l with limits := limits.insert uid ⟨now, 1⟩ })) ∨
    ∃ e, l.limits.lookup uid = some e ∧ now - e.lastReset ≤ rateWindow ∧
      l.check uid maxPerSec now = (decide (saturatingSucc e.count ≤ maxPerSec),
        { l with limits := l.limits.insert uid ⟨e.lastReset, saturatingSucc e.count⟩ }) := by
  unfold check
  split
  · next hp => exact .inl ⟨l.limits, .inl rfl, .inl ⟨hp, rfl⟩, rfl⟩
  split
  · next hfull =>
    have hnone : l.limits.lookup uid = none := AList.lookup_eq_none.mpr hfull.1
    dsimp only
    split
    · exact .inl ⟨_, .inr rfl, .inr hfull.1, rfl⟩
    · next hroom =>
      refine .inr (.inl ⟨_, .inr rfl, .inr (not_le.mp hroom), by simp [hnone], ?_⟩)
      exact countRequest_start (by simp [lookup_cleanupStaleLocked_eq_none hnone])
  · next hroom =>
    by_cases hold : ∀ e, l.limits.lookup uid = some e → rateWindow < now - e.lastReset
    · refine .inr (.inl ⟨l.limits, .inl rfl, ?_, hold, countRequest_start hold⟩)
      rw [not_and_or, not_not, not_le] at hroom
      exact hroom
    · push Not at hold
      obtain ⟨e, hl, hyoung⟩ := hold
      exact .inr (.inr ⟨e, hl, hyoung, countRequest_next hl hyoung⟩)

/-- Entering an entry takes one place at most. -/
theorem length_insert_le {entry : RateEntry} (h : uid ∈ limits ∨ limits.entries.length < n)
    (hlen : limits.entries.length ≤ n) : (limits.insert uid entry).entries.length ≤ n := by
  by_cases hmem : uid ∈ limits
  · have hkeys : (limits.insert uid entry).keys.length = limits.keys.length := by
      rw [AList.keys_insert, List.length_cons, List.length_erase_of_mem hmem]
      have := List.length_pos_of_mem (AList.mem_keys.mp hmem)
      omega
    simp only [AList.keys, List.keys, List.length_map] at hkeys
    omega
  · rw [AList.entries_insert_of_notMem hmem, List.length_cons]
    have := h.resolve_left hmem
    omega

/-- Has a check started a window for the user? There is one that starts now, where there was none
or one that is over. -/
def windowStarted (l l' : RateLimiter) (uid : UInt32) (now : ℕ) : Bool :=
  (l'.limits.lookup uid).any (fun e => e.lastReset = now) &&
    (l.limits.lookup uid).all fun e => rateWindow < now - e.lastReset

end RateLimiter

/-! ## Runs -/

/-- A limiter, and the instant of its last operation. -/
structure RateWorld where
  limiter : RateLimiter
  now : ℕ

/-- The operations: a check, with the limit that it is made with, and a tick of the background
task. -/
inductive RateOp where
  | check (uid maxPerSec : UInt32) (now : ℕ)
  | cleanup (now : ℕ)
  deriving DecidableEq

/-- The instant of an operation. -/
def RateOp.now : RateOp → ℕ
  | .check _ _ now => now
  | .cleanup now => now

/-- What a check has done: its user and time, the verdict, and whether it has started a window. -/
structure RateEvent extends Windows.Request ℕ where
  uid : UInt32

/-- One operation. -/
def RateWorld.step (w : RateWorld) : RateOp → Option (RateWorld × List RateEvent)
  | .check uid maxPerSec now =>
    let (admitted, limiter) := w.limiter.check uid maxPerSec now
    some (⟨limiter, now⟩,
      [⟨⟨now, admitted, w.limiter.windowStarted limiter uid now⟩, uid⟩])
  | .cleanup now => some (⟨w.limiter.cleanupStale now, now⟩, [])

/-- A check, as an operation. -/
theorem RateWorld.step_check {w : RateWorld} {uid maxPerSec : UInt32} {now : ℕ} :
    w.step (.check uid maxPerSec now) =
      some (⟨(w.limiter.check uid maxPerSec now).2, now⟩,
        [⟨⟨now, (w.limiter.check uid maxPerSec now).1,
          w.limiter.windowStarted (w.limiter.check uid maxPerSec now).2 uid now⟩, uid⟩]) := rfl

/-- Instants do not decrease. -/
def RateWorld.InOrder (w : RateWorld) (op : RateOp) : Prop := w.now ≤ op.now

/-- Instants do not decrease, and all checks are made with the same limit. -/
def RateWorld.Constant (maxPerSec : UInt32) (w : RateWorld) (op : RateOp) : Prop :=
  w.InOrder op ∧ ∀ uid k now, op = .check uid k now → k = maxPerSec

section Size

variable {Allowed : RateWorld → RateOp → Prop} {n t₀ : ℕ} {ops : List RateOp} {w : RateWorld}
  {es : List RateEvent}

/-- **The table is bounded**, in every run. -/
theorem RateWorld.length_le
    (h : Run RateWorld.step Allowed ⟨.withMaxTrackedUids n, t₀⟩ ops w es) :
    w.limiter.maxTrackedUids = n ∧ w.limiter.limits.entries.length ≤ n := by
  refine h.invariant (fun _ w _ => w.limiter.maxTrackedUids = n ∧
    w.limiter.limits.entries.length ≤ n) ⟨rfl, Nat.zero_le n⟩ ?_
  rintro ops w es op w' fs ⟨hn, hlen⟩ - hs
  have hshrunk : ∀ {limits : RateTable} {now : ℕ}, (limits = w.limiter.limits ∨
      limits = RateLimiter.cleanupStaleLocked w.limiter.limits now) →
        limits.entries.length ≤ n := by
    rintro limits now (rfl | rfl)
    · exact hlen
    · exact RateLimiter.length_cleanupStaleLocked_le.trans hlen
  cases op with
  | cleanup now =>
    obtain ⟨rfl, -⟩ := Prod.mk.inj (Option.some.inj hs)
    dsimp only
    unfold RateLimiter.cleanupStale
    split
    · exact ⟨hn, hlen⟩
    · exact ⟨hn, hshrunk (.inr rfl)⟩
  | check uid maxPerSec now =>
    rw [RateWorld.step_check] at hs
    obtain ⟨rfl, -⟩ := Prod.mk.inj (Option.some.inj hs)
    obtain ⟨limits, hlimits, -, heq⟩ | ⟨limits, hlimits, hroom, -, heq⟩ | ⟨e, hl, -, heq⟩ :=
      w.limiter.check_cases uid maxPerSec now <;> rw [heq]
    · exact ⟨hn, hshrunk hlimits⟩
    · rw [hn] at hroom
      exact ⟨hn, RateLimiter.length_insert_le hroom (hshrunk hlimits)⟩
    · refine ⟨hn, RateLimiter.length_insert_le (.inl ?_) hlen⟩
      exact AList.lookup_isSome.mp (by rw [hl]; rfl)

end Size

/-! ## The bound -/

/-- The checks for a user. -/
def requestsOf (uid : UInt32) (es : List RateEvent) : List (Windows.Request ℕ) :=
  (es.filter fun e => e.uid = uid).map RateEvent.toRequest

/-- **How the table follows the checks for a user.** They were counted in windows. While the user
has an entry, it holds the start of the last window, and it counts at least the requests that were
admitted in it; the entry is gone only when that window is stale. -/
def Tracks (m : ℕ) (uid : UInt32) (limits : RateTable) (now : ℕ)
    (rs : List (Windows.Request ℕ)) : Prop :=
  (∀ r ∈ rs, r.time ≤ now) ∧ ∃ last used, Windowed rateWindow m rs last used ∧
    match limits.lookup uid with
    | some e => last = some e.lastReset ∧ used ≤ e.count.toNat
    | none => ∀ s, last = some s → s + staleAfter ≤ now

section Bound

variable {m now now' : ℕ} {uid uid' maxPerSec : UInt32} {limits limits' : RateTable}
  {rs : List (Windows.Request ℕ)}

/-- Time passes. -/
theorem Tracks.elapse (h : Tracks m uid limits now rs) (hle : now ≤ now') :
    Tracks m uid limits now' rs := by
  obtain ⟨htimes, last, used, hw, hentry⟩ := h
  refine ⟨fun r hr => (htimes r hr).trans hle, last, used, hw, ?_⟩
  split at hentry
  · exact hentry
  · intro s hs
    exact (hentry s hs).trans hle

/-- Stale entries are removed. -/
theorem Tracks.cleanup (h : Tracks m uid limits now rs) :
    Tracks m uid (RateLimiter.cleanupStaleLocked limits now) now rs := by
  obtain ⟨htimes, last, used, hw, hentry⟩ := h
  refine ⟨htimes, last, used, hw, ?_⟩
  cases hclean : (RateLimiter.cleanupStaleLocked limits now).lookup uid with
  | some e =>
    rw [(RateLimiter.lookup_cleanupStaleLocked.mp hclean).1] at hentry
    exact hentry
  | none =>
    intro s hs
    cases hl : limits.lookup uid with
    | none =>
      rw [hl] at hentry
      exact hentry s hs
    | some e =>
      rw [hl] at hentry
      obtain rfl := Option.some.inj (hs.symm.trans hentry.1)
      -- The entry was there and is removed, so it is stale.
      have hstale : ¬ now - e.lastReset < staleAfter := by
        intro hfresh
        rw [RateLimiter.lookup_cleanupStaleLocked.mpr ⟨hl, hfresh⟩] at hclean
        cases hclean
      have hpos : 0 < staleAfter := by decide
      omega

/-- Stale entries may be removed. -/
theorem Tracks.shrink (h : Tracks m uid limits now rs)
    (hlimits : limits' = limits ∨ limits' = RateLimiter.cleanupStaleLocked limits now) :
    Tracks m uid limits' now rs := by
  rcases hlimits with rfl | rfl
  · exact h
  · exact h.cleanup

/-- The entry of another user is changed. -/
theorem Tracks.insert_ne (h : Tracks m uid limits now rs) (hne : uid ≠ uid') (e : RateEntry) :
    Tracks m uid (limits.insert uid' e) now rs := by
  unfold Tracks
  rw [AList.lookup_insert_ne hne]
  exact h

/-- **A check for the user** is counted in windows. -/
theorem Tracks.check {l : RateLimiter} (hmax : maxPerSec < 0xffffffff)
    (h : Tracks maxPerSec.toNat uid l.limits now rs) :
    Tracks maxPerSec.toNat uid (l.check uid maxPerSec now).2.limits now
      (rs ++ [⟨now, (l.check uid maxPerSec now).1,
        l.windowStarted (l.check uid maxPerSec now).2 uid now⟩]) := by
  have hlast : ∀ admitted starts, ∀ r ∈ rs ++ [(⟨now, admitted, starts⟩ : Windows.Request ℕ)],
      r.time ≤ now := by
    intro admitted starts r hr
    rcases List.mem_append.mp hr with hr | hr
    · exact h.1 r hr
    · rw [List.mem_singleton.mp hr]
  obtain ⟨limits, hlimits, hno, heq⟩ | ⟨limits, -, -, hold, heq⟩ | ⟨e, hl, hyoung, heq⟩ :=
    l.check_cases uid maxPerSec now <;> rw [heq] <;> dsimp only
  · -- The request is refused, and nothing changes for the user.
    have hstarts : l.windowStarted { l with limits } uid now = false := by
      unfold RateLimiter.windowStarted
      rcases hno with ⟨-, rfl⟩ | hno
      · cases hl : l.limits.lookup uid with
        | none => rfl
        | some e =>
          simp only [Option.any_some, Option.all_some, Bool.and_eq_false_imp, decide_eq_true_eq,
            decide_eq_false_iff_not]
          omega
      · have hnone : limits.lookup uid = none := by
          rcases hlimits with rfl | rfl
          · exact AList.lookup_eq_none.mpr hno
          · exact RateLimiter.lookup_cleanupStaleLocked_eq_none (AList.lookup_eq_none.mpr hno)
        simp [hnone]
    rw [hstarts]
    obtain ⟨-, last, used, hw, hentry⟩ := h.shrink hlimits
    exact ⟨hlast _ _, last, used, hw.next now false h.1 hw.used_le, hentry⟩
  · -- A window starts: there was no entry, or one whose window is over.
    have hstarts : l.windowStarted { l with limits := limits.insert uid ⟨now, 1⟩ } uid now =
        true := by
      unfold RateLimiter.windowStarted
      rw [AList.lookup_insert]
      cases hl : l.limits.lookup uid with
      | none => simp
      | some e => simpa using hold e hl
    rw [hstarts]
    obtain ⟨htimes, last, used, hw, hentry⟩ := h
    have hspaced : ∀ s, last = some s → s + rateWindow < now := by
      intro s hs
      have hlong : rateWindow < staleAfter := by decide
      cases hl : l.limits.lookup uid with
      | none =>
        rw [hl] at hentry
        have := hentry s hs
        omega
      | some e =>
        rw [hl] at hentry
        obtain rfl := Option.some.inj (hs.symm.trans hentry.1)
        have := hold e hl
        omega
    have hadmitted : (decide (1 ≤ maxPerSec)).toNat ≤ maxPerSec.toNat := by
      by_cases hpos : 1 ≤ maxPerSec
      · simpa [hpos] using UInt32.le_iff_toNat_le.mp hpos
      · simp [hpos]
    refine ⟨hlast _ _, some now, _, hw.start now _ htimes hspaced hadmitted, ?_⟩
    rw [AList.lookup_insert]
    have hcount : (1 : UInt32).toNat = 1 := rfl
    refine ⟨rfl, ?_⟩
    dsimp only
    rw [hcount]
    exact Bool.toNat_le _
  · -- The request is counted in the window of the user.
    have hstarts : l.windowStarted { l with
        limits := l.limits.insert uid ⟨e.lastReset, RateLimiter.saturatingSucc e.count⟩ } uid now =
          false := by
      unfold RateLimiter.windowStarted
      simp [hl, hyoung]
    rw [hstarts]
    obtain ⟨htimes, last, used, hw, hentry⟩ := h
    rw [hl] at hentry
    obtain ⟨rfl, hused⟩ := hentry
    by_cases hadmitted : RateLimiter.saturatingSucc e.count ≤ maxPerSec
    · have hcount := RateLimiter.toNat_saturatingSucc hmax hadmitted
      have hle := UInt32.le_iff_toNat_le.mp hadmitted
      rw [decide_eq_true hadmitted]
      refine ⟨hlast _ _, _, _, hw.next now true htimes (by simp; omega), ?_⟩
      rw [AList.lookup_insert]
      exact ⟨rfl, by simp; omega⟩
    · rw [decide_eq_false hadmitted]
      refine ⟨hlast _ _, _, _, hw.next now false htimes hw.used_le, ?_⟩
      rw [AList.lookup_insert]
      exact ⟨rfl, hused.trans RateLimiter.le_toNat_saturatingSucc⟩

/-- **The table follows the checks for every user**, in every run. -/
theorem tracks_of_run (hmax : maxPerSec < 0xffffffff) {n t₀ : ℕ} {ops : List RateOp}
    {w : RateWorld} {es : List RateEvent}
    (h : Run RateWorld.step (RateWorld.Constant maxPerSec) ⟨.withMaxTrackedUids n, t₀⟩ ops w es)
    (uid : UInt32) : Tracks maxPerSec.toNat uid w.limiter.limits w.now (requestsOf uid es) := by
  refine h.invariant (fun _ w es => Tracks maxPerSec.toNat uid w.limiter.limits w.now
    (requestsOf uid es)) ⟨by simp [requestsOf], none, 0, .nil, fun s hs => by cases hs⟩ ?_
  rintro ops w es op w' fs htracks ⟨horder, hconst⟩ hs
  have hnow := htracks.elapse horder
  cases op with
  | cleanup now =>
    obtain ⟨rfl, rfl⟩ := Prod.mk.inj (Option.some.inj hs)
    rw [List.append_nil]
    dsimp only
    unfold RateLimiter.cleanupStale
    split
    · exact hnow
    · exact hnow.cleanup
  | check uid' k now =>
    obtain rfl := hconst uid' k now rfl
    rw [RateWorld.step_check] at hs
    obtain ⟨rfl, rfl⟩ := Prod.mk.inj (Option.some.inj hs)
    by_cases hu : uid' = uid
    · subst hu
      replace hnow : Tracks k.toNat uid' w.limiter.limits now (requestsOf uid' es) := hnow
      have hcheck := Tracks.check hmax hnow
      simpa [requestsOf] using hcheck
    · -- A check for another user may remove stale entries, and changes the entry of that user.
      have hsame : requestsOf uid (es ++ [⟨⟨now, (w.limiter.check uid' k now).1,
          w.limiter.windowStarted (w.limiter.check uid' k now).2 uid' now⟩, uid'⟩]) =
            requestsOf uid es := by
        simp [requestsOf, hu]
      rw [hsame]
      obtain ⟨limits, hlimits, -, heq⟩ | ⟨limits, hlimits, -, -, heq⟩ | ⟨e, -, -, heq⟩ :=
        w.limiter.check_cases uid' k now <;> rw [heq]
      · exact hnow.shrink hlimits
      · exact (hnow.shrink hlimits).insert_ne (Ne.symm hu) _
      · exact hnow.insert_ne (Ne.symm hu) _

/-- **The rate of a user is bounded, over whole runs.** Whatever the users ask and whenever the
table is cleaned, with one limit for all checks that is not the largest number:

* in a second at most twice the limit of a user's requests are admitted;
* from a check for the user, such as one that starts a window, up to the next start of a window, at
  most the limit is admitted;
* the table does not exceed its capacity. -/
theorem rate_bound (hmax : maxPerSec < 0xffffffff) {n t₀ : ℕ} {ops : List RateOp}
    {w : RateWorld} {es : List RateEvent}
    (h : Run RateWorld.step (RateWorld.Constant maxPerSec) ⟨.withMaxTrackedUids n, t₀⟩ ops w es) :
    (∀ uid a b, b ≤ a + rateWindow →
      es.countP (fun e => e.uid = uid ∧ e.admitted ∧ a ≤ e.time ∧ e.time ≤ b) ≤
        2 * maxPerSec.toNat) ∧
    (∀ uid es₁ e es₂ es₃, es = es₁ ++ e :: es₂ ++ es₃ →
      (∀ e' ∈ es₂, e'.uid = uid → e'.starts = false) →
      (e :: es₂).countP (fun e => e.uid = uid ∧ e.admitted) ≤ maxPerSec.toNat) ∧
    w.limiter.limits.entries.length ≤ n := by
  refine ⟨?_, ?_, (RateWorld.length_le h).2⟩
  · intro uid a b hab
    obtain ⟨-, last, used, hw, -⟩ := tracks_of_run hmax h uid
    have hcount : es.countP (fun e => e.uid = uid ∧ e.admitted ∧ a ≤ e.time ∧ e.time ≤ b) =
        (requestsOf uid es).countP (Windows.Request.admittedIn a b) := by
      rw [requestsOf, List.countP_map, List.countP_filter]
      apply List.countP_congr
      intro e _
      simp [Windows.Request.admittedIn]
      tauto
    rw [hcount]
    exact hw.countP_interval_le hab
  · rintro uid es₁ e es₂ es₃ rfl hno
    obtain ⟨-, last, used, hw, -⟩ := tracks_of_run hmax h uid
    have hcount : (e :: es₂).countP (fun e => e.uid = uid ∧ e.admitted) =
        (requestsOf uid (e :: es₂)).countP (·.admitted) := by
      rw [requestsOf, List.countP_map, List.countP_filter]
      apply List.countP_congr
      intro e _
      simp
      tauto
    rw [hcount]
    have hsplit : requestsOf uid (es₁ ++ e :: es₂ ++ es₃) =
        requestsOf uid es₁ ++ requestsOf uid (e :: es₂) ++ requestsOf uid es₃ := by
      simp only [requestsOf, List.filter_append, List.map_append]
    have hlater : ∀ r ∈ requestsOf uid es₂, r.starts = false := by
      intro r hr
      obtain ⟨e', he', rfl⟩ := List.mem_map.mp hr
      obtain ⟨hmem, huid⟩ := List.mem_filter.mp he'
      exact hno e' hmem (by simpa using huid)
    have hstarts : ∀ r ∈ (requestsOf uid (e :: es₂)).tail, r.starts = false := by
      intro r hr
      by_cases hu : e.uid = uid
      · rw [requestsOf, List.filter_cons_of_pos (by simpa using hu)] at hr
        exact hlater r hr
      · rw [requestsOf, List.filter_cons_of_neg (by simpa using hu)] at hr
        exact hlater r (List.mem_of_mem_tail hr)
    rw [hsplit] at hw
    exact hw.countP_segment_le hstarts

end Bound

/-- Checks with a limit of two, in a table with room for one user: the third check of the user is
refused, and the fourth one starts a new window. Another user is refused, until the entry of the
first one is stale. A tick removes the entry of the second user. -/
def sampleChecks : List RateOp :=
  [.check 1000 2 0, .check 1000 2 5, .check 1000 2 7, .check 1000 2 (rateWindow + 1),
    .check 1000 2 (rateWindow + 2), .check 1001 2 (rateWindow + 3),
    .check 1001 2 (staleAfter + rateWindow + 1), .cleanup (3 * staleAfter),
    .check 1000 2 (3 * staleAfter + 1)]

/-- The verdicts and the starts of windows in such a run. The bound holds of each user, although
three requests of the first one are admitted within a second. -/
theorem rate_bound_resets :
    ∃ w es, Run RateWorld.step (RateWorld.Constant 2) ⟨.withMaxTrackedUids 1, 0⟩ sampleChecks w es ∧
      es.map (fun e => (e.uid, e.admitted, e.starts)) =
        [(1000, true, true), (1000, true, false), (1000, false, false), (1000, true, true),
          (1000, true, false), (1001, false, false), (1001, true, true), (1000, true, true)] ∧
      es.countP (fun e => e.uid = 1000 ∧ e.admitted ∧ 5 ≤ e.time ∧ e.time ≤ 5 + rateWindow) = 3 ∧
      (∀ uid a, es.countP (fun e => e.uid = uid ∧ e.admitted ∧ a ≤ e.time ∧
        e.time ≤ a + rateWindow) ≤ 4) ∧
      w.limiter.limits.entries.length ≤ 1 := by
  have hconst : ∀ {w : RateWorld} {uid : UInt32} {now : ℕ}, w.now ≤ now →
      RateWorld.Constant 2 w (.check uid 2 now) := by
    intro w uid now hle
    refine ⟨hle, ?_⟩
    rintro _ _ _ ⟨⟩
    rfl
  have htick : ∀ {w : RateWorld} {now : ℕ}, w.now ≤ now →
      RateWorld.Constant 2 w (.cleanup now) := fun hle => ⟨hle, nofun⟩
  have hstart : Run RateWorld.step (RateWorld.Constant 2) ⟨.withMaxTrackedUids 1, 0⟩ []
      ⟨.withMaxTrackedUids 1, 0⟩ [] := .nil
  have hfirst := ((hstart.snoc (.check 1000 2 0) (hconst le_rfl) RateWorld.step_check).snoc
    (.check 1000 2 5) (hconst (by decide)) RateWorld.step_check).snoc (.check 1000 2 7)
    (hconst (by decide)) RateWorld.step_check
  have hreset := (hfirst.snoc (.check 1000 2 (rateWindow + 1)) (hconst (by decide))
    RateWorld.step_check).snoc (.check 1000 2 (rateWindow + 2)) (hconst (by decide))
    RateWorld.step_check
  have hevicted := (hreset.snoc (.check 1001 2 (rateWindow + 3)) (hconst (by decide))
    RateWorld.step_check).snoc (.check 1001 2 (staleAfter + rateWindow + 1)) (hconst (by decide))
    RateWorld.step_check
  have hcleaned := hevicted.snoc (.cleanup (3 * staleAfter)) (htick (by decide)) rfl
  have hrun := hcleaned.snoc (.check 1000 2 (3 * staleAfter + 1)) (hconst (by decide))
    RateWorld.step_check
  obtain ⟨hbound, -, hsize⟩ := rate_bound (by decide) hrun
  exact ⟨_, _, hrun, by decide, by decide, fun uid a => hbound uid a _ le_rfl, hsize⟩

/-! ## Cleaning up -/

section Cleanup

variable {l : RateLimiter} {limits limits' : RateTable} {uid k : UInt32} {t t₁ t₂ : ℕ}

/-- What is removed earlier would be removed later. -/
theorem RateLimiter.cleanupStaleLocked_twice (h : t₁ ≤ t₂) :
    cleanupStaleLocked (cleanupStaleLocked limits t₁) t₂ = cleanupStaleLocked limits t₂ := by
  apply AList.ext
  simp only [cleanupStaleLocked, List.filter_filter]
  apply List.filter_congr
  intro e _
  rw [Bool.and_eq_left_iff_imp]
  simp only [decide_eq_true_eq]
  omega

/-- The verdict on a request, and the entry that it leaves, depend on the entry of the user
only. -/
theorem RateLimiter.countRequest_congr {l' : RateLimiter}
    (h : limits'.lookup uid = limits.lookup uid) :
    (l'.countRequest limits' uid k t).1 = (l.countRequest limits uid k t).1 ∧
      (l'.countRequest limits' uid k t).2.limits.lookup uid =
        (l.countRequest limits uid k t).2.limits.lookup uid := by
  simp [countRequest, h]

/-- A check for a user with an entry. -/
theorem RateLimiter.check_of_mem (hp : l.poisoned = false) (h : uid ∈ l.limits) :
    l.check uid k t = l.countRequest l.limits uid k t := by
  simp [check, hp, h]

/-- A check for a user without an entry, in a table with room. -/
theorem RateLimiter.check_of_notMem (hp : l.poisoned = false) (h : uid ∉ l.limits)
    (hroom : (cleanupStaleLocked l.limits t).entries.length < l.maxTrackedUids) :
    (l.check uid k t).1 = decide (1 ≤ k) ∧
      (l.check uid k t).2.limits.lookup uid = some ⟨t, 1⟩ := by
  have hnone : l.limits.lookup uid = none := AList.lookup_eq_none.mpr h
  unfold check
  rw [if_neg (by simp [hp])]
  split
  · dsimp only
    rw [if_neg (not_le.mpr hroom),
      countRequest_start (by simp [lookup_cleanupStaleLocked_eq_none hnone])]
    exact ⟨rfl, AList.lookup_insert _⟩
  · rw [countRequest_start (by simp [hnone])]
    exact ⟨rfl, AList.lookup_insert _⟩

/-- A check for a user without an entry, in a table that stays full. -/
theorem RateLimiter.check_of_full (hp : l.poisoned = false) (h : uid ∉ l.limits)
    (hfull : l.maxTrackedUids ≤ (cleanupStaleLocked l.limits t).entries.length) :
    (l.check uid k t).1 = false ∧
      (l.check uid k t).2.limits.lookup uid = none := by
  have hnone : l.limits.lookup uid = none := AList.lookup_eq_none.mpr h
  unfold check
  rw [if_neg (by simp [hp]), if_pos ⟨h, hfull.trans length_cleanupStaleLocked_le⟩]
  dsimp only
  rw [if_pos hfull]
  exact ⟨rfl, lookup_cleanupStaleLocked_eq_none hnone⟩

/-- The removal of a stale entry makes room for one. -/
theorem RateLimiter.length_cleanupStaleLocked_lt (h : uid ∈ limits)
    (hgone : uid ∉ cleanupStaleLocked limits t₁) :
    (cleanupStaleLocked limits t₁).entries.length < limits.entries.length := by
  refine lt_of_le_of_ne length_cleanupStaleLocked_le fun heq => hgone ?_
  have hsame : cleanupStaleLocked limits t₁ = limits :=
    AList.ext (List.filter_sublist.eq_of_length heq)
  rw [hsame]
  exact h

/-- **Removing stale entries changes no verdict.** In every reachable table, whatever the limits
and the order of the requests so far: a removal of the stale entries before a check changes neither
its verdict nor the entry that it leaves for its user. -/
theorem cleanup_invisible {Allowed : RateWorld → RateOp → Prop} {n t₀ : ℕ} {ops : List RateOp}
    {w : RateWorld} {es : List RateEvent}
    (h : Run RateWorld.step Allowed ⟨.withMaxTrackedUids n, t₀⟩ ops w es)
    (uid maxPerSec : UInt32) {t₁ t₂ : ℕ} (hle : t₁ ≤ t₂) :
    ((w.limiter.cleanupStale t₁).check uid maxPerSec t₂).1 =
        (w.limiter.check uid maxPerSec t₂).1 ∧
      ((w.limiter.cleanupStale t₁).check uid maxPerSec t₂).2.limits.lookup uid =
        (w.limiter.check uid maxPerSec t₂).2.limits.lookup uid := by
  obtain ⟨hn, hlen⟩ := RateWorld.length_le h
  generalize w.limiter = l at hn hlen ⊢
  cases hp : l.poisoned with
  | true => simp [RateLimiter.cleanupStale, hp]
  | false =>
    have hclean : l.cleanupStale t₁ =
        { l with limits := RateLimiter.cleanupStaleLocked l.limits t₁ } := by
      simp [RateLimiter.cleanupStale, hp]
    have htwice := @RateLimiter.cleanupStaleLocked_twice l.limits _ _ hle
    have hshrinks : ∀ t (limits : RateTable),
        (RateLimiter.cleanupStaleLocked limits t).entries.length ≤ limits.entries.length :=
      fun _ _ => RateLimiter.length_cleanupStaleLocked_le
    rw [hclean]
    by_cases hmem : uid ∈ RateLimiter.cleanupStaleLocked l.limits t₁
    · -- The entry of the user stays.
      obtain ⟨e, he⟩ := Option.isSome_iff_exists.mp (AList.lookup_isSome.mpr hmem)
      have hl := (RateLimiter.lookup_cleanupStaleLocked.mp he).1
      have hold : uid ∈ l.limits := AList.lookup_isSome.mp (by rw [hl]; rfl)
      have hnew := RateLimiter.check_of_mem (l := { l with
        limits := RateLimiter.cleanupStaleLocked l.limits t₁ }) (k := maxPerSec)
        (t := t₂) hp hmem
      rw [RateLimiter.check_of_mem hp hold, hnew]
      exact RateLimiter.countRequest_congr (he.trans hl.symm)
    by_cases hold : uid ∈ l.limits
    · -- The entry of the user is stale, and its window is over.
      have hroom := RateLimiter.length_cleanupStaleLocked_lt hold hmem
      have hnew := RateLimiter.check_of_notMem (l := { l with
        limits := RateLimiter.cleanupStaleLocked l.limits t₁ }) (k := maxPerSec)
        (t := t₂) hp hmem (by
          have := hshrinks t₂ (RateLimiter.cleanupStaleLocked l.limits t₁)
          dsimp only
          omega)
      have hover : ∀ e, l.limits.lookup uid = some e → rateWindow < t₂ - e.lastReset := by
        intro e he
        have hstale : ¬ t₁ - e.lastReset < staleAfter := by
          intro hfresh
          have hstays := RateLimiter.lookup_cleanupStaleLocked.mpr ⟨he, hfresh⟩
          exact hmem (AList.lookup_isSome.mp (by rw [hstays]; rfl))
        have hlong : rateWindow < staleAfter := by decide
        omega
      rw [hnew.1, hnew.2, RateLimiter.check_of_mem hp hold, RateLimiter.countRequest_start hover]
      dsimp only
      rw [AList.lookup_insert]
      exact ⟨rfl, rfl⟩
    · -- The user is new: there is room with the removal exactly when there is without it.
      by_cases hroom : (RateLimiter.cleanupStaleLocked l.limits t₂).entries.length <
          l.maxTrackedUids
      · obtain ⟨hverdict, hentry⟩ := RateLimiter.check_of_notMem (k := maxPerSec) hp hold
          hroom
        obtain ⟨hverdict', hentry'⟩ := RateLimiter.check_of_notMem (l := { l with
          limits := RateLimiter.cleanupStaleLocked l.limits t₁ }) (k := maxPerSec)
          hp hmem (by rw [htwice]; exact hroom)
        exact ⟨hverdict'.trans hverdict.symm, hentry'.trans hentry.symm⟩
      · have hfull := not_lt.mp hroom
        obtain ⟨hverdict, hentry⟩ := RateLimiter.check_of_full (k := maxPerSec) hp hold
          hfull
        obtain ⟨hverdict', hentry'⟩ := RateLimiter.check_of_full (l := { l with
          limits := RateLimiter.cleanupStaleLocked l.limits t₁ }) (k := maxPerSec)
          hp hmem (by rw [htwice]; exact hfull)
        exact ⟨hverdict'.trans hverdict.symm, hentry'.trans hentry.symm⟩

end Cleanup

/-- A full table whose one entry is stale: the new user is admitted either way. -/
theorem cleanup_invisible_full :
    ∃ w es, Run RateWorld.step RateWorld.InOrder ⟨.withMaxTrackedUids 1, 0⟩ [.check 1000 1 0] w es ∧
      ((w.limiter.cleanupStale staleAfter).check 1001 1 (staleAfter + 1)).1 =
        (w.limiter.check 1001 1 (staleAfter + 1)).1 ∧
      (w.limiter.check 1001 1 (staleAfter + 1)).1 = true := by
  have hstart : Run RateWorld.step RateWorld.InOrder ⟨.withMaxTrackedUids 1, 0⟩ []
      ⟨.withMaxTrackedUids 1, 0⟩ [] := .nil
  have hrun := hstart.snoc (.check 1000 1 0) (le_refl 0) RateWorld.step_check
  exact ⟨_, _, hrun, (cleanup_invisible hrun 1001 1 (Nat.le_succ staleAfter)).1, by decide⟩

end OlaCore
