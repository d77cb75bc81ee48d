import Mathlib.Algebra.Order.Monoid.Defs
import Mathlib.Algebra.Order.Monoid.Unbundled.Basic
import Mathlib.Data.List.Basic

set_option relaxedAutoImplicit false
set_option autoImplicit false

/-!
# Counting in windows

A limiter that counts in windows admits at most `m` requests in each window, and starts a new window
only when more than `d` has passed since the last one started. The windows are not aligned with the
clock, so an interval may meet two of them. It does not meet three: an interval no longer than `d`
holds the start of one window at most. So no such interval holds more than `2 * m` admitted
requests.

## Main definitions

* `Windows.Request` — a request, with its time and what the limiter did.
* `Windows.Windowed` — the requests of a limiter that counts in windows.

## Main results

* `Windows.Windowed.countP_segment_le` — the requests that are admitted in one window.
* `Windows.Windowed.countP_interval_le` — the requests that are admitted in a short interval.
-/

namespace Windows

/-- A request: its time, whether it was admitted, and whether it has started a window. -/
structure Request (T : Type*) where
  time : T
  admitted : Bool
  starts : Bool

variable {T : Type*} [LinearOrder T] [Add T]

/-- `Windowed d m rs last used`: the requests `rs`, oldest first, were counted in windows. The last
window has started at `last`, if there was one, and `used` requests were admitted since. -/
inductive Windowed (d : T) (m : ℕ) : List (Request T) → Option T → ℕ → Prop
  | nil : Windowed d m [] none 0
  | start {rs : List (Request T)} {last : Option T} {used : ℕ} (t : T) (admitted : Bool) :
      Windowed d m rs last used → (∀ r ∈ rs, r.time ≤ t) → (∀ s, last = some s → s + d < t) →
      admitted.toNat ≤ m → Windowed d m (rs ++ [⟨t, admitted, true⟩]) (some t) admitted.toNat
  | next {rs : List (Request T)} {last : Option T} {used : ℕ} (t : T) (admitted : Bool) :
      Windowed d m rs last used → (∀ r ∈ rs, r.time ≤ t) → used + admitted.toNat ≤ m →
      Windowed d m (rs ++ [⟨t, admitted, false⟩]) last (used + admitted.toNat)

variable {d : T} {m used : ℕ} {rs : List (Request T)} {last : Option T}

/-- A window does not admit more than it may. -/
theorem Windowed.used_le (h : Windowed d m rs last used) : used ≤ m := by
  cases h with
  | nil => exact Nat.zero_le m
  | start t admitted _ _ _ hused => exact hused
  | next t admitted _ _ hused => exact hused

/-- The last window was started by one of the requests. -/
theorem Windowed.exists_start (h : Windowed d m rs last used) {s : T} (hs : last = some s) :
    ∃ r ∈ rs, r.time = s := by
  induction h with
  | nil => cases hs
  | start t admitted _ _ _ _ _ =>
    obtain rfl := Option.some.inj hs
    exact ⟨⟨t, admitted, true⟩, by simp, rfl⟩
  | next t admitted _ _ _ ih =>
    obtain ⟨r, hr, heq⟩ := ih hs
    exact ⟨r, List.mem_append_left _ hr, heq⟩

/-- An initial part of the requests. -/
theorem Windowed.of_append {rs' : List (Request T)} (h : Windowed d m (rs ++ rs') last used) :
    ∃ last' used', Windowed d m rs last' used' := by
  generalize hall : rs ++ rs' = all at h
  induction h generalizing rs' with
  | nil =>
    obtain ⟨rfl, -⟩ := List.append_eq_nil_iff.mp hall
    exact ⟨none, 0, .nil⟩
  | start t admitted hw hle hlast hused ih =>
    rcases List.eq_nil_or_concat rs' with rfl | ⟨rs₀, r, rfl⟩
    · rw [List.append_nil] at hall
      rw [hall]
      exact ⟨_, _, .start t admitted hw hle hlast hused⟩
    · rw [List.concat_eq_append, ← List.append_assoc] at hall
      exact ih (List.append_inj' hall rfl).1
  | next t admitted hw hle hused ih =>
    rcases List.eq_nil_or_concat rs' with rfl | ⟨rs₀, r, rfl⟩
    · rw [List.append_nil] at hall
      rw [hall]
      exact ⟨_, _, .next t admitted hw hle hused⟩
    · rw [List.concat_eq_append, ← List.append_assoc] at hall
      exact ih (List.append_inj' hall rfl).1

/-- The requests from some request on, if none of the later ones starts a window. -/
theorem Windowed.countP_le_used {rs' : List (Request T)} {r : Request T}
    (h : Windowed d m (rs ++ r :: rs') last used) (hno : ∀ r' ∈ rs', r'.starts = false) :
    (r :: rs').countP (·.admitted) ≤ used := by
  generalize hall : rs ++ r :: rs' = all at h
  induction h generalizing rs' with
  | nil => simp at hall
  | start t admitted _ _ _ _ _ =>
    -- The last request starts a window, so it is the first one of the segment.
    rcases List.eq_nil_or_concat rs' with rfl | ⟨rs₀, r', rfl⟩
    · obtain ⟨-, hr⟩ := List.append_inj' hall rfl
      obtain rfl := (List.cons.inj hr).1
      cases admitted <;> simp
    · rw [List.concat_eq_append, ← List.cons_append, ← List.append_assoc] at hall
      obtain ⟨-, hr⟩ := List.append_inj' hall rfl
      obtain rfl := (List.cons.inj hr).1
      have hfalse := hno ⟨t, admitted, true⟩ (by simp)
      cases hfalse
  | next t admitted _ _ _ ih =>
    rcases List.eq_nil_or_concat rs' with rfl | ⟨rs₀, r', rfl⟩
    · obtain ⟨-, hr⟩ := List.append_inj' hall rfl
      obtain rfl := (List.cons.inj hr).1
      cases admitted <;> simp
    · rw [List.concat_eq_append, ← List.cons_append, ← List.append_assoc] at hall
      obtain ⟨hinit, hr⟩ := List.append_inj' hall rfl
      obtain rfl := (List.cons.inj hr).1
      have hcount := ih (fun r' hr' => hno r' (by simp [hr'])) hinit
      rw [List.concat_eq_append, ← List.cons_append, List.countP_append]
      cases admitted <;> simp <;> omega

/-- **One window**: from some request on and up to the start of the next window, at most `m`
requests are admitted. -/
theorem Windowed.countP_segment_le {rs₁ rs₂ rs₃ : List (Request T)}
    (h : Windowed d m (rs₁ ++ rs₂ ++ rs₃) last used)
    (hno : ∀ r ∈ rs₂.tail, r.starts = false) : rs₂.countP (·.admitted) ≤ m := by
  obtain ⟨last', used', hpart⟩ := h.of_append
  cases rs₂ with
  | nil => exact Nat.zero_le m
  | cons r rs₂ => exact (hpart.countP_le_used hno).trans hpart.used_le

/-! ## Short intervals -/

/-- Is the request admitted, at a time from `a` to `b`? -/
def Request.admittedIn (a b : T) (r : Request T) : Bool :=
  r.admitted && decide (a ≤ r.time ∧ r.time ≤ b)

section Interval

variable {a b : T}

omit [Add T] in
/-- A request counts once, if it is admitted. -/
theorem countP_singleton_le (r : Request T) :
    [r].countP (Request.admittedIn a b) ≤ r.admitted.toNat := by
  rw [List.countP_singleton]
  cases hr : r.admitted with
  | false => simp [Request.admittedIn, hr]
  | true => split <;> simp

variable [AddRightMono T]

/-- The invariant behind the bound: the requests in the interval belong to the last window, if that
has started before the interval, and else to two windows.

**Proof sketch.** A window that starts in the interval is preceded by one that has started before
the interval, because the interval is short. -/
theorem Windowed.countP_admittedIn (h : Windowed d m rs last used) (hab : b ≤ a + d) :
    rs.countP (Request.admittedIn a b) ≤ 2 * m ∧
      ((∀ s, last = some s → s ≤ b) → rs.countP (Request.admittedIn a b) ≤ m + used) ∧
      ((∀ s, last = some s → s < a) → rs.countP (Request.admittedIn a b) ≤ used) := by
  induction h with
  | nil => simp
  | @start rs last used t admitted hw hle hlast hused ih =>
    obtain ⟨htwo, hone, hnone⟩ := ih
    rw [List.countP_append]
    rcases lt_or_ge t a with hta | hta
    · -- Nothing has been in the interval so far.
      have hzero : rs.countP (Request.admittedIn a b) = 0 := by
        rw [List.countP_eq_zero]
        intro r hr
        have hlt := (hle r hr).trans_lt hta
        simp [Request.admittedIn, hlt.not_ge]
      have hnew : [(⟨t, admitted, true⟩ : Request T)].countP (Request.admittedIn a b) = 0 := by
        simp [Request.admittedIn, hta.not_ge]
      rw [hzero, hnew]
      simp
    have hnot : ¬ ∀ s, some t = some s → s < a := fun hall => (hall t rfl).not_ge hta
    rcases le_or_gt t b with htb | htb
    · have hbefore : ∀ s, last = some s → s < a := by
        intro s hs
        by_contra has
        have hlt : a + d < t :=
          lt_of_le_of_lt (add_le_add_left (not_lt.mp has) d) (hlast s hs)
        exact (hlt.trans_le htb).not_ge hab
      have hold := hnone hbefore
      have hmax := hw.used_le
      have hnew := countP_singleton_le (a := a) (b := b) ⟨t, admitted, true⟩
      dsimp only at hnew
      exact ⟨by omega, fun _ => by omega, fun hall => absurd hall hnot⟩
    · have hnew : [(⟨t, admitted, true⟩ : Request T)].countP (Request.admittedIn a b) = 0 := by
        simp [Request.admittedIn, htb.not_ge]
      rw [hnew]
      exact ⟨htwo, fun hall => absurd (hall t rfl) htb.not_ge, fun hall => absurd hall hnot⟩
  | @next rs last used t admitted hw hle hused ih =>
    obtain ⟨htwo, hone, hnone⟩ := ih
    rw [List.countP_append]
    have hnew := countP_singleton_le (a := a) (b := b) ⟨t, admitted, false⟩
    dsimp only at hnew
    refine ⟨?_, fun hall => ?_, fun hall => ?_⟩
    · by_cases hlast : ∀ s, last = some s → s ≤ b
      · have := hone hlast
        omega
      · -- The last window has started after the interval, and the request is later.
        push Not at hlast
        obtain ⟨s, hs, hsb⟩ := hlast
        obtain ⟨r, hr, rfl⟩ := hw.exists_start hs
        have htb : b < t := hsb.trans_le (hle r hr)
        have hzero : [(⟨t, admitted, false⟩ : Request T)].countP (Request.admittedIn a b) = 0 := by
          simp [Request.admittedIn, htb.not_ge]
        omega
    · have := hone hall
      omega
    · have := hnone hall
      omega

/-- **A short interval**: at most `2 * m` requests are admitted in it. -/
theorem Windowed.countP_interval_le (h : Windowed d m rs last used) (hab : b ≤ a + d) :
    rs.countP (Request.admittedIn a b) ≤ 2 * m :=
  (h.countP_admittedIn hab).1

end Interval

end Windows
