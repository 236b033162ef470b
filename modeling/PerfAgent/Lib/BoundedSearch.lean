import Mathlib.Tactic.NormNum.Basic

/-!
# Binary search with a bound on its steps

A binary search over the indices of a half-open window, which stops after a fixed number of
probes.  `cmp m` says on which side of index `m` the sought index lies.

With `k` probes every index of a window of fewer than `2 ^ k` indices is found.  In a window
of exactly `2 ^ k` all but one are: the first index would take one probe more.
-/

namespace PerfAgent

/-- The search in the window `[lo, hi)`, with at most `k` probes. -/
def boundedSearch (cmp : Nat → Ordering) : Nat → Nat → Nat → Option Nat
  | 0, _, _ => none
  | k + 1, lo, hi =>
    if hi ≤ lo then none
    else
      let mid := lo + (hi - lo) / 2
      match cmp mid with
      | .lt => boundedSearch cmp k lo mid
      | .gt => boundedSearch cmp k (mid + 1) hi
      | .eq => some mid

/-- Index `j` is the one that is sought in a window. -/
structure Sought (cmp : Nat → Ordering) (j lo hi : Nat) : Prop where
  lo_le : lo ≤ j
  lt_hi : j < hi
  here : cmp j = .eq
  before : ∀ m, j < m → m < hi → cmp m = .lt
  after : ∀ m, lo ≤ m → m < j → cmp m = .gt

variable {cmp : Nat → Ordering} {k j lo hi : Nat}

namespace Sought

theorem left (h : Sought cmp j lo hi) {mid : Nat} (hlt : j < mid) (hle : mid ≤ hi) : Sought cmp j lo mid :=
  { h with
    lt_hi := hlt
    before := fun m hm hm' => h.before m hm (lt_of_lt_of_le hm' hle) }

theorem right (h : Sought cmp j lo hi) {mid : Nat} (hlt : mid < j) (hle : lo ≤ mid) : Sought cmp j (mid + 1) hi :=
  { h with
    lo_le := hlt
    after := fun m hm => h.after m (by omega) }

end Sought

theorem boundedSearch_sound {m : Nat} (h : boundedSearch cmp k lo hi = some m) : lo ≤ m ∧ m < hi ∧ cmp m = .eq := by
  induction k generalizing lo hi with
  | zero => cases h
  | succ k ih =>
    rw [boundedSearch] at h
    split at h
    · cases h
    · dsimp only at h
      split at h
      · have := ih h
        exact ⟨this.1, by omega, this.2.2⟩
      · have := ih h
        exact ⟨by omega, this.2⟩
      · next hmid =>
        cases h
        exact ⟨by omega, by omega, hmid⟩

theorem boundedSearch_step (h : Sought cmp j lo hi) : boundedSearch cmp (k + 1) lo hi =
      if j < lo + (hi - lo) / 2 then boundedSearch cmp k lo (lo + (hi - lo) / 2)
      else if lo + (hi - lo) / 2 < j then boundedSearch cmp k (lo + (hi - lo) / 2 + 1) hi
      else some j := by
  have hlo := h.lo_le
  have hhi := h.lt_hi
  rw [boundedSearch, if_neg (by omega)]
  dsimp only
  obtain hlt | heq | hgt := Nat.lt_trichotomy j (lo + (hi - lo) / 2)
  · rw [if_pos hlt, h.before _ hlt (by omega)]
  · rw [if_neg (by omega), if_neg (by omega), ← heq, h.here]
  · rw [if_neg (by omega), if_pos hgt, h.after _ (by omega) hgt]

theorem boundedSearch_of_lt (h : Sought cmp j lo hi) (hk : hi - lo < 2 ^ k) : boundedSearch cmp k lo hi = some j := by
  induction k generalizing lo hi with
  | zero =>
    have := h.lo_le
    have := h.lt_hi
    omega
  | succ k ih =>
    have hpow : 2 ^ (k + 1) = 2 * 2 ^ k := pow_succ' 2 k
    have hlo := h.lo_le
    have hhi := h.lt_hi
    rw [boundedSearch_step h]
    split
    · next hlt => exact ih (h.left hlt (by omega)) (by omega)
    · split
      · next hgt => exact ih (h.right hgt (by omega)) (by omega)
      · rfl

theorem boundedSearch_of_eq (h : Sought cmp j lo hi) (hk : hi - lo = 2 ^ k) :
    boundedSearch cmp k lo hi = if j = lo then none else some j := by
  induction k generalizing lo hi with
  | zero =>
    have hlo := h.lo_le
    have hhi := h.lt_hi
    rw [pow_zero] at hk
    rw [if_pos (by omega)]
    rfl
  | succ k ih =>
    have hpow : 2 ^ (k + 1) = 2 * 2 ^ k := pow_succ' 2 k
    have hpos : 0 < 2 ^ k := Nat.two_pow_pos k
    have hlo := h.lo_le
    have hhi := h.lt_hi
    rw [boundedSearch_step h]
    split
    · next hlt => exact ih (h.left hlt (by omega)) (by omega)
    · next hge =>
      rw [if_neg (show j ≠ lo by omega)]
      split
      · next hgt => exact boundedSearch_of_lt (h.right hgt (by omega)) (by omega)
      · rfl

end PerfAgent
