import Mathlib.Algebra.Order.Field.Basic
import Mathlib.Data.List.Count
import Mathlib.Tactic.Linarith
import Mathlib.Tactic.Ring

/-!
# Token buckets

The level of a bucket that fills at a rate up to its burst, over any ordered field.  Filling twice
is filling for the whole time, so a level may be brought up to date whenever it is asked for.

`Metered` is what a bucket has paid for: whatever is spent in an interval has been in the bucket
at its beginning or has flown into it since.
-/

universe u

namespace PerfAgent

section Spent

variable {K : Type u} [LinearOrder K]

def spentIn (x y : K) (log : List (K × Bool)) : Nat := log.countP fun e => e.2 && decide (x ≤ e.1 ∧ e.1 ≤ y)

theorem spentIn_cons (x y t : K) (spent : Bool) (log : List (K × Bool)) :
    spentIn x y ((t, spent) :: log) = spentIn x y log + if spent = true ∧ x ≤ t ∧ t ≤ y then 1 else 0 := by
  simp [spentIn, List.countP_cons]

variable {log : List (K × Bool)}

theorem spentIn_congr {now x y y' : K} (h : ∀ e ∈ log, e.1 ≤ now) (hy : now ≤ y) (hy' : now ≤ y') :
    spentIn x y log = spentIn x y' log := by
  refine List.countP_congr fun e he => ?_
  have hle := h e he
  simp [hle.trans hy, hle.trans hy']

theorem spentIn_eq_zero {now x : K} (h : ∀ e ∈ log, e.1 ≤ now) (hx : now < x) (y : K) : spentIn x y log = 0 := by
  refine List.countP_eq_zero.mpr fun e he hspent => ?_
  have hle := h e he
  simp only [Bool.and_eq_true, decide_eq_true_eq] at hspent
  exact absurd (hspent.2.1.trans hle) (not_le.mpr hx)

end Spent

structure RateLimit (K : Type u) [Field K] [LinearOrder K] where
  rate : K
  burst : K
  rate_nonneg : 0 ≤ rate
  burst_nonneg : 0 ≤ burst

namespace RateLimit

variable {K : Type u} [Field K] [LinearOrder K] {r : RateLimit K} {level e e' : K}

def fill (r : RateLimit K) (level e : K) : K := min r.burst (level + e * r.rate)

theorem fill_le (r : RateLimit K) (level e : K) : r.fill level e ≤ r.burst := min_le_left _ _

theorem fill_le_add (r : RateLimit K) (level e : K) : r.fill level e ≤ level + e * r.rate := min_le_right _ _

theorem fill_zero (h : level ≤ r.burst) : r.fill level 0 = level := by
  rw [fill, zero_mul, add_zero, min_eq_right h]

variable [IsStrictOrderedRing K]

theorem fill_nonneg (hl : 0 ≤ level) (he : 0 ≤ e) : 0 ≤ r.fill level e :=
  le_min r.burst_nonneg (add_nonneg hl (mul_nonneg he r.rate_nonneg))

theorem fill_burst (he : 0 ≤ e) : r.fill r.burst e = r.burst :=
  min_eq_left (le_add_of_nonneg_right (mul_nonneg he r.rate_nonneg))

theorem fill_fill (level e : K) (he' : 0 ≤ e') : r.fill (r.fill level e) e' = r.fill level (e + e') := by
  have hworth := mul_nonneg he' r.rate_nonneg
  unfold fill
  rw [← min_add_add_right, add_assoc, ← add_mul, ← min_assoc, min_eq_left (le_add_of_nonneg_right hworth)]

/-- The bucket has paid for what has been spent, and has `level` left. -/
structure Metered (r : RateLimit K) (log : List (K × Bool)) (now level : K) : Prop where
  nonneg : 0 ≤ level
  le_burst : level ≤ r.burst
  past : ∀ e ∈ log, e.1 ≤ now
  since : ∀ x ≤ now, (spentIn x now log : K) + level ≤ r.burst + (now - x) * r.rate
  within : ∀ x y, x ≤ y → (spentIn x y log : K) ≤ r.burst + (y - x) * r.rate

theorem Metered.step {log : List (K × Bool)} {now t : K} {spent : Bool} (h : r.Metered log now level) (ht : now ≤ t)
    (hspent : spent = true → 1 ≤ r.fill level (t - now)) :
    r.Metered ((t, spent) :: log) t (r.fill level (t - now) - if spent then 1 else 0) := by
  have hfill := fill_nonneg (r := r) h.nonneg (sub_nonneg.mpr ht)
  have hpast : ∀ e ∈ (t, spent) :: log, e.1 ≤ t := List.forall_mem_cons.mpr ⟨le_rfl, fun e he => (h.past e he).trans ht⟩
  have hnonneg : 0 ≤ r.fill level (t - now) - if spent then 1 else 0 := by
    cases spent with
    | true => simpa using hspent rfl
    | false => simpa using hfill
  have hsince : ∀ x ≤ t, (spentIn x t ((t, spent) :: log) : K) + (r.fill level (t - now) - if spent then 1 else 0) ≤
      r.burst + (t - x) * r.rate := by
    intro x hx
    have hone : (spentIn x t ((t, spent) :: log) : K) = spentIn x t log + if spent then 1 else 0 := by
      rw [spentIn_cons]
      cases spent <;> simp [hx]
    rw [hone]
    by_cases hle : x ≤ now
    · have hbefore := h.since x hle
      rw [spentIn_congr h.past le_rfl ht] at hbefore
      have hadd := r.fill_le_add level (t - now)
      linarith
    · rw [spentIn_eq_zero h.past (not_le.mp hle), Nat.cast_zero]
      have hworth := mul_nonneg (sub_nonneg.mpr hx) r.rate_nonneg
      have hburst := r.fill_le level (t - now)
      linarith
  refine ⟨hnonneg, ?_, hpast, hsince, fun x y hxy => ?_⟩
  · have hburst := r.fill_le level (t - now)
    cases spent with
    | true => simpa using hburst.trans (le_add_of_nonneg_right zero_le_one)
    | false => simpa using hburst
  · by_cases hy : t ≤ y
    · rw [spentIn_congr hpast hy le_rfl]
      by_cases hx : x ≤ t
      · have hall := hsince x hx
        have hmono : (t - x) * r.rate ≤ (y - x) * r.rate := mul_le_mul_of_nonneg_right (by linarith) r.rate_nonneg
        linarith
      · rw [spentIn_eq_zero hpast (not_le.mp hx), Nat.cast_zero]
        exact add_nonneg r.burst_nonneg (mul_nonneg (sub_nonneg.mpr hxy) r.rate_nonneg)
    · rw [spentIn_cons, if_neg fun hmem => hy hmem.2.2]
      exact h.within x y hxy

end RateLimit

end PerfAgent
