import Mathlib.Order.Defs.LinearOrder
import Mathlib.Data.List.Basic

/-!
# The binary search of Go's `sort` package

`sortSearch n f` is the least index below `n` where `f` holds, and `n` if there is none, for an `f`
that holds from some index on.  In a list whose elements satisfy `p` from some place on, it is the
number of those before.
-/

namespace PerfAgent

open List

/-- The search in the window from `i` to `j`; every turn makes the window smaller, so as many turns as
the window is long are enough. -/
def sortSearchIn (f : Nat → Bool) : Nat → Nat → Nat → Nat
  | 0, i, _ => i
  | turns + 1, i, j =>
    if i < j then
      let h := i + (j - i) / 2
      if f h then sortSearchIn f turns i h else sortSearchIn f turns (h + 1) j
    else i

/-- `sort.Search`. -/
def sortSearch (n : Nat) (f : Nat → Bool) : Nat := sortSearchIn f n 0 n

theorem sortSearchIn_eq {f : Nat → Bool} {turns k i j : Nat} (hturns : j - i ≤ turns) (hi : i ≤ k) (hj : k ≤ j)
    (hbelow : ∀ m, m < k → f m = false) (habove : ∀ m, k ≤ m → m < j → f m = true) :
    sortSearchIn f turns i j = k := by
  induction turns generalizing i j with
  | zero =>
    show i = k
    omega
  | succ turns ih =>
    rw [sortSearchIn]
    split
    · next hlt =>
        dsimp only
        by_cases hk : k ≤ i + (j - i) / 2
        · have hf : f (i + (j - i) / 2) = true := habove _ hk (by omega)
          rw [if_pos hf]
          exact ih (by omega) hi hk fun m hm hm' => habove m hm (by omega)
        · have hf : f (i + (j - i) / 2) = false := hbelow _ (Nat.not_le.mp hk)
          rw [hf, if_neg Bool.false_ne_true]
          exact ih (by omega) (Nat.not_le.mp hk) hj habove
    · next hge => omega

theorem sortSearch_eq {n k : Nat} {f : Nat → Bool} (hk : k ≤ n) (hbelow : ∀ m, m < k → f m = false)
    (habove : ∀ m, k ≤ m → m < n → f m = true) : sortSearch n f = k :=
  sortSearchIn_eq (Nat.le_refl n) (Nat.zero_le k) hk hbelow habove

/-! ## In a list -/

section List

universe u

variable {α : Type u} {p : α → Bool} {l : List α}

theorem filter_not_append_filter (h : l.Pairwise fun a b => p a = true → p b = true) :
    l.filter (fun a => !p a) ++ l.filter p = l := by
  induction l with
  | nil => rfl
  | cons a l ih =>
    obtain ⟨ha, hl⟩ := pairwise_cons.mp h
    cases hp : p a with
    | false => rw [filter_cons_of_pos (by simp [hp]), filter_cons_of_neg (by simp [hp]),
        cons_append, ih hl]
    | true =>
      have hall : ∀ b ∈ l, p b = true := fun b hb => ha b hb hp
      rw [filter_cons_of_neg (by simp [hp]), filter_cons_of_pos hp,
        filter_eq_nil_iff.mpr fun b hb => by simp [hall b hb],
        filter_eq_self.mpr hall, nil_append]

theorem take_countP_not (h : l.Pairwise fun a b => p a = true → p b = true) :
    l.take (l.countP fun a => !p a) = l.filter fun a => !p a := by
  conv_lhs => rw [← filter_not_append_filter h, countP_append, countP_eq_length.mpr fun a ha => (mem_filter.mp ha).2,
    countP_eq_zero.mpr fun a ha => by simp [(mem_filter.mp ha).2], Nat.add_zero]
  exact take_left

theorem sortSearch_take (h : l.Pairwise fun a b => p a = true → p b = true) {n : Nat} (hn : n ≤ l.length) :
    (sortSearch n fun i => l[i]?.any p) = (l.take n).countP fun a => !p a := by
  have hlen : (l.take n).length = n := length_take_of_le hn
  have ht : (l.take n).Pairwise fun a b => p a = true → p b = true := h.sublist (take_sublist n l)
  have hk : ((l.take n).countP fun a => !p a) ≤ n :=
    Nat.le_trans countP_le_length (Nat.le_of_eq hlen)
  have hget : ∀ m, m < n → l[m]? = (l.take n)[m]? := fun m hm => (getElem?_take_of_lt hm).symm
  refine sortSearch_eq hk (fun m hm => ?_) fun m hm hmn => ?_
  · rw [hget m (by omega), ← getElem?_take_of_lt hm, take_countP_not ht]
    cases hf : ((l.take n).filter fun a => !p a)[m]? with
    | none => rfl
    | some a => simpa using (mem_filter.mp (mem_of_getElem? hf)).2
  · rw [hget m hmn]
    have happend := filter_not_append_filter ht
    rw [← happend, getElem?_append_right (by rwa [← countP_eq_length_filter])]
    have hlt : m - ((l.take n).filter fun a => !p a).length < ((l.take n).filter p).length := by
      have hlength := congrArg List.length happend
      rw [List.length_append, hlen] at hlength
      rw [countP_eq_length_filter] at hm
      omega
    rw [getElem?_eq_getElem hlt]
    exact (mem_filter.mp (getElem_mem hlt)).2

theorem sortSearch_length (h : l.Pairwise fun a b => p a = true → p b = true) :
    (sortSearch l.length fun i => l[i]?.any p) = l.countP fun a => !p a := by
  rw [sortSearch_take h (Nat.le_refl _), take_length]

end List

end PerfAgent
