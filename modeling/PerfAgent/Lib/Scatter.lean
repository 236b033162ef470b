import Mathlib.Data.List.Nodup
import Mathlib.Data.List.Perm.Basic

/-!
# Writing to the positions of a list

A list of positions, each with what is written there, carried out from left to right.  Where no position
is written twice, what is read afterwards does not depend on the order.
-/

universe u

namespace PerfAgent

open List

variable {α : Type u} {ws ws' : List (Nat × α)} {l : List α} {i : Nat} {a : α}

def scatter (ws : List (Nat × α)) (l : List α) : List α := ws.foldl (fun l w => l.set w.1 w.2) l

@[simp] theorem scatter_nil (l : List α) : scatter [] l = l := rfl

@[simp] theorem scatter_cons (w : Nat × α) (ws : List (Nat × α)) (l : List α) :
    scatter (w :: ws) l = scatter ws (l.set w.1 w.2) := rfl

theorem scatter_append (ws ws' : List (Nat × α)) (l : List α) :
    scatter (ws ++ ws') l = scatter ws' (scatter ws l) := foldl_append

@[simp] theorem length_scatter (ws : List (Nat × α)) (l : List α) : (scatter ws l).length = l.length := by
  induction ws generalizing l with
  | nil => rfl
  | cons w ws ih => rw [scatter_cons, ih, length_set]

theorem getElem?_scatter_of_notMem (h : i ∉ ws.map Prod.fst) : (scatter ws l)[i]? = l[i]? := by
  induction ws generalizing l with
  | nil => rfl
  | cons w ws ih =>
    rw [map_cons, mem_cons, not_or] at h
    rw [scatter_cons, ih h.2, getElem?_set_ne (Ne.symm h.1)]

theorem getElem?_scatter_of_mem (hnodup : (ws.map Prod.fst).Nodup) (h : (i, a) ∈ ws) (hi : i < l.length) :
    (scatter ws l)[i]? = some a := by
  induction ws generalizing l with
  | nil => cases h
  | cons w ws ih =>
    rw [map_cons, nodup_cons] at hnodup
    rw [scatter_cons]
    rcases mem_cons.mp h with rfl | h
    · rw [getElem?_scatter_of_notMem hnodup.1, getElem?_set_self hi]
    · exact ih hnodup.2 h (by rwa [length_set])

theorem scatter_perm (h : ws.Perm ws') (hnodup : (ws.map Prod.fst).Nodup) (l : List α) :
    scatter ws l = scatter ws' l := by
  induction h generalizing l with
  | nil => rfl
  | cons w _ ih => exact ih (nodup_cons.mp hnodup).2 _
  | swap w w' ws =>
    have hne : w'.1 ≠ w.1 := fun he => (nodup_cons.mp hnodup).1 (by simp [he])
    rw [scatter_cons, scatter_cons, scatter_cons, scatter_cons, set_comm _ _ hne]
  | trans h₁ _ ih₁ ih₂ =>
    rw [ih₁ hnodup, ih₂ ((h₁.map _).nodup_iff.mp hnodup)]

end PerfAgent
