import Mathlib.Data.List.Nodup
import Mathlib.Data.List.Perm.Basic

/-!
# Lists in order of recency

A list that a least-recently-used policy keeps, against the log of the touches, newest first:
an element is more recent than another if its last touch comes first in the log.
-/

universe u

namespace PerfAgent

open List

variable {α : Type u} [DecidableEq α] {log l l₁ l₂ : List α} {a : α}

/-- The elements have been touched, those in front more recently than those behind. -/
structure ByRecency (log l : List α) : Prop where
  touched : ∀ a ∈ l, a ∈ log
  ordered : l.Pairwise fun a b => log.idxOf a < log.idxOf b

namespace ByRecency

theorem nil (log : List α) : ByRecency log [] := ⟨nofun, List.Pairwise.nil⟩

theorem nodup (h : ByRecency log l) : l.Nodup := by
  refine h.ordered.imp ?_
  rintro a b hlt rfl
  exact Nat.lt_irrefl _ hlt

theorem of_nodup (h : l.Nodup) : ByRecency l l := by
  refine ⟨fun _ ha => ha, pairwise_iff_getElem.mpr fun i j hi hj hij => ?_⟩
  rw [h.idxOf_getElem, h.idxOf_getElem]
  exact hij

theorem sublist (h : ByRecency log l) (hs : l₁.Sublist l) : ByRecency log l₁ :=
  ⟨fun a ha => h.touched a (hs.subset ha), h.ordered.sublist hs⟩

theorem push (h : ByRecency log l) (ha : a ∉ l) : ByRecency (a :: log) (a :: l) := by
  have hidx : ∀ b ∈ l, (a :: log).idxOf b = log.idxOf b + 1 := by
    intro b hb
    rw [idxOf_cons_ne]
    rintro rfl
    exact ha hb
  refine ⟨fun b hb => ?_, pairwise_cons.mpr ⟨fun b hb => ?_, ?_⟩⟩
  · rcases mem_cons.mp hb with rfl | hb
    · exact mem_cons_self
    · exact mem_cons_of_mem _ (h.touched b hb)
  · rw [idxOf_cons_self, hidx b hb]
    exact Nat.succ_pos _
  · refine h.ordered.imp_of_mem ?_
    intro b c hb hc hlt
    rw [hidx b hb, hidx c hc]
    exact Nat.succ_lt_succ hlt

theorem touch (h : ByRecency log (l₁ ++ a :: l₂)) : ByRecency (a :: log) (a :: (l₁ ++ l₂)) := by
  have hnodup : (a :: (l₁ ++ l₂)).Nodup := perm_middle.nodup_iff.mp h.nodup
  have hrest : ByRecency log (l₁ ++ l₂) :=
    h.sublist ((List.Sublist.refl l₁).append (sublist_cons_self a l₂))
  exact hrest.push (nodup_cons.mp hnodup).1

theorem last (h : ByRecency log (l ++ [a])) : ∀ b ∈ l, log.idxOf b < log.idxOf a := by
  intro b hb
  exact (pairwise_append.mp h.ordered).2.2 b hb a (mem_singleton_self a)

end ByRecency

omit [DecidableEq α] in
theorem exists_back (hlong : 2 ≤ l.length) (hnodup : l.Nodup) (hfront : l.head? = some a) :
    ∃ b, l.getLast? = some b ∧ l = l.dropLast ++ [b] ∧ b ∉ l.dropLast ∧ l.dropLast.head? = some a := by
  have hne : l ≠ [] := ne_nil_of_length_pos (Nat.lt_of_lt_of_le Nat.zero_lt_two hlong)
  have hsplit := (dropLast_append_getLast hne).symm
  refine ⟨l.getLast hne, getLast?_eq_getLast_of_ne_nil hne, hsplit, fun hin => ?_, ?_⟩
  · rw [hsplit] at hnodup
    exact disjoint_of_nodup_append hnodup hin (mem_singleton_self _)
  · cases hd : l.dropLast with
    | nil =>
      have hlen := congrArg List.length hd
      rw [length_dropLast] at hlen
      exact absurd hlong (by simp only [length_nil] at hlen; omega)
    | cons c l' =>
      rw [hsplit, hd] at hfront
      exact hfront

end PerfAgent
