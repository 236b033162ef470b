import Mathlib.Algebra.Ring.Nat
import Mathlib.Algebra.BigOperators.Group.List.Basic

/-!
# Accounting for a stream that is buffered with loss

A stream goes into a bounded buffer that drops from its front, and is cut into reports: a
report takes everything buffered and empties the buffer.  A `Ledger` says that nothing went
astray: what was emitted is, report by report and in order, what the buffer dropped and then
what the report has, and the running count that goes with each report is the number of items
dropped up to it.
-/

universe u

namespace PerfAgent

open List

/-- What happened to the items between two reports: the first ones were dropped, the others
reported. -/
structure Epoch (α : Type u) where
  dropped : List α
  reported : List α

namespace Epoch

variable {α : Type u}

def items (e : Epoch α) : List α := e.dropped ++ e.reported

def lost (es : List (Epoch α)) : Nat := (es.map fun e => e.dropped.length).sum

@[simp] theorem lost_nil : lost ([] : List (Epoch α)) = 0 := rfl

@[simp] theorem lost_append (es es' : List (Epoch α)) : lost (es ++ es') = lost es + lost es' := by
  simp [lost]

@[simp] theorem lost_singleton (e : Epoch α) : lost [e] = e.dropped.length := by simp [lost]

end Epoch

/-- `emitted` is what the reports have and what was dropped before each of them, followed by
what was dropped since and what is still `held`.  Each report comes with the number of items
dropped by then, and `dropped` is that number now. -/
def Ledger {α : Type u} (emitted : List α) (reports : List (List α × Nat)) (held : List α) (dropped : Nat) : Prop :=
  ∃ (epochs : List (Epoch α)) (current : List α), epochs.map Epoch.reported = reports.map Prod.fst ∧
    (∀ (i : Nat) (r : List α × Nat), reports[i]? = some r → r.2 = Epoch.lost (epochs.take (i + 1))) ∧
    dropped = Epoch.lost epochs + current.length ∧
    emitted = epochs.flatMap Epoch.items ++ (current ++ held)

namespace Ledger

variable {α : Type u} {emitted held held' : List α} {reports : List (List α × Nat)} {n : Nat}

theorem nil : Ledger ([] : List α) [] [] 0 := ⟨[], [], rfl, by simp, rfl, rfl⟩

theorem push (h : Ledger emitted reports held n) {v : α} {dropped : List α} (hd : dropped ++ held' = held ++ [v]) :
    Ledger (emitted ++ [v]) reports held' (n + dropped.length) := by
  obtain ⟨epochs, current, hrep, hcount, hn, hem⟩ := h
  refine ⟨epochs, current ++ dropped, hrep, hcount, ?_, ?_⟩
  · rw [hn, List.length_append, Nat.add_assoc]
  · rw [hem]
    simp only [append_assoc]
    rw [hd]

theorem cut (h : Ledger emitted reports held n) : Ledger emitted (reports ++ [(held, n)]) [] n := by
  obtain ⟨epochs, current, hrep, hcount, hn, hem⟩ := h
  have hlen : epochs.length = reports.length := by simpa using congrArg List.length hrep
  refine ⟨epochs ++ [⟨current, held⟩], [], by simp [hrep], fun i r hr => ?_, by simp [hn], by
    simp [hem, Epoch.items]⟩
  rcases Nat.lt_or_ge i reports.length with hi | hi
  · rw [getElem?_append_left hi] at hr
    rw [hcount i r hr, take_append_of_le_length (by omega)]
  · -- the new report is the last one, and every epoch is before it
    rw [getElem?_append_right hi] at hr
    obtain ⟨hi', rfl⟩ := List.getElem?_eq_some_iff.mp hr
    rw [length_singleton] at hi'
    rw [take_of_length_le (by simp; omega)]
    simp [hn]

end Ledger

end PerfAgent
