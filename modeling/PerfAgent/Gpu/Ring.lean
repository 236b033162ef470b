import Mathlib.Data.List.Basic
import Mathlib.Data.Nat.ModEq

/-!
# The ring buffers of the timeline

The fixed-capacity circular buffer behind the timeline's executions, events and modules
(`gpu/timeline.go`).  The slice never grows: a push into a full ring overwrites the oldest
item in place and says so.  `Snapshot` swaps a ring for its cleared spare and hands the
old one out, so two slices are in use in turn.

What a ring *means* is `items`, oldest first.  The equations below say what each operation
does to it, and no client looks at the slice.
-/

universe u

namespace PerfAgent.Gpu

open List

/-- A circular buffer; its slice is never empty and its window never exceeds it. -/
structure Ring (α : Type u) where
  buf : List α
  start : Nat := 0
  count : Nat := 0
  start_lt : start < buf.length
  count_le : count ≤ buf.length

variable (capacity : Int)

def newRing {α : Type u} [Inhabited α] : Ring α where
  buf := List.replicate (if capacity ≤ 0 then 1 else capacity.toNat) default
  start_lt := by
    rw [length_replicate]
    split <;> omega
  count_le := Nat.zero_le _

namespace Ring

variable {α : Type u} [Inhabited α]

omit [Inhabited α] in
theorem buf_pos (r : Ring α) : 0 < r.buf.length := Nat.zero_lt_of_lt r.start_lt

/-- The slot of the `i`-th item of the window. -/
def slot (r : Ring α) (i : Nat) : Nat := (r.start + i) % r.buf.length

def items (r : Ring α) : List α := (List.range r.count).map fun i => r.buf.getD (r.slot i) default

/-- Append `v`; a full ring overwrites its oldest item and answers `true`. -/
def push (r : Ring α) (v : α) : Ring α × Bool :=
  if h : r.count < r.buf.length then
    ({ buf := r.buf.set (r.slot r.count) v
       start := r.start
       count := r.count + 1
       start_lt := by rw [length_set]; exact r.start_lt
       count_le := by rw [length_set]; exact h }, false)
  else
    ({ buf := r.buf.set r.start v
       start := (r.start + 1) % r.buf.length
       count := r.count
       start_lt := by rw [length_set]; exact Nat.mod_lt _ r.buf_pos
       count_le := by rw [length_set]; exact r.count_le }, true)

/-- Clear the window's slots and empty it; a window that wraps is cleared in two pieces. -/
def reset (r : Ring α) : Ring α where
  buf := r.buf.mapIdx fun i v =>
    if r.start ≤ i ∧ i < r.start + r.count ∨ i + r.buf.length < r.start + r.count then default
    else v
  start := 0
  count := 0
  start_lt := by rw [length_mapIdx]; exact r.buf_pos
  count_le := Nat.zero_le _

def halfFull (r : Ring α) : Bool := r.count * 2 ≥ r.buf.length

variable (cur : Ring α)

/-- The ring to continue with: the spare when there is one of the same capacity, and a new
one otherwise.  The old ring is the caller's. -/
def swapRing (spare : Option (Ring α)) : Ring α :=
  match spare with
  | some next => if next.buf.length ≠ cur.buf.length then newRing cur.buf.length else next
  | none => newRing cur.buf.length

/-! ## Items -/

@[simp] theorem items_newRing : (newRing capacity : Ring α).items = [] := rfl

@[simp] theorem items_reset (r : Ring α) : r.reset.items = [] := rfl

@[simp] theorem length_items (r : Ring α) : r.items.length = r.count := by simp [items]

theorem getElem_items (r : Ring α) {i : Nat} (h : i < r.items.length) :
    r.items[i] = r.buf.getD (r.slot i) default := by simp [items]

omit [Inhabited α] in
theorem slot_lt (r : Ring α) (i : Nat) : r.slot i < r.buf.length := Nat.mod_lt _ r.buf_pos

omit [Inhabited α] in
theorem slot_zero (r : Ring α) : r.slot 0 = r.start := Nat.mod_eq_of_lt r.start_lt

omit [Inhabited α] in
theorem slot_ne (r : Ring α) {i j : Nat} (hij : i < j) (hj : j < r.buf.length) : r.slot i ≠ r.slot j := by
  intro h
  have hmod : i ≡ j [MOD r.buf.length] := Nat.ModEq.add_left_cancel' r.start h
  have := hmod.eq_of_lt_of_lt (Nat.lt_trans hij hj) hj
  omega

omit [Inhabited α] in
theorem slot_length (r : Ring α) : r.slot r.buf.length = r.start := by
  rw [slot, Nat.add_mod_right, Nat.mod_eq_of_lt r.start_lt]

variable {l : List α}

theorem getD_set_slot_ne {i j : Nat} (v : α) (h : i ≠ j) : (l.set i v).getD j default = l.getD j default := by
  simp [getD_eq_getElem?_getD, h]

theorem getD_set_slot_self {i : Nat} (v : α) (h : i < l.length) : (l.set i v).getD i default = v := by
  simp [getD_eq_getElem?_getD, h]

theorem items_push_of_lt (r : Ring α) (v : α) (h : r.count < r.buf.length) :
    (r.push v).1.items = r.items ++ [v] ∧ (r.push v).2 = false := by
  rw [push, dif_pos h]
  refine ⟨?_, rfl⟩
  simp only [items, slot, length_set, range_succ, map_append, map_cons, map_nil]
  congr 1
  · refine map_congr_left fun i hi => ?_
    exact getD_set_slot_ne v (r.slot_ne (mem_range.mp hi) h).symm
  · exact congrArg (fun a => [a]) (getD_set_slot_self v (r.slot_lt _))

theorem items_push_of_full (r : Ring α) (v : α) (h : ¬ r.count < r.buf.length) :
    (r.push v).1.items = r.items.tail ++ [v] ∧ (r.push v).2 = true ∧ r.items ≠ [] := by
  have hcount : r.count = r.buf.length := Nat.le_antisymm r.count_le (Nat.le_of_not_lt h)
  have hne : r.items ≠ [] := by
    intro hnil
    have := r.buf_pos
    rw [← hcount, ← length_items, hnil] at this
    exact Nat.lt_irrefl 0 this
  rw [push, dif_neg h]
  refine ⟨ext_getElem ?_ fun i hi hi' => ?_, rfl, hne⟩
  · have := r.buf_pos
    simp
    omega
  · -- the `i`-th slot of the turned window is the `i + 1`-st of the old one
    rw [getElem_items]
    simp only [slot, length_set, Nat.mod_add_mod]
    rw [Nat.add_assoc, Nat.add_comm 1 i]
    change (r.buf.set r.start v).getD (r.slot (i + 1)) default = _
    have hi₁ : i < r.count := by simpa using hi
    by_cases hlast : i + 1 = r.buf.length
    · rw [hlast, r.slot_length, getD_set_slot_self v r.start_lt, getElem_append_right]
      · simp
      · simp
        omega
    · have hlt : i + 1 < r.buf.length := by omega
      have hne' : r.start ≠ r.slot (i + 1) := by
        rw [← r.slot_zero]
        exact r.slot_ne (Nat.succ_pos i) hlt
      rw [getD_set_slot_ne v hne', getElem_append_left (by simp; omega), getElem_tail, getElem_items]

/-- A push puts the item at the back and drops at most one from the front, and its answer
counts what it dropped. -/
theorem items_push (r : Ring α) (v : α) : ∃ dropped, dropped ++ (r.push v).1.items = r.items ++ [v] ∧
      dropped.length = (r.push v).2.toNat := by
  by_cases h : r.count < r.buf.length
  · obtain ⟨hi, he⟩ := r.items_push_of_lt v h
    exact ⟨[], by rw [hi]; rfl, by rw [he]; rfl⟩
  · obtain ⟨hi, he, hne⟩ := r.items_push_of_full v h
    obtain ⟨a, l, hl⟩ := exists_cons_of_ne_nil hne
    exact ⟨[a], by rw [hi, hl]; rfl, by rw [he]; rfl⟩

theorem items_swapRing {spare : Option (Ring α)} (h : ∀ r ∈ spare, r.items = []) : (swapRing cur spare).items = [] := by
  cases spare with
  | none => exact items_newRing _
  | some next =>
    rw [swapRing]
    split
    · exact items_newRing _
    · exact h next rfl

end Ring

end PerfAgent.Gpu
