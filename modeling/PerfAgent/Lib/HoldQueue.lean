import Mathlib.Algebra.Order.Group.Multiset
import Mathlib.Tactic.Abel

/-!
# A bounded queue that never drops

A queue kept in a slice with a moving head: the elements before the head have been handed
on, and the slice is cut once half of it is behind the head.  A push into a full queue hands
the oldest element back to the caller, so the bound costs nothing but waiting time.  Elements
can also be taken out of the middle, all that meet a condition or the newest one that does.

`held` is what the queue holds as a multiset, and each operation only moves elements between
it and the caller's hands.
-/

universe u v w

namespace PerfAgent

open List

variable {S : Type u} {B : Type v} {E : Type w}

theorem foldl_measure {f : S → B → S} {m : S → Multiset E} {r : B → E} (hf : ∀ s b, m (f s b) = m s + {r b})
    (bs : List B) (s : S) : m (bs.foldl f s) = m s + (bs.map r : Multiset E) := by
  induction bs generalizing s with
  | nil => exact (add_zero _).symm
  | cons b bs ih =>
    rw [foldl_cons, ih, hf, map_cons, ← Multiset.cons_coe, ← Multiset.singleton_add, add_assoc]

theorem foldl_keeps {f : S → B → S} (g : S → E) (hf : ∀ s b, g (f s b) = g s) (bs : List B) (s : S) :
    g (bs.foldl f s) = g s := by
  induction bs generalizing s with
  | nil => rfl
  | cons b bs ih => rw [foldl_cons, ih, hf]

/-- A slice, how much of its front has been handed on, and the bound. -/
structure HoldQueue (α : Type u) where
  buf : List α := []
  head : Nat := 0
  capacity : Nat
  head_le : head ≤ buf.length := by exact Nat.zero_le _

namespace HoldQueue

variable {α : Type u} (q : HoldQueue α)

def rest : List α := q.buf.drop q.head

def len : Nat := q.buf.length - q.head

def compact : HoldQueue α :=
  if q.head = 0 ∨ q.head * 2 < q.buf.length then q
  else { q with buf := q.buf.drop q.head, head := 0, head_le := Nat.zero_le _ }

def pop : Option α × HoldQueue α :=
  if h : q.head < q.buf.length then
    (some q.buf[q.head], compact { q with head := q.head + 1, head_le := h })
  else (none, q)

def append (a : α) : HoldQueue α :=
  { q with
    buf := q.buf ++ [a]
    head_le := by
      rw [List.length_append]
      exact Nat.le_add_right_of_le q.head_le }

/-- Queue an element; a full queue gives up its oldest one for that. -/
def push (q : HoldQueue α) (a : α) : Option α × HoldQueue α :=
  let r := if q.capacity ≤ q.len then q.pop else (none, q)
  (r.1, r.2.append a)

def takeAll (p : α → Bool) : List α × HoldQueue α :=
  (q.rest.filter p,
    { q with
      buf := q.buf.take q.head ++ q.rest.filter (fun a => !p a)
      head_le := by
        rw [List.length_append, length_take, Nat.min_eq_left q.head_le]
        exact Nat.le_add_right _ _ })

/-- The last position before `i`, and not before the head, whose element meets a condition. -/
def scan (q : HoldQueue α) (p : α → Bool) : Nat → Option Nat
  | 0 => none
  | i + 1 =>
    if q.head ≤ i then
      if q.buf[i]?.any p then some i else q.scan p i
    else none

theorem scan_eq_some {q : HoldQueue α} {p : α → Bool} {n i : Nat} (h : q.scan p n = some i) :
    q.head ≤ i ∧ ∃ a, q.buf[i]? = some a ∧ p a = true := by
  induction n with
  | zero => cases h
  | succ n ih =>
    rw [scan] at h
    split_ifs at h with hhead hp
    · cases h
      exact ⟨hhead, (Option.any_eq_true _ _).mp hp⟩
    · exact ih h

def takeNewest (p : α → Bool) : Option α × HoldQueue α :=
  match h : q.scan p q.buf.length with
  | none => (none, q)
  | some i =>
    (q.buf[i]?,
      { q with
        buf := q.buf.eraseIdx i
        head_le := by
          obtain ⟨hhead, a, ha, -⟩ := scan_eq_some h
          obtain ⟨hi, -⟩ := List.getElem?_eq_some_iff.mp ha
          rw [length_eraseIdx_of_lt hi]
          omega })

def drain : List α × HoldQueue α :=
  (q.rest, { q with buf := [], head := 0, head_le := Nat.zero_le _ })

/-! ## What each operation moves -/

def held : Multiset α := q.rest

@[simp] theorem rest_compact : q.compact.rest = q.rest := by
  unfold compact
  split_ifs
  · rfl
  · simp [rest]

@[simp] theorem rest_append (a : α) : (q.append a).rest = q.rest ++ [a] :=
  drop_append_of_le_length q.head_le

theorem rest_pop : q.pop.1.toList ++ q.pop.2.rest = q.rest := by
  unfold pop
  split
  · next h =>
      rw [rest_compact]
      exact (drop_eq_getElem_cons h).symm
  · rfl

theorem rest_push (a : α) : (q.push a).1.toList ++ (q.push a).2.rest = q.rest ++ [a] := by
  simp only [push, rest_append]
  split_ifs
  · rw [← append_assoc, rest_pop]
  · rfl

theorem held_push (a : α) : ((q.push a).1.toList : Multiset α) + (q.push a).2.held = q.held + {a} := by
  simp only [held, Multiset.coe_add, ← Multiset.coe_singleton, rest_push]

theorem length_take_head : (q.buf.take q.head).length = q.head := by
  rw [length_take, Nat.min_eq_left q.head_le]

theorem rest_takeAll (p : α → Bool) : (q.takeAll p).2.rest = q.rest.filter (fun a => !p a) :=
  drop_left' q.length_take_head

theorem held_takeAll (p : α → Bool) : ((q.takeAll p).1 : Multiset α) + (q.takeAll p).2.held = q.held := by
  simp only [held, Multiset.coe_add, rest_takeAll]
  exact Multiset.coe_eq_coe.mpr (filter_append_perm p q.rest)

theorem held_takeNewest (p : α → Bool) : ((q.takeNewest p).1.toList : Multiset α) + (q.takeNewest p).2.held = q.held ∧
      ∀ a, (q.takeNewest p).1 = some a → p a = true := by
  unfold takeNewest
  split
  · exact ⟨Multiset.zero_add _, fun a h => by cases h⟩
  · next i h =>
      obtain ⟨hhead, a, ha, hp⟩ := scan_eq_some h
      refine ⟨?_, fun b hb => ?_⟩
      · have hi : q.rest[i - q.head]? = some a := by
          rw [rest, getElem?_drop, Nat.add_sub_cancel' hhead, ha]
        obtain ⟨hlt, rfl⟩ := List.getElem?_eq_some_iff.mp hi
        have hlen : (q.buf.take q.head).length = q.head := q.length_take_head
        have herase : (q.buf.eraseIdx i).drop q.head = q.rest.eraseIdx (i - q.head) := by
          rw [← take_append_drop q.head q.buf, eraseIdx_append_of_length_le (hlen.trans_le hhead), hlen]
          exact drop_left' hlen
        rw [ha]
        simp only [held, rest, Option.toList_some, Multiset.coe_add, singleton_append]
        rw [herase]
        exact Multiset.coe_eq_coe.mpr (getElem_cons_eraseIdx_perm hlt)
      · rw [ha] at hb
        cases hb
        exact hp

@[simp] theorem held_drain : q.drain.2.held = 0 := rfl

end HoldQueue

end PerfAgent
