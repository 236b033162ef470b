import PerfAgent.Lib.HoldQueue
import PerfAgent.Gpu.Types

/-!
# Stacks and launches that wait for each other

A sampled launch is not a launch of its own: its stack belongs to the launch of the same
process and correlation that arrives on the batched probe (`gpuprobe/sampledstacks.go`).  A
stack that comes first is parked in a bounded table, oldest out first; a launch that comes
first waits in a queue.

The table keeps a slice of positions beside its map.  `take` leaves the position of what it
takes behind, and a position is live only while the map has an entry of its generation.
-/

namespace PerfAgent.Gpuprobe

open Gpu AssocMap

structure ResolvedStack where
  frames : List Frame
  period : Nat
  gen : Nat
deriving DecidableEq

structure StackPos where
  key : CorrelationID
  gen : Nat
deriving DecidableEq

structure PendingStacks where
  byKey : AssocMap CorrelationID ResolvedStack := ∅
  order : List StackPos := []
  head : Nat := 0
  gen : Nat := 0
  capacity : Nat

/-- A launch that waits for its stack, with the kernel id its record had. -/
structure DeferredLaunch where
  launch : GPUKernelLaunch
  kernelID : Nat

namespace PendingStacks

def isLive (p : PendingStacks) (pos : StackPos) : Bool :=
  (p.byKey.find? pos.key).any fun cur => cur.gen == pos.gen

def compact (p : PendingStacks) : PendingStacks :=
  if p.head = 0 ∨ p.head * 2 < p.order.length then p
  else { p with order := p.order.drop p.head, head := 0 }

/-- Walk over dead positions: where the walk ends, and the key of the live one it found. -/
def walk (p : PendingStacks) : List StackPos → Nat → Nat × Option CorrelationID
  | [], head => (head, none)
  | pos :: order, head =>
    if p.isLive pos then (head + 1, some pos.key) else p.walk order (head + 1)

/-- Drop the oldest live entry; the answer is whether there was one. -/
def evictOldest (p : PendingStacks) : Bool × PendingStacks :=
  let r := p.walk (p.order.drop p.head) p.head
  match r.2 with
  | some key => (true, compact { p with head := r.1, byKey := p.byKey.del key })
  | none => (false, compact { p with head := r.1 })

/-- Drop the dead positions once they outnumber any possible live set. -/
def reclaimOrder (p : PendingStacks) : PendingStacks :=
  if p.order.length - p.head ≤ 2 * p.capacity then p
  else { p with order := (p.order.drop p.head).filter p.isLive, head := 0 }

/-- The eviction loop of `park`, with a bound on its rounds: how many entries went. -/
def evictLoop : Nat → PendingStacks → Nat × PendingStacks
  | 0, p => (0, p)
  | n + 1, p =>
    if p.byKey.size > p.capacity then
      match p.evictOldest with
      | (true, p) => ((evictLoop n p).1 + 1, (evictLoop n p).2)
      | (false, p) => (0, p)
    else (0, p)

/-- The table with a new entry at the back, before anything is evicted. -/
def insert (p : PendingStacks) (key : CorrelationID) (frames : List Frame) (period : Nat) : PendingStacks :=
  reclaimOrder { p with
    gen := p.gen + 1
    byKey := p.byKey.put key { frames := frames, period := period, gen := p.gen + 1 }
    order := p.order ++ [{ key := key, gen := p.gen + 1 }] }

/-- Park a stack; what is returned first is how many stacks will never reach a launch for it,
one that the new one replaces included. -/
def park (p : PendingStacks) (key : CorrelationID) (frames : List Frame) (period : Nat) : Nat × PendingStacks :=
  let p' := p.insert key frames period
  let r := evictLoop p'.byKey.size p'
  ((if (p.byKey.find? key).isSome then 1 else 0) + r.1, r.2)

def take (p : PendingStacks) (key : CorrelationID) : Option ResolvedStack × PendingStacks :=
  match p.byKey.find? key with
  | none => (none, p)
  | some st => (some st, { p with byKey := p.byKey.del key })

def len (p : PendingStacks) : Nat := p.byKey.size

/-! ## What each operation does to the entries -/

@[simp] theorem byKey_compact (p : PendingStacks) : p.compact.byKey = p.byKey := by
  unfold compact
  split_ifs <;> rfl

@[simp] theorem byKey_reclaimOrder (p : PendingStacks) : p.reclaimOrder.byKey = p.byKey := by
  unfold reclaimOrder
  split_ifs <;> rfl

theorem find?_of_walk {p : PendingStacks} {order : List StackPos} {head : Nat} {key : CorrelationID}
    (h : (p.walk order head).2 = some key) : ∃ st, p.byKey.find? key = some st := by
  induction order generalizing head with
  | nil => cases h
  | cons pos order ih =>
    rw [walk] at h
    split_ifs at h with hlive
    · cases h
      obtain ⟨st, hst, -⟩ := (Option.any_eq_true _ _).mp hlive
      exact ⟨st, hst⟩
    · exact ih h

theorem evictOldest_cases (p : PendingStacks) : (∃ key st p', p.evictOldest = (true, p') ∧ p.byKey.find? key = some st ∧
      p'.byKey = p.byKey.del key) ∨
    (∃ p', p.evictOldest = (false, p') ∧ p'.byKey = p.byKey) := by
  unfold evictOldest
  dsimp only
  split
  · next key h =>
      obtain ⟨st, hst⟩ := find?_of_walk h
      exact .inl ⟨key, st, _, rfl, hst, byKey_compact _⟩
  · exact .inr ⟨_, rfl, byKey_compact _⟩

theorem evictLoop_spec (n : Nat) (p : PendingStacks) : (evictLoop n p).1 + (evictLoop n p).2.len = p.len ∧
      ∀ key st, (evictLoop n p).2.byKey.find? key = some st → p.byKey.find? key = some st := by
  induction n generalizing p with
  | zero => exact ⟨Nat.zero_add _, fun key st h => h⟩
  | succ n ih =>
    rw [evictLoop]
    split_ifs
    · obtain ⟨key, st, p', he, hst, hdel⟩ | ⟨p', he, hkeep⟩ := p.evictOldest_cases
      · rw [he]
        obtain ⟨hcount, hsub⟩ := ih p'
        have hsize := size_of_find? hst
        refine ⟨?_, fun key' st' h => ?_⟩
        · simp only [len, hdel] at hcount ⊢
          omega
        · have h' := hsub key' st' h
          rw [hdel] at h'
          exact (find?_del_eq_some.mp h').2
      · rw [he]
        refine ⟨?_, fun key st h => ?_⟩
        · simp only [len, hkeep, Nat.zero_add]
        · rw [← hkeep]
          exact h
    · exact ⟨Nat.zero_add _, fun key st h => h⟩

theorem len_insert (p : PendingStacks) (key : CorrelationID) (frames : List Frame) (period : Nat) :
    (p.insert key frames period).len = p.len + if (p.byKey.find? key).isSome then 0 else 1 := by
  simp only [len, insert, byKey_reclaimOrder]
  cases hf : p.byKey.find? key with
  | none => exact size_put_of_find?_eq_none hf
  | some st => exact size_put_of_find? hf

theorem len_park (p : PendingStacks) (key : CorrelationID) (frames : List Frame) (period : Nat) :
    (p.park key frames period).1 + (p.park key frames period).2.len = p.len + 1 := by
  obtain ⟨hcount, -⟩ := evictLoop_spec (p.insert key frames period).byKey.size (p.insert key frames period)
  have hinsert := len_insert p key frames period
  simp only [park]
  split_ifs at hinsert ⊢ <;> omega

theorem find?_park {p : PendingStacks} {key key' : CorrelationID} {frames : List Frame}
    {period : Nat} {st : ResolvedStack}
    (h : (p.park key frames period).2.byKey.find? key' = some st) :
    (key' = key ∧ st.frames = frames ∧ st.period = period) ∨ p.byKey.find? key' = some st := by
  have h' := (evictLoop_spec _ (p.insert key frames period)).2 key' st h
  simp only [insert, byKey_reclaimOrder, find?_put] at h'
  split_ifs at h' with hk
  · cases h'
    exact .inl ⟨hk, rfl, rfl⟩
  · exact .inr h'

section Take

variable {p p' : PendingStacks} {key : CorrelationID} {st : ResolvedStack}

theorem take_eq_some (h : p.take key = (some st, p')) :
    p.byKey.find? key = some st ∧ p' = { p with byKey := p.byKey.del key } := by
  unfold take at h
  split at h
  · cases h
  · next hf =>
      cases h
      exact ⟨hf, rfl⟩

theorem len_take (h : p.take key = (some st, p')) : p'.len + 1 = p.len := by
  obtain ⟨hf, rfl⟩ := take_eq_some h
  exact (size_of_find? hf).symm

theorem find?_take (h : p.take key = (some st, p')) {key' : CorrelationID} {st' : ResolvedStack}
    (h' : p'.byKey.find? key' = some st') : p.byKey.find? key' = some st' := by
  obtain ⟨-, rfl⟩ := take_eq_some h
  exact (find?_del_eq_some.mp h').2

end Take

end PendingStacks

end PerfAgent.Gpuprobe
