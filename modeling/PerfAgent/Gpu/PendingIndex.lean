import Mathlib.Algebra.Ring.Nat
import Mathlib.Algebra.Order.Group.Multiset
import PerfAgent.Gpu.BoundedFIFO
import PerfAgent.Gpu.Types

/-!
# The two pending stores of PC samples

A PC sample waits for its execution in one of two stores of `gpu/timeline.go`: under its
correlation when it carries one, and else under the device function it names.  The two
run the same code over different keys and report to different counters, so they are one
definition here, generic in the key; the counter's increment is the second component of
each answer.

Samples carry the number of the `EmitPCSample` call that brought them.  No definition
reads it: it is what makes two equal samples two, so that losing one or attaching one
twice can be stated.  `PendingIndex.held` is the multiset of what a store holds, and
`emit_spec` and `take_spec` say where every sample goes.
-/

universe u

namespace PerfAgent.Gpu

open List AssocMap

structure Emission where
  sample : GPUPCSample
  number : Nat
deriving DecidableEq, Inhabited

structure PendingSamples where
  samples : List Emission := []
  seq : Nat := 0
  anchorNs : Nat := 0
deriving DecidableEq, Inhabited

instance : Generation PendingSamples where
  seq := PendingSamples.seq
  anchorNs := PendingSamples.anchorNs

/-- A pending map with its order and the running total of the samples it holds. -/
structure PendingIndex (K : Type u) where
  store : FIFOStore K PendingSamples := {}
  sampleTotal : Nat := 0

namespace PendingIndex

variable {K : Type u} [DecidableEq K]

/-- The entry a sample of group `k` is added to; a new group takes a position in the
order first. -/
def entryFor (idx : PendingIndex K) (k : K) : OrderedFIFO K × PendingSamples :=
  match idx.store.byKey.find? k with
  | some entry => (idx.store.order, entry)
  | none =>
    let (order, seq) := idx.store.order.insert k
    (order, { seq := seq })

/-- The eviction both stores run after each sample: the samples of every group that goes
leave the running total and are counted. -/
def evict (cap newest horizon : Nat) (idx : PendingIndex K) : PendingIndex K × Nat :=
  let (store, aged, spilled) := idx.store.evict cap newest horizon
  let lost := ((aged ++ spilled).map fun e => e.2.samples.length).sum
  ({ store := store, sampleTotal := idx.sampleTotal - lost }, lost)

def setEntry (idx : PendingIndex K) (k : K) (entry : PendingSamples) (total : Nat) : PendingIndex K where
  store := { byKey := idx.store.byKey.put k entry, order := (idx.entryFor k).1 }
  sampleTotal := total

/-- `EmitPCSample` up to its eviction: the sample joins its group, or is refused because
the group is full. -/
def append (sampleCap : Nat) (idx : PendingIndex K) (k : K) (e : Emission) : PendingIndex K × Nat :=
  let entry := (idx.entryFor k).2
  if entry.samples.length ≥ sampleCap then (idx.setEntry k entry idx.sampleTotal, 1)
  else
    let entry := { entry with
      samples := entry.samples ++ [e]
      anchorNs := if e.sample.timeNs > entry.anchorNs then e.sample.timeNs else entry.anchorNs }
    (idx.setEntry k entry (idx.sampleTotal + 1), 0)

/-- One sample: the store after it, and how many samples were dropped. -/
def emit (cap sampleCap newest horizon : Nat) (idx : PendingIndex K) (k : K) (e : Emission) : PendingIndex K × Nat :=
  let (idx, refused) := idx.append sampleCap k e
  let (idx, lost) := idx.evict cap newest horizon
  (idx, refused + lost)

/-- Consume a group: its entry is deleted and its samples leave the running total.  The
order keeps the position. -/
def consume (idx : PendingIndex K) (k : K) (entry : PendingSamples) : PendingIndex K where
  store := { idx.store with byKey := idx.store.byKey.del k }
  sampleTotal := idx.sampleTotal - entry.samples.length

/-! ## What a store holds -/

def held (idx : PendingIndex K) : Multiset Emission :=
  idx.store.byKey.sum fun v => (v.samples : Multiset Emission)

/-- The representation invariant: the order is well formed, the running total is the sum
of the lengths it summarises, and every sample is one of this store's (`keyOf` answers
`none` for the others) and held under its own key. -/
structure Sound (keyOf : GPUPCSample → Option K) (idx : PendingIndex K) : Prop where
  wf : idx.store.WF
  total : idx.sampleTotal = idx.store.byKey.sum fun v => v.samples.length
  keyed : ∀ k v, idx.store.byKey.find? k = some v → ∀ e ∈ v.samples, keyOf e.sample = some k

variable {keyOf : GPUPCSample → Option K} {idx : PendingIndex K}

theorem sound_empty : Sound keyOf ({} : PendingIndex K) where
  wf := FIFOStore.wf_empty
  total := rfl
  keyed := by simp

omit [DecidableEq K] in
@[simp] theorem held_empty : held ({} : PendingIndex K) = 0 := rfl

omit [DecidableEq K] in
theorem card_held (idx : PendingIndex K) : idx.held.card = idx.store.byKey.sum fun v => v.samples.length := by
  unfold held AssocMap.sum
  generalize idx.store.byKey.values = l
  induction l with
  | nil => rfl
  | cons v l ih => simp [ih]

theorem Sound.card_held (h : Sound keyOf idx) : idx.held.card = idx.sampleTotal := by
  rw [h.total, PendingIndex.card_held]

theorem mem_held {e : Emission} : e ∈ idx.held ↔ ∃ k v, idx.store.byKey.find? k = some v ∧ e ∈ v.samples := by
  have hsum : e ∈ idx.held ↔ ∃ v ∈ idx.store.byKey.values, e ∈ v.samples := by
    unfold held AssocMap.sum
    generalize idx.store.byKey.values = l
    induction l with
    | nil => simp
    | cons v l ih => simp [ih]
  rw [hsum]
  constructor
  · rintro ⟨v, hv, he⟩
    obtain ⟨k, hk⟩ := mem_values_iff.mp hv
    exact ⟨k, v, hk, he⟩
  · rintro ⟨k, v, hk, he⟩
    exact ⟨v, mem_values_iff.mpr ⟨k, hk⟩, he⟩

def lostBy (cap newest horizon : Nat) (idx : PendingIndex K) : Nat :=
  (((idx.store.evict cap newest horizon).2.1 ++ (idx.store.evict cap newest horizon).2.2).map
    fun e => e.2.samples.length).sum

theorem evict_eq (cap newest horizon : Nat) (idx : PendingIndex K) : idx.evict cap newest horizon =
      ({ store := (idx.store.evict cap newest horizon).1
         sampleTotal := idx.sampleTotal - idx.lostBy cap newest horizon },
        idx.lostBy cap newest horizon) := rfl

theorem Sound.evict (h : Sound keyOf idx) (cap newest horizon : Nat) : Sound keyOf (idx.evict cap newest horizon).1 ∧
      ∃ lost : Multiset Emission, lost.card = (idx.evict cap newest horizon).2 ∧
        idx.held = (idx.evict cap newest horizon).1.held + lost := by
  obtain ⟨hwf, -, -, m, hd, hd'⟩ := h.wf.evict_spec cap newest horizon
  -- both passes are drains, so a weight over the map splits the same way in any monoid
  have hsplit : ∀ {M : Type} [AddCommMonoid M] (f : PendingSamples → M), idx.store.byKey.sum f =
      ((((idx.store.evict cap newest horizon).2.1 ++
        (idx.store.evict cap newest horizon).2.2).map fun e => f e.2).sum) +
      (idx.store.evict cap newest horizon).1.byKey.sum f := by
    intro M _ f
    rw [hd.sum f, hd'.sum f, map_append, sum_append, add_assoc]
  have htotal : _ = idx.lostBy cap newest horizon + _ := hsplit fun v => v.samples.length
  rw [evict_eq]
  refine ⟨⟨hwf, ?_, ?_⟩, _, ?_, (hsplit fun v => (v.samples : Multiset Emission)).trans (add_comm _ _)⟩
  · change idx.sampleTotal - _ = AssocMap.sum _ _
    rw [h.total, htotal, Nat.add_sub_cancel_left]
  · intro k v hv
    exact h.keyed k v (hd.find?_of_left (hd'.find?_of_left hv))
  · unfold lostBy
    generalize (idx.store.evict cap newest horizon).2.1 ++ (idx.store.evict cap newest horizon).2.2 = l
    induction l with
    | nil => rfl
    | cons e l ih => simp [ih]

theorem Sound.setEntry (h : Sound keyOf idx) (k : K) {v : PendingSamples} {total : Nat}
    (hseq : v.seq = (idx.entryFor k).2.seq) (hkey : ∀ e ∈ v.samples, keyOf e.sample = some k)
    (htotal : total + (idx.entryFor k).2.samples.length = idx.sampleTotal + v.samples.length) :
    Sound keyOf (idx.setEntry k v total) ∧
      ((idx.entryFor k).2.samples : Multiset Emission) + (idx.setEntry k v total).held = v.samples + idx.held := by
  have hkeyed : ∀ k' w, (idx.store.byKey.put k v).find? k' = some w → ∀ e ∈ w.samples, keyOf e.sample = some k' := by
    intro k' w hw
    rw [find?_put] at hw
    split at hw
    · next hk => cases hw; rw [hk]; exact hkey
    · exact h.keyed k' w hw
  have hsum := h.total
  unfold PendingIndex.setEntry
  unfold entryFor at hseq htotal ⊢
  cases hf : idx.store.byKey.find? k with
  | some entry =>
    simp only [hf] at hseq htotal ⊢
    rw [sum_of_find? _ hf] at hsum
    refine ⟨⟨h.wf.put hf hseq, ?_, hkeyed⟩, ?_⟩
    · change total = AssocMap.sum _ (idx.store.byKey.put k v)
      rw [sum_put]
      omega
    · simp only [held, sum_put, sum_of_find? _ hf]
      exact add_left_comm _ _ _
  | none =>
    simp only [hf, length_nil, Nat.add_zero] at hseq htotal ⊢
    have hwf : (idx.store.insert k fun n => { v with seq := n }).WF :=
      h.wf.insert k fun _ => rfl
    have hv : { v with seq := (idx.store.order.insert k).2 } = v := by rw [← hseq]
    refine ⟨⟨?_, ?_, hkeyed⟩, ?_⟩
    · simpa only [FIFOStore.insert, hv] using hwf
    · change total = AssocMap.sum _ (idx.store.byKey.put k v)
      rw [sum_put_of_find?_eq_none _ hf]
      omega
    · simp [held, sum_put_of_find?_eq_none _ hf]

theorem Sound.append (h : Sound keyOf idx) (sampleCap : Nat) {k : K} {e : Emission} (hk : keyOf e.sample = some k) :
    Sound keyOf (idx.append sampleCap k e).1 ∧ ∃ lost : Multiset Emission, lost.card = (idx.append sampleCap k e).2 ∧
        idx.held + {e} = (idx.append sampleCap k e).1.held + lost := by
  have hentry : ∀ e ∈ (idx.entryFor k).2.samples, keyOf e.sample = some k := by
    unfold entryFor
    cases hf : idx.store.byKey.find? k with
    | some entry => exact h.keyed k entry hf
    | none => simp
  unfold PendingIndex.append
  by_cases hfull : (idx.entryFor k).2.samples.length ≥ sampleCap
  · simp only [if_pos hfull]
    obtain ⟨hs, hheld⟩ := h.setEntry k (v := (idx.entryFor k).2) rfl hentry rfl
    exact ⟨hs, {e}, rfl, by rw [add_left_cancel hheld]⟩
  · simp only [if_neg hfull]
    have hkeys : ∀ x ∈ (idx.entryFor k).2.samples ++ [e], keyOf x.sample = some k := by
      intro x hx
      rcases mem_append.mp hx with hx | hx
      · exact hentry x hx
      · rw [mem_singleton.mp hx]
        exact hk
    obtain ⟨hs, hheld⟩ := h.setEntry k (v := { (idx.entryFor k).2 with
      samples := (idx.entryFor k).2.samples ++ [e]
      anchorNs := if e.sample.timeNs > (idx.entryFor k).2.anchorNs then e.sample.timeNs
        else (idx.entryFor k).2.anchorNs }) rfl hkeys
      (show idx.sampleTotal + 1 + _ = _ by rw [List.length_append, length_singleton]; omega)
    refine ⟨hs, 0, rfl, ?_⟩
    rw [← Multiset.coe_add, add_assoc, Multiset.coe_singleton] at hheld
    rw [add_zero, add_left_cancel hheld, add_comm]

theorem Sound.emit (h : Sound keyOf idx) (cap sampleCap newest horizon : Nat) {k : K}
    {e : Emission} (hk : keyOf e.sample = some k) :
    Sound keyOf (idx.emit cap sampleCap newest horizon k e).1 ∧
      ∃ lost : Multiset Emission, lost.card = (idx.emit cap sampleCap newest horizon k e).2 ∧
        idx.held + {e} = (idx.emit cap sampleCap newest horizon k e).1.held + lost := by
  obtain ⟨hs, refused, hr, heq⟩ := h.append sampleCap hk
  obtain ⟨hs', lost, hl, heq'⟩ := hs.evict cap newest horizon
  refine ⟨hs', refused + lost, ?_, ?_⟩
  · rw [Multiset.card_add, hr, hl]
    rfl
  · rw [heq, heq', add_assoc, add_comm lost]
    rfl

theorem Sound.consume (h : Sound keyOf idx) {k : K} {entry : PendingSamples}
    (hk : idx.store.byKey.find? k = some entry) :
    Sound keyOf (idx.consume k entry) ∧ idx.held = entry.samples + (idx.consume k entry).held := by
  refine ⟨⟨h.wf.del k, ?_, ?_⟩, sum_of_find? _ hk⟩
  · change idx.sampleTotal - _ = AssocMap.sum _ (idx.store.byKey.del k)
    rw [h.total, sum_of_find? _ hk, Nat.add_sub_cancel_left]
  · intro k' v hv
    exact h.keyed k' v (find?_del_eq_some.mp hv).2

end PendingIndex

end PerfAgent.Gpu
