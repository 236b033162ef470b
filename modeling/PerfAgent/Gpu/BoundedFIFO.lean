import PerfAgent.Lib.AssocMap
import PerfAgent.Lib.Lists

/-!
# The bounded FIFO of sequence-numbered keys

`OrderedFIFO` is the order bookkeeping that `LaunchCache` and the two pending
stores of `Timeline` share (`gpu/boundedfifo.go`).  It never sees a value: it
remembers the keys in the order they were inserted, each with the sequence number
handed out for it, and asks its owner whether a position is still *live*, that is,
whether the owner's map still holds an entry for the key stamped with exactly this
number.  Positions that are no longer live are skipped when the walk reaches them.

`FIFOStore` is the owner's side of that contract: the map and the order together,
with the horizon pass and the capacity pass that all three owners run.  The three
owners differ in what they store and in what they count, so the passes return what
they evicted, oldest first, and each owner does its own accounting over it.

The invariant `FIFOStore.WF` ties every live key to a position; everything the
owners claim about eviction order follows from `FIFOStore.evictOldestLive_spec`.
-/

universe u v

namespace PerfAgent.Gpu

open List AssocMap

/-- One FIFO position: the key inserted and the sequence number it was inserted
with. -/
structure SeqPos (K : Type u) where
  key : K
  seq : Nat
deriving DecidableEq

/-- Insertion order with lazy deletion.  `head` counts the positions of `order`
already walked past. -/
structure OrderedFIFO (K : Type u) where
  order : List (SeqPos K) := []
  head : Nat := 0
  seq : Nat := 0

namespace OrderedFIFO

variable {K : Type u}

def rest (f : OrderedFIFO K) : List (SeqPos K) := f.order.drop f.head

/-- Record a new position for `key` and return its sequence number. -/
def insert (f : OrderedFIFO K) (key : K) : OrderedFIFO K × Nat :=
  ({ f with order := f.order ++ [⟨key, f.seq + 1⟩], seq := f.seq + 1 }, f.seq + 1)

def compact (f : OrderedFIFO K) : OrderedFIFO K :=
  if f.head < 1024 ∨ f.head * 2 < f.order.length then f
  else { f with order := f.order.drop f.head, head := 0 }

/-- Walk past the positions that `isLive` answers are superseded. -/
def skipSuperseded (isLive : K → Nat → Bool) (f : OrderedFIFO K) : OrderedFIFO K :=
  { f with head := f.head + (f.rest.takeWhile fun p => !isLive p.key p.seq).length }

def evictOldestLive (f : OrderedFIFO K) (isLive : K → Nat → Bool) : Option K × OrderedFIFO K :=
  let f := f.skipSuperseded isLive
  match f.rest with
  | [] => (none, f.compact)
  | p :: _ => (some p.key, { f with head := f.head + 1 }.compact)

def peekOldestLive (f : OrderedFIFO K) (isLive : K → Nat → Bool) : Option K × OrderedFIFO K :=
  let f := f.skipSuperseded isLive
  (f.rest.head?.map SeqPos.key, f.compact)

/-! ## What the operations leave to walk

Everything an owner can observe of the order is `rest` and `seq`; the split of
the slice into a walked prefix and the rest is not observable. -/

@[simp] theorem rest_insert {f : OrderedFIFO K} (h : f.head ≤ f.order.length) (k : K) :
    (f.insert k).1.rest = f.rest ++ [⟨k, f.seq + 1⟩] := by
  simp [rest, insert, drop_append_of_le_length h]

@[simp] theorem seq_insert (f : OrderedFIFO K) (k : K) : (f.insert k).1.seq = f.seq + 1 := rfl

@[simp] theorem snd_insert (f : OrderedFIFO K) (k : K) : (f.insert k).2 = f.seq + 1 := rfl

@[simp] theorem rest_compact (f : OrderedFIFO K) : f.compact.rest = f.rest := by
  unfold compact
  split <;> simp [rest]

@[simp] theorem seq_compact (f : OrderedFIFO K) : f.compact.seq = f.seq := by
  unfold compact
  split <;> rfl

theorem rest_skipSuperseded (isLive : K → Nat → Bool) (f : OrderedFIFO K) :
    (f.skipSuperseded isLive).rest = f.rest.dropWhile fun p => !isLive p.key p.seq := by
  simp only [skipSuperseded, rest, ← drop_drop]
  exact drop_length_takeWhile _ _

@[simp] theorem seq_skipSuperseded (isLive : K → Nat → Bool) (f : OrderedFIFO K) :
    (f.skipSuperseded isLive).seq = f.seq := rfl

theorem fst_peekOldestLive (isLive : K → Nat → Bool) (f : OrderedFIFO K) : (f.peekOldestLive isLive).1 =
      ((f.rest.dropWhile fun p => !isLive p.key p.seq).head?.map SeqPos.key) := by
  simp only [peekOldestLive, rest_skipSuperseded]

theorem rest_peekOldestLive (isLive : K → Nat → Bool) (f : OrderedFIFO K) :
    (f.peekOldestLive isLive).2.rest = f.rest.dropWhile fun p => !isLive p.key p.seq := by
  simp only [peekOldestLive, rest_compact, rest_skipSuperseded]

@[simp] theorem seq_peekOldestLive (isLive : K → Nat → Bool) (f : OrderedFIFO K) :
    (f.peekOldestLive isLive).2.seq = f.seq := by
  simp [peekOldestLive]

theorem fst_evictOldestLive (isLive : K → Nat → Bool) (f : OrderedFIFO K) : (f.evictOldestLive isLive).1 =
      ((f.rest.dropWhile fun p => !isLive p.key p.seq).head?.map SeqPos.key) := by
  unfold evictOldestLive
  rw [← rest_skipSuperseded]
  cases h : (f.skipSuperseded isLive).rest <;> simp [h]

theorem rest_evictOldestLive (isLive : K → Nat → Bool) (f : OrderedFIFO K) : (f.evictOldestLive isLive).2.rest =
      (f.rest.dropWhile fun p => !isLive p.key p.seq).tail := by
  unfold evictOldestLive
  rw [← rest_skipSuperseded]
  cases h : (f.skipSuperseded isLive).rest with
  | nil => simp [h]
  | cons p ps =>
    simp only [h, rest_compact, tail_cons]
    rw [rest, ← drop_drop]
    change ((f.skipSuperseded isLive).rest).drop 1 = ps
    rw [h]; rfl

@[simp] theorem seq_evictOldestLive (isLive : K → Nat → Bool) (f : OrderedFIFO K) :
    (f.evictOldestLive isLive).2.seq = f.seq := by
  unfold evictOldestLive
  cases h : (f.skipSuperseded isLive).rest <;> simp [h]

/-! ## The head stays inside the slice -/

theorem head_compact_le {f : OrderedFIFO K} (h : f.head ≤ f.order.length) :
    f.compact.head ≤ f.compact.order.length := by
  unfold compact
  split
  · exact h
  · simp

theorem head_skipSuperseded_le (isLive : K → Nat → Bool) {f : OrderedFIFO K} (h : f.head ≤ f.order.length) :
    (f.skipSuperseded isLive).head ≤ (f.skipSuperseded isLive).order.length := by
  have ht : (f.rest.takeWhile fun p => !isLive p.key p.seq).length ≤ f.rest.length :=
    (takeWhile_sublist _).length_le
  have hr : f.rest.length = f.order.length - f.head := by simp [rest]
  simp only [skipSuperseded]
  omega

theorem head_peekOldestLive_le (isLive : K → Nat → Bool) {f : OrderedFIFO K} (h : f.head ≤ f.order.length) :
    (f.peekOldestLive isLive).2.head ≤ (f.peekOldestLive isLive).2.order.length :=
  head_compact_le (head_skipSuperseded_le isLive h)

theorem head_evictOldestLive_le (isLive : K → Nat → Bool) {f : OrderedFIFO K} (h : f.head ≤ f.order.length) :
    (f.evictOldestLive isLive).2.head ≤ (f.evictOldestLive isLive).2.order.length := by
  have hs := head_skipSuperseded_le isLive h
  unfold evictOldestLive
  cases hr : (f.skipSuperseded isLive).rest with
  | nil => simpa [hr] using head_compact_le hs
  | cons p ps =>
    have hl : 0 < (f.skipSuperseded isLive).rest.length := by rw [hr]; simp
    simp only [rest, length_drop] at hl
    simp only [hr]
    refine head_compact_le ?_
    change (f.skipSuperseded isLive).head + 1 ≤ (f.skipSuperseded isLive).order.length
    omega

end OrderedFIFO

/-- What an owner stamps onto a stored value: the sequence number of its
generation, and the timestamp its age is measured from. -/
class Generation (V : Type v) where
  seq : V → Nat
  anchorNs : V → Nat

structure FIFOStore (K : Type u) (V : Type v) where
  byKey : AssocMap K V := ∅
  order : OrderedFIFO K := {}

namespace FIFOStore

variable {K : Type u} {V : Type v} [DecidableEq K] [Generation V]

/-- A position is live only if the map still holds an entry for the key stamped
with exactly this number. -/
def isLive (s : FIFOStore K V) (k : K) (n : Nat) : Bool :=
  (s.byKey.find? k).any fun v => Generation.seq v == n

/-- Store a new generation of `k`: a new order position, and the value the caller
stamps with its number. -/
def insert (s : FIFOStore K V) (k : K) (stamp : Nat → V) : FIFOStore K V :=
  let (order, seq) := s.order.insert k
  { byKey := s.byKey.put k (stamp seq), order := order }

/-- The horizon pass: evict from the oldest live entry on, as long as its anchor
lies more than `horizon` behind `newest`.  Each round deletes an entry, so the
store's size plus one bounds the rounds. -/
def evictHorizon (newest horizon : Nat) : Nat → FIFOStore K V → FIFOStore K V × List (K × V)
  | 0, s => (s, [])
  | fuel + 1, s =>
    match s.order.peekOldestLive s.isLive with
    | (none, order) => ({ s with order := order }, [])
    | (some k, order) =>
      let s := { s with order := order }
      match s.byKey.find? k with
      | none => (s, [])  -- not reached: the peek has just confirmed the entry
      | some cur =>
        if newest ≤ Generation.anchorNs cur ∨ newest - Generation.anchorNs cur ≤ horizon then (s, [])
        else
          let (_, order) := s.order.evictOldestLive s.isLive
          let (s, evicted) :=
            evictHorizon newest horizon fuel { byKey := s.byKey.del k, order := order }
          (s, (k, cur) :: evicted)

/-- The capacity pass: evict the oldest live entry while more than `cap` are held. -/
def evictCapacity (cap : Nat) : Nat → FIFOStore K V → FIFOStore K V × List (K × V)
  | 0, s => (s, [])
  | fuel + 1, s =>
    if s.byKey.size ≤ cap then (s, [])
    else
      match s.order.evictOldestLive s.isLive with
      | (none, order) => ({ s with order := order }, [])
      | (some k, order) =>
        match s.byKey.find? k with
        | none => ({ s with order := order }, [])  -- not reached, as above
        | some cur =>
          let (s, evicted) :=
            evictCapacity cap fuel { byKey := s.byKey.del k, order := order }
          (s, (k, cur) :: evicted)

/-- The horizon pass (a horizon of zero disables it), then the capacity pass.
Returns what each of the two evicted, oldest first. -/
def evict (cap newest horizon : Nat) (s : FIFOStore K V) : FIFOStore K V × List (K × V) × List (K × V) :=
  let (s, aged) :=
    if horizon > 0 then evictHorizon newest horizon (s.byKey.size + 1) s else (s, [])
  let (s, spilled) := evictCapacity cap (s.byKey.size + 1) s
  (s, aged, spilled)

/-! ## The invariant

Every live key has the position of its current generation among those not walked
yet, and the positions stand in strictly increasing sequence order.  Nothing is
said about the other positions: those of superseded generations may stand anywhere. -/

structure WF (s : FIFOStore K V) : Prop where
  head_le : s.order.head ≤ s.order.order.length
  sorted : s.order.rest.Pairwise fun p q => p.seq < q.seq
  le_seq : ∀ p ∈ s.order.rest, p.seq ≤ s.order.seq
  live_mem : ∀ k v, s.byKey.find? k = some v → ⟨k, Generation.seq v⟩ ∈ s.order.rest

theorem isLive_iff {s : FIFOStore K V} {k : K} {n : Nat} :
    s.isLive k n = true ↔ ∃ v, s.byKey.find? k = some v ∧ Generation.seq v = n := by
  unfold isLive
  cases s.byKey.find? k <;> simp

theorem wf_empty : WF ({} : FIFOStore K V) where
  head_le := Nat.le_refl _
  sorted := List.Pairwise.nil
  le_seq := by simp [OrderedFIFO.rest]
  live_mem := by simp

/-- The walk over the unwalked positions stops at the position of a live entry,
and that entry has the smallest sequence number of all live entries. -/
theorem WF.oldest {s : FIFOStore K V} (h : s.WF) {p : SeqPos K} {ps : List (SeqPos K)}
    (hp : (s.order.rest.dropWhile fun p => !s.isLive p.key p.seq) = p :: ps) :
    ∃ v, s.byKey.find? p.key = some v ∧ Generation.seq v = p.seq ∧
      ∀ k w, s.byKey.find? k = some w → k = p.key ∨ p.seq < Generation.seq w := by
  have hlive : s.isLive p.key p.seq = true := by
    simpa using not_of_dropWhile_eq_cons hp
  obtain ⟨v, hv, hseq⟩ := isLive_iff.mp hlive
  refine ⟨v, hv, hseq, fun k w hw => ?_⟩
  have hmem : (⟨k, Generation.seq w⟩ : SeqPos K) ∈ p :: ps := by
    rw [← hp]
    refine mem_dropWhile_of_not (h.live_mem k w hw) ?_
    simpa using isLive_iff.mpr ⟨w, hw, rfl⟩
  rcases mem_cons.mp hmem with heq | hin
  · exact .inl (congrArg SeqPos.key heq)
  · have hs : (p :: ps).Pairwise fun p q => p.seq < q.seq :=
      hp ▸ h.sorted.sublist (dropWhile_sublist _)
    exact .inr (rel_of_pairwise_cons hs hin)

theorem WF.size_eq_zero {s : FIFOStore K V} (h : s.WF)
    (hn : (s.order.rest.dropWhile fun p => !s.isLive p.key p.seq) = []) : s.byKey.size = 0 := by
  by_contra hne
  obtain ⟨k, v, hv⟩ := exists_find?_of_size_pos (Nat.pos_of_ne_zero hne)
  have hmem := mem_dropWhile_of_not (p := fun p => !s.isLive p.key p.seq) (h.live_mem k v hv)
    (by simpa using isLive_iff.mpr ⟨v, hv, rfl⟩)
  rw [hn] at hmem
  exact absurd hmem not_mem_nil

/-- Moving the order forward keeps the invariant as long as every live entry's
position is still ahead. -/
theorem WF.advance {s : FIFOStore K V} (h : s.WF) {m : AssocMap K V} {f : OrderedFIFO K}
    (hhead : f.head ≤ f.order.length) (hseq : f.seq = s.order.seq)
    (hsub : f.rest.Sublist s.order.rest)
    (hlive : ∀ k v, m.find? k = some v → ⟨k, Generation.seq v⟩ ∈ f.rest) :
    WF { byKey := m, order := f } where
  head_le := hhead
  sorted := h.sorted.sublist hsub
  le_seq := fun p hp => hseq ▸ h.le_seq p (hsub.subset hp)
  live_mem := hlive

theorem WF.peek {s : FIFOStore K V} (h : s.WF) : WF { s with order := (s.order.peekOldestLive s.isLive).2 } := by
  refine h.advance (OrderedFIFO.head_peekOldestLive_le _ h.head_le) (OrderedFIFO.seq_peekOldestLive _ _) ?_ ?_
  · rw [OrderedFIFO.rest_peekOldestLive]
    exact dropWhile_sublist _
  · intro k v hv
    rw [OrderedFIFO.rest_peekOldestLive]
    exact mem_dropWhile_of_not (h.live_mem k v hv) (by simpa using isLive_iff.mpr ⟨v, hv, rfl⟩)

/-- One eviction: on a non-empty store it pops the live entry with the smallest
sequence number. -/
theorem WF.evictOldestLive_spec {s : FIFOStore K V} (h : s.WF) :
    (s.order.evictOldestLive s.isLive).1 = none ∧ s.byKey.size = 0 ∨
    ∃ k v, (s.order.evictOldestLive s.isLive).1 = some k ∧ s.byKey.find? k = some v ∧
      (∀ k' w, s.byKey.find? k' = some w → k' = k ∨ Generation.seq v < Generation.seq w) ∧
      WF { byKey := s.byKey.del k, order := (s.order.evictOldestLive s.isLive).2 } := by
  cases hp : (s.order.rest.dropWhile fun p => !s.isLive p.key p.seq) with
  | nil =>
    refine .inl ⟨?_, h.size_eq_zero hp⟩
    rw [OrderedFIFO.fst_evictOldestLive, hp]; rfl
  | cons p ps =>
    obtain ⟨v, hv, hseq, hold⟩ := h.oldest hp
    have hrest : (s.order.evictOldestLive s.isLive).2.rest = ps := by
      rw [OrderedFIFO.rest_evictOldestLive, hp]; rfl
    refine .inr ⟨p.key, v, ?_, hv, fun k w hw => hseq ▸ hold k w hw, ?_⟩
    · rw [OrderedFIFO.fst_evictOldestLive, hp]; rfl
    · refine h.advance (OrderedFIFO.head_evictOldestLive_le _ h.head_le)
        (OrderedFIFO.seq_evictOldestLive _ _) ?_ ?_
      · rw [hrest]
        refine List.Sublist.trans ?_ (dropWhile_sublist fun p => !s.isLive p.key p.seq)
        rw [hp]
        exact sublist_cons_self _ _
      · intro k w hw
        obtain ⟨hne, hw⟩ := find?_del_eq_some.mp hw
        have hmem : (⟨k, Generation.seq w⟩ : SeqPos K) ∈ p :: ps := by
          rw [← hp]
          exact mem_dropWhile_of_not (h.live_mem k w hw) (by simpa using isLive_iff.mpr ⟨w, hw, rfl⟩)
        rcases mem_cons.mp hmem with heq | hin
        · exact absurd (congrArg SeqPos.key heq) hne
        · rw [hrest]; exact hin

theorem WF.peekOldestLive_spec {s : FIFOStore K V} (h : s.WF) :
    (s.order.peekOldestLive s.isLive).1 = none ∧ s.byKey.size = 0 ∨
    ∃ k v, (s.order.peekOldestLive s.isLive).1 = some k ∧ s.byKey.find? k = some v ∧
      (∀ k' w, s.byKey.find? k' = some w → k' = k ∨ Generation.seq v < Generation.seq w) := by
  have hsame : (s.order.peekOldestLive s.isLive).1 = (s.order.evictOldestLive s.isLive).1 := by
    rw [OrderedFIFO.fst_peekOldestLive, OrderedFIFO.fst_evictOldestLive]
  rw [hsame]
  rcases h.evictOldestLive_spec with hn | ⟨k, v, hk, hv, hold, -⟩
  · exact .inl hn
  · exact .inr ⟨k, v, hk, hv, hold⟩

/-! ## The owner's own updates -/

theorem WF.insert {s : FIFOStore K V} (h : s.WF) (k : K) {stamp : Nat → V}
    (hstamp : ∀ n, Generation.seq (stamp n) = n) : (s.insert k stamp).WF where
  head_le := by
    simp only [FIFOStore.insert, OrderedFIFO.insert, List.length_append]
    exact Nat.le_add_right_of_le h.head_le
  sorted := by
    simp only [FIFOStore.insert, OrderedFIFO.rest_insert h.head_le]
    refine pairwise_append.mpr ⟨h.sorted, pairwise_singleton _ _, fun p hp q hq => ?_⟩
    rw [mem_singleton.mp hq]
    exact Nat.lt_succ_of_le (h.le_seq p hp)
  le_seq := fun p hp => by
    simp only [FIFOStore.insert, OrderedFIFO.rest_insert h.head_le, mem_append, mem_singleton] at hp
    rcases hp with hp | rfl
    · exact Nat.le_succ_of_le (h.le_seq p hp)
    · exact Nat.le_refl _
  live_mem := fun k' v hv => by
    simp only [FIFOStore.insert, OrderedFIFO.rest_insert h.head_le, mem_append,
      mem_singleton, OrderedFIFO.snd_insert] at hv ⊢
    rw [find?_put] at hv
    split at hv
    · next hk =>
        cases hv
        exact .inr (by rw [hk, hstamp])
    · exact .inl (h.live_mem k' v hv)

theorem WF.put {s : FIFOStore K V} (h : s.WF) {k : K} {v w : V} (hv : s.byKey.find? k = some v)
    (hw : Generation.seq w = Generation.seq v) : WF { s with byKey := s.byKey.put k w } where
  head_le := h.head_le
  sorted := h.sorted
  le_seq := h.le_seq
  live_mem := fun k' x hx => by
    simp only [find?_put] at hx
    split at hx
    · next hk =>
        cases hx
        rw [hk, hw]
        exact h.live_mem k v hv
    · exact h.live_mem k' x hx

theorem WF.del {s : FIFOStore K V} (h : s.WF) (k : K) : WF { s with byKey := s.byKey.del k } where
  head_le := h.head_le
  sorted := h.sorted
  le_seq := h.le_seq
  live_mem := fun k' v hv => h.live_mem k' v (find?_del_eq_some.mp hv).2

/-! ## What the two passes evict -/

/-- `Drains m ev m'`: the map `m'` is what is left of `m` after the entries `ev`
went one by one, each the one with the smallest sequence number when it went. -/
inductive Drains : AssocMap K V → List (K × V) → AssocMap K V → Prop
  | /-- Nothing went. -/ nil (m) : Drains m [] m
  | /-- The oldest entry goes first. -/
    cons {m k v ev m'} : m.find? k = some v →
      (∀ k' w, m.find? k' = some w → k' = k ∨ Generation.seq v < Generation.seq w) →
      Drains (m.del k) ev m' → Drains m ((k, v) :: ev) m'

namespace Drains

variable {m m' : AssocMap K V} {ev : List (K × V)}

theorem sum {M : Type*} [AddCommMonoid M] (f : V → M) (h : Drains m ev m') :
    m.sum f = (ev.map fun e => f e.2).sum + m'.sum f := by
  induction h with
  | nil m => simp
  | cons hv _ _ ih => rw [sum_of_find? f hv, ih, map_cons, sum_cons, add_assoc]

theorem size (h : Drains m ev m') : m.size = ev.length + m'.size := by
  induction h with
  | nil m => simp
  | cons hv _ _ ih => rw [size_of_find? hv, ih, length_cons]; omega

theorem find?_of_left (h : Drains m ev m') {k : K} {v : V} (hv : m'.find? k = some v) : m.find? k = some v := by
  induction h with
  | nil m => exact hv
  | cons _ _ _ ih => exact (find?_del_eq_some.mp (ih hv)).2

theorem find?_of_mem (h : Drains m ev m') {e : K × V} (he : e ∈ ev) : m.find? e.1 = some e.2 := by
  induction h with
  | nil m => exact absurd he not_mem_nil
  | cons hv _ _ ih =>
    rcases mem_cons.mp he with rfl | he
    · exact hv
    · exact (find?_del_eq_some.mp (ih he)).2

theorem left_or_mem (h : Drains m ev m') {k : K} {v : V} (hv : m.find? k = some v) :
    m'.find? k = some v ∨ (k, v) ∈ ev := by
  induction h with
  | nil m => exact .inl hv
  | @cons m k₀ v₀ ev m' hv₀ _ _ ih =>
    by_cases hk : k = k₀
    · subst hk
      rw [hv] at hv₀
      cases hv₀
      exact .inr mem_cons_self
    · rcases ih (find?_del_eq_some.mpr ⟨hk, hv⟩) with h | h
      · exact .inl h
      · exact .inr (mem_cons_of_mem _ h)

theorem seq_lt (h : Drains m ev m') {e : K × V} (he : e ∈ ev) {k : K} {w : V}
    (hw : m'.find? k = some w) : Generation.seq e.2 < Generation.seq w := by
  induction h with
  | nil m => exact absurd he not_mem_nil
  | @cons m k₀ v₀ ev m' hv₀ hold hd ih =>
    rcases mem_cons.mp he with rfl | he
    · obtain ⟨hne, hf⟩ := find?_del_eq_some.mp (hd.find?_of_left hw)
      exact (hold k w hf).resolve_left hne
    · exact ih he hw

end Drains

/-- The horizon pass.  Everything it evicts is past the horizon, and with enough
rounds it stops only at an empty store or at an oldest entry within the horizon. -/
theorem WF.evictHorizon_spec (newest horizon : Nat) : ∀ (fuel : Nat) {s : FIFOStore K V}, s.WF →
    (evictHorizon newest horizon fuel s).1.WF ∧
    (evictHorizon newest horizon fuel s).1.order.seq = s.order.seq ∧
    Drains s.byKey (evictHorizon newest horizon fuel s).2 (evictHorizon newest horizon fuel s).1.byKey ∧
    (∀ e ∈ (evictHorizon newest horizon fuel s).2, horizon < newest - Generation.anchorNs e.2) ∧
    (s.byKey.size < fuel → (evictHorizon newest horizon fuel s).1.byKey.size = 0 ∨
      ∃ k v, (evictHorizon newest horizon fuel s).1.byKey.find? k = some v ∧ newest - Generation.anchorNs v ≤ horizon ∧
        ∀ k' w, (evictHorizon newest horizon fuel s).1.byKey.find? k' = some w →
          k' = k ∨ Generation.seq v < Generation.seq w) := by
  intro fuel
  induction fuel with
  | zero => exact fun {s} h => ⟨h, rfl, .nil _, by simp [evictHorizon], by simp⟩
  | succ fuel ih =>
    intro s h
    have hpeek := h.peek
    rcases h.peekOldestLive_spec with ⟨hn, hz⟩ | ⟨k, v, hk, hv, hold⟩
    · unfold evictHorizon
      rw [show s.order.peekOldestLive s.isLive = (none, (s.order.peekOldestLive s.isLive).2) from Prod.ext hn rfl]
      exact ⟨hpeek, by simp, .nil _, by simp, fun _ => .inl hz⟩
    · unfold evictHorizon
      rw [show s.order.peekOldestLive s.isLive = (some k, (s.order.peekOldestLive s.isLive).2) from Prod.ext hk rfl]
      simp only [hv]
      by_cases hwithin : newest ≤ Generation.anchorNs v ∨ newest - Generation.anchorNs v ≤ horizon
      · rw [if_pos hwithin]
        refine ⟨hpeek, by simp, .nil _, by simp, fun _ => .inr ⟨k, v, hv, ?_, hold⟩⟩
        omega
      · rw [if_neg hwithin]
        obtain ⟨-, hz⟩ | ⟨k', v', hk', hv', hold', hwf⟩ := hpeek.evictOldestLive_spec
        · exact absurd (size_pos_of_find? hv) (by rw [hz]; exact Nat.lt_irrefl 0)
        · -- the pop takes the entry the peek showed: there is only one oldest entry
          have hkk : k' = k := by
            rcases hold k' v' hv' with rfl | hlt
            · rfl
            · rcases hold' k v hv with heq | hlt'
              · exact heq.symm
              · omega
          subst hkk
          obtain ⟨hw, hseq, hd, hpast, hend⟩ := ih hwf
          refine ⟨hw, by rw [hseq]; simp, .cons hv hold hd, ?_, fun hlt => hend ?_⟩
          · intro e he
            rcases mem_cons.mp he with rfl | he
            · change horizon < newest - Generation.anchorNs v
              omega
            · exact hpast e he
          · have hsz := size_of_find? hv
            change (s.byKey.del k').size < fuel
            omega

theorem WF.evictCapacity_spec (cap : Nat) : ∀ (fuel : Nat) {s : FIFOStore K V}, s.WF → (evictCapacity cap fuel s).1.WF ∧
    (evictCapacity cap fuel s).1.order.seq = s.order.seq ∧
    Drains s.byKey (evictCapacity cap fuel s).2 (evictCapacity cap fuel s).1.byKey ∧
    (s.byKey.size < fuel → (evictCapacity cap fuel s).1.byKey.size = min s.byKey.size cap) := by
  intro fuel
  induction fuel with
  | zero => exact fun {s} h => ⟨h, rfl, .nil _, by simp⟩
  | succ fuel ih =>
    intro s h
    unfold evictCapacity
    by_cases hle : s.byKey.size ≤ cap
    · rw [if_pos hle]
      exact ⟨h, rfl, .nil _, fun _ => (Nat.min_eq_left hle).symm⟩
    · rw [if_neg hle]
      obtain ⟨-, hz⟩ | ⟨k, v, hk, hv, hold, hwf⟩ := h.evictOldestLive_spec
      · omega
      · rw [show s.order.evictOldestLive s.isLive =
          (some k, (s.order.evictOldestLive s.isLive).2) from Prod.ext hk rfl]
        simp only [hv]
        obtain ⟨hw, hseq, hd, hsize⟩ := ih hwf
        refine ⟨hw, by rw [hseq]; simp, .cons hv hold hd, fun hlt => ?_⟩
        have hsz := size_of_find? hv
        rw [hsize (by change (s.byKey.del k).size < fuel; omega)]
        change min (s.byKey.del k).size cap = _
        omega

theorem WF.evict_spec (cap newest horizon : Nat) {s : FIFOStore K V} (h : s.WF) : (s.evict cap newest horizon).1.WF ∧
    (s.evict cap newest horizon).1.order.seq = s.order.seq ∧
    (s.evict cap newest horizon).1.byKey.size ≤ cap ∧
    ∃ m, Drains s.byKey (s.evict cap newest horizon).2.1 m ∧
      Drains m (s.evict cap newest horizon).2.2 (s.evict cap newest horizon).1.byKey := by
  unfold evict
  by_cases hz : horizon > 0
  · rw [if_pos hz]
    obtain ⟨hw, hseq, hd, -, -⟩ := h.evictHorizon_spec newest horizon (s.byKey.size + 1)
    obtain ⟨hw', hseq', hd', hsize⟩ := hw.evictCapacity_spec cap
      ((evictHorizon newest horizon (s.byKey.size + 1) s).1.byKey.size + 1)
    refine ⟨hw', by rw [hseq', hseq], ?_, _, hd, hd'⟩
    rw [hsize (Nat.lt_succ_self _)]
    exact Nat.min_le_right _ _
  · rw [if_neg hz]
    obtain ⟨hw', hseq', hd', hsize⟩ := h.evictCapacity_spec cap (s.byKey.size + 1)
    refine ⟨hw', hseq', ?_, _, .nil _, hd'⟩
    rw [hsize (Nat.lt_succ_self _)]
    exact Nat.min_le_right _ _

end FIFOStore

end PerfAgent.Gpu
