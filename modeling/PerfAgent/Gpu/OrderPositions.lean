import PerfAgent.Gpu.FIFOQueue

/-!
# How many positions an order slice retains

`len(order)` of `gpu/boundedfifo.go` counts three kinds of positions: those the walk has
passed, the live ones, and the superseded ones it has not passed.  Compaction bounds the
first by the others (`Compacted`), and the owner's capacity bounds the second.  Nothing
bounds the third: a superseded position goes only when the walk passes it.

The lemmas here say when the walk does: what a pass of the eviction leaves is free of
superseded positions if those ahead of it stood in one block, behind entries the pass
evicts.
-/

universe u v

namespace PerfAgent.Gpu

open List

variable (cap : Nat)

/-- The bound on the slice of an owner of `cap` entries without superseded positions. -/
def orderBound : Nat := cap + max 1023 cap

namespace OrderedFIFO

variable {K : Type u}

def Compacted (f : OrderedFIFO K) : Prop := f.head < 1024 ∨ f.head * 2 < f.order.length

theorem compacted_compact (f : OrderedFIFO K) : f.compact.Compacted := by
  unfold compact
  split
  · next h => exact h
  · exact .inl (by simp)

theorem Compacted.insert {f : OrderedFIFO K} (h : f.Compacted) (k : K) : (f.insert k).1.Compacted := by
  refine h.imp id fun h => ?_
  simp only [OrderedFIFO.insert, List.length_append, length_singleton]
  omega

theorem compacted_peekOldestLive (f : OrderedFIFO K) (isLive : K → Nat → Bool) :
    (f.peekOldestLive isLive).2.Compacted := compacted_compact _

theorem compacted_evictOldestLive (f : OrderedFIFO K) (isLive : K → Nat → Bool) :
    (f.evictOldestLive isLive).2.Compacted := by
  unfold evictOldestLive
  cases h : (f.skipSuperseded isLive).rest <;> simp only [h] <;> exact compacted_compact _

theorem length_order_le {f : OrderedFIFO K} (hh : f.head ≤ f.order.length) (hc : f.Compacted)
    {cap : Nat} (hr : f.rest.length ≤ cap) : f.order.length ≤ orderBound cap := by
  have hlen : f.rest.length = f.order.length - f.head := by simp [rest]
  unfold orderBound
  rcases hc with hc | hc <;> omega

end OrderedFIFO

namespace FIFOStore

variable {K : Type u} {V : Type v} [DecidableEq K] [Generation V] {s : FIFOStore K V}

/-! ## The passes compact -/

theorem compacted_evictHorizon (newest horizon : Nat) : ∀ (fuel : Nat) {s : FIFOStore K V},
    s.order.Compacted → (evictHorizon newest horizon fuel s).1.order.Compacted := by
  intro fuel
  induction fuel with
  | zero => exact fun {s} h => h
  | succ fuel ih =>
    intro s h
    unfold evictHorizon
    have hp := s.order.compacted_peekOldestLive s.isLive
    split
    · next heq => rw [heq] at hp; exact hp
    · next heq =>
        rw [heq] at hp
        dsimp only
        split
        · exact hp
        · split
          · exact hp
          · exact ih (OrderedFIFO.compacted_evictOldestLive _ _)

theorem compacted_evictCapacity : ∀ (fuel : Nat) {s : FIFOStore K V},
    s.order.Compacted → (evictCapacity cap fuel s).1.order.Compacted := by
  intro fuel
  induction fuel with
  | zero => exact fun {s} h => h
  | succ fuel ih =>
    intro s h
    unfold evictCapacity
    have hp := s.order.compacted_evictOldestLive s.isLive
    split
    · exact h
    · split
      · next heq => rw [heq] at hp; exact hp
      · next heq =>
          rw [heq] at hp
          split
          · exact hp
          · exact ih hp

theorem compacted_evict (newest horizon : Nat) (h : s.order.Compacted) :
    (s.evict cap newest horizon).1.order.Compacted := by
  unfold evict
  by_cases hz : horizon > 0
  · rw [if_pos hz]
    exact compacted_evictCapacity _ _ (compacted_evictHorizon _ _ _ h)
  · rw [if_neg hz]
    exact compacted_evictCapacity _ _ h

/-! ## Live and superseded positions -/

def AllLive (s : FIFOStore K V) (ps : List (SeqPos K)) : Prop :=
  ∀ p ∈ ps, s.isLive p.key p.seq = true

def AllDead (s : FIFOStore K V) (ps : List (SeqPos K)) : Prop :=
  ∀ p ∈ ps, s.isLive p.key p.seq = false

theorem AllDead.dropWhile {ps qs : List (SeqPos K)} (h : s.AllDead ps) :
    (ps ++ qs).dropWhile (fun p => !s.isLive p.key p.seq) = qs.dropWhile fun p => !s.isLive p.key p.seq :=
  dropWhile_append_of_pos fun p hp => by simp [h p hp]

theorem isLive_del {k k' : K} {n : Nat} {f : OrderedFIFO K} :
    isLive { byKey := s.byKey.del k, order := f } k' n = (!decide (k' = k) && s.isLive k' n) := by
  unfold isLive
  simp only [AssocMap.find?_del]
  split <;> simp_all

variable {ps : List (SeqPos K)}

theorem WF.allLive_tail (h : s.WF) {p : SeqPos K} (hsub : (p :: ps).Sublist s.order.rest)
    (hlive : s.isLive p.key p.seq = true) {q : SeqPos K} (hq : q ∈ ps) (hqlive : s.isLive q.key q.seq = true)
    {f : OrderedFIFO K} : isLive { byKey := s.byKey.del p.key, order := f } q.key q.seq = true := by
  rw [isLive_del, hqlive, Bool.and_true]
  obtain ⟨v, hv, hseq⟩ := isLive_iff.mp hlive
  obtain ⟨w, hw, hseq'⟩ := isLive_iff.mp hqlive
  have hlt : p.seq < q.seq := rel_of_pairwise_cons (h.sorted.sublist hsub) hq
  have hne : q.key ≠ p.key := by
    intro heq
    rw [heq, hv] at hw
    cases hw
    omega
  simp [hne]

theorem WF.length_rest (h : s.WF) (hl : s.AllLive s.order.rest) : s.order.rest.length = s.byKey.size := by
  have hq : s.queue.map (fun e => (⟨e.1, Generation.seq e.2⟩ : SeqPos K)) = s.order.rest := by
    unfold queue
    rw [map_filterMap]
    conv_rhs => rw [← filterMap_some (l := s.order.rest)]
    refine filterMap_congr fun p hp => ?_
    obtain ⟨v, hv, hseq⟩ := isLive_iff.mp (hl p hp)
    have he : s.entryAt p = some (p.key, v) := entryAt_eq_some.mpr ⟨hv, by rw [hseq]⟩
    rw [he, Option.map_some, hseq]
  rw [← h.length_queue, ← hq, length_map]

/-! ## What the passes leave -/

theorem WF.evictHorizon_succ (h : s.WF) (newest horizon fuel : Nat) {p : SeqPos K}
    (hp : (s.order.rest.dropWhile fun p => !s.isLive p.key p.seq) = p :: ps) :
    ∃ v f, s.byKey.find? p.key = some v ∧ f.rest = ps ∧ WF { byKey := s.byKey.del p.key, order := f : FIFOStore K V } ∧
      (evictHorizon newest horizon (fuel + 1) s).1 =
        if newest ≤ Generation.anchorNs v ∨ newest - Generation.anchorNs v ≤ horizon then
          { s with order := (s.order.peekOldestLive s.isLive).2 }
        else (evictHorizon newest horizon fuel { byKey := s.byKey.del p.key, order := f }).1 := by
  obtain ⟨v, hv, hseq, hold⟩ := h.oldest hp
  have hpeek : s.order.peekOldestLive s.isLive = (some p.key, (s.order.peekOldestLive s.isLive).2) :=
    Prod.ext (by rw [OrderedFIFO.fst_peekOldestLive, hp]; rfl) rfl
  have hrest : (s.order.peekOldestLive s.isLive).2.rest = p :: ps := by
    rw [OrderedFIFO.rest_peekOldestLive, hp]
  have hlive : s.isLive p.key p.seq = true := isLive_iff.mpr ⟨v, hv, hseq⟩
  have hpop : ((s.order.peekOldestLive s.isLive).2.evictOldestLive s.isLive).2.rest = ps := by
    rw [OrderedFIFO.rest_evictOldestLive, hrest]
    simp [hlive]
  refine ⟨v, ((s.order.peekOldestLive s.isLive).2.evictOldestLive s.isLive).2, hv, hpop, ?_, ?_⟩
  · obtain ⟨-, hz⟩ | ⟨k', v', hk', -, -, hwf⟩ := h.peek.evictOldestLive_spec
    · exact absurd (AssocMap.size_pos_of_find? hv) (by rw [hz]; exact Nat.lt_irrefl 0)
    · have hkey : some k' = some p.key := by
        rw [← hk', OrderedFIFO.fst_evictOldestLive]
        change ((s.order.peekOldestLive s.isLive).2.rest.dropWhile fun p => !s.isLive p.key p.seq).head?.map _ = _
        rw [hrest]
        simp [hlive]
      cases hkey
      exact hwf
  · rw [evictHorizon, hpeek]
    simp only [hv]
    split <;> rfl

/-- The horizon pass over aged entries, then superseded positions, then live ones: the walk
reaches the live ones and leaves only some of them. -/
theorem WF.allLive_evictHorizon (newest horizon : Nat) : ∀ (fuel : Nat) {s : FIFOStore K V}
    {old dead live : List (SeqPos K)}, s.WF → s.byKey.size < fuel →
    s.order.rest = old ++ (dead ++ live) →
    (∀ p ∈ old, ∃ v, s.byKey.find? p.key = some v ∧ Generation.seq v = p.seq ∧
      horizon < newest - Generation.anchorNs v) →
    s.AllDead dead → s.AllLive live →
    AllLive (evictHorizon newest horizon fuel s).1 (evictHorizon newest horizon fuel s).1.order.rest := by
  intro fuel
  induction fuel with
  | zero => exact fun {s old dead live} _ hlt => absurd hlt (Nat.not_lt_zero _)
  | succ fuel ih =>
    intro s old dead live h hlt hrest hold hdead hlive
    have hsize : ∀ {k v}, s.byKey.find? k = some v → (s.byKey.del k).size < fuel := fun hv => by
      have := AssocMap.size_of_find? hv
      omega
    cases old with
    | cons p old =>
      -- an aged entry in front: it goes, and the rest is as before
      obtain ⟨w, hw, hwseq, haged⟩ := hold p mem_cons_self
      have hplive : s.isLive p.key p.seq = true := isLive_iff.mpr ⟨w, hw, hwseq⟩
      have hp : (s.order.rest.dropWhile fun p => !s.isLive p.key p.seq) =
          p :: (old ++ (dead ++ live)) := by simp [hrest, hplive]
      have hsub : (p :: (old ++ (dead ++ live))).Sublist s.order.rest := by rw [hrest]; simp
      obtain ⟨v, f, hv, hf, hwf, heq⟩ := h.evictHorizon_succ newest horizon fuel hp
      rw [hv] at hw
      cases hw
      rw [heq, if_neg (by omega)]
      refine ih hwf (hsize hv) hf ?_ ?_ ?_
      · intro q hq
        obtain ⟨x, hx, hxseq, hxaged⟩ := hold q (mem_cons_of_mem _ hq)
        have hq' := h.allLive_tail hsub hplive (mem_append_left _ hq) (isLive_iff.mpr ⟨x, hx, hxseq⟩) (f := f)
        obtain ⟨y, hy, hyseq⟩ := isLive_iff.mp hq'
        have hyx := (AssocMap.find?_del_eq_some.mp hy).2
        rw [hx] at hyx
        cases hyx
        exact ⟨x, hy, hxseq, hxaged⟩
      · intro q hq
        rw [isLive_del, hdead q hq, Bool.and_false]
      · intro q hq
        exact h.allLive_tail hsub hplive (mem_append_right _ (mem_append_right _ hq)) (hlive q hq)
    | nil =>
      have hdrop : (s.order.rest.dropWhile fun p => !s.isLive p.key p.seq) =
          live.dropWhile fun p => !s.isLive p.key p.seq := by
        rw [hrest, nil_append, hdead.dropWhile]
      cases live with
      | nil =>
        -- nothing live: the walk runs to the end
        have hnone : s.order.peekOldestLive s.isLive = (none, (s.order.peekOldestLive s.isLive).2) :=
          Prod.ext (by rw [OrderedFIFO.fst_peekOldestLive, hdrop]; rfl) rfl
        rw [evictHorizon, hnone]
        intro q hq
        rw [OrderedFIFO.rest_peekOldestLive, hdrop] at hq
        cases hq
      | cons p live =>
        have hplive : s.isLive p.key p.seq = true := hlive p mem_cons_self
        have hp : (s.order.rest.dropWhile fun p => !s.isLive p.key p.seq) = p :: live := by
          simp [hdrop, hplive]
        have hsub : (p :: live).Sublist s.order.rest := by rw [hrest]; simp
        obtain ⟨v, f, hv, hf, hwf, heq⟩ := h.evictHorizon_succ newest horizon fuel hp
        rw [heq]
        split
        · intro q hq
          rw [OrderedFIFO.rest_peekOldestLive, hp] at hq
          exact hlive q hq
        · refine @ih _ [] [] live hwf (hsize hv) hf (by simp) (fun _ hq => absurd hq not_mem_nil) ?_
          intro q hq
          exact h.allLive_tail hsub hplive hq (hlive q (mem_cons_of_mem _ hq))

theorem WF.allLive_evictCapacity : ∀ (fuel : Nat) {s : FIFOStore K V}, s.WF → s.AllLive s.order.rest →
    AllLive (evictCapacity cap fuel s).1 (evictCapacity cap fuel s).1.order.rest := by
  intro fuel
  induction fuel with
  | zero => exact fun {s} _ h => h
  | succ fuel ih =>
    intro s h hlive
    unfold evictCapacity
    split
    · exact hlive
    · cases hr : s.order.rest with
      | nil =>
        have hz := h.size_eq_zero (by rw [hr]; rfl)
        omega
      | cons p ps =>
        have hplive : s.isLive p.key p.seq = true := hlive p (by rw [hr]; exact mem_cons_self)
        have hp : (s.order.rest.dropWhile fun p => !s.isLive p.key p.seq) = p :: ps := by
          simp [hr, hplive]
        obtain ⟨v, hv, -, -⟩ := h.oldest hp
        have hpop : (s.order.evictOldestLive s.isLive).2.rest = ps := by
          rw [OrderedFIFO.rest_evictOldestLive, hp]
          rfl
        have hkey : s.order.evictOldestLive s.isLive = (some p.key, (s.order.evictOldestLive s.isLive).2) :=
          Prod.ext (by rw [OrderedFIFO.fst_evictOldestLive, hp]; rfl) rfl
        obtain ⟨-, hz⟩ | ⟨k', v', hk', -, -, hwf⟩ := h.evictOldestLive_spec
        · omega
        · rw [hkey] at hk'
          cases hk'
          rw [hkey]
          simp only [hv]
          refine ih hwf ?_
          intro q hq
          change q ∈ (s.order.evictOldestLive s.isLive).2.rest at hq
          rw [hpop] at hq
          exact h.allLive_tail (by rw [hr]) hplive hq (hlive q (by
            rw [hr]
            exact mem_cons_of_mem _ hq))

/-- Both passes: no superseded position is left, if they stand in one block behind aged
entries, and there is none when the horizon pass is disabled. -/
theorem WF.allLive_evict (h : s.WF) (cap newest horizon : Nat) {old dead live : List (SeqPos K)}
    (hrest : s.order.rest = old ++ (dead ++ live))
    (hold : ∀ p ∈ old, ∃ v, s.byKey.find? p.key = some v ∧ Generation.seq v = p.seq ∧
      horizon < newest - Generation.anchorNs v)
    (hdead : s.AllDead dead) (hlive : s.AllLive live) (hz : horizon = 0 → dead = []) :
    AllLive (s.evict cap newest horizon).1 (s.evict cap newest horizon).1.order.rest := by
  unfold evict
  by_cases hpos : horizon > 0
  · rw [if_pos hpos]
    obtain ⟨hw, -⟩ := h.evictHorizon_spec newest horizon (s.byKey.size + 1)
    exact hw.allLive_evictCapacity cap _
      (h.allLive_evictHorizon newest horizon _ (Nat.lt_succ_self _) hrest hold hdead hlive)
  · rw [if_neg hpos]
    refine h.allLive_evictCapacity cap _ fun p hp => ?_
    rw [hrest, hz (by omega), nil_append, mem_append] at hp
    rcases hp with hp | hp
    · obtain ⟨v, hv, hseq, -⟩ := hold p hp
      exact isLive_iff.mpr ⟨v, hv, hseq⟩
    · exact hlive p hp

theorem WF.length_order_le (h : s.WF) (hc : s.order.Compacted) (hl : s.AllLive s.order.rest)
    {cap : Nat} (hs : s.byKey.size ≤ cap) : s.order.order.length ≤ orderBound cap :=
  OrderedFIFO.length_order_le h.head_le hc (by rw [h.length_rest hl]; exact hs)

end FIFOStore

end PerfAgent.Gpu
