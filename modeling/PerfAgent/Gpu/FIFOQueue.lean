import PerfAgent.Gpu.BoundedFIFO

/-!
# The queue a bounded store represents

An owner of an `OrderedFIFO` keeps a map and a slice of positions, some of which
belong to generations that are gone.  What it *means* is a queue: its live entries,
oldest generation first.  `FIFOStore.queue` is that abstraction, and the equations
below say what each operation does to it.  No equation mentions a position, so
neither a superseded position nor the place where the walked prefix ends can be
observed through them.
-/

universe u v

namespace PerfAgent.Gpu.FIFOStore

open List

variable {K : Type u} {V : Type v} [DecidableEq K] [Generation V]

/-- The live entry a position stands for, if it is the position of one. -/
def entryAt (s : FIFOStore K V) (p : SeqPos K) : Option (K × V) :=
  if s.isLive p.key p.seq then (s.byKey.find? p.key).map (p.key, ·) else none

def queue (s : FIFOStore K V) : List (K × V) := s.order.rest.filterMap s.entryAt

/-- Entry `a` is of an older generation than entry `b`. -/
def Older (a b : K × V) : Prop := Generation.seq a.2 < Generation.seq b.2

theorem entryAt_eq_some {s : FIFOStore K V} {p : SeqPos K} {e : K × V} :
    s.entryAt p = some e ↔ s.byKey.find? e.1 = some e.2 ∧ p = ⟨e.1, Generation.seq e.2⟩ := by
  obtain ⟨k, n⟩ := p
  obtain ⟨k', v⟩ := e
  unfold entryAt isLive
  cases hf : s.byKey.find? k with
  | none => simp; rintro h rfl; simp [hf] at h
  | some w =>
    by_cases hn : Generation.seq w = n
    · simp only [Option.any_some, hn, BEq.rfl, if_true, Option.map_some, Option.some.injEq,
        Prod.mk.injEq, SeqPos.mk.injEq]
      constructor
      · rintro ⟨rfl, rfl⟩
        exact ⟨hf, rfl, hn.symm⟩
      · rintro ⟨hv, rfl, rfl⟩
        rw [hf] at hv
        exact ⟨rfl, Option.some.inj hv⟩
    · simp only [Option.any_some, beq_iff_eq, hn, if_false, reduceCtorEq, SeqPos.mk.injEq,
        false_iff, not_and]
      rintro hv rfl rfl
      rw [hf] at hv
      exact hn (congrArg Generation.seq (Option.some.inj hv))

section Characterisation

variable {s : FIFOStore K V}

theorem WF.mem_queue (h : s.WF) {e : K × V} : e ∈ s.queue ↔ s.byKey.find? e.1 = some e.2 := by
  simp only [queue, mem_filterMap, entryAt_eq_some]
  constructor
  · rintro ⟨p, -, hv, -⟩
    exact hv
  · intro hv
    exact ⟨_, h.live_mem e.1 e.2 hv, hv, rfl⟩

theorem WF.queue_pairwise (h : s.WF) : s.queue.Pairwise Older := by
  refine List.Pairwise.filterMap _ ?_ h.sorted
  intro p q hpq a ha b hb
  obtain ⟨-, rfl⟩ := entryAt_eq_some.mp ha
  obtain ⟨-, rfl⟩ := entryAt_eq_some.mp hb
  exact hpq

theorem WF.queue_eq (h : s.WF) {l : List (K × V)} (hs : l.Pairwise Older)
    (hm : ∀ e, e ∈ l ↔ s.byKey.find? e.1 = some e.2) : s.queue = l := by
  have irr : ∀ {l : List (K × V)}, l.Pairwise Older → l.Nodup := fun hp =>
    hp.imp fun {a b} hlt heq => by
      subst heq
      exact Nat.lt_irrefl _ hlt
  have hperm : s.queue.Perm l :=
    (perm_ext_iff_of_nodup (irr h.queue_pairwise) (irr hs)).mpr fun e => by
      rw [h.mem_queue, hm]
  refine hperm.eq_of_pairwise (fun a b _ _ hab hba => ?_) h.queue_pairwise hs
  exact absurd hab (Nat.lt_asymm hba)

theorem WF.nodup_keys_queue (h : s.WF) : (s.queue.map Prod.fst).Nodup := by
  refine pairwise_map.mpr (h.queue_pairwise.imp_of_mem fun {a b} ha hb hlt heq => ?_)
  rw [h.mem_queue] at ha hb
  rw [heq, hb] at ha
  rw [Older, Option.some.inj ha] at hlt
  exact Nat.lt_irrefl _ hlt

theorem WF.length_queue (h : s.WF) : s.queue.length = s.byKey.size := by
  have hl : (s.queue.map fun e => (⟨e.1, e.2⟩ : Sigma fun _ : K => V)).Perm s.byKey.entries := by
    refine (perm_ext_iff_of_nodup ?_ s.byKey.nodupKeys.nodup).mpr fun e => ?_
    · refine List.Nodup.map ?_ (List.Nodup.of_map _ h.nodup_keys_queue)
      rintro ⟨k, v⟩ ⟨k', v'⟩ heq
      cases heq
      rfl
    · rw [mem_map]
      constructor
      · rintro ⟨e, he, rfl⟩
        exact AList.mem_lookup_iff.mp (h.mem_queue.mp he)
      · intro he
        exact ⟨(e.1, e.2), h.mem_queue.mpr (AList.mem_lookup_iff.mpr he), rfl⟩
  simpa [AssocMap.size] using hl.length_eq

end Characterisation

/-! ## The operations as queue operations -/

section Operations

variable {s : FIFOStore K V}

omit [Generation V] in
theorem find?_insert (s : FIFOStore K V) (k k' : K) (stamp : Nat → V) : (s.insert k stamp).byKey.find? k' =
      if k' = k then some (stamp (s.order.seq + 1)) else s.byKey.find? k' :=
  AssocMap.find?_put _ _ _ _

theorem WF.queue_insert (h : s.WF) (k : K) {stamp : Nat → V} (hstamp : ∀ n, Generation.seq (stamp n) = n) :
    (s.insert k stamp).queue = (s.queue.filter fun e => e.1 ≠ k) ++ [(k, stamp (s.order.seq + 1))] := by
  refine (h.insert k hstamp).queue_eq ?_ fun e => ?_
  · refine pairwise_append.mpr ⟨h.queue_pairwise.filter _, pairwise_singleton _ _, ?_⟩
    intro a ha b hb
    have ha' := h.mem_queue.mp (mem_of_mem_filter ha)
    rw [mem_singleton.mp hb, Older, hstamp]
    exact Nat.lt_succ_of_le (h.le_seq _ (h.live_mem _ _ ha'))
  · obtain ⟨k', v⟩ := e
    simp only [find?_insert, mem_append, mem_filter, h.mem_queue, mem_singleton, Prod.mk.injEq, decide_eq_true_eq]
    by_cases hk : k' = k
    · simp [hk, eq_comm]
    · simp [hk]

variable {ev : List (K × V)}

namespace Drains

theorem pairwise {m m' : AssocMap K V} (hd : Drains m ev m') : ev.Pairwise Older := by
  induction hd with
  | nil m => exact List.Pairwise.nil
  | @cons m k v ev m' hv hold hd ih =>
    refine List.Pairwise.cons (fun e he => ?_) ih
    obtain ⟨hne, hf⟩ := AssocMap.find?_del_eq_some.mp (hd.find?_of_mem he)
    exact (hold e.1 e.2 hf).resolve_left hne

theorem queue {s' : FIFOStore K V} {ev : List (K × V)} (hd : Drains s.byKey ev s'.byKey)
    (h : s.WF) (h' : s'.WF) : s.queue = ev ++ s'.queue := by
  refine h.queue_eq ?_ fun e => ?_
  · refine pairwise_append.mpr ⟨hd.pairwise, h'.queue_pairwise, fun a ha b hb => ?_⟩
    exact hd.seq_lt ha (h'.mem_queue.mp hb)
  · rw [mem_append, h'.mem_queue]
    constructor
    · rintro (he | he)
      · exact hd.find?_of_mem he
      · exact hd.find?_of_left he
    · intro he
      exact (hd.left_or_mem he).symm

theorem left_eq {m m' : AssocMap K V} (hd : Drains m ev m') : m' = ev.foldl (fun m e => m.del e.1) m := by
  induction hd with
  | nil m => rfl
  | cons _ _ _ ih => exact ih

end Drains

def aged (newest horizon : Nat) (e : K × V) : Bool :=
  horizon < newest - Generation.anchorNs e.2

/-- The horizon pass drops the aged front of the queue, up to the first entry that
is not aged. -/
theorem WF.queue_evictHorizon (h : s.WF) (newest horizon : Nat) : (evictHorizon newest horizon (s.byKey.size + 1) s).2 =
        s.queue.takeWhile (aged newest horizon) ∧
      (evictHorizon newest horizon (s.byKey.size + 1) s).1.queue = s.queue.dropWhile (aged newest horizon) := by
  obtain ⟨hw, -, hd, hpast, hend⟩ := h.evictHorizon_spec newest horizon (s.byKey.size + 1)
  have hall : ∀ e ∈ (evictHorizon newest horizon (s.byKey.size + 1) s).2,
      aged newest horizon e = true := fun e he => by simpa [aged] using hpast e he
  have hstop : (evictHorizon newest horizon (s.byKey.size + 1) s).1.queue = [] ∨
      ∃ e q, (evictHorizon newest horizon (s.byKey.size + 1) s).1.queue = e :: q ∧ aged newest horizon e = false := by
    rcases hend (Nat.lt_succ_self _) with hz | ⟨k, v, hv, hin, hold⟩
    · exact .inl (length_eq_zero_iff.mp (by rw [hw.length_queue, hz]))
    · cases hq : (evictHorizon newest horizon (s.byKey.size + 1) s).1.queue with
      | nil => exact .inl rfl
      | cons e q =>
        refine .inr ⟨e, q, rfl, ?_⟩
        have hmem : (k, v) ∈ _ := hw.mem_queue.mpr hv
        have he := hw.mem_queue.mp (hq ▸ mem_cons_self : e ∈ _)
        have hsorted := hw.queue_pairwise
        rw [hq] at hmem hsorted
        -- the head of the queue is the oldest entry, so it is the one the pass stopped at
        rcases mem_cons.mp hmem with rfl | hin'
        · simpa [aged] using hin
        · have hlt : Generation.seq e.2 < Generation.seq v :=
            rel_of_pairwise_cons hsorted hin'
          rcases hold e.1 e.2 he with hk | hlt'
          · rw [hk, hv] at he
            rw [Option.some.inj he] at hlt
            exact absurd hlt (Nat.lt_irrefl _)
          · exact absurd hlt (Nat.lt_asymm hlt')
  rw [hd.queue h hw, takeWhile_append_of_pos hall, dropWhile_append_of_pos hall]
  rcases hstop with hq | ⟨e, q, hq, he⟩
  · simp [hq]
  · simp [hq, he]

theorem WF.queue_evictCapacity (h : s.WF) (cap : Nat) :
    (evictCapacity cap (s.byKey.size + 1) s).2 = s.queue.take (s.queue.length - cap) ∧
      (evictCapacity cap (s.byKey.size + 1) s).1.queue = s.queue.drop (s.queue.length - cap) := by
  obtain ⟨hw, -, hd, hsize⟩ := h.evictCapacity_spec cap (s.byKey.size + 1)
  have hq := hd.queue h hw
  have hlen := hsize (Nat.lt_succ_self _)
  have hev : (evictCapacity cap (s.byKey.size + 1) s).2.length = s.queue.length - cap := by
    have hsum := hd.size
    have hl := h.length_queue
    omega
  rw [← hev]
  constructor
  · rw [hq, take_left]
  · conv_rhs => rw [hq, drop_left]

/-- What the horizon pass drops from a queue; a horizon of zero drops nothing. -/
def agedPrefix (newest horizon : Nat) (q : List (K × V)) : List (K × V) :=
  if horizon > 0 then q.takeWhile (aged newest horizon) else []

def unaged (newest horizon : Nat) (q : List (K × V)) : List (K × V) :=
  if horizon > 0 then q.dropWhile (aged newest horizon) else q

theorem WF.queue_evict (h : s.WF) (cap newest horizon : Nat) :
    (s.evict cap newest horizon).2.1 = agedPrefix newest horizon s.queue ∧
    (s.evict cap newest horizon).2.2 =
      (unaged newest horizon s.queue).take ((unaged newest horizon s.queue).length - cap) ∧
    (s.evict cap newest horizon).1.queue =
      (unaged newest horizon s.queue).drop ((unaged newest horizon s.queue).length - cap) := by
  unfold evict agedPrefix unaged
  by_cases hz : horizon > 0
  · simp only [if_pos hz]
    obtain ⟨hw, -⟩ := h.evictHorizon_spec newest horizon (s.byKey.size + 1)
    obtain ⟨hev, hq⟩ := h.queue_evictHorizon newest horizon
    obtain ⟨hev', hq'⟩ := hw.queue_evictCapacity cap
    rw [hq] at hev' hq'
    exact ⟨hev, hev', hq'⟩
  · simp only [if_neg hz]
    exact ⟨trivial, h.queue_evictCapacity cap⟩

theorem WF.evict_congr {s' : FIFOStore K V} (h : s.WF) (h' : s'.WF) (hm : s'.byKey = s.byKey)
    (cap newest horizon : Nat) :
    (s'.evict cap newest horizon).2 = (s.evict cap newest horizon).2 ∧
      (s'.evict cap newest horizon).1.byKey = (s.evict cap newest horizon).1.byKey := by
  have hq : s'.queue = s.queue := h'.queue_eq h.queue_pairwise fun e => by rw [h.mem_queue, hm]
  obtain ⟨ha, hc, -⟩ := h.queue_evict cap newest horizon
  obtain ⟨ha', hc', -⟩ := h'.queue_evict cap newest horizon
  have hev : (s'.evict cap newest horizon).2 = (s.evict cap newest horizon).2 :=
    Prod.ext (by rw [ha, ha', hq]) (by rw [hc, hc', hq])
  refine ⟨hev, ?_⟩
  obtain ⟨-, -, -, m, hd, hd'⟩ := h.evict_spec cap newest horizon
  obtain ⟨-, -, -, m', he, he'⟩ := h'.evict_spec cap newest horizon
  rw [he'.left_eq, hd'.left_eq, he.left_eq, hd.left_eq, hev, hm]

end Operations

end PerfAgent.Gpu.FIFOStore
