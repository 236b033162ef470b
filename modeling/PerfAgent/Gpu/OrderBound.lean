import PerfAgent.Gpu.LaunchCacheAccounting
import PerfAgent.Gpu.LaunchJoin
import PerfAgent.Gpu.PendingOrder
import PerfAgent.Gpu.TimelineRun

/-!
# When the order slice stays bounded

The order slice of the launch cache and those of the two pending stores grow without bound:
a superseded position behind a live entry stays, and with a horizon of zero nothing walks
past it at all (`order_unbounded`).  Two steps leave such positions: a `Put` of a key that
is live, and a snapshot that consumes pending groups.  In a run whose steps leave none behind
the slices stay within a fixed function of the capacity (`order_bounded`).
-/

namespace PerfAgent.Gpu

open FIFOStore List

/-! ## The launch cache -/

namespace LaunchCache

/-- A `Put` of `l` leaves no superseded position behind: its key is not live, or the horizon
pass of this very `Put` evicts every older entry and so walks past the superseded one. -/
def LeavesNoStale (c : LaunchCache) (l : GPUKernelLaunch) : Prop :=
  ∀ e ∈ c.store.byKey.find? l.correlation, 0 < c.horizonNs ∧ ∀ x ∈ c.store.byKey.values, x.seq < e.seq →
      c.horizonNs < (c.observeTimestampLocked l.timeNs).newestNs - x.launch.timeNs

def OpLeavesNoStale (c : LaunchCache) : Op → Prop
  | .put l => c.LeavesNoStale l
  | _ => True

instance (c : LaunchCache) (l : GPUKernelLaunch) : Decidable (c.LeavesNoStale l) :=
  inferInstanceAs (Decidable (∀ e ∈ c.store.byKey.find? l.correlation, _ ∧ _))

instance (c : LaunchCache) (op : Op) : Decidable (c.OpLeavesNoStale op) :=
  match op with
  | .put l => inferInstanceAs (Decidable (c.LeavesNoStale l))
  | .get _ => .isTrue trivial
  | .markJoined _ => .isTrue trivial

structure OrderInv (c : LaunchCache) : Prop where
  wf : c.store.WF
  compacted : c.store.order.Compacted
  live : c.store.AllLive c.store.order.rest
  size : c.store.byKey.size ≤ c.capacity

theorem orderInv_new (cfg : LaunchCacheConfig) : (newLaunchCache cfg).OrderInv where
  wf := wf_empty
  compacted := .inl (by simp [newLaunchCache])
  live := nofun
  size := Nat.zero_le _

theorem OrderInv.length_le {c : LaunchCache} (h : c.OrderInv) : c.store.order.order.length ≤ orderBound c.capacity :=
  h.wf.length_order_le h.compacted h.live h.size

/-- The positions after the insertion of a `Put`: entries its horizon pass will evict, the
superseded position if there is one, and live entries. -/
theorem OrderInv.putEntry_rest {c : LaunchCache} (h : c.OrderInv) {l : GPUKernelLaunch} (hl : c.LeavesNoStale l) :
    ∃ old dead live, (c.putEntry l).store.order.rest = old ++ (dead ++ live) ∧
      (∀ p ∈ old, ∃ v, (c.putEntry l).store.byKey.find? p.key = some v ∧
        Generation.seq v = p.seq ∧ c.horizonNs < (c.putEntry l).newestNs - v.launch.timeNs) ∧
      (c.putEntry l).store.AllDead dead ∧ (c.putEntry l).store.AllLive live ∧
      (c.horizonNs = 0 → dead = []) := by
  have hrest : (c.putEntry l).store.order.rest = c.store.order.rest ++ [⟨l.correlation, c.store.order.seq + 1⟩] := by
    rw [store_putEntry]
    exact OrderedFIFO.rest_insert h.wf.head_le _
  have hnew : (c.putEntry l).store.isLive l.correlation (c.store.order.seq + 1) = true := by
    rw [store_putEntry]
    exact isLive_iff.mpr ⟨_, by rw [find?_insert, if_pos rfl], rfl⟩
  -- an entry under another key is as live as before
  have hother : ∀ {k : CorrelationID}, k ≠ l.correlation →
      (c.putEntry l).store.byKey.find? k = c.store.byKey.find? k := fun hk => by
    rw [store_putEntry, find?_insert, if_neg hk]
  have hlive : ∀ p ∈ c.store.order.rest, p.key ≠ l.correlation →
      (c.putEntry l).store.isLive p.key p.seq = true := fun p hp hk => by
    obtain ⟨v, hv, hseq⟩ := isLive_iff.mp (h.live p hp)
    exact isLive_iff.mpr ⟨v, by rw [hother hk, hv], hseq⟩
  cases hf : c.store.byKey.find? l.correlation with
  | none =>
    refine ⟨[], [], _, hrest, by simp, nofun, fun p hp => ?_, fun _ => rfl⟩
    rcases mem_append.mp hp with hp | hp
    · refine hlive p hp fun hk => ?_
      obtain ⟨v, hv, -⟩ := isLive_iff.mp (h.live p hp)
      rw [hk, hf] at hv
      cases hv
    · rw [mem_singleton.mp hp]
      exact hnew
  | some e =>
    obtain ⟨hpos, haged⟩ := hl e hf
    obtain ⟨old, live, hsplit⟩ := append_of_mem (h.wf.live_mem _ _ hf)
    have hsorted := h.wf.sorted
    rw [hsplit] at hrest hsorted
    -- only the superseded position has both the key and its old number
    have hne : ∀ p ∈ c.store.order.rest, p.seq ≠ Generation.seq e → p.key ≠ l.correlation := by
      intro p hp hseq hk
      obtain ⟨v, hv, hvseq⟩ := isLive_iff.mp (h.live p hp)
      rw [hk, hf] at hv
      cases hv
      exact hseq hvseq.symm
    refine ⟨old, [⟨l.correlation, Generation.seq e⟩], live ++ [_], by
      rw [hrest, append_assoc]; rfl, ?_, ?_, ?_, fun hz => absurd hpos (by omega)⟩
    · intro p hp
      have hmem : p ∈ c.store.order.rest := by rw [hsplit]; exact mem_append_left _ hp
      have hlt : p.seq < Generation.seq e :=
        (pairwise_append.mp hsorted).2.2 p hp _ mem_cons_self
      have hk := hne p hmem (Nat.ne_of_lt hlt)
      obtain ⟨v, hv, hseq⟩ := isLive_iff.mp (h.live p hmem)
      refine ⟨v, by rw [hother hk, hv], hseq, ?_⟩
      refine haged v (AssocMap.mem_values_iff.mpr ⟨p.key, hv⟩) ?_
      rw [← hseq] at hlt
      exact hlt
    · intro p hp
      rw [mem_singleton.mp hp, store_putEntry]
      unfold FIFOStore.isLive
      rw [find?_insert, if_pos rfl]
      have hle : Generation.seq e ≤ c.store.order.seq := h.wf.le_seq _ (h.wf.live_mem _ _ hf)
      simp only [Option.any_some, beq_eq_false_iff_ne]
      change c.store.order.seq + 1 ≠ Generation.seq e
      omega
    · intro p hp
      rcases mem_append.mp hp with hp | hp
      · have hmem : p ∈ c.store.order.rest := by rw [hsplit]; simp [hp]
        have hgt : Generation.seq e < p.seq :=
          rel_of_pairwise_cons (pairwise_append.mp hsorted).2.1 hp
        exact hlive p hmem (hne p hmem (Nat.ne_of_gt hgt))
      · rw [mem_singleton.mp hp]
        exact hnew

theorem OrderInv.put {c : LaunchCache} (h : c.OrderInv) {l : GPUKernelLaunch}
    (hl : c.LeavesNoStale l) : (c.put l).OrderInv := by
  obtain ⟨old, dead, live, hrest, hold, hdead, hlive, hz⟩ := h.putEntry_rest hl
  have hwf := wf_putEntry h.wf l
  refine ⟨wf_put h.wf l, ?_, ?_, ?_⟩
  · refine compacted_evict _ _ _ ?_
    rw [store_putEntry]
    exact h.compacted.insert _
  · refine hwf.allLive_evict _ _ _ hrest ?_ hdead hlive (by rwa [horizonNs_putEntry])
    rw [horizonNs_putEntry]
    exact hold
  · rw [capacity_put]
    exact live_put_le h.wf l

theorem OrderInv.markJoined {c : LaunchCache} (h : c.OrderInv) (id : CorrelationID) : (c.markJoined id).OrderInv where
  wf := wf_markJoined h.wf id
  compacted := by rw [order_markJoined]; exact h.compacted
  live := by
    rw [order_markJoined]
    intro p hp
    obtain ⟨v, hv, hseq⟩ := isLive_iff.mp (h.live p hp)
    refine isLive_iff.mpr ⟨_, by rw [find?_markJoined, hv, Option.map_some], ?_⟩
    split <;> exact hseq
  size := by
    rw [capacity_markJoined]
    exact (live_markJoined c id).trans_le h.size

theorem OrderInv.apply {c : LaunchCache} (h : c.OrderInv) {op : Op} (hop : c.OpLeavesNoStale op) :
    (c.apply op).OrderInv := by
  cases op with
  | put l => exact h.put hop
  | get id => exact h.markJoined id
  | markJoined id => exact h.markJoined id

end LaunchCache

/-! ## The timeline -/

theorem Timeline.call_pending (t : Timeline) (n : Nat) (c : Call) :
    ((t.call n c).pendingCap = t.pendingCap ∧ (t.call n c).pendingModuleCap = t.pendingModuleCap ∧
      (t.call n c).pendingHorizonNs = t.pendingHorizonNs) ∧
    ((t.call n c).pending = t.pending ∨ ∃ sampleCap newest k e, (t.call n c).pending =
      (t.pending.emit t.pendingCap sampleCap newest t.pendingHorizonNs k e).1) ∧
    ((t.call n c).pendingModule = t.pendingModule ∨ ∃ sampleCap newest k e, (t.call n c).pendingModule =
        (t.pendingModule.emit t.pendingModuleCap sampleCap newest t.pendingHorizonNs k e).1) := by
  cases c with
  | pcSample p =>
    obtain ⟨newest, h⟩ := t.emitPCSample_eq ⟨p, n⟩
    rw [call, h]
    split
    · exact ⟨⟨rfl, rfl, rfl⟩, .inr ⟨_, _, _, _, rfl⟩, .inl rfl⟩
    · exact ⟨⟨rfl, rfl, rfl⟩, .inl rfl, .inr ⟨_, _, _, _, rfl⟩⟩
  | exec e =>
    obtain ⟨d, m, n, p, h⟩ := t.emitExec_eq e
    rw [call, h]
    exact ⟨⟨rfl, rfl, rfl⟩, .inl rfl, .inl rfl⟩
  | module m =>
    obtain ⟨p, h⟩ := t.emitModule_eq m
    rw [call, h]
    exact ⟨⟨rfl, rfl, rfl⟩, .inl rfl, .inl rfl⟩
  | event e =>
    obtain ⟨p, h⟩ := t.emitEvent_eq e
    rw [call, h]
    exact ⟨⟨rfl, rfl, rfl⟩, .inl rfl, .inl rfl⟩
  | graphExecutions g =>
    obtain ⟨b, m, p, u, n, a, h⟩ := t.emitGraphExecutions_eq g
    rw [call, h]
    exact ⟨⟨rfl, rfl, rfl⟩, .inl rfl, .inl rfl⟩
  | launch l => exact ⟨⟨rfl, rfl, rfl⟩, .inl rfl, .inl rfl⟩
  | samplingWindow w => exact ⟨⟨rfl, rfl, rfl⟩, .inl rfl, .inl rfl⟩
  | receivePressure => exact ⟨⟨rfl, rfl, rfl⟩, .inl rfl, .inl rfl⟩

/-- The condition on a snapshot that collects for `execs`: in each store, what it consumes
leaves no superseded position that stays. -/
def Timeline.SpentBy (t : Timeline) (functionName : PendingModuleKey → Option String)
    (execs : List GPUKernelExec) : Prop :=
  SpentInTurn t.pendingHorizonNs t.pending.store (fun k => (execs.map GPUKernelExec.correlation).contains k) ∧
    SpentInTurn t.pendingHorizonNs t.pendingModule.store (joinable (joinPending t.pending execs).2.1 functionName)

/-- The condition on a step: no `Put` and no snapshot leaves a superseded position behind. -/
def System.LeavesNoStale (s : System) : Action → Prop
  | .call (.launch l) => s.timeline.cache.LeavesNoStale l
  | .snapshotCollect functionName =>
    match s.phase with
    | .drained d => s.timeline.SpentBy functionName d.execs
    | _ => True
  | _ => True

instance (s : System) (a : Action) : Decidable (s.LeavesNoStale a) := by
  unfold System.LeavesNoStale
  split
  · infer_instance
  · split
    · exact instDecidableAnd
    · infer_instance
  · infer_instance

/-- Every order slice of the timeline is tidy, under the bounds it was made with. -/
structure TimelineOrderInv (t₀ t : Timeline) : Prop where
  cache : t.cache.OrderInv
  pending : Tidy t.pendingCap t.pendingHorizonNs t.pending.store
  pendingModule : Tidy t.pendingModuleCap t.pendingHorizonNs t.pendingModule.store
  bounds : t.cache.capacity = t₀.cache.capacity ∧ t.pendingCap = t₀.pendingCap ∧
    t.pendingModuleCap = t₀.pendingModuleCap

theorem timelineOrderInv_new (cfg : TimelineConfig) : TimelineOrderInv (newTimeline cfg) (newTimeline cfg) where
  cache := LaunchCache.orderInv_new cfg.launchCache
  pending := tidy_empty
  pendingModule := tidy_empty
  bounds := ⟨rfl, rfl, rfl⟩

theorem TimelineOrderInv.call {t₀ t : Timeline} (h : TimelineOrderInv t₀ t) (n : Nat) (c : Call)
    (hc : ∀ l, c = .launch l → t.cache.LeavesNoStale l) : TimelineOrderInv t₀ (t.call n c) := by
  obtain ⟨⟨hcap, hmcap, hhor⟩, hp, hm⟩ := t.call_pending n c
  obtain ⟨-, hcache⟩ := t.call_cache n c
  have hbound : (t.call n c).cache.capacity = t.cache.capacity := by
    rcases hcache with hcache | ⟨l, -, hcache⟩
    · rw [hcache]
    · rw [hcache, LaunchCache.capacity_put]
  refine ⟨?_, ?_, ?_, ?_⟩
  · rcases hcache with hcache | ⟨l, rfl, hcache⟩
    · rw [hcache]
      exact h.cache
    · rw [hcache]
      exact h.cache.put (hc l rfl)
  · rw [hcap, hhor]
    rcases hp with hp | ⟨sampleCap, newest, k, e, hp⟩
    · rw [hp]
      exact h.pending
    · rw [hp]
      exact h.pending.emit sampleCap newest k e
  · rw [hmcap, hhor]
    rcases hm with hm | ⟨sampleCap, newest, k, e, hm⟩
    · rw [hm]
      exact h.pendingModule
    · rw [hm]
      exact h.pendingModule.emit sampleCap newest k e
  · rw [hbound, hcap, hmcap]
    exact h.bounds

theorem TimelineOrderInv.collect {t₀ t : Timeline} (h : TimelineOrderInv t₀ t)
    {functionName : PendingModuleKey → Option String} {execs : List GPUKernelExec}
    (hspent : t.SpentBy functionName execs) :
    TimelineOrderInv t₀ (t.collectLocked functionName execs).1 := by
  obtain ⟨ho, hk⟩ := joinPending_store execs t.pending
  obtain ⟨hmo, hmk⟩ := joinPendingModuleLocked_store { t with pending := (joinPending t.pending execs).1 } functionName
    (joinPending t.pending execs).2.1
  exact ⟨h.cache, h.pending.consume hspent.1 ho hk, h.pendingModule.consume hspent.2 hmo hmk, h.bounds⟩

theorem TimelineOrderInv.step {t₀ : Timeline} {s s' : System} {a : Action}
    (h : TimelineOrderInv t₀ s.timeline) (hs : System.Step s a s') (ha : s.LeavesNoStale a) :
    TimelineOrderInv t₀ s'.timeline := by
  cases hs with
  | call c => exact h.call s.pcCalls c fun l hl => by subst hl; exact ha
  | begin hp => exact ⟨h.cache, h.pending, h.pendingModule, h.bounds⟩
  | @collect d functionName hp =>
    simp only [System.LeavesNoStale, hp] at ha
    exact h.collect ha
  | read order hp hn ho => exact h
  | @join d c j j' cache hp hj =>
    have hcache : cache.OrderInv ∧ cache.capacity = s.timeline.cache.capacity := by
      obtain ⟨r, v, hround⟩ := Joining.joinExec_spec hj
      rcases hround.launches with rfl | ⟨id, rfl⟩
      · exact ⟨h.cache, rfl⟩
      · exact ⟨h.cache.markJoined id, LaunchCache.capacity_markJoined _ _⟩
    exact ⟨hcache.1, h.pending, h.pendingModule, hcache.2.trans h.bounds.1, h.bounds.2⟩
  | finish hp hr => exact h

/-! ## The bound, and how it fails -/

/-- In a run whose steps leave no superseded position behind, the retained positions of every
order slice stay within a fixed function of its capacity: of a launch cache on its own, and
of the three slices of a timeline. -/
theorem order_bounded (cacheCfg : LaunchCacheConfig) (cfg : TimelineConfig) : (∀ ops : List LaunchCache.Op,
      Along LaunchCache.apply LaunchCache.OpLeavesNoStale (newLaunchCache cacheCfg) ops →
      ((newLaunchCache cacheCfg).run ops).store.order.order.length ≤ orderBound (newLaunchCache cacheCfg).capacity) ∧
    (∀ (as : List Action) (s : System),
      Run (fun s a s' => s.LeavesNoStale a ∧ s.step a = some s') (System.new cfg) as s →
      s.timeline.cache.store.order.order.length ≤ orderBound (newTimeline cfg).cache.capacity ∧
      s.timeline.pending.store.order.order.length ≤ orderBound (newTimeline cfg).pendingCap ∧
      s.timeline.pendingModule.store.order.order.length ≤ orderBound (newTimeline cfg).pendingModuleCap) := by
  constructor
  · intro ops hops
    have hinv : ((newLaunchCache cacheCfg).run ops).OrderInv :=
      Along.invariant (I := fun _ c => c.OrderInv) (LaunchCache.orderInv_new cacheCfg)
        (fun _ _ _ hc hop => hc.apply hop) hops
    have hlen := hinv.length_le
    rwa [LaunchCache.capacity_run] at hlen
  · intro as s hrun
    have hinv : TimelineOrderInv (newTimeline cfg) s.timeline :=
      hrun.invariant (I := fun _ s => TimelineOrderInv (newTimeline cfg) s.timeline) (timelineOrderInv_new cfg)
        fun _ _ _ _ _ hi hs => hi.step (System.step_spec hs.2) hs.1
    obtain ⟨hc, hp, hm⟩ := hinv.bounds
    rw [← hc, ← hp, ← hm]
    exact ⟨hinv.cache.length_le, hinv.pending.length_le, hinv.pendingModule.length_le⟩

/-- A launch of one correlation at time `t`. -/
def launchOf (value : String) (t : Nat) : GPUKernelLaunch where
  correlation := { backend := "cuda", pid := 7, value := value }
  timeNs := t

/-- A sample and then its execution, twice, each consumed by a snapshot before the next. -/
def consumedInTurn : List Action :=
  let c (value : String) : CorrelationID := { backend := "cuda", pid := 7, value := value }
  let round (value : String) : List Action :=
    [.call (.pcSample { correlation := c value }), .call (.exec { correlation := c value }),
     .snapshotBegin, .snapshotCollect fun _ => none, .snapshotJoin, .snapshotFinish]
  round "a" ++ round "b"

def walkingTwo : TimelineConfig where
  launchCache := { capacity := 2 }
  pendingSampleHorizonNs := 5

theorem order_bounded_in_turn : ((newLaunchCache { capacity := 2, horizonNs := 5 }).run
      [.put (launchOf "a" 1), .put (launchOf "b" 2), .put (launchOf "a" 3)]).store.order.order.length
        ≤ orderBound 2 ∧
    ∃ s, Run (fun s a s' => s.LeavesNoStale a ∧ s.step a = some s') (System.new walkingTwo)
        consumedInTurn s ∧ s.timeline.pending.store.order.seq = 2 ∧
      s.timeline.pending.store.order.order.length ≤ orderBound 2 := by
  have hbounded := order_bounded { capacity := 2, horizonNs := 5 } walkingTwo
  refine ⟨hbounded.1 _ (by decide +kernel), ?_⟩
  obtain ⟨s, hrun, hseq⟩ := exists_guarded_run System.step System.LeavesNoStale (System.new walkingTwo) consumedInTurn
    (fun s => s.timeline.pending.store.order.seq == 2) (by decide +kernel)
  exact ⟨s, hrun, by simpa using hseq, (hbounded.2 _ s hrun).2.1⟩

theorem length_order_replicate_put (l : GPUKernelLaunch) (n : Nat) :
    let c := (newLaunchCache { capacity := 1 }).run (List.replicate n (.put l))
    c.store.order.order.length = n ∧ c.capacity = 1 ∧ c.horizonNs = 0 ∧
      c.store.byKey.size ≤ 1 ∧ (c.store.byKey.find? l.correlation = none → c.store.byKey.size = 0) := by
  induction n with
  | zero => exact ⟨rfl, rfl, rfl, Nat.zero_le _, fun _ => rfl⟩
  | succ n ih =>
    rw [replicate_succ', LaunchCache.run_snoc]
    generalize (newLaunchCache { capacity := 1 }).run (List.replicate n (.put l)) = c at ih
    obtain ⟨hlen, hcap, hhor, hsize, hnone⟩ := ih
    have hsize' : (c.putEntry l).store.byKey.size ≤ 1 := by
      rw [LaunchCache.store_putEntry]
      change (c.store.byKey.put _ _).size ≤ 1
      cases hf : c.store.byKey.find? l.correlation with
      | none => rw [AssocMap.size_put_of_find?_eq_none hf, hnone hf]
      | some e => rwa [AssocMap.size_put_of_find? hf]
    -- nothing walks: the horizon pass is off and the capacity pass has nothing to do
    have hevict : (c.put l).store = (c.putEntry l).store := by
      change ((c.putEntry l).store.evict _ _ _).1 = _
      rw [LaunchCache.horizonNs_putEntry, hhor, LaunchCache.capacity_putEntry, hcap]
      unfold FIFOStore.evict
      rw [if_neg (Nat.lt_irrefl 0)]
      simp only [FIFOStore.evictCapacity, if_pos hsize']
    simp only [LaunchCache.apply, hevict, LaunchCache.capacity_put, LaunchCache.horizonNs_put]
    refine ⟨?_, hcap, hhor, hsize', ?_⟩
    · rw [LaunchCache.store_putEntry]
      change (c.store.order.order ++ [_]).length = n + 1
      rw [List.length_append, hlen, length_singleton]
    · rw [LaunchCache.store_putEntry, find?_insert, if_pos rfl]
      intro hnone'
      cases hnone'

/-- No function of the capacity bounds the retained positions: re-putting one key makes
them as many as there were calls. -/
theorem order_unbounded : ¬ ∃ bound : Nat → Nat, ∀ (cfg : LaunchCacheConfig) (ops : List LaunchCache.Op),
      0 < cfg.capacity →
      ((newLaunchCache cfg).run ops).store.order.order.length ≤ bound cfg.capacity.toNat := by
  rintro ⟨bound, h⟩
  have hle := h { capacity := 1 } (List.replicate (bound 1 + 1) (.put (launchOf "a" 1))) (by decide)
  rw [(length_order_replicate_put _ _).1] at hle
  exact absurd hle (Nat.not_succ_le_self _)

end PerfAgent.Gpu
