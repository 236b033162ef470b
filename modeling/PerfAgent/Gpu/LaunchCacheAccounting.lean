import PerfAgent.Gpu.FIFOQueue
import PerfAgent.Gpu.LaunchCache

/-!
# Accounting and eviction order of the launch cache

The history of a run is its list of calls.  `generation k ops` reads off that list
alone which `Put` stored the current generation of `k` and whether it has been
joined since, and `Tracks` ties the cache to it: every live entry is the current
generation of its key, and the counters add up to the number of `Put`s.
-/

namespace PerfAgent.Gpu.LaunchCache

open List

/-! ## The history of a run -/

/-- Whether a call is a `Put`. -/
def Op.isPut : Op → Bool
  | .put _ => true
  | .get _ => false
  | .markJoined _ => false

/-- The number of `Put`s in a run. -/
def puts (ops : List Op) : Nat := ops.countP Op.isPut

/-- How one call changes what is known of `k`: the calls to `Put` so far, and for
the last one under `k` its number and whether it has been joined since. -/
def track (k : CorrelationID) (h : Nat × Option (Nat × Bool)) : Op → Nat × Option (Nat × Bool)
  | .put l => (h.1 + 1, if l.correlation = k then some (h.1 + 1, false) else h.2)
  | .get id => (h.1, if id = k then h.2.map fun g => (g.1, true) else h.2)
  | .markJoined id => (h.1, if id = k then h.2.map fun g => (g.1, true) else h.2)

/-- The current generation of `k`: the number of the `Put` that stored it, the first
being 1, and whether it has been joined since. -/
def generation (k : CorrelationID) (ops : List Op) : Option (Nat × Bool) :=
  (ops.foldl (track k) (0, none)).2

theorem puts_snoc (ops : List Op) (op : Op) : puts (ops ++ [op]) = puts ops + if op.isPut then 1 else 0 := by
  simp [puts, countP_append, countP_singleton]

theorem fst_foldl_track (k : CorrelationID) (ops : List Op) : (ops.foldl (track k) (0, none)).1 = puts ops := by
  induction ops using List.reverseRecOn with
  | nil => rfl
  | append_singleton ops op ih =>
    rw [foldl_append, puts_snoc, ← ih]
    cases op <;> simp [track, Op.isPut]

theorem generation_snoc_put (k : CorrelationID) (ops : List Op) (l : GPUKernelLaunch) : generation k (ops ++ [.put l]) =
      if l.correlation = k then some (puts ops + 1, false) else generation k ops := by
  simp only [generation, foldl_append, foldl_cons, foldl_nil, track, fst_foldl_track]

theorem generation_snoc_join (k id : CorrelationID) (ops : List Op) {op : Op}
    (hop : op = .get id ∨ op = .markJoined id) :
    generation k (ops ++ [op]) =
      if id = k then (generation k ops).map fun g => (g.1, true) else generation k ops := by
  rcases hop with rfl | rfl <;>
    simp only [generation, foldl_append, foldl_cons, foldl_nil, track]

/-! ## One call -/

section Put

variable {c : LaunchCache} (h : c.store.WF) (l : GPUKernelLaunch)
include h

theorem queue_putEntry : (c.putEntry l).store.queue = (c.store.queue.filter fun e => e.1 ≠ l.correlation) ++
      [(l.correlation, { launch := l, seq := c.store.order.seq + 1 })] := by
  rw [store_putEntry]
  exact h.queue_insert _ fun _ => rfl

theorem wf_putEntry : (c.putEntry l).store.WF := by
  rw [store_putEntry]
  exact h.insert _ fun _ => rfl

theorem wf_put : (c.put l).store.WF := ((wf_putEntry h l).evict_spec _ _ _).1

theorem seq_put : (c.put l).store.order.seq = c.store.order.seq + 1 := by
  refine ((wf_putEntry h l).evict_spec _ _ _).2.1.trans ?_
  rw [store_putEntry]
  rfl

theorem live_put_le : (c.put l).live ≤ c.capacity :=
  ((wf_putEntry h l).evict_spec _ _ _).2.2.1.trans_eq (capacity_putEntry c l)

theorem queue_put : (c.putEntry l).store.queue = (c.evictions l).1 ++ ((c.evictions l).2 ++ (c.put l).store.queue) := by
  have hwf := wf_putEntry h l
  obtain ⟨ha, hs, hq⟩ := hwf.queue_evict (c.putEntry l).capacity (c.putEntry l).newestNs (c.putEntry l).horizonNs
  have hsplit : (c.putEntry l).store.queue =
      FIFOStore.agedPrefix (c.putEntry l).newestNs (c.putEntry l).horizonNs (c.putEntry l).store.queue ++
        FIFOStore.unaged (c.putEntry l).newestNs (c.putEntry l).horizonNs (c.putEntry l).store.queue := by
    unfold FIFOStore.agedPrefix FIFOStore.unaged
    split
    · exact takeWhile_append_dropWhile.symm
    · rfl
  change _ = (FIFOStore.evict _ _ _ _).2.1 ++ ((FIFOStore.evict _ _ _ _).2.2 ++ (FIFOStore.evict _ _ _ _).1.queue)
  rw [ha, hs, hq, take_append_drop]
  exact hsplit

theorem length_spilled_le (hle : c.live ≤ c.capacity) : (c.evictions l).2.length ≤ 1 := by
  have hwf := wf_putEntry h l
  obtain ⟨-, hs, -⟩ := hwf.queue_evict (c.putEntry l).capacity (c.putEntry l).newestNs (c.putEntry l).horizonNs
  have hunaged : (FIFOStore.unaged (c.putEntry l).newestNs (c.putEntry l).horizonNs
      (c.putEntry l).store.queue).length ≤ (c.putEntry l).store.queue.length := by
    unfold FIFOStore.unaged
    split
    · exact (dropWhile_sublist _).length_le
    · exact Nat.le_refl _
  have hput : (c.putEntry l).store.queue.length ≤ c.live + 1 := by
    rw [queue_putEntry h l, List.length_append, live, ← h.length_queue]
    exact Nat.succ_le_succ (length_filter_le _ _)
  change (FIFOStore.evict _ _ _ _).2.2.length ≤ 1
  rw [hs, length_take, capacity_putEntry]
  omega

theorem stats_put : (c.put l).stats.evictedCapacity = c.stats.evictedCapacity + (c.evictions l).2.length ∧
    (c.put l).stats.evictedCapacityUnjoined =
      c.stats.evictedCapacityUnjoined + ((c.evictions l).2.countP fun e => !e.2.joined) ∧
    (c.put l).stats.evictedHorizon = c.stats.evictedHorizon + (c.evictions l).1.length ∧
    (c.put l).stats.replaced + (c.store.queue.filter fun e => e.1 ≠ l.correlation).length =
      c.stats.replaced + c.live := by
  obtain ⟨n, a, ho⟩ := c.observeTimestampLocked_eq l.timeNs
  refine ⟨?_, ?_, ?_, ?_⟩
  · simp only [put, evictLocked, evictions, putEntry, ho]
    split <;> rfl
  · simp only [put, evictLocked, evictions, putEntry, ho]
    split <;> rfl
  · simp only [put, evictLocked, evictions, putEntry, ho]
    split <;> rfl
  · have hlen : (c.store.queue.filter fun e => e.1 ≠ l.correlation).length =
        (c.store.byKey.del l.correlation).size := by
      have hd := (h.del l.correlation)
      rw [← hd.length_queue]
      refine congrArg List.length (hd.queue_eq (h.queue_pairwise.filter _) fun e => ?_).symm
      simp only [mem_filter, h.mem_queue, decide_eq_true_eq, AssocMap.find?_del_eq_some]
      exact and_comm
    rw [hlen]
    simp only [put, evictLocked, putEntry, ho, live]
    cases hf : c.store.byKey.find? l.correlation with
    | none =>
      simp [AssocMap.del_of_find?_eq_none hf]
    | some e =>
      simp [AssocMap.size_of_find? hf]
      omega

end Put

theorem wf_markJoined {c : LaunchCache} (h : c.store.WF) (id : CorrelationID) : (c.markJoined id).store.WF := by
  unfold markJoined
  split
  · exact h
  · next e hf =>
      split
      · exact h
      · exact h.put hf rfl

/-! ## The invariant of a run -/

/-- The cache after the calls `ops`: every live entry is the current generation of
its key, and the counters account for every `Put`. -/
structure Tracks (c : LaunchCache) (ops : List Op) : Prop where
  wf : c.store.WF
  seq_eq : c.store.order.seq = puts ops
  current : ∀ k e, c.store.byKey.find? k = some e → generation k ops = some (e.seq, e.joined)
  live_le : c.live ≤ c.capacity
  balance : puts ops = c.live + c.stats.replaced + c.stats.evictedCapacity + c.stats.evictedHorizon

variable (cfg : LaunchCacheConfig)

theorem tracks_newLaunchCache : Tracks (newLaunchCache cfg) [] where
  wf := FIFOStore.wf_empty
  seq_eq := rfl
  current := fun k e h => by cases h
  live_le := Nat.zero_le _
  balance := rfl

variable {ops : List Op}

/-- After the launch is stored, and before anything is evicted, the entries are the
current generations of a history that ends in this `Put`. -/
theorem Tracks.current_putEntry {c : LaunchCache} (t : Tracks c ops) (l : GPUKernelLaunch)
    {e : CorrelationID × CacheEntry} (he : e ∈ (c.putEntry l).store.queue) :
    generation e.1 (ops ++ [.put l]) = some (e.2.seq, e.2.joined) := by
  rw [queue_putEntry t.wf l, mem_append, mem_filter, mem_singleton, t.wf.mem_queue] at he
  rw [generation_snoc_put]
  rcases he with ⟨he, hne⟩ | rfl
  · have hne : e.1 ≠ l.correlation := by simpa using hne
    rw [if_neg (Ne.symm hne)]
    exact t.current e.1 e.2 he
  · rw [if_pos rfl, ← t.seq_eq]

theorem Tracks.put {c : LaunchCache} {ops : List Op} (t : Tracks c ops) (l : GPUKernelLaunch) :
    Tracks (c.put l) (ops ++ [.put l]) where
  wf := wf_put t.wf l
  seq_eq := by rw [seq_put t.wf, t.seq_eq, puts_snoc]; rfl
  current := fun k e he => by
    refine t.current_putEntry l (e := (k, e)) ?_
    rw [queue_put t.wf l, mem_append, mem_append, (wf_put t.wf l).mem_queue]
    exact .inr (.inr he)
  live_le := by
    rw [capacity_put]
    exact live_put_le t.wf l
  balance := by
    obtain ⟨hc, -, hh, hr⟩ := stats_put t.wf l
    have hq := congrArg List.length (queue_put t.wf l)
    rw [queue_putEntry t.wf l] at hq
    simp only [List.length_append, length_singleton] at hq
    have hlive : (c.put l).live = (c.put l).store.queue.length :=
      ((wf_put t.wf l).length_queue).symm
    have hb := t.balance
    rw [puts_snoc, hc, hh, hlive]
    simp only [Op.isPut, if_true]
    omega

theorem Tracks.join {c : LaunchCache} {ops : List Op} (t : Tracks c ops) (id : CorrelationID)
    {op : Op} (hop : op = .get id ∨ op = .markJoined id) :
    Tracks (c.markJoined id) (ops ++ [op]) := by
  have hputs : puts (ops ++ [op]) = puts ops := by
    rcases hop with rfl | rfl <;> simp [puts_snoc, Op.isPut]
  refine ⟨wf_markJoined t.wf id, ?_, fun k e he => ?_, ?_, ?_⟩
  · rw [order_markJoined, hputs, t.seq_eq]
  · rw [find?_markJoined, Option.map_eq_some_iff] at he
    obtain ⟨e', he', rfl⟩ := he
    rw [generation_snoc_join k id ops hop, t.current k e' he']
    by_cases hk : k = id
    · simp [hk]
    · simp [hk, Ne.symm hk]
  · simpa using t.live_le
  · rw [hputs, stats_markJoined, live_markJoined]
    exact t.balance

theorem Tracks.apply {c : LaunchCache} {ops : List Op} (t : Tracks c ops) (op : Op) :
    Tracks (c.apply op) (ops ++ [op]) := by
  cases op with
  | put l => exact t.put l
  | get id => exact t.join id (.inl rfl)
  | markJoined id => exact t.join id (.inr rfl)

theorem tracks_run (ops : List Op) : Tracks ((newLaunchCache cfg).run ops) ops := by
  induction ops using List.reverseRecOn with
  | nil => exact tracks_newLaunchCache cfg
  | append_singleton ops op ih =>
    rw [run_snoc]
    exact ih.apply op

/-! ## The positions cannot be observed

Two caches that agree on everything but their order positions agree on every result,
now and after any further calls. -/

structure Agrees (c c' : LaunchCache) : Prop where
  capacity : c'.capacity = c.capacity
  horizonNs : c'.horizonNs = c.horizonNs
  maxAdvanceNs : c'.maxAdvanceNs = c.maxAdvanceNs
  newestNs : c'.newestNs = c.newestNs
  stats : c'.stats = c.stats
  byKey : c'.store.byKey = c.store.byKey
  seq : c'.store.order.seq = c.store.order.seq
  wf : c.store.WF
  wf' : c'.store.WF

/-- The answers of the cache: its statistics, its live launches, and what a lookup
finds. -/
def SameResults (c c' : LaunchCache) : Prop :=
  c'.report = c.report ∧ c'.entries = c.entries ∧ ∀ id, (c'.get id).1 = (c.get id).1

namespace Agrees

variable {c c' : LaunchCache}

theorem sameResults (a : Agrees c c') : SameResults c c' := by
  refine ⟨?_, ?_, fun id => ?_⟩
  · rw [report, report, a.stats, live, live, a.byKey]
  · rw [entries, entries, a.byKey]
  · rw [get, get, a.byKey]

theorem putEntry (a : Agrees c c') (l : GPUKernelLaunch) : Agrees (c.putEntry l) (c'.putEntry l) := by
  have hobs : (c'.putEntry l).newestNs = (c.putEntry l).newestNs ∧ (c'.putEntry l).stats = (c.putEntry l).stats ∧
      (c'.putEntry l).maxAdvanceNs = (c.putEntry l).maxAdvanceNs := by
    simp only [LaunchCache.putEntry, observeTimestampLocked, a.newestNs, a.maxAdvanceNs]
    split
    · simp [a.newestNs, a.stats, a.maxAdvanceNs, a.byKey]
    · split
      · simp [a.stats, a.byKey]
      · simp [a.stats, a.byKey]
  refine ⟨by simp [a.capacity], by simp [a.horizonNs], hobs.2.2, hobs.1, hobs.2.1, ?_, ?_,
    wf_putEntry a.wf l, wf_putEntry a.wf' l⟩
  · simp only [store_putEntry, FIFOStore.insert, OrderedFIFO.insert, a.byKey, a.seq]
  · simp only [store_putEntry, FIFOStore.insert, OrderedFIFO.insert, a.seq]

theorem evictLocked (a : Agrees c c') : Agrees c.evictLocked c'.evictLocked := by
  obtain ⟨hev, hm⟩ := a.wf.evict_congr a.wf' a.byKey c.capacity c.newestNs c.horizonNs
  have hs := (a.wf.evict_spec c.capacity c.newestNs c.horizonNs)
  have hs' := (a.wf'.evict_spec c.capacity c.newestNs c.horizonNs)
  refine ⟨a.capacity, a.horizonNs, a.maxAdvanceNs, a.newestNs, ?_, ?_, ?_, hs.1, ?_⟩
  · simp only [LaunchCache.evictLocked, a.capacity, a.newestNs, a.horizonNs, a.stats, hev]
  · simp only [LaunchCache.evictLocked, a.capacity, a.newestNs, a.horizonNs]
    exact hm
  · simp only [LaunchCache.evictLocked, a.capacity, a.newestNs, a.horizonNs]
    rw [hs.2.1, hs'.2.1, a.seq]
  · simp only [LaunchCache.evictLocked, a.capacity, a.newestNs, a.horizonNs]
    exact hs'.1

theorem markJoined (a : Agrees c c') (id : CorrelationID) : Agrees (c.markJoined id) (c'.markJoined id) := by
  have hm : (c'.markJoined id).store.byKey = (c.markJoined id).store.byKey ∧
      (c'.markJoined id).newestNs = (c.markJoined id).newestNs ∧
      (c'.markJoined id).maxAdvanceNs = (c.markJoined id).maxAdvanceNs := by
    simp only [LaunchCache.markJoined, a.byKey]
    split
    · exact ⟨a.byKey, a.newestNs, a.maxAdvanceNs⟩
    · split
      · exact ⟨a.byKey, a.newestNs, a.maxAdvanceNs⟩
      · exact ⟨rfl, a.newestNs, a.maxAdvanceNs⟩
  exact ⟨by simp [a.capacity], by simp [a.horizonNs], hm.2.2, hm.2.1, by simp [a.stats], hm.1,
    by simp [a.seq], wf_markJoined a.wf id, wf_markJoined a.wf' id⟩

theorem run (a : Agrees c c') (ops : List Op) : Agrees (c.run ops) (c'.run ops) := by
  induction ops using List.reverseRecOn with
  | nil => exact a
  | append_singleton ops op ih =>
    rw [run_snoc, run_snoc]
    cases op with
    | put l => exact (ih.putEntry l).evictLocked
    | get id => exact ih.markJoined id
    | markJoined id => exact ih.markJoined id

end Agrees

def withOrder (c : LaunchCache) (f : OrderedFIFO CorrelationID) : LaunchCache :=
  { c with store := { c.store with order := f } }

def purged (c : LaunchCache) : OrderedFIFO CorrelationID :=
  { c.store.order with
    order := c.store.order.rest.filter fun p => c.store.isLive p.key p.seq
    head := 0 }

theorem agrees_withOrder {c : LaunchCache} (h : c.store.WF) {f : OrderedFIFO CorrelationID}
    (hseq : f.seq = c.store.order.seq) (hf : (c.withOrder f).store.WF) :
    Agrees c (c.withOrder f) :=
  ⟨rfl, rfl, rfl, rfl, rfl, rfl, hseq, h, hf⟩

theorem agrees_of_rest {c : LaunchCache} (h : c.store.WF) {f : OrderedFIFO CorrelationID}
    (hrest : f.rest = c.store.order.rest) (hseq : f.seq = c.store.order.seq)
    (hhead : f.head ≤ f.order.length) : Agrees c (c.withOrder f) := by
  refine agrees_withOrder h hseq (h.advance hhead hseq ?_ ?_)
  · rw [hrest]
  · rw [hrest]
    exact h.live_mem

theorem agrees_purged {c : LaunchCache} (h : c.store.WF) : Agrees c (c.withOrder c.purged) := by
  refine agrees_withOrder h rfl (h.advance (Nat.zero_le _) rfl filter_sublist ?_)
  intro k e he
  refine mem_filter.mpr ⟨h.live_mem k e he, ?_⟩
  exact FIFOStore.isLive_iff.mpr ⟨e, he, rfl⟩

/-! ## The accounting theorem -/

/-- Whether a run says of the current generation of `k` that nothing has joined it. -/
def neverJoined (ops : List Op) (k : CorrelationID) : Bool :=
  (generation k ops).any fun g => !g.2

/-- What one `Put` evicts, after the calls `ops`: entries of the current generations
only, at most one of them for capacity, and that one the live entry whose most recent
`Put` is oldest. -/
theorem Tracks.evictions {c : LaunchCache} {ops : List Op} (t : Tracks c ops) (l : GPUKernelLaunch) :
    (∀ e ∈ (c.evictions l).1 ++ (c.evictions l).2, generation e.1 (ops ++ [.put l]) = some (e.2.seq, e.2.joined) ∧
        (c.put l).store.byKey.find? e.1 = none) ∧
    (∀ e ∈ (c.evictions l).2, (c.evictions l).2 = [e] ∧ ∀ k e', (c.put l).store.byKey.find? k = some e' →
        ∃ n j, generation k (ops ++ [.put l]) = some (n, j) ∧ e.2.seq < n) := by
  have hq := queue_put t.wf l
  have hmem : ∀ e, e ∈ (c.evictions l).1 ++ (c.evictions l).2 → e ∈ (c.putEntry l).store.queue := by
    intro e he
    rw [hq, ← append_assoc]
    exact mem_append_left _ he
  have hsorted := (wf_putEntry t.wf l).queue_pairwise
  have hnodup := (wf_putEntry t.wf l).nodup_keys_queue
  rw [hq, ← append_assoc] at hsorted hnodup
  refine ⟨fun e he => ⟨t.current_putEntry l (hmem e he), ?_⟩, fun e he => ⟨?_, fun k e' he' => ?_⟩⟩
  · cases hf : (c.put l).store.byKey.find? e.1 with
    | none => rfl
    | some e' =>
      rw [map_append, nodup_append] at hnodup
      refine absurd rfl (hnodup.2.2 e.1 (mem_map_of_mem he) e.1 ?_)
      have hm : (e.1, e') ∈ (c.put l).store.queue := (wf_put t.wf l).mem_queue.mpr hf
      exact mem_map.mpr ⟨_, hm, rfl⟩
  · have hle := length_spilled_le t.wf l t.live_le
    cases hs : (c.evictions l).2 with
    | nil => simp [hs] at he
    | cons a as =>
      rw [hs] at he hle
      have has : as = [] := length_eq_zero_iff.mp (by simpa using hle)
      rw [has, mem_singleton] at he
      rw [he, has]
  · have hcur := (t.put l).current k e' he'
    refine ⟨e'.seq, e'.joined, hcur, ?_⟩
    refine (pairwise_append.mp hsorted).2.2 e (mem_append_right _ he) (k, e') ?_
    exact (wf_put t.wf l).mem_queue.mpr he'

/-- A capacity eviction is counted as unjoined exactly when the history never joined
the generation that went. -/
theorem Tracks.unjoined {c : LaunchCache} (t : Tracks c ops) (l : GPUKernelLaunch) :
    (c.put l).stats.evictedCapacityUnjoined = c.stats.evictedCapacityUnjoined +
        (c.evictions l).2.countP fun e => neverJoined (ops ++ [.put l]) e.1 := by
  rw [(stats_put t.wf l).2.1]
  refine congrArg _ (countP_congr fun e he => ?_)
  have hcur := ((t.evictions l).1 e (mem_append_right _ he)).1
  simp [neverJoined, hcur]

/-- After every list of calls: the cache is within its capacity, the counters account
for every `Put`, evictions come in the order of the most recent `Put`s and are counted
as the history says, and neither a superseded position nor the reclaimed part of the
order slice shows in any later result. -/
theorem run_accounting (cfg : LaunchCacheConfig) (hcap : 0 < cfg.capacity) (ops : List Op)
    (c : LaunchCache) (hc : c = (newLaunchCache cfg).run ops) :
    (c.report.live : Int) ≤ cfg.capacity ∧
    puts ops = c.report.live + c.report.replaced + c.report.evictedCapacity + c.report.evictedHorizon ∧
    (∀ l, (∀ e ∈ (c.evictions l).1 ++ (c.evictions l).2, generation e.1 (ops ++ [.put l]) = some (e.2.seq, e.2.joined) ∧
          (c.put l).store.byKey.find? e.1 = none) ∧
      (∀ e ∈ (c.evictions l).2, (c.evictions l).2 = [e] ∧ ∀ k e', (c.put l).store.byKey.find? k = some e' →
          ∃ n j, generation k (ops ++ [.put l]) = some (n, j) ∧ e.2.seq < n) ∧
      (c.put l).report.evictedCapacity = c.report.evictedCapacity + (c.evictions l).2.length ∧
      (c.put l).report.evictedHorizon = c.report.evictedHorizon + (c.evictions l).1.length ∧
      (c.put l).report.evictedCapacityUnjoined = c.report.evictedCapacityUnjoined +
        (c.evictions l).2.countP fun e => neverJoined (ops ++ [.put l]) e.1) ∧
    (∀ id, (c.get id).2.report = c.report ∧ (c.markJoined id).report = c.report) ∧
    ∀ later, SameResults (c.run later) ((c.withOrder c.purged).run later) ∧
      SameResults (c.run later) ((c.withOrder c.store.order.compact).run later) ∧
      ∀ f : OrderedFIFO CorrelationID, f.rest = c.store.order.rest →
        f.seq = c.store.order.seq → f.head ≤ f.order.length →
        SameResults (c.run later) ((c.withOrder f).run later) := by
  have t : Tracks c ops := hc ▸ tracks_run cfg ops
  have hcapacity : (c.capacity : Int) = cfg.capacity := by
    rw [hc, capacity_run, newLaunchCache, if_neg (Int.not_le.mpr hcap)]
    exact Int.toNat_of_nonneg (Int.le_of_lt hcap)
  refine ⟨?_, t.balance, fun l => ?_, fun id => ?_, fun later => ⟨?_, ?_, ?_⟩⟩
  · rw [← hcapacity]
    exact Int.ofNat_le.mpr t.live_le
  · obtain ⟨hall, hspill⟩ := t.evictions l
    obtain ⟨hc, -, hh, -⟩ := stats_put t.wf l
    exact ⟨hall, hspill, hc, hh, t.unjoined l⟩
  · simp [get, report]
  · exact ((agrees_purged t.wf).run later).sameResults
  · exact ((agrees_of_rest t.wf (OrderedFIFO.rest_compact _) (OrderedFIFO.seq_compact _)
      (OrderedFIFO.head_compact_le t.wf.head_le)).run later).sameResults
  · intro f hrest hseq hhead
    exact ((agrees_of_rest t.wf hrest hseq hhead).run later).sameResults

def launchAt (value : String) (timeNs : Nat) : GPUKernelLaunch :=
  { correlation := { pid := 1, value := value }, timeNs := timeNs }

theorem run_accounting_two_puts : (0 : Int) < 1 ∧ puts [.put (launchAt "a" 1), .put (launchAt "b" 2)] = 2 ∧
      puts [.put (launchAt "a" 1), .put (launchAt "b" 2)] =
        ((newLaunchCache { capacity := 1 }).run [.put (launchAt "a" 1), .put (launchAt "b" 2)]).report.live +
        ((newLaunchCache { capacity := 1 }).run [.put (launchAt "a" 1), .put (launchAt "b" 2)]).report.replaced +
        ((newLaunchCache { capacity := 1 }).run [.put (launchAt "a" 1), .put (launchAt "b" 2)]).report.evictedCapacity +
        ((newLaunchCache { capacity := 1 }).run [.put (launchAt "a" 1), .put (launchAt "b" 2)]).report.evictedHorizon :=
  ⟨by decide, by decide, (run_accounting { capacity := 1 } (by decide) _ _ rfl).2.1⟩

/-- A launch that goes for age is in no unjoined counter, though nothing joined it. -/
theorem evictions_not_all_counted_unjoined :
    ¬ ∀ (cfg : LaunchCacheConfig) (ops : List Op) (l : GPUKernelLaunch), 0 < cfg.capacity →
      (((newLaunchCache cfg).run ops).put l).report.evictedCapacityUnjoined =
        ((newLaunchCache cfg).run ops).report.evictedCapacityUnjoined +
          ((((newLaunchCache cfg).run ops).evictions l).1 ++ (((newLaunchCache cfg).run ops).evictions l).2).countP
              fun e => neverJoined (ops ++ [.put l]) e.1 := by
  intro h
  have := h { capacity := 2, horizonNs := 1 } [.put (launchAt "a" 1)] (launchAt "b" 3) (by decide)
  revert this
  decide

end PerfAgent.Gpu.LaunchCache
