import Mathlib.Data.List.Induction
import PerfAgent.Gpu.BoundedFIFO
import PerfAgent.Gpu.Types

/-!
# The launch cache

The bounded FIFO of recent launches indexed by correlation (`gpu/launchcache.go`).
Each method takes the cache's own mutex for its whole body, so a run of the cache is
a list of calls.

The specification is stated over that list alone: `generation k ops` says which `Put`
of the run stored the current generation of `k`, and whether it has been joined since.
The invariant `Tracks` ties every live entry to it.
-/

namespace PerfAgent.Gpu

structure LaunchCacheConfig where
  capacity : Int := 0
  horizonNs : Nat := 0
  maxAdvanceNs : Nat := 0

structure LaunchCacheStats where
  live : Nat := 0
  evictedCapacity : Nat := 0
  evictedCapacityUnjoined : Nat := 0
  evictedHorizon : Nat := 0
  replaced : Nat := 0
  anomalousTimestamp : Nat := 0
deriving DecidableEq, Inhabited

def defaultLaunchCacheCapacity : Nat := 65536

def defaultMaxAdvanceNs : Nat := 60 * 10 ^ 9

/-- A stored launch with the sequence number of its generation, and whether an
execution has already found it. -/
structure CacheEntry where
  launch : GPUKernelLaunch
  seq : Nat
  joined : Bool := false
deriving DecidableEq, Inhabited

instance : Generation CacheEntry where
  seq := CacheEntry.seq
  anchorNs := fun e => e.launch.timeNs

/-- The cache: `store.byKey` is `byCorr`, and `store.order` its insertion order. -/
structure LaunchCache where
  capacity : Nat
  horizonNs : Nat
  maxAdvanceNs : Nat
  store : FIFOStore CorrelationID CacheEntry := {}
  newestNs : Nat := 0
  stats : LaunchCacheStats := {}

def newLaunchCache (cfg : LaunchCacheConfig) : LaunchCache where
  capacity := if cfg.capacity ≤ 0 then defaultLaunchCacheCapacity else cfg.capacity.toNat
  horizonNs := cfg.horizonNs
  maxAdvanceNs := if cfg.maxAdvanceNs = 0 then defaultMaxAdvanceNs else cfg.maxAdvanceNs

namespace LaunchCache

/-- Advance the horizon anchor, unless that would be an anomalous jump. -/
def observeTimestampLocked (c : LaunchCache) (timeNs : Nat) : LaunchCache :=
  if timeNs ≤ c.newestNs then c
  else if c.newestNs ≠ 0 ∧ timeNs - c.newestNs > c.maxAdvanceNs then
    { c with stats := { c.stats with anomalousTimestamp := c.stats.anomalousTimestamp + 1 } }
  else { c with newestNs := timeNs }

def evictLocked (c : LaunchCache) : LaunchCache :=
  let (store, aged, spilled) := c.store.evict c.capacity c.newestNs c.horizonNs
  { c with
    store := store
    stats := { c.stats with
      evictedHorizon := c.stats.evictedHorizon + aged.length
      evictedCapacityUnjoined :=
        c.stats.evictedCapacityUnjoined + spilled.countP fun e => !e.2.joined
      evictedCapacity := c.stats.evictedCapacity + spilled.length } }

/-- `Put` up to its eviction: the launch is stored as a new generation. -/
def putEntry (c : LaunchCache) (l : GPUKernelLaunch) : LaunchCache :=
  let c := c.observeTimestampLocked l.timeNs
  let stats :=
    if (c.store.byKey.find? l.correlation).isSome then
      { c.stats with replaced := c.stats.replaced + 1 }
    else c.stats
  { c with
    store := c.store.insert l.correlation fun seq => { launch := l, seq := seq }
    stats := stats }

def put (c : LaunchCache) (l : GPUKernelLaunch) : LaunchCache := (c.putEntry l).evictLocked

/-- Record that the launch stored for `id`, if any, was joined. -/
def markJoined (c : LaunchCache) (id : CorrelationID) : LaunchCache :=
  match c.store.byKey.find? id with
  | none => c
  | some e =>
    if e.joined then c
    else { c with store := { c.store with
      byKey := c.store.byKey.put id { e with joined := true } } }

/-- The launch stored for `id`.  A successful lookup is the join, so it marks the
entry. -/
def get (c : LaunchCache) (id : CorrelationID) : Option GPUKernelLaunch × LaunchCache :=
  ((c.store.byKey.find? id).map CacheEntry.launch, c.markJoined id)

/-- The launches currently live.  The source iterates a map, so their order is one
of many; a caller that depends on it takes the order as an input. -/
def entries (c : LaunchCache) : List GPUKernelLaunch := c.store.byKey.values.map CacheEntry.launch

def live (c : LaunchCache) : Nat := c.store.byKey.size

/-- `Stats`: the counters, with the live gauge filled in. -/
def report (c : LaunchCache) : LaunchCacheStats := { c.stats with live := c.live }

/-- What a `Put` of `l` would evict: past the horizon, then past capacity. -/
def evictions (c : LaunchCache) (l : GPUKernelLaunch) :
    List (CorrelationID × CacheEntry) × List (CorrelationID × CacheEntry) :=
  ((c.putEntry l).store.evict (c.putEntry l).capacity (c.putEntry l).newestNs (c.putEntry l).horizonNs).2

/-! ## What the small operations change -/

theorem observeTimestampLocked_eq (c : LaunchCache) (t : Nat) : ∃ newest anomalous, c.observeTimestampLocked t =
      { c with newestNs := newest, stats := { c.stats with anomalousTimestamp := anomalous } } := by
  unfold observeTimestampLocked
  split
  · exact ⟨c.newestNs, c.stats.anomalousTimestamp, rfl⟩
  · split
    · exact ⟨c.newestNs, c.stats.anomalousTimestamp + 1, rfl⟩
    · exact ⟨t, c.stats.anomalousTimestamp, rfl⟩

theorem markJoined_eq (c : LaunchCache) (id : CorrelationID) :
    ∃ m, c.markJoined id = { c with store := { c.store with byKey := m } } ∧ m.size = c.store.byKey.size ∧
      ∀ k, m.find? k = (c.store.byKey.find? k).map fun e =>
        if k = id then { e with joined := true } else e := by
  unfold markJoined
  split
  · next hf =>
      refine ⟨c.store.byKey, rfl, rfl, fun k => ?_⟩
      by_cases hk : k = id
      · simp [hk, hf]
      · simp [hk]
  · next e hf =>
      split
      · next hj =>
          refine ⟨c.store.byKey, rfl, rfl, fun k => ?_⟩
          by_cases hk : k = id
          · obtain ⟨launch, seq, joined⟩ := e
            subst hk
            simp_all
          · simp [hk]
      · refine ⟨_, rfl, AssocMap.size_put_of_find? hf, fun k => ?_⟩
        by_cases hk : k = id
        · simp [hk, hf]
        · simp [hk, AssocMap.find?_put_of_ne _ _ hk]

section Frame

variable (c : LaunchCache) (l : GPUKernelLaunch) (id : CorrelationID)

@[simp] theorem capacity_putEntry : (c.putEntry l).capacity = c.capacity := by
  obtain ⟨n, a, h⟩ := c.observeTimestampLocked_eq l.timeNs
  simp [putEntry, h]

@[simp] theorem horizonNs_putEntry : (c.putEntry l).horizonNs = c.horizonNs := by
  obtain ⟨n, a, h⟩ := c.observeTimestampLocked_eq l.timeNs
  simp [putEntry, h]

@[simp] theorem store_putEntry : (c.putEntry l).store =
    c.store.insert l.correlation fun seq => { launch := l, seq := seq } := by
  obtain ⟨n, a, h⟩ := c.observeTimestampLocked_eq l.timeNs
  simp [putEntry, h]

@[simp] theorem capacity_put : (c.put l).capacity = c.capacity := by simp [put, evictLocked]

@[simp] theorem horizonNs_put : (c.put l).horizonNs = c.horizonNs := by simp [put, evictLocked]

@[simp] theorem capacity_markJoined : (c.markJoined id).capacity = c.capacity := by
  obtain ⟨m, h, -⟩ := c.markJoined_eq id
  rw [h]

@[simp] theorem horizonNs_markJoined : (c.markJoined id).horizonNs = c.horizonNs := by
  obtain ⟨m, h, -⟩ := c.markJoined_eq id
  rw [h]

@[simp] theorem stats_markJoined : (c.markJoined id).stats = c.stats := by
  obtain ⟨m, h, -⟩ := c.markJoined_eq id
  rw [h]

@[simp] theorem order_markJoined : (c.markJoined id).store.order = c.store.order := by
  obtain ⟨m, h, -⟩ := c.markJoined_eq id
  rw [h]

@[simp] theorem live_markJoined : (c.markJoined id).live = c.live := by
  obtain ⟨m, h, hs, -⟩ := c.markJoined_eq id
  rw [h]
  exact hs

theorem find?_markJoined (k : CorrelationID) : (c.markJoined id).store.byKey.find? k =
    (c.store.byKey.find? k).map fun e => if k = id then { e with joined := true } else e := by
  obtain ⟨m, h, -, hf⟩ := c.markJoined_eq id
  rw [h]
  exact hf k

end Frame

/-! ## Runs -/

inductive Op where
  | put (l : GPUKernelLaunch)
  | get (id : CorrelationID)
  | markJoined (id : CorrelationID)

def apply (c : LaunchCache) : Op → LaunchCache
  | .put l => c.put l
  | .get id => (c.get id).2
  | .markJoined id => c.markJoined id

def run (c : LaunchCache) (ops : List Op) : LaunchCache := ops.foldl apply c

@[simp] theorem run_nil (c : LaunchCache) : c.run [] = c := rfl

@[simp] theorem run_snoc (c : LaunchCache) (ops : List Op) (op : Op) : c.run (ops ++ [op]) = (c.run ops).apply op := by
  simp [run]

@[simp] theorem capacity_run (c : LaunchCache) (ops : List Op) : (c.run ops).capacity = c.capacity := by
  induction ops using List.reverseRecOn with
  | nil => rfl
  | append_singleton ops op ih =>
    rw [run_snoc, ← ih]
    cases op <;> simp [apply, get]

end LaunchCache

end PerfAgent.Gpu
