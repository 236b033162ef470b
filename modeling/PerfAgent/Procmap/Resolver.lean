import PerfAgent.Lib.AssocMap
import PerfAgent.Lib.SortSearch

/-!
# The cache of process mappings

`unwind/procmap/resolver.go` and the three parties that use it in a session: the `Warmer`, which reads
the mappings of every process that it finds, the observer of mmap and exit events, which drops what is
no longer true, and the collector, which reads once more and then looks addresses up.

Their steps are what the lock and the `sync.Once` of an entry make of them: getting the entry of a
process, filling it, looking into a filled entry, and changing the cache.
-/

namespace PerfAgent.Procmap

open List

/-! ## Mappings -/

/-- `Mapping`, without the path under `map_files`. -/
structure Mapping where
  path : List UInt8
  start : UInt64 := 0
  limit : UInt64 := 0
  offset : UInt64 := 0
  buildID : List UInt8 := []
deriving DecidableEq

/-- What `parseMapsFile` returns: the ranges of a process are in order and do not overlap. -/
structure Maps where
  mappings : List Mapping
  start_lt : ∀ m ∈ mappings, m.start < m.limit
  sorted : mappings.Pairwise fun a b => a.limit ≤ b.start

def Maps.empty : Maps := ⟨[], by simp, .nil⟩

/-- `pidEntry`, before and after its `once`. -/
inductive PidEntry where
  | unread
  | failed
  | holds (maps : Maps)

/-- Where `Lookup` looks. -/
def Maps.lookup (maps : Maps) (addr : UInt64) : Option Mapping :=
  let idx := sortSearch maps.mappings.length fun i => maps.mappings[i]?.any fun m => addr < m.start
  if idx = 0 then none
  else
    match maps.mappings[idx - 1]? with
    | none => none
    | some m => if m.limit ≤ addr then none else some m

/-- `Lookup`, once the entry is filled. -/
def PidEntry.lookup (e : PidEntry) (addr : UInt64) : Option Mapping :=
  match e with
  | .unread | .failed => none
  | .holds maps => maps.lookup addr

theorem Maps.lookup_eq_some (maps : Maps) {m : Mapping} (hm : m ∈ maps.mappings) {addr : UInt64}
    (hstart : m.start ≤ addr) (hlimit : addr < m.limit) : maps.lookup addr = some m := by
  obtain ⟨j, hj, hget⟩ := mem_iff_getElem.mp hm
  have hrange : ∀ i (hi : i < maps.mappings.length), maps.mappings[i].start < maps.mappings[i].limit :=
    fun i hi => maps.start_lt _ (getElem_mem hi)
  have horder := pairwise_iff_getElem.mp maps.sorted
  have hsearch : (sortSearch maps.mappings.length fun i => maps.mappings[i]?.any fun m => addr < m.start) = j + 1 := by
    refine sortSearch_eq hj (fun i hi => ?_) fun i hi hlt => ?_
    · have hi' : i < maps.mappings.length := Nat.lt_of_lt_of_le hi hj
      rw [getElem?_eq_getElem hi', Option.any_some, decide_eq_false_iff_not, UInt64.not_lt]
      rcases Nat.lt_or_eq_of_le (Nat.le_of_lt_succ hi) with hij | rfl
      · have h₁ := hrange i hi'
        have h₂ := horder i j hi' hj hij
        rw [hget] at h₂
        exact UInt64.le_trans (UInt64.le_of_lt h₁) (UInt64.le_trans h₂ hstart)
      · rw [hget]
        exact hstart
    · rw [getElem?_eq_getElem hlt, Option.any_some]
      have h₂ := horder j i hj hlt hi
      rw [hget] at h₂
      exact decide_eq_true (UInt64.lt_of_lt_of_le hlimit h₂)
  unfold Maps.lookup
  rw [hsearch]
  simp only [Nat.add_eq_zero_iff, Nat.one_ne_zero, and_false, if_false, Nat.add_sub_cancel]
  rw [getElem?_eq_getElem hj, hget]
  exact if_neg (UInt64.not_le.mpr hlimit)

/-! ## The parties -/

inductive Proc where
  | gone
  | unreadable
  | maps (maps : Maps)

inductive Warmer where
  | idle
  | checked (pid : UInt32)
  | entered (pid : UInt32) (id : Nat)

/-- Where the observer is in `InvalidateAddr`. -/
inductive Observer where
  | idle
  | entered (pid : UInt32) (addr : UInt64) (id : Nat)
  | looked (pid : UInt32) (addr : UInt64) (id : Nat)

/-- Where the collector is in `Refresh` or `Lookup`; `before` is what had been read of the process when
the lookup began. -/
inductive Collector where
  | idle
  | refreshing (pid : UInt32) (fresh : PidEntry)
  | looking (pid : UInt32) (addr : UInt64) (id : Nat) (before : List Mapping)
  | answering (pid : UInt32) (addr : UInt64) (id : Nat) (before : List Mapping)

variable (pid : UInt32)

/-- The resolver, the processes and the parties.  `lastRead` is what the last read of a process that
found any mappings has found. -/
structure State where
  proc : UInt32 → Proc
  cache : AssocMap UInt32 Nat := ∅
  entries : List PidEntry := []
  warmer : Warmer := .idle
  observer : Observer := .idle
  collector : Collector := .idle
  lastRead : UInt32 → List Mapping := fun _ => []

namespace State

variable (s : State)

/-- What `populate` makes of the process as it is now. -/
def readMaps : PidEntry :=
  match s.proc pid with
  | .gone => .holds .empty
  | .unreadable => .failed
  | .maps maps => .holds maps

def noteRead : State :=
  match s.proc pid with
  | .gone | .unreadable => s
  | .maps maps =>
    if maps.mappings = [] then s
    else { s with lastRead := fun p => if p = pid then maps.mappings else s.lastRead p }

def entryFor : State × Nat :=
  match s.cache.find? pid with
  | some id => (s, id)
  | none => ({ s with cache := s.cache.put pid s.entries.length, entries := s.entries ++ [.unread] }, s.entries.length)

/-- `entry.once.Do(populate)`. -/
def populate (id : Nat) : State :=
  match s.entries[id]? with
  | some .unread => { s.noteRead pid with entries := s.entries.set id (s.readMaps pid) }
  | _ => s

def invalidate : State := { s with cache := s.cache.del pid }

def answer (id : Nat) (addr : UInt64) : Option Mapping := s.entries[id]?.bind fun e => e.lookup addr

end State

/-! ## The steps -/

inductive Action where
  | /-- The process maps, unmaps or exits. -/ proc (pid : UInt32) (p : Proc)
  | /-- `Sweep` comes to a process: `isCached`. -/ sweep (pid : UInt32)
  | sweepEntry
  | sweepRead
  | /-- An mmap event: `InvalidateAddr`. -/ mmap (pid : UInt32) (addr : UInt64)
  | mmapRead
  | mmapDecide
  | /-- An exit event. -/ exit (pid tid : UInt32)
  | /-- `Refresh` reads. -/ refresh (pid : UInt32)
  | refreshStore
  | /-- `Lookup`, at collect time. -/ lookup (pid : UInt32) (addr : UInt64)
  | lookupRead
  | lookupDone

/-- A party that is not where the step begins does not take it; a process that is gone stays gone. -/
def step (s : State) : Action → State
  | .proc pid p =>
    match s.proc pid with
    | .gone => s
    | _ => { s with proc := fun q => if q = pid then p else s.proc q }
  | .sweep pid =>
    match s.warmer with
    | .idle => if (s.cache.find? pid).isSome then s else { s with warmer := .checked pid }
    | _ => s
  | .sweepEntry =>
    match s.warmer with
    | .checked pid =>
      let (s, id) := s.entryFor pid
      { s with warmer := .entered pid id }
    | _ => s
  | .sweepRead =>
    match s.warmer with
    | .entered pid id => { s.populate pid id with warmer := .idle }
    | _ => s
  | .mmap pid addr =>
    match s.observer with
    | .idle =>
      let (s, id) := s.entryFor pid
      { s with observer := .entered pid addr id }
    | _ => s
  | .mmapRead =>
    match s.observer with
    | .entered pid addr id => { s.populate pid id with observer := .looked pid addr id }
    | _ => s
  | .mmapDecide =>
    match s.observer with
    | .looked pid addr id =>
      let s := if (s.answer id addr).isSome then s else s.invalidate pid
      { s with observer := .idle }
    | _ => s
  | .exit pid tid =>
    match s.observer with
    | .idle => if tid = pid then s.invalidate pid else s
    | _ => s
  | .refresh pid =>
    match s.collector with
    | .idle => { s.noteRead pid with collector := .refreshing pid (s.readMaps pid) }
    | _ => s
  | .refreshStore =>
    match s.collector with
    | .refreshing pid (.holds maps) =>
      if maps.mappings = [] then { s with collector := .idle }
      else
        { s with
          cache := s.cache.put pid s.entries.length
          entries := s.entries ++ [.holds maps]
          collector := .idle }
    | .refreshing _ _ => { s with collector := .idle }
    | _ => s
  | .lookup pid addr =>
    match s.collector with
    | .idle =>
      let before := s.lastRead pid
      let (s, id) := s.entryFor pid
      { s with collector := .looking pid addr id before }
    | _ => s
  | .lookupRead =>
    match s.collector with
    | .looking pid addr id before => { s.populate pid id with collector := .answering pid addr id before }
    | _ => s
  | .lookupDone =>
    match s.collector with
    | .answering .. => { s with collector := .idle }
    | _ => s

end PerfAgent.Procmap
