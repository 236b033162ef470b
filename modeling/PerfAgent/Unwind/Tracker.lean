import PerfAgent.Lib.Machine
import PerfAgent.Unwind.TableStore

/-!
# The process tracker

`PIDTracker` of `unwind/ehmaps/tracker.go`, over a table store whose calls are made one at a
time.  What the agent reads from outside is an argument of the call that reads it: the build
ID of the file, the compiled rows, the lines of `/proc/<pid>/maps`, and which call to the kernel
fails while maps are populated.  A deletion fails for a key that is not there.

The tracker has a store and maps; `Attach` on one without a store returns an error at once.
-/

namespace PerfAgent.Unwind

abbrev BuildID := List UInt8

def tableIDForBuildID (buildID : BuildID) : UInt64 :=
  buildID.foldl (fun h b => (h ^^^ b.toUInt64) * 0x100000001b3) 0xcbf29ce484222325

/-! ## The store, one call at a time -/

/-- What `Compile` returns, and the call to the kernel that fails in `PopulateCFI`. -/
structure Build where
  compiled : Option (List CFIEntry)
  fails : Option KernelCall
deriving DecidableEq

inductive StoreError where
  | buildID
  | ehcompile
  | populateCFI (err : PopulateError)
  | evictRules (tableID : UInt64)
  | evictLengths (tableID : UInt64)
deriving DecidableEq

namespace TableStore

/-- The failure of an install: the reference is dropped and the claim released. -/
def abandon (s : TableStore) (tableID : UInt64) (pid : UInt32) : TableStore :=
  { s with rc := (s.rc.release tableID pid).1 }.endInstall tableID false

/-- `AcquireBinary`: the table, and whether it has been compiled.  There is no result where
`beginInstall` would wait for an install that is in flight. -/
def acquireBinary (s : TableStore) (buildID : Option BuildID) (pid : UInt32) (build : Build) :
    Option (TableStore × Except StoreError (UInt64 × Bool)) :=
  match buildID with
  | none => some (s, .error .buildID)
  | some buildID =>
    let tableID := tableIDForBuildID buildID
    let s := { s with rc := (s.rc.acquire tableID pid).1 }
    if tableID ∈ s.installed then some (s, .ok (tableID, false))
    else if tableID ∈ s.inflight then none
    else
      let s := { s with inflight := insert tableID s.inflight }
      match build.compiled with
      | none => some (s.abandon tableID pid, .error .ehcompile)
      | some entries =>
        let r := s.tables.populateCFI tableID entries build.fails
        let s := { s with tables := r.1 }
        match r.2 with
        | some err => some (s.abandon tableID pid, .error (.populateCFI err))
        | none => some (s.endInstall tableID true, .ok (tableID, true))

def releaseBinary (s : TableStore) (tableID : UInt64) (pid : UInt32) : TableStore × Option StoreError :=
  let r := s.rc.release tableID pid
  let s := { s with rc := r.1 }
  if r.2 > 0 then (s, none)
  else
    (s.evict tableID true true,
      if s.tables.cfiRules.find? tableID = none then some (.evictRules tableID)
      else if s.tables.cfiLengths.find? tableID = none then some (.evictLengths tableID)
      else none)

end TableStore

/-! ## A lone caller

A call of the store, made while nobody else is about, is a run of the critical sections of its one
caller. -/

namespace Callers

end Callers

namespace TableStore

open Callers

variable {s s' : TableStore} {pid : UInt32} {held : Finset (UInt64 × UInt32)}

end TableStore

/-! ## The tracker -/

structure PIDState where
  mappings : List PIDMapping := []
  tableIDs : Finset UInt64 := ∅
deriving DecidableEq

/-- The tracker with its store; the maps it fills are among those of the store. -/
structure PIDTracker where
  store : TableStore := {}
  perPID : AssocMap UInt32 PIDState := ∅
deriving DecidableEq

/-- What `LoadProcessMappings` finds when it finds the executable segment: the load bias, and the
ranges of the lines that match, of which there is one at least. -/
structure Loaded where
  loadBias : UInt64
  ranges : List (UInt64 × UInt64)
  ranges_ne : ranges ≠ []
deriving DecidableEq

/-- The mappings that `LoadProcessMappings` returns. -/
def Loaded.mappings (l : Loaded) (tableID : UInt64) : List PIDMapping :=
  l.ranges.map fun r => { vmaStart := r.1, vmaEnd := r.2, loadBias := l.loadBias, tableID := tableID }

inductive TrackerError where
  | acquire (err : StoreError)
  | buildID
  | loadMappings (pid : UInt32)
  | populate (err : PopulateError)
  | deleteMappings (pid : UInt32)
  | deleteMappingLengths (pid : UInt32)
  | release (err : StoreError)
deriving DecidableEq

namespace PIDTracker

def stateOf (s : PIDTracker) (pid : UInt32) : PIDState := (s.perPID.find? pid).getD {}

/-- Record the state of a process and hand its mappings to the walker. -/
def publish (s : PIDTracker) (pid : UInt32) (st : PIDState) (fails : Option KernelCall) :
    PIDTracker × Option TrackerError :=
  let r := s.store.tables.populatePIDMappings pid st.mappings fails
  ({ store := { s.store with tables := r.1 }, perPID := s.perPID.put pid st }, r.2.map .populate)

def attach (s : PIDTracker) (pid : UInt32) (buildID : Option BuildID) (build : Build)
    (loaded : Option Loaded) (fails : Option KernelCall) : Option (PIDTracker × Option TrackerError) :=
  match s.store.acquireBinary buildID pid build with
  | none => none
  | some (store, .error err) => some ({ s with store := store }, some (.acquire err))
  | some (store, .ok (tableID, _)) =>
    let s := { s with store := store }
    match loaded with
    | none =>
      let store := (s.store.releaseBinary tableID pid).1
      some ({ s with store := store }, some (.loadMappings pid))
    | some l =>
      let st := s.stateOf pid
      some (s.publish pid
        { mappings := st.mappings ++ l.mappings tableID, tableIDs := insert tableID st.tableIDs } fails)

/-- `EnrollWithoutCompile`, with the cache of its caller. -/
def enrollWithoutCompile (s : PIDTracker) (pid : UInt32) (binPath : String) (buildID : Option BuildID)
    (loaded : Option Loaded) (fails : Option KernelCall) (buildIDCache : AssocMap String BuildID) :
    PIDTracker × AssocMap String BuildID × Option TrackerError :=
  match (buildIDCache.find? binPath).or buildID with
  | none => (s, buildIDCache, some .buildID)
  | some buildID =>
    let buildIDCache :=
      if buildIDCache.find? binPath = none then buildIDCache.put binPath buildID else buildIDCache
    let tableID := tableIDForBuildID buildID
    match loaded with
    | none => (s, buildIDCache, some (.loadMappings pid))
    | some l =>
      let st := s.stateOf pid
      let r := s.publish pid { st with mappings := st.mappings ++ l.mappings tableID } fails
      (r.1, buildIDCache, r.2)

def attachCompileOnly (s : PIDTracker) (pid : UInt32) (buildID : Option BuildID) (build : Build) :
    Option (PIDTracker × Option TrackerError) :=
  match s.store.acquireBinary buildID pid build with
  | none => none
  | some (store, .error err) => some ({ s with store := store }, some (.acquire err))
  | some (store, .ok (tableID, _)) =>
    let st := s.stateOf pid
    let st := { st with tableIDs := insert tableID st.tableIDs }
    some ({ store := store, perPID := s.perPID.put pid st }, none)

/-- One turn of the loop of `Detach`. -/
def detachStep (pid : UInt32) (r : TableStore × Option TrackerError) (tableID : UInt64) :
    TableStore × Option TrackerError :=
  let released := r.1.releaseBinary tableID pid
  (released.1, r.2.or (released.2.map .release))

/-- `Detach`.  The tables of the process come in any order, which is given. -/
def detach (s : PIDTracker) (pid : UInt32) (order : List UInt64) : Option (PIDTracker × Option TrackerError) :=
  match s.perPID.find? pid with
  | none => some (s, none)
  | some st =>
    if order.Nodup ∧ order.toFinset = st.tableIDs then
      let t := s.store.tables
      let firstErr : Option TrackerError :=
        if t.pidMappings.find? pid = none then some (.deleteMappings pid)
        else if t.pidMappingLengths.find? pid = none then some (.deleteMappingLengths pid)
        else none
      let tables :=
        { t with
          pidMappings := t.pidMappings.del pid
          pidMappingLengths := t.pidMappingLengths.del pid }
      let r := order.foldl (detachStep pid) ({ s.store with tables := tables }, firstErr)
      some ({ store := r.1, perPID := s.perPID.del pid }, r.2)
    else none

end PIDTracker

inductive TrackerCall where
  | attach (pid : UInt32) (buildID : Option BuildID) (build : Build) (loaded : Option Loaded)
      (fails : Option KernelCall)
  | attachCompileOnly (pid : UInt32) (buildID : Option BuildID) (build : Build)
  | enrollWithoutCompile (pid : UInt32) (binPath : String) (buildID : Option BuildID)
      (loaded : Option Loaded) (fails : Option KernelCall) (buildIDCache : AssocMap String BuildID)
  | detach (pid : UInt32) (order : List UInt64)

def PIDTracker.call (s : PIDTracker) : TrackerCall → Option (PIDTracker × Option TrackerError)
  | .attach pid buildID build loaded fails => s.attach pid buildID build loaded fails
  | .attachCompileOnly pid buildID build => s.attachCompileOnly pid buildID build
  | .enrollWithoutCompile pid binPath buildID loaded fails buildIDCache =>
    let r := s.enrollWithoutCompile pid binPath buildID loaded fails buildIDCache
    some (r.1, r.2.2)
  | .detach pid order => s.detach pid order

end PerfAgent.Unwind
