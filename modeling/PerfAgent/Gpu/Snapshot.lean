import PerfAgent.Lib.SortSearch
import PerfAgent.Gpu.Timeline

/-!
# Taking a snapshot

`Snapshot` of `gpu/timeline.go`.  It holds the timeline's lock twice: first to swap the
rings out (`drainLocked`), then to join the PC samples and to read the disclosures
(`collectLocked`).  The launch join after that runs outside the lock, one execution at a
time, over the launch cache, which has a mutex of its own and goes on changing
(`joinExec`).

The parallel slices that the source indexes by the position of an execution are one list of
`ExecRow` here.  The module store is outside the timeline and answers each question of the
module join on its own, so the answers are an input of `collectLocked`.
-/

namespace PerfAgent.Gpu

structure JoinStats where
  launchCount : Nat := 0
  matchedLaunchCount : Nat := 0
  unmatchedLaunchCount : Nat := 0
  exactExecutionJoinCount : Nat := 0
  heuristicExecutionJoinCount : Nat := 0
  ambiguousHeuristicMatchCount : Nat := 0
  unmatchedExecutionCount : Nat := 0
  correlationlessExecutionCount : Nat := 0
  crossProcessHeuristicBlockedCount : Nat := 0
  outOfWindowDropCount : Nat := 0
deriving DecidableEq, Inhabited

structure PCJoinStats where
  attributedExact : Nat := 0
  attributedKernel : Nat := 0
  groupsJoined : Nat := 0
  groupsUnresolvedName : Nat := 0
  groupsNoExecution : Nat := 0
  groupsNoProcess : Nat := 0
  ambiguousAttributions : Nat := 0
  multiDeviceAttributions : Nat := 0
  graphRefusedAttributions : Nat := 0
  multiDeviceProcesses : Nat := 0
  deviceTrackingCapped : Nat := 0
deriving DecidableEq, Inhabited

def PCJoinStats.groupsExamined (s : PCJoinStats) : Nat :=
  s.groupsJoined + s.groupsUnresolvedName + s.groupsNoExecution + s.groupsNoProcess

def PCJoinStats.attributedTotal (s : PCJoinStats) : Nat := s.attributedExact + s.attributedKernel

/-- One execution with the launch and the PC samples attached to it. -/
structure ExecutionView where
  launch : Option GPUKernelLaunch := none
  exec : GPUKernelExec
  pcSamples : List Emission := []
  join : JoinKind := .unjoined
  heuristic : Bool := false
  ambiguous : Bool := false
  pcAttrib : PCAttrib := .empty
  serialized : SerializationState := .unknown
  graphRefused : Bool := false
deriving DecidableEq, Inhabited

structure Snapshot where
  executions : List ExecutionView
  events : List GPUTimelineEvent
  modules : List GPUModule
  joinStats : JoinStats
  launchCache : LaunchCacheStats
  dropped : TimelineDropStats
  attributedPCSamples : Nat
  pendingSamples : Nat
  pendingCorrelations : Nat
  pendingModuleSamples : Nat
  pendingModuleGroups : Nat
  pcJoin : PCJoinStats
  pcSampling : PCSamplingTier
  samplingWindowsReceived : Nat
  samplingWindowsHeld : Nat
  samplingWindowsOpen : Nat
  executionsSerialized : Nat
  executionsNotSerialized : Nat
  executionsSerializationUnknown : Nat
  graphExecutions : Nat
  graphExecProcesses : Nat
  graphExecUnscoped : Nat
  graphExecTrackingCapped : Nat
  executionsGraphRefused : Nat
deriving DecidableEq

/-! ## The first critical section -/

structure Drained where
  execs : List GPUKernelExec
  events : List GPUTimelineEvent
  modules : List GPUModule
  launchCount : Nat
  dropped : TimelineDropStats

/-- Swap the three rings for their spares and read the counters.  The old rings are read,
cleared and become the spares; nobody else can reach them meanwhile. -/
def Timeline.drainLocked (t : Timeline) : Timeline × Drained :=
  ({ t with
     execs := t.execs.swapRing t.spareExecs
     events := t.events.swapRing t.spareEvents
     modules := t.modules.swapRing t.spareModules
     spareExecs := some t.execs.reset
     spareEvents := some t.events.reset
     spareModules := some t.modules.reset
     launchesSinceSnapshot := 0 },
   { execs := t.execs.items
     events := t.events.items
     modules := t.modules.items
     launchCount := t.launchesSinceSnapshot
     dropped := t.dropped })

/-! ## The second critical section -/

/-- What the snapshot knows of one execution: its entry of each parallel slice. -/
structure ExecRow where
  exec : GPUKernelExec
  samples : List Emission := []
  exactServed : Bool := false
  attrib : PCAttrib := .empty
  serialization : SerializationState := .unknown
  graphRefused : Bool := false
deriving DecidableEq, Inhabited

/-- The exact tier: each execution takes the group pending under its correlation.  Returns
the store, the rows, and the samples counted on the way. -/
def joinPending (idx : PendingIndex CorrelationID) :
    List GPUKernelExec → PendingIndex CorrelationID × List ExecRow × Nat
  | [] => (idx, [], 0)
  | exec :: execs =>
    match idx.store.byKey.find? exec.correlation with
    | none =>
      let (idx, rows, n) := joinPending idx execs
      (idx, { exec := exec } :: rows, n)
    | some entry =>
      let (idx, rows, n) := joinPending (idx.consume exec.correlation entry) execs
      (idx, { exec := exec, samples := entry.samples, exactServed := true } :: rows, entry.samples.length + n)

def comparePendingModuleKey (a b : PendingModuleKey) : Ordering :=
  (compare a.pid b.pid).then <| (compare a.cubinCRC b.cubinCRC).then <|
    (compare a.functionIndex b.functionIndex).then <| compare a.backend b.backend

/-- The executions of one kernel in one process, with their positions; an execution that
names no kernel or no process is in no such list. -/
def byKernel (rows : List ExecRow) (pid : Nat) (kernelName : String) : List (ExecRow × Nat) :=
  rows.zipIdx.filter fun r => r.1.exec.kernelName ≠ "" ∧ r.1.exec.correlation.pid ≠ 0 ∧
    r.1.exec.correlation.pid = pid ∧ r.1.exec.kernelName = kernelName

/-- The loop that picks a group's target: the earliest candidate that the exact tier did
not serve, and the first of equals. -/
def pickTarget : List (ExecRow × Nat) → Option (ExecRow × Nat) → Option (ExecRow × Nat)
  | [], target => target
  | c :: cs, target =>
    if c.1.exactServed then pickTarget cs target
    else
      match target with
      | none => pickTarget cs (some c)
      | some best =>
        if c.1.exec.startNs < best.1.exec.startNs then pickTarget cs (some c)
        else pickTarget cs (some best)

structure PCModuleJoin where
  idx : PendingIndex PendingModuleKey
  rows : List ExecRow
  samples : Nat := 0
  stats : PCJoinStats

/-- One group: left pending for one of three stated reasons, or consumed into its target.
`multi` answers whether a process runs on several devices. -/
def PCModuleJoin.joinGroup (multi : Nat → Bool) (functionName : PendingModuleKey → Option String)
    (j : PCModuleJoin) (key : PendingModuleKey) : PCModuleJoin :=
  if key.pid = 0 then
    { j with stats := { j.stats with groupsNoProcess := j.stats.groupsNoProcess + 1 } }
  else
    match functionName key with
    | none =>
      { j with stats := { j.stats with
        groupsUnresolvedName := j.stats.groupsUnresolvedName + 1 } }
    | some name =>
      let candidates := byKernel j.rows key.pid name
      match pickTarget candidates none with
      | none =>
        { j with stats := { j.stats with groupsNoExecution := j.stats.groupsNoExecution + 1 } }
      | some (_, target) =>
        let attrib := if candidates.length > 1 then PCAttrib.kernelAmbiguous else .kernel
        let attrib := if multi key.pid then PCAttrib.kernelMultiDevice else attrib
        let entry := (j.idx.store.byKey.find? key).getD {}
        { idx := j.idx.consume key entry
          rows := j.rows.modify target fun r =>
            { r with
              samples := r.samples ++ entry.samples
              attrib := worsePCAttrib r.attrib attrib }
          samples := j.samples + entry.samples.length
          stats := { j.stats with groupsJoined := j.stats.groupsJoined + 1 } }

def PendingIndex.sortedKeys (idx : PendingIndex PendingModuleKey) : List PendingModuleKey :=
  idx.store.byKey.keys.insertionSort fun a b => comparePendingModuleKey a b ≠ .gt

def Timeline.joinPendingModuleLocked (t : Timeline)
    (functionName : PendingModuleKey → Option String) (rows : List ExecRow) : PCModuleJoin :=
  let stats : PCJoinStats :=
    { multiDeviceProcesses := t.multiDeviceProcesses
      deviceTrackingCapped := t.deviceTrackingCapped }
  let j : PCModuleJoin := { idx := t.pendingModule, rows := rows, stats := stats }
  if t.pendingModule.store.byKey.size = 0 then j
  else
    let j := t.pendingModule.sortedKeys.foldl (·.joinGroup t.isMultiDeviceLocked functionName) j
    { j with stats := { j.stats with
      ambiguousAttributions := j.rows.countP (·.attrib == .kernelAmbiguous)
      multiDeviceAttributions := j.rows.countP (·.attrib == .kernelMultiDevice)
      attributedKernel := j.samples } }

def Timeline.disclose (t : Timeline) (r : ExecRow) : ExecRow :=
  { r with
    serialization :=
      if t.pcSampling = .serialized then
        t.windows.classify r.exec.correlation.pid r.exec.startNs r.exec.endNs
      else .notSerialized
    graphRefused := t.isGraphRefusedLocked r.exec.correlation.pid }

structure Collected where
  rows : List ExecRow
  pcJoin : PCJoinStats
  attributedPCSamples : Nat
  pendingSamples : Nat
  pendingCorrelations : Nat
  pendingModuleSamples : Nat
  pendingModuleGroups : Nat
  pcSampling : PCSamplingTier
  windowsReceived : Nat
  windowsHeld : Nat
  windowsOpen : Nat
  graphExecTotal : Nat
  graphExecProcesses : Nat
  graphExecUnscoped : Nat
  graphExecTrackingCapped : Nat

/-- Both tiers of the PC join, the gauges they leave, and the disclosures. -/
def Timeline.collectLocked (t : Timeline) (functionName : PendingModuleKey → Option String)
    (execs : List GPUKernelExec) : Timeline × Collected :=
  let (pending, rows, attributedExact) := joinPending t.pending execs
  let t := { t with pending := pending }
  let j := t.joinPendingModuleLocked functionName rows
  let t := { t with pendingModule := j.idx }
  (t,
   { rows := j.rows.map t.disclose
     pcJoin := { j.stats with attributedExact := attributedExact }
     attributedPCSamples := attributedExact + j.samples
     pendingSamples := t.pending.sampleTotal
     pendingCorrelations := t.pending.store.byKey.size
     pendingModuleSamples := t.pendingModule.sampleTotal
     pendingModuleGroups := t.pendingModule.store.byKey.size
     pcSampling := t.pcSampling
     windowsReceived := t.windows.received
     windowsHeld := t.windows.windows.1
     windowsOpen := t.windows.windows.2
     graphExecTotal := t.graphExecTotal
     graphExecProcesses := t.graphExecProcesses
     graphExecUnscoped := t.graphExecUnscoped
     graphExecTrackingCapped := t.graphExecTrackingCapped })

/-! ## The heuristic launch join -/

structure LaunchMatch where
  launch : Option GPUKernelLaunch := none
  ambiguous : Bool := false
  outOfWindow : Bool := false

/-- What the heuristic compares of a queue: deliberately not its device. -/
structure QueueKey where
  backend : GPUBackendID
  queueID : String
deriving DecidableEq

def queueKeyOf (q : GPUQueueRef) : QueueKey where
  backend := q.backend
  queueID := q.queueID

structure CandidateGroupKey where
  pid : Nat
  queue : QueueKey
  kernelName : String
deriving DecidableEq

structure AnyProcessGroupKey where
  queue : QueueKey
  kernelName : String
deriving DecidableEq

/-- The process of a launch: its context's, or its correlation's when that names none. -/
def launchProcessID (l : GPUKernelLaunch) : Nat :=
  if l.launch.pid ≠ 0 then l.launch.pid else l.correlation.pid

/-- The index, as the function that looks a group up.  The source's sort is not stable;
the entries arrive in an arbitrary order, so a stable one reaches every outcome. -/
def groupLaunchesByTime {K : Type} [DecidableEq K] (entries : List GPUKernelLaunch)
    (keyOf : GPUKernelLaunch → K) (k : K) : List GPUKernelLaunch :=
  (entries.filter fun l => keyOf l = k).insertionSort fun a b => a.timeNs ≤ b.timeNs

def buildHeuristicCandidateIndex (entries : List GPUKernelLaunch) : CandidateGroupKey → List GPUKernelLaunch :=
  groupLaunchesByTime entries fun l =>
    { pid := launchProcessID l, queue := queueKeyOf l.queue, kernelName := l.kernelName }

def buildAnyProcessCandidateIndex (entries : List GPUKernelLaunch) : AnyProcessGroupKey → List GPUKernelLaunch :=
  groupLaunchesByTime entries fun l => { queue := queueKeyOf l.queue, kernelName := l.kernelName }

/-- The latest candidate that precedes the execution, if it lies in the window; a window
of zero is unbounded. -/
def findLaunchHeuristic (candidates : List GPUKernelLaunch) (exec : GPUKernelExec) (windowNs : Nat) : LaunchMatch :=
  let insertionPoint :=
    sortSearch candidates.length fun i => candidates[i]?.any fun l => l.timeNs > exec.startNs
  if insertionPoint = 0 then {}
  else
    let earliest := if exec.startNs > windowNs then exec.startNs - windowNs else 0
    let lowerBound :=
      if windowNs > 0 then
        sortSearch insertionPoint fun i => candidates[i]?.any fun l => l.timeNs ≥ earliest
      else 0
    let inWindow := insertionPoint - lowerBound
    if inWindow = 0 then { outOfWindow := true }
    else { launch := candidates[insertionPoint - 1]?, ambiguous := inWindow > 1 }

/-! ## The launch join -/

/-- The locals of the loop over the executions: the rows still to join, the cache entries
once they have been read, and what has been produced and counted so far. -/
structure Joining where
  rest : List ExecRow
  cacheEntries : Option (List GPUKernelLaunch) := none
  stats : JoinStats
  pcJoin : PCJoinStats
  views : List ExecutionView := []
  matched : List CorrelationID := []
  serializedCount : Nat := 0
  notSerializedCount : Nat := 0
  serializationUnknownCount : Nat := 0
  executionsGraphRefused : Nat := 0

def ExecRow.pcAttrib (r : ExecRow) : PCAttrib :=
  if r.exactServed then .exact
  else if r.samples.length > 0 then r.attrib
  else .empty

def ExecRow.refused (r : ExecRow) : Bool := r.graphRefused && r.pcAttrib == .exact

def ExecRow.view (r : ExecRow) : ExecutionView where
  exec := r.exec
  pcSamples := r.samples
  serialized := r.serialization
  graphRefused := r.graphRefused
  pcAttrib := if r.refused then .graphRefused else r.pcAttrib

namespace Joining

def tally (j : Joining) (r : ExecRow) : Joining :=
  { j with
    pcJoin := { j.pcJoin with
      graphRefusedAttributions := j.pcJoin.graphRefusedAttributions + r.refused.toNat }
    executionsGraphRefused := j.executionsGraphRefused + r.graphRefused.toNat
    serializedCount := j.serializedCount + (r.serialization == .serialized).toNat
    notSerializedCount := j.notSerializedCount + (r.serialization == .notSerialized).toNat
    serializationUnknownCount := j.serializationUnknownCount +
      (!(r.serialization == .serialized) && !(r.serialization == .notSerialized)).toNat }

def emit (j : Joining) (v : ExecutionView) : Joining := { j with views := j.views ++ [v] }

def noteBlockedHeuristic (j : Joining) (entries : List GPUKernelLaunch) (windowNs : Nat)
    (exec : GPUKernelExec) : Joining :=
  let key : AnyProcessGroupKey := { queue := queueKeyOf exec.queue, kernelName := exec.kernelName }
  if (findLaunchHeuristic (buildAnyProcessCandidateIndex entries key) exec windowNs).launch.isSome
  then { j with stats := { j.stats with
    crossProcessHeuristicBlockedCount := j.stats.crossProcessHeuristicBlockedCount + 1 } }
  else j

def unmatched (j : Joining) : Joining :=
  { j with stats := { j.stats with
    unmatchedExecutionCount := j.stats.unmatchedExecutionCount + 1 } }

/-- The execution carries a correlation: the cache has its launch, or nothing does. -/
def joinExact (j : Joining) (cache : LaunchCache) (r : ExecRow) : Joining × LaunchCache :=
  match cache.get r.exec.correlation with
  | (some l, cache) =>
    ({ j with
       stats := { j.stats with
         exactExecutionJoinCount := j.stats.exactExecutionJoinCount + 1 }
       matched := j.matched.insert r.exec.correlation }.emit
      { r.view with launch := some l, join := .exact }, cache)
  | (none, cache) => (j.unmatched.emit r.view, cache)

/-- The execution carries none: the latest launch of its process, queue and kernel in the
window, among the entries read. -/
def joinHeuristic (j : Joining) (cache : LaunchCache) (entries : List GPUKernelLaunch)
    (windowNs : Nat) (r : ExecRow) : Joining × LaunchCache :=
  let j := { j with stats := { j.stats with
    correlationlessExecutionCount := j.stats.correlationlessExecutionCount + 1 } }
  let pid := r.exec.correlation.pid
  if pid = 0 then ((j.unmatched.noteBlockedHeuristic entries windowNs r.exec).emit r.view, cache)
  else
    let key : CandidateGroupKey :=
      { pid := pid, queue := queueKeyOf r.exec.queue, kernelName := r.exec.kernelName }
    let m := findLaunchHeuristic (buildHeuristicCandidateIndex entries key) r.exec windowNs
    match m.launch with
    | some l =>
      ({ j with
         stats := { j.stats with
           heuristicExecutionJoinCount := j.stats.heuristicExecutionJoinCount + 1
           ambiguousHeuristicMatchCount :=
             j.stats.ambiguousHeuristicMatchCount + m.ambiguous.toNat }
         matched := j.matched.insert l.correlation }.emit
        { r.view with
          launch := some l, join := .heuristic, heuristic := true, ambiguous := m.ambiguous },
       cache.markJoined l.correlation)
    | none =>
      let j := j.unmatched
      let j := { j with stats := { j.stats with
        outOfWindowDropCount := j.stats.outOfWindowDropCount + m.outOfWindow.toNat } }
      ((j.noteBlockedHeuristic entries windowNs r.exec).emit r.view, cache)

/-- One round of the loop.  An execution without a correlation needs the cache entries,
which are read before it. -/
def joinExec (j : Joining) (cache : LaunchCache) (windowNs : Nat) : Option (Joining × LaunchCache) :=
  match j.rest with
  | [] => none
  | r :: rest =>
    let j := { j with rest := rest }.tally r
    if r.exec.correlation.present then some (j.joinExact cache r)
    else j.cacheEntries.map fun entries => j.joinHeuristic cache entries windowNs r

end Joining

def startJoining (d : Drained) (c : Collected) : Joining where
  rest := c.rows
  stats := { launchCount := d.launchCount }
  pcJoin := c.pcJoin

def finishSnapshot (d : Drained) (c : Collected) (j : Joining) (cache : LaunchCache) : Snapshot where
  executions := j.views
  events := d.events
  modules := d.modules
  joinStats := { j.stats with
    matchedLaunchCount := j.matched.length
    unmatchedLaunchCount :=
      if j.stats.launchCount ≥ j.matched.length then j.stats.launchCount - j.matched.length
      else j.stats.unmatchedLaunchCount }
  launchCache := cache.report
  dropped := d.dropped
  attributedPCSamples := c.attributedPCSamples
  pendingSamples := c.pendingSamples
  pendingCorrelations := c.pendingCorrelations
  pendingModuleSamples := c.pendingModuleSamples
  pendingModuleGroups := c.pendingModuleGroups
  pcJoin := j.pcJoin
  pcSampling := c.pcSampling
  samplingWindowsReceived := c.windowsReceived
  samplingWindowsHeld := c.windowsHeld
  samplingWindowsOpen := c.windowsOpen
  executionsSerialized := j.serializedCount
  executionsNotSerialized := j.notSerializedCount
  executionsSerializationUnknown := j.serializationUnknownCount
  graphExecutions := c.graphExecTotal
  graphExecProcesses := c.graphExecProcesses
  graphExecUnscoped := c.graphExecUnscoped
  graphExecTrackingCapped := c.graphExecTrackingCapped
  executionsGraphRefused := j.executionsGraphRefused

end PerfAgent.Gpu
