import PerfAgent.Gpu.LaunchCache
import PerfAgent.Gpu.PendingIndex
import PerfAgent.Gpu.Ring
import PerfAgent.Gpu.Serialization

/-!
# The timeline

The join point of the GPU events (`gpu/timeline.go`): it ingests launches, executions, PC
samples, modules, lifecycle events, sampling windows and graph reports, each under one
lock for the whole of its call.  This file has the state and those calls; `Snapshot`, which
takes the lock twice, is in `PerfAgent.Gpu.Snapshot`.
-/

namespace PerfAgent.Gpu

structure TimelineConfig where
  launchCache : LaunchCacheConfig := {}
  eventCapacity : Int := 0
  launchEventJoinWindowNs : Nat := 0
  maxPendingSamplesPerCorrelation : Int := 0
  pendingSampleHorizonNs : Nat := 0
  maxPendingModuleGroups : Int := 0
  pcSampling : PCSamplingTier := .off
  maxSamplingWindowsPerPID : Int := 0
  maxSamplingWindowPIDs : Int := 0

structure TimelineDropStats where
  evictedExecutions : Nat := 0
  evictedEvents : Nat := 0
  evictedModules : Nat := 0
  evictedPendingSamples : Nat := 0
  evictedPendingModuleSamples : Nat := 0
  evictedSamplingWindows : Nat := 0
deriving DecidableEq, Inhabited

/-- The devices a process has been seen on: the first, and whether there was another. -/
structure ProcessDevices where
  first : String := ""
  multi : Bool := false
deriving DecidableEq, Inhabited

/-- What a sample without a correlation is grouped by: a device function of a process. -/
structure PendingModuleKey where
  backend : GPUBackendID
  pid : Nat
  cubinCRC : Nat
  functionIndex : Nat
deriving DecidableEq, Inhabited

def defaultMaxPendingSamplesPerCorrelation : Nat := 4096

def defaultMaxPendingModuleGroups : Nat := 4096

def maxTrackedDeviceProcesses : Nat := 4096

def maxTrackedGraphProcesses : Nat := 4096

/-- The module's backend, or the correlation's when the module names none. -/
def pendingModuleKeyFor (p : GPUPCSample) : PendingModuleKey where
  backend := if p.module.backend = "" then p.correlation.backend else p.module.backend
  pid := p.correlation.pid
  cubinCRC := p.module.crc
  functionIndex := p.functionIndex

/-- The timeline.  Each ring has a spare, which is absent until the first snapshot. -/
structure Timeline where
  cache : LaunchCache
  launchesSinceSnapshot : Nat := 0
  joinWindowNs : Nat
  execs : Ring GPUKernelExec
  pending : PendingIndex CorrelationID := {}
  pendingCap : Nat
  pendingSampleCap : Nat
  pendingHorizonNs : Nat
  pendingNewestNs : Nat := 0
  pendingModule : PendingIndex PendingModuleKey := {}
  pendingModuleCap : Nat
  devicesByPID : AssocMap Nat ProcessDevices := ∅
  multiDeviceProcesses : Nat := 0
  deviceTrackingCapped : Nat := 0
  events : Ring GPUTimelineEvent
  modules : Ring GPUModule
  windows : WindowStore
  pcSampling : PCSamplingTier
  graphExecsByPID : AssocMap Nat UInt64 := ∅
  graphExecTotal : Nat := 0
  graphExecProcesses : Nat := 0
  graphExecUnscoped : Nat := 0
  graphExecTrackingCapped : Nat := 0
  graphExecAllPIDs : Bool := false
  dropped : TimelineDropStats := {}
  pressure : Bool := false
  spareExecs : Option (Ring GPUKernelExec) := none
  spareEvents : Option (Ring GPUTimelineEvent) := none
  spareModules : Option (Ring GPUModule) := none

def newTimeline (cfg : TimelineConfig) : Timeline :=
  let cache := newLaunchCache cfg.launchCache
  let capacity := cache.capacity
  { cache := cache
    joinWindowNs := cfg.launchEventJoinWindowNs
    execs := newRing capacity
    events := newRing (if cfg.eventCapacity ≤ 0 then capacity else cfg.eventCapacity)
    modules := newRing capacity
    pendingCap := capacity
    pendingSampleCap :=
      if cfg.maxPendingSamplesPerCorrelation ≤ 0 then defaultMaxPendingSamplesPerCorrelation
      else cfg.maxPendingSamplesPerCorrelation.toNat
    pendingHorizonNs := cfg.pendingSampleHorizonNs
    pendingModuleCap :=
      if cfg.maxPendingModuleGroups ≤ 0 then defaultMaxPendingModuleGroups
      else cfg.maxPendingModuleGroups.toNat
    windows := newWindowStore cfg.maxSamplingWindowsPerPID cfg.maxSamplingWindowPIDs
    pcSampling := cfg.pcSampling }

/-- The device an execution ran on: its own, or its queue's when it names none. -/
def execDeviceID (e : GPUKernelExec) : String :=
  if e.execution.deviceID ≠ "" then e.execution.deviceID else e.queue.device.deviceID

/-- The copy that is stored.  Values here are immutable, so a clone is the value. -/
def cloneTimelineEvent (e : GPUTimelineEvent) : GPUTimelineEvent := e

namespace Timeline

/-- Signal pressure once; a signal nobody has received yet is not doubled. -/
def notePressure (t : Timeline) (halfFull : Bool) : Timeline :=
  if halfFull then { t with pressure := true } else t

def observeExecDeviceLocked (t : Timeline) (e : GPUKernelExec) : Timeline :=
  let device := execDeviceID e
  if device = "" then t
  else
    let pid := e.correlation.pid
    match t.devicesByPID.find? pid with
    | none =>
      if t.devicesByPID.size ≥ maxTrackedDeviceProcesses then
        { t with deviceTrackingCapped := t.deviceTrackingCapped + 1 }
      else { t with devicesByPID := t.devicesByPID.put pid { first := device } }
    | some cur =>
      if cur.multi = true ∨ cur.first = device then t
      else
        { t with
          devicesByPID := t.devicesByPID.put pid { cur with multi := true }
          multiDeviceProcesses := t.multiDeviceProcesses + 1 }

def isMultiDeviceLocked (t : Timeline) (pid : Nat) : Bool :=
  ((t.devicesByPID.find? pid).getD {}).multi

/-- Whether the exact attribution of a process is withdrawn: it launched from a CUDA
graph while the serialized tier was selected. -/
def isGraphRefusedLocked (t : Timeline) (pid : Nat) : Bool :=
  if t.pcSampling ≠ .serialized then false
  else t.graphExecAllPIDs || ((t.graphExecsByPID.find? pid).getD 0 > 0)

/-- Advance the pending horizon anchor, unless that would be an anomalous jump. -/
def observePendingTimestampLocked (t : Timeline) (timeNs : Nat) : Timeline :=
  if timeNs ≤ t.pendingNewestNs then t
  else if t.pendingNewestNs ≠ 0 ∧ timeNs - t.pendingNewestNs > defaultMaxAdvanceNs then t
  else { t with pendingNewestNs := timeNs }

/-! ## The calls of the sink -/

def emitLaunch (t : Timeline) (l : GPUKernelLaunch) : Timeline :=
  { t with launchesSinceSnapshot := t.launchesSinceSnapshot + 1, cache := t.cache.put l }

def emitExec (t : Timeline) (e : GPUKernelExec) : Timeline :=
  let t := t.observeExecDeviceLocked e
  let (execs, evicted) := t.execs.push e
  { t with
    execs := execs
    dropped := { t.dropped with
      evictedExecutions := t.dropped.evictedExecutions + evicted.toNat } }.notePressure
    execs.halfFull

def emitModule (t : Timeline) (m : GPUModule) : Timeline :=
  let (modules, evicted) := t.modules.push m
  { t with
    modules := modules
    dropped := { t.dropped with
      evictedModules := t.dropped.evictedModules + evicted.toNat } }.notePressure modules.halfFull

def emitEvent (t : Timeline) (e : GPUTimelineEvent) : Timeline :=
  let (events, evicted) := t.events.push (cloneTimelineEvent e)
  { t with
    events := events
    dropped := { t.dropped with
      evictedEvents := t.dropped.evictedEvents + evicted.toNat } }.notePressure events.halfFull

def emitPendingLocked (t : Timeline) (e : Emission) : Timeline :=
  let (pending, lost) := t.pending.emit t.pendingCap t.pendingSampleCap t.pendingNewestNs
    t.pendingHorizonNs e.sample.correlation e
  { t with
    pending := pending
    dropped := { t.dropped with
      evictedPendingSamples := t.dropped.evictedPendingSamples + lost } }

def emitPendingModuleLocked (t : Timeline) (e : Emission) : Timeline :=
  let (pendingModule, lost) := t.pendingModule.emit t.pendingModuleCap t.pendingSampleCap
    t.pendingNewestNs t.pendingHorizonNs (pendingModuleKeyFor e.sample) e
  { t with
    pendingModule := pendingModule
    dropped := { t.dropped with
      evictedPendingModuleSamples := t.dropped.evictedPendingModuleSamples + lost } }

def emitPCSample (t : Timeline) (e : Emission) : Timeline :=
  let t := t.observePendingTimestampLocked e.sample.timeNs
  if !e.sample.correlation.present then t.emitPendingModuleLocked e else t.emitPendingLocked e

def emitSamplingWindow (t : Timeline) (w : GPUSamplingWindow) : Timeline :=
  let windows := t.windows.add w
  { t with
    windows := windows
    dropped := { t.dropped with
      evictedSamplingWindows :=
        t.dropped.evictedSamplingWindows + (windows.evicted - t.windows.evicted) } }

/-- The per-process sum is the machine's: it is the one counter here that a decision reads. -/
def emitGraphExecutions (t : Timeline) (g : GPUGraphExecutions) : Timeline :=
  if g.count = 0 then t
  else
    let t := { t with graphExecTotal := t.graphExecTotal + g.count.toNat }
    if g.pid = 0 then
      { t with graphExecUnscoped := t.graphExecUnscoped + g.count.toNat, graphExecAllPIDs := true }
    else
      match t.graphExecsByPID.find? g.pid with
      | some n => { t with graphExecsByPID := t.graphExecsByPID.put g.pid (n + g.count) }
      | none =>
        if t.graphExecsByPID.size ≥ maxTrackedGraphProcesses then
          { t with
            graphExecTrackingCapped := t.graphExecTrackingCapped + 1
            graphExecAllPIDs := true }
        else
          { t with
            graphExecProcesses := t.graphExecProcesses + 1
            graphExecsByPID := t.graphExecsByPID.put g.pid g.count }

end Timeline

end PerfAgent.Gpu
