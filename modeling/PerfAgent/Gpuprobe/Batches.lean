import PerfAgent.Gpuprobe.Outlet
import PerfAgent.Gpuprobe.SampledStacks
import PerfAgent.Gpuprobe.StackResolve

/-!
# Applying batches

`applyBatch` and `Flush` of `gpuprobe/consumer.go`, for batches of every kind.  A launch is
held only for as long as the next batch can be its sampled stack; a sampled launch only ever
gives its stack away.

The configuration is a parameter.  Of the collaborators that it configures, the sink is known
by what it accepts, the shim's modules by a predicate, and the collapse of the profiler's own
frames by a function.
-/

namespace PerfAgent.Gpuprobe

open Gpu

/-! ## The configuration -/

inductive StackVerdict where
  | attributable
  | profilerOnly
  | profilerOnlyUncertain
deriving DecidableEq

structure ShimScope where
  guarded : Bool := false
  isShimModule : String → Bool := fun _ => false

/-- A frame of a module that is known and is not the shim's is the only proof that the walk
left the shim. -/
def ShimScope.verdict (s : ShimScope) (frames : List Frame) : StackVerdict :=
  if !s.guarded then .attributable
  else if frames.any fun f => f.module != "" && !s.isShimModule f.module then .attributable
  else if frames.any fun f => f.module == "" then .profilerOnlyUncertain
  else .profilerOnly

structure ConsumerConfig where
  backend : GPUBackendID := ""
  /-- Whether the sink takes the last of the calls made so far. -/
  accepts : List SinkCall → Bool := fun _ => true
  sampledStackCapacity : Int := 0
  deferredLaunchCapacity : Int := 0
  kernelNameCapacity : Int := 0
  pendingNamedEventCapacity : Int := 0
  stallNameCapacity : Int := 0
  pendingStallSampleCapacity : Int := 0
  shim : ShimScope := {}
  /-- The frames without the profiler's own, and how many of them went. -/
  collapse : List Frame → List Frame × Nat := fun frames => (frames, 0)

def defaultSampledStackCapacity : Nat := 1024
def defaultDeferredLaunchCapacity : Nat := 256
def defaultKernelNameCapacity : Nat := 4096
def defaultPendingNamedEventCapacity : Nat := 512
def defaultStallNameCapacity : Nat := 256
def defaultPendingStallSampleCapacity : Nat := 4096

def capacityOr (capacity : Int) (default : Nat) : Nat :=
  if capacity ≤ 0 then default else capacity.toNat

/-! ## The consumer -/

structure RecordStats where
  zeroCorrelation : Nat := 0
  zeroCorrelationExecs : Nat := 0
  modulesDecoded : Nat := 0
  pcSamplesDecoded : Nat := 0
  pcSamplesWithoutCorrelation : Nat := 0
  dropsDecoded : Nat := 0
  dropsUnconsumed : Nat := 0
  graphExecReports : Nat := 0
  graphExecutions : UInt64 := 0
  configsDecoded : Nat := 0
  configsDisagreed : Nat := 0
  configSamplingFactor : Nat := 0
  configSMCount : Nat := 0
  configClockHz : Nat := 0
  undecoded : Nat := 0
deriving DecidableEq

structure BatchConsumer extends Outlet where
  pending : PendingStacks
  deferred : HoldQueue DeferredLaunch
  config : Config := {}
  configSeen : Bool := false
  stackStats : StackStats := {}
  recordStats : RecordStats := {}

def newConsumer (cfg : ConsumerConfig) : BatchConsumer where
  backend := cfg.backend
  names := { capacity := capacityOr cfg.kernelNameCapacity defaultKernelNameCapacity }
  unnamed :=
    { capacity := capacityOr cfg.pendingNamedEventCapacity defaultPendingNamedEventCapacity }
  stalls := { capacity := capacityOr cfg.stallNameCapacity defaultStallNameCapacity }
  unresolvedStall :=
    { capacity := capacityOr cfg.pendingStallSampleCapacity defaultPendingStallSampleCapacity }
  pending := { capacity := capacityOr cfg.sampledStackCapacity defaultSampledStackCapacity }
  deferred := { capacity := capacityOr cfg.deferredLaunchCapacity defaultDeferredLaunchCapacity }

/-- The correlation of a wire value.  Zero is "no correlation", but the process is known
regardless. -/
def correlationID (cfg : ConsumerConfig) (pid v : Nat) : CorrelationID :=
  { backend := cfg.backend, pid := pid, value := if v = 0 then "" else toString v }

def attachStack (ev : GPUKernelLaunch) (frames : List Frame) (period : Nat) : GPUKernelLaunch :=
  { ev with launch := { ev.launch with cpuStack := frames, samplePeriod := period } }

namespace BatchConsumer

variable (cfg : ConsumerConfig)

def countRecord (c : BatchConsumer) : BatchConsumer :=
  { c with stats := { c.stats with records := c.stats.records + 1 } }

/-- `correlationOf`, which counts a zero. -/
def correlationOf (c : BatchConsumer) (pid v : Nat) : CorrelationID × BatchConsumer :=
  (correlationID cfg pid v,
    { c with recordStats := { c.recordStats with
      zeroCorrelation := c.recordStats.zeroCorrelation + if v = 0 then 1 else 0 } })

def emitLaunchLocked (c : BatchConsumer) (ev : GPUKernelLaunch) (kernelID : Nat) : BatchConsumer :=
  { c with toOutlet := c.toOutlet.emitLaunchLocked cfg.accepts ev kernelID }

/-! ### Launches and their stacks -/

def attachLocked (c : BatchConsumer) (ev : GPUKernelLaunch) (frames : List Frame) (period : Nat) :
    GPUKernelLaunch × BatchConsumer :=
  (attachStack ev frames period,
    { c with stackStats := { c.stackStats with
      stacksAttached := c.stackStats.stacksAttached + 1 } })

/-- A launch goes to the sink, or waits for a stack that the next batch may bring. -/
def admitLaunchLocked (c : BatchConsumer) (ev : GPUKernelLaunch) (kernelID : Nat) : BatchConsumer :=
  if !ev.correlation.present then c.emitLaunchLocked cfg ev kernelID
  else
    match c.pending.take ev.correlation with
    | (some st, pending) =>
      let (ev, c) := attachLocked { c with pending := pending } ev st.frames st.period
      c.emitLaunchLocked cfg ev kernelID
    | (none, _) =>
      let r := c.deferred.push { launch := ev, kernelID := kernelID }
      let c := { c with deferred := r.2 }
      match r.1 with
      | some released => c.emitLaunchLocked cfg released.launch released.kernelID
      | none => c

/-- The last part of `attachSampledStackLocked`: the frames go onto the launch that waits for
them, or wait for it. -/
def attachFrames (c : BatchConsumer) (pid : Nat) (frames : List Frame) (sl : LaunchSampled) : BatchConsumer :=
  let (key, c) := c.correlationOf cfg pid sl.correlation
  match c.deferred.takeNewest fun d => d.launch.correlation == key with
  | (some held, deferred) =>
    let (ev, c) := attachLocked { c with deferred := deferred } held.launch frames sl.samplePeriod
    c.emitLaunchLocked cfg ev held.kernelID
  | (none, _) =>
    let r := c.pending.park key frames sl.samplePeriod
    { c with
      pending := r.2
      stackStats := { c.stackStats with stacksEvicted := c.stackStats.stacksEvicted + r.1 } }

def collapseFrames (st : StackStats) (frames : List Frame) : List Frame × StackStats :=
  let (collapsed, removed) := cfg.collapse frames
  if removed > 0 then
    (collapsed, { st with
      stackFramesElided := st.stackFramesElided + removed
      stacksWithInstrumentationBand := st.stacksWithInstrumentationBand + 1 })
  else (frames, st)

/-- The part of `attachSampledStackLocked` after the stack is resolved.  One that never left
the profiler is withheld from the launch. -/
def attachResolved (c : BatchConsumer) (st : StackStats) (pid : Nat) (frames : List Frame)
    (sl : LaunchSampled) : BatchConsumer :=
  match cfg.shim.verdict frames with
  | .profilerOnlyUncertain =>
    { c with stackStats := { st with
      stacksProfilerOnlyUncertain := st.stacksProfilerOnlyUncertain + 1
      stacksProfilerOnly := st.stacksProfilerOnly + 1 } }
  | .profilerOnly =>
    { c with stackStats := { st with stacksProfilerOnly := st.stacksProfilerOnly + 1 } }
  | .attributable =>
    let (frames, st) := collapseFrames cfg st frames
    attachFrames cfg { c with stackStats := st } pid frames sl

/-- Resolve the stack of a sampled launch, and get it onto the launch it belongs to. -/
def attachSampledStackLocked (env : StackEnv) (c : BatchConsumer) (pid : Nat) (stackID : Int)
    (sl : LaunchSampled) : BatchConsumer :=
  if stackID < 0 then c
  else if sl.correlation = 0 then
    let st := { c.stackStats with stacksUncorrelated := c.stackStats.stacksUncorrelated + 1 }
    { c with stackStats := st.freeStackLocked env stackID.toNat }
  else
    match resolveStackLocked env c.stackStats pid stackID.toNat with
    | (st, none) => { c with stackStats := st }
    | (st, some frames) =>
      attachResolved cfg c { st with stacksResolved := st.stacksResolved + 1 } pid frames sl

def releaseDeferredLocked (c : BatchConsumer) : BatchConsumer :=
  let r := c.deferred.drain
  r.1.foldl (fun c held => c.emitLaunchLocked cfg held.launch held.kernelID) { c with deferred := r.2 }

/-! ### The records of a batch -/

def launchEvent (pid : Nat) (l : Launch) : GPUKernelLaunch :=
  { correlation := correlationID cfg pid l.correlation, clockDomain := .cpuMonotonic,
    timeNs := l.timeNs, launch := { pid := pid, tid := l.tid, timeNs := l.timeNs } }

def applyLaunch (pid : Nat) (c : BatchConsumer) (l : Launch) : BatchConsumer :=
  let (_, c) := c.countRecord.correlationOf cfg pid l.correlation
  c.admitLaunchLocked cfg (launchEvent cfg pid l) l.kernelID

def execEvent (pid : Nat) (e : Exec) : GPUKernelExec :=
  { correlation := correlationID cfg pid e.correlation, clockDomain := .cpuMonotonic,
    startNs := e.startNs, endNs := e.endNs }

def applyExec (pid : Nat) (c : BatchConsumer) (e : Exec) : BatchConsumer :=
  let (_, c) := c.countRecord.correlationOf cfg pid e.correlation
  { c with
    toOutlet := c.toOutlet.emitExecLocked cfg.accepts (execEvent cfg pid e) e.kernelID
    recordStats := { c.recordStats with
      zeroCorrelationExecs :=
        c.recordStats.zeroCorrelationExecs + if e.correlation = 0 then 1 else 0 } }

def applyLaunchSampled (env : StackEnv) (pid : Nat) (stackID : Int) (c : BatchConsumer)
    (sl : LaunchSampled) : BatchConsumer :=
  let c := c.countRecord
  attachSampledStackLocked cfg env { c with stackStats := { c.stackStats with
    sampledLaunches := c.stackStats.sampledLaunches + 1 } } pid stackID sl

def applyKernelName (c : BatchConsumer) (n : KernelNameRecord) : BatchConsumer :=
  let c := c.countRecord
  { c with toOutlet := c.toOutlet.learnKernelNameLocked cfg.accepts n }

def emitModuleLocked (c : BatchConsumer) (rec : ModuleLoad) : BatchConsumer :=
  let ev : GPUModule :=
    { ref := { backend := cfg.backend, crc := rec.cubinCRC }, sizeBytes := rec.sizeBytes,
      loadedNs := rec.loadNs }
  { c with
    toOutlet := c.toOutlet.emit cfg.accepts (.module ev)
    recordStats := { c.recordStats with
      modulesDecoded := c.recordStats.modulesDecoded + 1 } }

def pcSampleEvent (pid : Nat) (rec : PCSample) : GPUPCSample :=
  { correlation := correlationID cfg pid rec.correlation,
    module := { backend := cfg.backend, crc := rec.cubinCRC }, clockDomain := .cpuMonotonic,
    pcOffset := rec.pcOffset, functionIndex := rec.functionIndex, count := rec.count }

def emitPCSampleLocked (pid : Nat) (c : BatchConsumer) (rec : PCSample) : BatchConsumer :=
  let (_, c) := c.correlationOf cfg pid rec.correlation
  { c with
    toOutlet := c.toOutlet.deliverPCSample cfg.accepts (pcSampleEvent cfg pid rec) rec.stallIndex
    recordStats := { c.recordStats with
      pcSamplesDecoded := c.recordStats.pcSamplesDecoded + 1
      pcSamplesWithoutCorrelation :=
        c.recordStats.pcSamplesWithoutCorrelation + if rec.correlation = 0 then 1 else 0 } }

def applyStallReason (c : BatchConsumer) (s : StallReason) : BatchConsumer :=
  let c := c.countRecord
  { c with toOutlet := c.toOutlet.learnStallNameLocked cfg.accepts s }

def noteSamplingWindows (c : BatchConsumer) (pid lost : Nat) (ws : List WireWindow) : BatchConsumer :=
  let r := Consumer.noteSamplingWindows
    (fun sent w => (sent ++ [.samplingWindow w], cfg.accepts (sent ++ [.samplingWindow w])))
    (c.toConsumer, c.sent) pid lost ws
  { c with toConsumer := r.1, sent := r.2 }

def noteConfigLocked (c : BatchConsumer) (config : Config) : BatchConsumer :=
  { c with
    config := config
    configSeen := true
    recordStats := { c.recordStats with
      configsDecoded := c.recordStats.configsDecoded + 1
      configsDisagreed := c.recordStats.configsDisagreed +
        if c.configSeen ∧ config ≠ c.config then 1 else 0
      configSamplingFactor := config.samplingFactor
      configSMCount := config.smCount
      configClockHz := config.clockHz } }

/-- One class of loss is handed to the sink, and the others are only counted. -/
def noteDropLocked (pid : Nat) (c : BatchConsumer) (d : Dropped) : BatchConsumer :=
  let c := { c with recordStats := { c.recordStats with
    dropsDecoded := c.recordStats.dropsDecoded + 1 } }
  if d.class_ ≠ dropClassGraphExec then
    { c with recordStats := { c.recordStats with
      dropsUnconsumed := c.recordStats.dropsUnconsumed + 1 } }
  else
    { c with
      toOutlet := c.toOutlet.emit cfg.accepts
        (.graphExecutions { backend := cfg.backend, pid := pid, count := UInt64.ofNat d.count })
      recordStats := { c.recordStats with
        graphExecReports := c.recordStats.graphExecReports + 1
        graphExecutions := c.recordStats.graphExecutions + UInt64.ofNat d.count } }

/-- The switch of `applyBatch`. -/
def applyRecords (env : StackEnv) (c : BatchConsumer) (b : Batch) (lost : Nat) : BatchConsumer :=
  match b.kind with
  | .launch => b.launches.foldl (applyLaunch cfg b.pid) c
  | .exec => b.execs.foldl (applyExec cfg b.pid) c
  | .launchSampled =>
    -- one capture per batch, so a failed one is counted once per batch
    let c := { c with stackStats := { c.stackStats with
      stacksMissing := c.stackStats.stacksMissing + if b.stackID < 0 then 1 else 0 } }
    b.sampledLaunches.foldl (applyLaunchSampled cfg env b.pid b.stackID) c
  | .kernelName => b.kernelNames.foldl (applyKernelName cfg) c
  | .module => b.modules.foldl (fun c m => c.countRecord.emitModuleLocked cfg m) c
  | .pc => b.pcSamples.foldl (fun c p => c.countRecord.emitPCSampleLocked cfg b.pid p) c
  | .stallMap => b.stallReasons.foldl (applyStallReason cfg) c
  | .samplingWindow => c.noteSamplingWindows cfg b.pid lost b.samplingWindows
  | .config => b.configs.foldl (fun c config => c.countRecord.noteConfigLocked config) c
  | .dropped => b.drops.foldl (fun c d => c.countRecord.noteDropLocked cfg b.pid d) c
  | .other _ =>
    { c with recordStats := { c.recordStats with
      undecoded := c.recordStats.undecoded + b.rawCount } }

/-- The start of `applyBatch`: what a batch of any kind does. -/
def beginBatch (c : BatchConsumer) (b : Batch) : Nat × BatchConsumer :=
  let (lost, base) := c.toConsumer.noteSeq b.kind.wire b.pid b.seq
  let c := { c with
    toConsumer := { base with stats := { base.stats with batches := base.stats.batches + 1 } } }
  (lost, if b.kind = .launchSampled then c else c.releaseDeferredLocked cfg)

def applyBatch (env : StackEnv) (c : BatchConsumer) (b : Batch) : BatchConsumer :=
  let (lost, c) := c.beginBatch cfg b
  c.applyRecords cfg env b lost

/-- Release everything that is held: the launches first, since a launch that is released can
still have to wait for a name. -/
def flush (c : BatchConsumer) : BatchConsumer :=
  let c := c.releaseDeferredLocked cfg
  { c with
    toOutlet := (c.toOutlet.releaseUnnamedAllLocked cfg.accepts).releaseUnresolvedStallAllLocked cfg.accepts }

end BatchConsumer

inductive ConsumerCall where
  | applyBatch (b : Batch) (env : StackEnv)
  | flush

def BatchConsumer.call (cfg : ConsumerConfig) (c : BatchConsumer) : ConsumerCall → BatchConsumer
  | .applyBatch b env => c.applyBatch cfg env b
  | .flush => c.flush cfg

def consumed (cfg : ConsumerConfig) (calls : List ConsumerCall) : BatchConsumer :=
  calls.foldl (BatchConsumer.call cfg) (newConsumer cfg)

end PerfAgent.Gpuprobe
