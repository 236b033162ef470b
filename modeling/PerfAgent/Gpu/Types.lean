import PerfAgent.Lib.AssocMap

/-!
# The normalized GPU event model

The records of `gpu/types.go` and `gpu/pcattrib.go` that the timeline, its launch
cache and its serialization disclosure read or hand on.  Unsigned counters and
timestamps are natural numbers; an operation that can wrap says so where it is
defined.  A Go string type whose values are a closed set is an inductive type here,
with the empty string as a constructor of its own.
-/

namespace PerfAgent.Gpu

abbrev GPUBackendID := String

structure GPUDeviceRef where
  backend : GPUBackendID := ""
  deviceID : String := ""
  name : String := ""
deriving DecidableEq, Inhabited

structure GPUQueueRef where
  backend : GPUBackendID := ""
  device : GPUDeviceRef := {}
  queueID : String := ""
deriving DecidableEq, Inhabited

structure GPUExecutionRef where
  backend : GPUBackendID := ""
  deviceID : String := ""
  queueID : String := ""
  contextID : String := ""
  execID : String := ""
deriving DecidableEq, Inhabited

/-- Ties a launch to its later execution and sample events.  A vendor value is
unique only within one process, so the process is part of the identity. -/
structure CorrelationID where
  backend : GPUBackendID := ""
  pid : Nat := 0
  value : String := ""
deriving DecidableEq, Inhabited

/-- Whether a correlation was supplied at all: the value is the whole of the
answer, since backend and process are known regardless. -/
def CorrelationID.present (c : CorrelationID) : Bool := c.value != ""

inductive ClockDomain where
  | invalid
  | cpuMonotonic
  | synced
  | gpuDevice
  | other (raw : Nat)
deriving DecidableEq, Inhabited

/-- A symbolized CPU frame (`pprof.Frame`). -/
structure Frame where
  name : String := ""
  file : String := ""
  line : Nat := 0
  startLine : Nat := 0
  module : String := ""
  address : Nat := 0
  buildID : String := ""
  mapStart : Nat := 0
  mapLimit : Nat := 0
  mapOff : Nat := 0
  isKernel : Bool := false
  unresolved : Bool := false
deriving DecidableEq, Inhabited

structure LaunchContext where
  pid : Nat := 0
  tid : Nat := 0
  timeNs : Nat := 0
  cpuStack : List Frame := []
  samplePeriod : Nat := 0
  tags : AssocMap String String := ∅
deriving DecidableEq, Inhabited

structure GPUKernelLaunch where
  correlation : CorrelationID := {}
  queue : GPUQueueRef := {}
  kernelName : String := ""
  clockDomain : ClockDomain := .invalid
  timeNs : Nat := 0
  launch : LaunchContext := {}
deriving DecidableEq, Inhabited

structure GPUKernelExec where
  execution : GPUExecutionRef := {}
  correlation : CorrelationID := {}
  queue : GPUQueueRef := {}
  kernelName : String := ""
  clockDomain : ClockDomain := .invalid
  startNs : Nat := 0
  endNs : Nat := 0
deriving DecidableEq, Inhabited

structure ModuleRef where
  backend : GPUBackendID := ""
  crc : Nat := 0
deriving DecidableEq, Inhabited

structure GPUModule where
  ref : ModuleRef := {}
  sizeBytes : Nat := 0
  loadedNs : Nat := 0
deriving DecidableEq, Inhabited

structure GPUPCSample where
  correlation : CorrelationID := {}
  module : ModuleRef := {}
  functionIndex : Nat := 0
  clockDomain : ClockDomain := .invalid
  timeNs : Nat := 0
  pcOffset : Nat := 0
  stallReason : String := ""
  count : Nat := 0
deriving DecidableEq, Inhabited

/-- The PC-sampling collection mode of a window.  The wire carries a byte, so a
value outside the two modes and the unset one can reach the store. -/
inductive SamplingMode where
  | unset
  | continuous
  | kernelSerialized
  | other (raw : Nat)
deriving DecidableEq, Inhabited

/-- One PC-sampling burst as the sink receives it.  `endNs = 0` means the window
was still open when the producer stopped reporting. -/
structure GPUSamplingWindow where
  backend : GPUBackendID := ""
  pid : Nat := 0
  clockDomain : ClockDomain := .invalid
  startNs : Nat := 0
  endNs : Nat := 0
  mode : SamplingMode := .unset
  lost : Nat := 0
  nextStartDeltaMs : Nat := 0
deriving DecidableEq, Inhabited

/-- The producer's report that executions of a process came from a CUDA graph. -/
structure GPUGraphExecutions where
  backend : GPUBackendID := ""
  pid : Nat := 0
  count : UInt64 := 0
deriving DecidableEq, Inhabited

/-- Whether an execution's duration was perturbed by kernel serialization.  The
zero value of the source is `unknown`. -/
inductive SerializationState where
  | unknown
  | serialized
  | notSerialized
deriving DecidableEq, Inhabited

inductive TimelineEventKind where
  | runtime
  | syscall
  | ioctl
  | submit
  | wait
  | context
  | queue
  | memory
  | device
  | other (name : String)
deriving DecidableEq, Inhabited

structure GPUTimelineEvent where
  backend : GPUBackendID := ""
  kind : TimelineEventKind := .runtime
  family : String := ""
  name : String := ""
  clockDomain : ClockDomain := .invalid
  timeNs : Nat := 0
  durationNs : Nat := 0
  pid : Nat := 0
  tid : Nat := 0
  device : Option GPUDeviceRef := none
  queue : Option GPUQueueRef := none
  contextID : String := ""
  fd : Int := 0
  resultCode : Int := 0
  driver : String := ""
  source : String := ""
  confidence : String := ""
  attributes : AssocMap String String := ∅
deriving DecidableEq, Inhabited

inductive PCSamplingTier where
  | off
  | continuous
  | serialized
deriving DecidableEq, Inhabited

/-- How the PC samples of an execution reached it; `empty` is the value of an
execution that holds none. -/
inductive PCAttrib where
  | empty
  | exact
  | kernel
  | kernelAmbiguous
  | kernelMultiDevice
  | graphRefused
deriving DecidableEq, Inhabited

/-- How much doubt a value carries: its position in the precedence order. -/
def pcAttribRank : PCAttrib → Nat
  | .empty => 0
  | .exact => 1
  | .kernel => 2
  | .kernelAmbiguous => 3
  | .kernelMultiDevice => 4
  | .graphRefused => 5

def worsePCAttrib (a b : PCAttrib) : PCAttrib :=
  if pcAttribRank b > pcAttribRank a then b else a

inductive JoinKind where
  | unjoined
  | exact
  | heuristic
deriving DecidableEq, Inhabited

end PerfAgent.Gpu
