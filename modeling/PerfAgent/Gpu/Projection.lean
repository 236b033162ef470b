import PerfAgent.Gpu.Snapshot
import PerfAgent.Gpu.ModuleStore
import PerfAgent.Pprof.Builder

/-!
# The projection of a snapshot

`gpu/projection.go`: what a joined snapshot becomes in a profile.  An execution is one sample of its own
duration, or, if it has PC samples, one for each of them, and these share the duration by their counts.

The module store goes on changing while a projection runs, so its answer to each question is an input.
The division of a 128-bit product panics where the quotient does not fit, and the projection is `none` then.
-/

namespace PerfAgent.Gpu

open Pprof (ascii ProfileSample)

def utf8 (s : String) : List UInt8 := s.toUTF8.toList

abbrev Labels := AssocMap (List UInt8) (List UInt8)

variable (l : Labels)

def Labels.set (name : String) (value : List UInt8) : Labels := AssocMap.put l (ascii name) value

/-- `strconv.FormatUint` to base 10. -/
def formatUint (n : Nat) : List UInt8 := ascii (toString n)

/-! ## Frames -/

def Frame.toProf (f : Frame) : Pprof.Frame where
  name := utf8 f.name
  file := utf8 f.file
  line := UInt32.ofNat f.line
  startLine := UInt32.ofNat f.startLine
  module := utf8 f.module
  address := UInt64.ofNat f.address
  buildID := utf8 f.buildID
  mapStart := UInt64.ofNat f.mapStart
  mapLimit := UInt64.ofNat f.mapLimit
  mapOff := UInt64.ofNat f.mapOff
  isKernel := f.isKernel
  unresolved := f.unresolved

def frameLaunch : List UInt8 := ascii "[gpu:launch]"

def frameLaunchUnsampled : List UInt8 := ascii "[gpu:launch unsampled]"

def sampledStack (view : ExecutionView) : Option (List Frame) :=
  match view.launch with
  | none => none
  | some launch => if launch.launch.cpuStack = [] then none else some launch.launch.cpuStack

def projectionFrames (view : ExecutionView) : List Pprof.Frame :=
  (if view.exec.kernelName ≠ "" then
    [{ name := ascii "[gpu:kernel:" ++ utf8 view.exec.kernelName ++ ascii "]" }] else []) ++
  match sampledStack view with
  | some stack => { name := frameLaunch } :: stack.map Frame.toProf
  | none => [{ name := frameLaunchUnsampled }]

/-! ## Labels -/

def projectionPID (view : ExecutionView) : Nat :=
  match view.launch with
  | some launch => launch.launch.pid
  | none => 0

def labelPID (view : ExecutionView) : Nat :=
  if projectionPID view ≠ 0 then projectionPID view else view.exec.correlation.pid

def pcSampleReservedLabels : List String :=
  ["gpu_stall", "gpu_pc", "gpu_pc_attrib", "gpu_src_status", "gpu_src_file", "gpu_src_line", "gpu_src_func"]

def JoinKind.label : JoinKind → String
  | .exact => "exact"
  | .heuristic => "heuristic"
  | .unjoined => "unmatched"

def SerializationState.label : SerializationState → String
  | .serialized => "true"
  | .notSerialized => "false"
  | .unknown => "unknown"

def launchTags (view : ExecutionView) : AssocMap String String :=
  match view.launch with
  | some launch => launch.launch.tags
  | none => ∅

def samplePeriod (view : ExecutionView) : Nat :=
  match sampledStack view, view.launch with
  | some _, some launch => launch.launch.samplePeriod
  | _, _ => 0

def projectionLabels (view : ExecutionView) (omitCorrelation : Bool) : Labels :=
  let l : Labels := (launchTags view).entries.foldl (fun l e => AssocMap.put l (utf8 e.1) (utf8 e.2)) ∅
  let l := pcSampleReservedLabels.foldl (fun l name => AssocMap.del l (ascii name)) l
  let l := if labelPID view ≠ 0 then Labels.set l "gpu_pid" (formatUint (labelPID view)) else l
  let l := if view.exec.queue.queueID ≠ "" then Labels.set l "gpu_queue" (utf8 view.exec.queue.queueID) else l
  let l :=
    if view.exec.queue.device.deviceID ≠ "" then Labels.set l "gpu_device" (utf8 view.exec.queue.device.deviceID)
    else l
  let l :=
    if omitCorrelation then AssocMap.del l (ascii "gpu_correlation")
    else if view.exec.correlation.present then
      Labels.set l "gpu_correlation"
        (utf8 view.exec.correlation.backend ++ ascii ":" ++ utf8 view.exec.correlation.value)
    else l
  let l := Labels.set l "gpu_join" (ascii view.join.label)
  let l := if view.ambiguous then Labels.set l "gpu_ambiguous" (ascii "true") else l
  let l := AssocMap.del l (ascii "gpu_graph_refused")
  let l := if view.graphRefused then Labels.set l "gpu_graph_refused" (ascii "true") else l
  let l := Labels.set l "gpu_serialized" (ascii view.serialized.label)
  if 0 < samplePeriod view then Labels.set l "gpu_sample_period" (formatUint (samplePeriod view)) else l

def PCAttrib.text : PCAttrib → String
  | .empty => ""
  | .exact => "exact"
  | .kernel => "kernel"
  | .kernelAmbiguous => "kernel-ambiguous"
  | .kernelMultiDevice => "kernel-multidevice"
  | .graphRefused => "graph-refused"

def projectionPCAttrib (view : ExecutionView) : String :=
  if pcAttribRank view.pcAttrib = 0 then "unset-pc-attrib" else view.pcAttrib.text

def SrcStatus.text : SrcStatus → String
  | .resolved => "resolved"
  | .noLineInfo => "no-lineinfo"
  | .noModule => "no-module"
  | .unmapped => "unmapped"

def srcFileBase (file : List UInt8) : List UInt8 :=
  if file = [] then []
  else
    let base := Pprof.pathBase file
    if base = ascii "." ∨ base = ascii "/" then [] else base

def setSourceLabels (res : Resolution) : Labels :=
  let l := Labels.set l "gpu_src_status" (ascii res.status.text)
  if res.status ≠ .resolved then l
  else
    let l :=
      if srcFileBase (utf8 res.file) ≠ [] then Labels.set l "gpu_src_file" (srcFileBase (utf8 res.file)) else l
    let l := if res.function ≠ "" then Labels.set l "gpu_src_func" (utf8 res.function) else l
    Labels.set l "gpu_src_line" (formatUint res.line)

/-! ## What executions share -/

/-- `labelKey`. -/
structure LabelKey where
  pid : Nat
  queue : String
  device : String
  join : JoinKind
  ambiguous : Bool
  graphRefused : Bool
  serialized : SerializationState
  samplePeriod : Nat
deriving DecidableEq

structure ProjectionMemo where
  frameMemo : AssocMap String (List Pprof.Frame) := ∅
  labelMemo : AssocMap LabelKey Labels := ∅

variable (m : Option ProjectionMemo)

def ProjectionMemo.frames (view : ExecutionView) : Option ProjectionMemo × List Pprof.Frame :=
  match m with
  | none => (none, projectionFrames view)
  | some memo =>
    if (sampledStack view).isSome then (some memo, projectionFrames view)
    else
      match memo.frameMemo.find? view.exec.kernelName with
      | some f => (some memo, f)
      | none =>
        (some { memo with frameMemo := memo.frameMemo.put view.exec.kernelName (projectionFrames view) },
          projectionFrames view)

def labelKey (view : ExecutionView) : LabelKey where
  pid := labelPID view
  queue := view.exec.queue.queueID
  device := view.exec.queue.device.deviceID
  join := view.join
  ambiguous := view.ambiguous
  graphRefused := view.graphRefused
  serialized := view.serialized
  samplePeriod := samplePeriod view

def ProjectionMemo.labels (view : ExecutionView) (omitCorrelation : Bool) : Option ProjectionMemo × Labels :=
  match m with
  | none => (none, projectionLabels view omitCorrelation)
  | some memo =>
    if omitCorrelation = false ∨ 0 < (launchTags view).size then (some memo, projectionLabels view omitCorrelation)
    else
      match memo.labelMemo.find? (labelKey view) with
      | some l => (some memo, l)
      | none =>
        (some { memo with labelMemo := memo.labelMemo.put (labelKey view) (projectionLabels view omitCorrelation) },
          projectionLabels view omitCorrelation)

/-- `PCLabelBudget`; the offsets that were admitted are kept once each. -/
structure PCLabelBudget where
  seen : List Nat := []
  ceiling : Nat
  suppressed : UInt64 := 0

def PCLabelBudget.admits (b : PCLabelBudget) (pcOffset : Nat) : PCLabelBudget × Bool :=
  if pcOffset ∈ b.seen then (b, true)
  else if b.ceiling ≤ b.seen.length then ({ b with suppressed := b.suppressed + 1 }, false)
  else ({ b with seen := pcOffset :: b.seen }, true)

/-! ## Weights -/

def executionWeight (exec : GPUKernelExec) : UInt64 :=
  if UInt64.ofNat exec.endNs ≤ UInt64.ofNat exec.startNs then 1
  else UInt64.ofNat exec.endNs - UInt64.ofNat exec.startNs

/-- `bits.Mul64`. -/
def mul64 (x y : UInt64) : UInt64 × UInt64 := (UInt64.ofNat (x.toNat * y.toNat / 2 ^ 64), x * y)

/-- The quotient of `bits.Div64`, which panics if it does not fit. -/
def div64 (hi lo y : UInt64) : Option UInt64 :=
  if y = 0 ∨ y ≤ hi then none else some (UInt64.ofNat ((hi.toNat * 2 ^ 64 + lo.toNat) / y.toNat))

def pcCount (s : GPUPCSample) : UInt64 := if UInt64.ofNat s.count < 1 then 1 else UInt64.ofNat s.count

def addResidue (execWeight : UInt64) (weights : List UInt64) : List UInt64 :=
  let distributed := weights.foldl (· + ·) 0
  if distributed < execWeight then weights.modify (weights.length - 1) (· + (execWeight - distributed)) else weights

def distributeExecutionWeight (execWeight : UInt64) (pcs : List GPUPCSample) : Option (List UInt64) :=
  if pcs = [] then some []
  else
    let counts := pcs.map pcCount
    let totalCount := counts.foldl (· + ·) 0
    let share c := div64 (mul64 execWeight c).1 (mul64 execWeight c).2 totalCount
    (counts.mapM share).map (addResidue execWeight)

/-! ## The projection -/

/-- A projection under way; each sample comes with the index of its execution. -/
structure Projection where
  memo : Option ProjectionMemo
  budget : PCLabelBudget
  samples : List (ProfileSample × Nat) := []

/-- The sample of an execution that has no PC samples, and what those of one that has share. -/
def baseSample (view : ExecutionView) (frames : List Pprof.Frame) (labels : Labels) (value : UInt64) : ProfileSample where
  pid := UInt32.ofNat (projectionPID view)
  sampleType := .gpu
  aggregated := true
  stack := frames
  value := value
  labels := labels

/-- One PC sample, with the answer of the module store and its share. -/
def Projection.addPCSample (viewIndex : Nat) (view : ExecutionView) (frames : List Pprof.Frame) (common : Labels)
    (p : Projection) (pc : GPUPCSample × Resolution × UInt64) : Projection :=
  let l := if pc.1.stallReason ≠ "" then Labels.set common "gpu_stall" (utf8 pc.1.stallReason) else common
  let (budget, admitted) := p.budget.admits pc.1.pcOffset
  let l :=
    if admitted then Labels.set l "gpu_pc" (ascii "0x" ++ Pprof.hexOf (UInt64.ofNat pc.1.pcOffset)) else l
  let l := Labels.set l "gpu_pc_attrib" (ascii (projectionPCAttrib view))
  let l := setSourceLabels l pc.2.1
  { p with budget := budget, samples := p.samples ++ [(baseSample view frames l pc.2.2, viewIndex)] }

def Projection.addView (omitCorrelation : Bool) (answers : Nat → Nat → Resolution) (p : Projection)
    (v : ExecutionView × Nat) : Option Projection :=
  let (memo, frames) := ProjectionMemo.frames p.memo v.1
  let (memo, common) := ProjectionMemo.labels memo v.1 omitCorrelation
  let p := { p with memo := memo }
  if v.1.pcSamples = [] then
    some { p with samples := p.samples ++ [(baseSample v.1 frames common (executionWeight v.1.exec), v.2)] }
  else
    let pcs := v.1.pcSamples.map Emission.sample
    (distributeExecutionWeight (executionWeight v.1.exec) pcs).map fun weights =>
      (pcs.zip (((List.range pcs.length).map (answers v.2)).zip weights)).foldl
        (Projection.addPCSample v.2 v.1 frames common) p

/-- `ProjectExecutionsWith`: the samples and the budget afterwards. -/
def projectExecutionsWith (omitCorrelation : Bool) (answers : Nat → Nat → Resolution) (budget : PCLabelBudget)
    (snap : Snapshot) : Option (List (ProfileSample × Nat) × PCLabelBudget) :=
  (snap.executions.zipIdx.foldlM (Projection.addView omitCorrelation answers)
    { memo := if omitCorrelation then some {} else none, budget := budget }).map fun p => (p.samples, p.budget)

end PerfAgent.Gpu
