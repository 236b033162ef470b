import PerfAgent.Gpu.Projection
import PerfAgent.Gpu.Execlog

/-!
# The GPU profiler

`gpuprofile/profiler.go`: what a drain of the timeline does to the profile and to the executions log.  All
samples are GPU samples and profiles are not split by process, so there is one builder.  Opening, aborting and
renaming the log file is not modelled; a log that is abandoned is gone.
-/

namespace PerfAgent.Gpuprofile

open Gpu Gpu.Execlog

structure Config where
  perExecutionSamples : Bool := false
  builder : Pprof.Options

structure Profiler where
  builder : Pprof.ProfileBuilder := {}
  samples : Nat := 0
  executions : UInt64 := 0
  execLog : Option Writer := none
  execLogErr : Option String := none
  pcLabels : PCLabelBudget
  pcSuppressed : UInt64 := 0
  distinctPCs : UInt64 := 0
  pcLabelCap : UInt64 := 0
  dropped : TimelineDropStats := {}
  /-- The rows that were added to the log. -/
  rows : List Row := []

/-- What a drain is given: a snapshot, and the answers of the module store to its PC samples. -/
structure DrainInput where
  snap : Snapshot
  answers : Nat → Nat → Resolution

def snapshotOf (views : List ExecutionView) : Snapshot where
  executions := views
  events := []
  modules := []
  joinStats := {}
  launchCache := {}
  dropped := {}
  attributedPCSamples := 0
  pendingSamples := 0
  pendingCorrelations := 0
  pendingModuleSamples := 0
  pendingModuleGroups := 0
  pcJoin := {}
  pcSampling := .continuous
  samplingWindowsReceived := 0
  samplingWindowsHeld := 0
  samplingWindowsOpen := 0
  executionsSerialized := 0
  executionsNotSerialized := 0
  executionsSerializationUnknown := 0
  graphExecutions := 0
  graphExecProcesses := 0
  graphExecUnscoped := 0
  graphExecTrackingCapped := 0
  executionsGraphRefused := 0

def backendCUPTI : GPUBackendID := "cupti"

variable (cfg : Config)

/-- `strconv.ParseUint` to base 10, for 64 bits. -/
def parseUint64 (s : String) : Option UInt64 :=
  if s ≠ "" ∧ s.toList.all Char.isDigit then
    let n := s.toList.foldl (fun n c => n * 10 + (c.toNat - 48)) 0
    if n < 2 ^ 64 then some (UInt64.ofNat n) else none
  else none

namespace Profiler

def abandonExecLog (p : Profiler) (err : String) : Profiler := { p with execLog := none, execLogErr := some err }

/-- The end of `logRowLocked`: a row that can be represented. -/
def addRow (p : Profiler) (w : Writer) (row : Row) : Profiler :=
  let w := w.add row
  let p := { p with execLog := some w, rows := p.rows ++ [row] }
  match w.err with
  | some err => p.abandonExecLog err
  | none => p

def logRow (p : Profiler) (w : Writer) (sample : Nat) (execution : UInt64) (corr : CorrelationID) (value : UInt64) :
    Profiler :=
  if 2 ^ 32 - 1 < sample then p.abandonExecLog s!"aggregated sample index {sample} out of range"
  else if corr.present then
    match parseUint64 corr.value with
    | some v =>
      if corr.backend ≠ backendCUPTI then
        p.abandonExecLog s!"correlation {corr.backend}:{corr.value} is not a {backendCUPTI}:<uint64> id"
      else
        p.addRow w
          { sample := UInt32.ofNat sample, execution := execution, hasCorrelation := true, correlation := v,
            value := value }
    | none => p.abandonExecLog s!"correlation {corr.backend}:{corr.value} is not a {backendCUPTI}:<uint64> id"
  else p.addRow w { sample := UInt32.ofNat sample, execution := execution, value := value }

def drainSample (snap : Snapshot) (base : UInt64) (p : Profiler) (s : Pprof.ProfileSample × Nat) : Profiler :=
  let (builder, idx) := p.builder.addSample cfg.builder { s.1 with aggregated := false }
  let p := { p with builder := builder }
  match p.execLog with
  | none => p
  | some w =>
    let corr := (snap.executions[s.2]?.map fun v => v.exec.correlation).getD {}
    p.logRow w idx (base + UInt64.ofNat s.2) corr s.1.value

def countDrain (p : Profiler) (snap : Snapshot) (samples : Nat) (budget : PCLabelBudget) : Profiler :=
  { p with
    pcLabels := budget
    pcSuppressed := p.pcSuppressed + (budget.suppressed - p.pcLabels.suppressed)
    distinctPCs := UInt64.ofNat budget.seen.length
    pcLabelCap := UInt64.ofNat budget.ceiling
    dropped := snap.dropped
    executions := p.executions + UInt64.ofNat snap.executions.length
    samples := p.samples + samples }

/-- `drain`; a projection that panics ends the process. -/
def drain (p : Profiler) (d : DrainInput) : Option Profiler :=
  (projectExecutionsWith (!cfg.perExecutionSamples) d.answers p.pcLabels d.snap).map fun projected =>
    let base := p.executions
    let p := p.countDrain d.snap projected.1.length projected.2
    if cfg.perExecutionSamples then
      { p with builder := projected.1.foldl (fun b s => (b.addSample cfg.builder s.1).1) p.builder }
    else projected.1.foldl (drainSample cfg d.snap base) p

/-- The locked part of `Collect`: the samples that are written, and the log that is published.  `digest` is the sum
of what was written. -/
def collect (digest : List Pprof.Sample → Digest) (p : Profiler) :
    Profiler × Option (List Pprof.Sample) × Option (List UInt8) :=
  if p.builder.sample = [] then
    match p.execLog with
    | some _ => (p.abandonExecLog "no GPU samples were collected", none, none)
    | none => (p, none, none)
  else
    match p.execLog with
    | some w =>
      match (w.finish (UInt64.ofNat p.builder.sample.length) (digest p.builder.sample)).2 with
      | .ok file => ({ p with execLog := none }, some p.builder.sample, some file)
      | .error err => ({ p with execLog := none, execLogErr := some err }, some p.builder.sample, none)
    | none => (p, some p.builder.sample, none)

/-- The locked part of `Close`. -/
def close (p : Profiler) : Profiler := { p with execLog := none }

end Profiler

def start (h : Header) (budget : PCLabelBudget) : Profiler :=
  { pcLabels := budget, execLog := (create h).toOption }

end PerfAgent.Gpuprofile
