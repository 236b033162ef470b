import PerfAgent.Gpu.PCLabels
import PerfAgent.Gpu.Sink

/-!
# The health lines of a snapshot

`JoinHealthWith` of `gpu/joinhealth.go`: a summary line, the standing warnings, and a line for each
anomaly.  The conditions of `joinAnomalies` are grouped here as they are in the source, and the
summary quotes how many lines follow it.
-/

namespace PerfAgent.Gpu

open List

/-- A snapshot as the caller hands it over: with the statistics of the sink, and with counters that are
machine words. -/
structure ReportedSnapshot extends Snapshot where
  sinkStats : SinkStats
  executions_lt : executions.length < 2 ^ 63
  exact_lt : joinStats.exactExecutionJoinCount < 2 ^ 64
  notSerialized_lt : executionsNotSerialized < 2 ^ 64

/-- `uint64` addition of three counters. -/
def sum64 (a b c : Nat) : Nat := (a + b + c) % 2 ^ 64

def joinHealthPrefix : String := "gpu join"

def joinAnomalyPrefix : String := "gpu join ANOMALY"

def plural (n : Nat) (one many : String) : String := if n = 1 then "1 " ++ one else toString n ++ " " ++ many

/-- `snap.TierAGraphRefused`. -/
def Snapshot.tierAGraphRefused (snap : Snapshot) : Prop := snap.pcSampling = .serialized ∧ 0 < snap.graphExecutions

instance (snap : Snapshot) : Decidable snap.tierAGraphRefused := inferInstanceAs (Decidable (_ ∧ _))

/-- `PCSamplingTier.String`. -/
def PCSamplingTier.text : PCSamplingTier → String
  | .off => "off"
  | .continuous => "continuous"
  | .serialized => "serialized"

/-! ## The standing warning -/

def pcSamplingWarningPrefix : String := "gpu pc sampling WARNING"

def pcSamplingStandingWarning (tier : PCSamplingTier) : List String :=
  if tier ≠ .serialized then []
  else
    let p := pcSamplingWarningPrefix ++ ": "
    [ p ++ "Tier A (\"serialized\", CUPTI KERNEL_SERIALIZED) PC sampling was selected for this " ++
        "run — the profiler deliberately perturbs the workload it is measuring. This warning " ++
        "stands for the whole run, not just at startup. It names three distinct " ++
        "perturbations, because an operator told only about the first will misread the " ++
        "other two.",
      p ++ "(1) GPU KERNEL DURATIONS INSIDE A BURST ARE INFLATED by serialization — kernels " ++
        "that would have overlapped ran one at a time. Those executions are marked " ++
        "gpu_serialized=\"true\"; executions that cannot be shown to have run outside every " ++
        "burst are marked \"unknown\" and must never be read as \"false\".",
      p ++ "(2) CPU AND OFF-CPU SAMPLES TAKEN DURING A BURST ARE DISTORTED AND CARRY NO MARKING " ++
        "AT ALL. gpu_serialized reaches only the GPU projection (ProjectExecutions); the " ++
        "on-CPU and off-CPU profilers are a separate path with no window awareness, and " ++
        "serialization inflates precisely the synchronization wait that off-CPU profiling " ++
        "exists to measure. cudaDeviceSynchronize-shaped off-CPU time will look worse than " ++
        "it is, with nothing in that profile saying why.",
      p ++ "(3) TIER A IS UNAVAILABLE WHERE CUDA GRAPHS ARE IN USE. A graph launch fires one " ++
        "runtime callback for N kernels, so Tier A's exact-launch attribution would be false " ++
        "while still looking exact. Both ends refuse rather than downgrading silently to " ++
        "Tier B: the producer stops opening bursts in such a process, so the profile carries " ++
        "no further Tier A PC samples, and this agent withdraws the claim on what did " ++
        "arrive — those executions are marked gpu_graph_refused=\"true\" and their " ++
        "gpu_pc_attrib becomes \"graph-refused\" rather than \"exact\". If that happens " ++
        "you will see it as an anomaly below, not as a quiet absence." ]

/-! ## The summary -/

def executionsText (snap : ReportedSnapshot) : String :=
  let js := snap.joinStats
  let execs := snap.executions.length
  if execs = 0 then "no executions"
  else if js.exactExecutionJoinCount = execs then plural execs "execution" "executions" ++ ", all exact"
  else
    plural execs "execution" "executions" ++ " (" ++ toString js.exactExecutionJoinCount ++ " exact, " ++
      toString js.heuristicExecutionJoinCount ++ " heuristic, " ++ toString js.unmatchedExecutionCount ++ " unmatched)"

def launchesText (snap : ReportedSnapshot) : String :=
  let js := snap.joinStats
  if js.launchCount = 0 then "; no launches"
  else if js.unmatchedLaunchCount = 0 then "; " ++ plural js.launchCount "launch" "launches" ++ ", all matched"
  else
    "; " ++ plural js.launchCount "launch" "launches" ++ " (" ++ toString js.matchedLaunchCount ++ " matched, " ++
      toString js.unmatchedLaunchCount ++ " unmatched)"

def pcSamplesText (snap : ReportedSnapshot) : String :=
  if 0 < snap.attributedPCSamples ∨ 0 < snap.pendingSamples then
    "; pc samples " ++ toString snap.attributedPCSamples ++ " attributed, " ++ toString snap.pendingSamples ++
      " pending" ++
      if 0 < snap.pcJoin.attributedExact ∧ 0 < snap.pcJoin.attributedKernel then
        " (" ++ toString snap.pcJoin.attributedExact ++ " exact, " ++ toString snap.pcJoin.attributedKernel ++
          " by kernel)"
      else if 0 < snap.pcJoin.attributedKernel then " by kernel"
      else ""
  else ""

def pendingModuleText (snap : ReportedSnapshot) : String :=
  if 0 < snap.pendingModuleSamples then
    "; " ++ plural snap.pendingModuleSamples "correlation-less pc sample" "correlation-less pc samples" ++
      " pending over " ++ plural snap.pendingModuleGroups "kernel group" "kernel groups"
  else ""

def graphsText (snap : ReportedSnapshot) : String :=
  if 0 < snap.graphExecutions then
    if snap.tierAGraphRefused then
      "; " ++ plural snap.graphExecutions "execution" "executions" ++
        " from CUDA graphs — TIER A EXACT ATTRIBUTION WITHDRAWN on " ++ toString snap.executionsGraphRefused ++
        " executions"
    else
      "; " ++ plural snap.graphExecutions "execution" "executions" ++
        " from CUDA graphs (this tier joins through the module, not the launch, and is unaffected)"
  else ""

def tierText (snap : ReportedSnapshot) : String :=
  if snap.pcSampling ≠ .off then "; pc sampling " ++ snap.pcSampling.text else ""

def serializationText (snap : ReportedSnapshot) : String :=
  if 0 < snap.executionsSerialized ∨ 0 < snap.executionsSerializationUnknown ∨ 0 < snap.samplingWindowsReceived then
    "; serialization " ++ toString snap.executionsSerialized ++ " true, " ++ toString snap.executionsNotSerialized ++
      " false, " ++ toString snap.executionsSerializationUnknown ++ " unknown over " ++
      plural snap.samplingWindowsHeld "burst" "bursts"
  else ""

def warningsText : Nat → String
  | 0 => ""
  | 1 => "; 1 standing warning line"
  | n => "; " ++ toString n ++ " standing warning lines"

def anomaliesText : Nat → String
  | 0 => "; no anomalies"
  | 1 => "; 1 anomaly"
  | n => "; " ++ toString n ++ " anomalies"

def joinSummary (snap : ReportedSnapshot) (warnings anomalies : Nat) : String :=
  joinHealthPrefix ++ ": " ++ executionsText snap ++ launchesText snap ++
    ("; cache " ++ toString snap.launchCache.live ++ " live") ++ pcSamplesText snap ++ pendingModuleText snap ++
    graphsText snap ++ tierText snap ++ serializationText snap ++ warningsText warnings ++ anomaliesText anomalies

/-! ## The anomalies -/

/-- `add` under a condition. -/
def raise (cond : Prop) [Decidable cond] (line : String) : List String :=
  if cond then [joinAnomalyPrefix ++ ": " ++ line] else []

/-- Nothing arrived, or the counters disagree with the executions in hand. -/
def outcomeAnomalies (snap : ReportedSnapshot) : List String :=
  let js := snap.joinStats
  let execs := snap.executions.length
  let outcomes := sum64 js.exactExecutionJoinCount js.heuristicExecutionJoinCount js.unmatchedExecutionCount
  let serialization :=
    sum64 snap.executionsSerialized snap.executionsNotSerialized snap.executionsSerializationUnknown
  raise (execs = 0) ("no executions in this snapshot — nothing was attributed at all; " ++
        "check the probe attachment and the sink before reading anything below") ++
    raise (outcomes ≠ execs)
      ("join outcomes sum to " ++ toString outcomes ++ " but the snapshot holds " ++ toString execs ++
        " executions — the join counters disagree with what is actually present; treat every figure below as " ++
        "unreliable") ++
    raise (serialization ≠ execs)
      ("serialization outcomes sum to " ++ toString serialization ++ " but the snapshot holds " ++ toString execs ++
        " executions — some execution carries no gpu_serialized disclosure at all; treat every duration in this " ++
        "profile as unqualified")

/-- What is known of the serialization, and the refusal of CUDA graphs. -/
def serializationAnomalies (snap : ReportedSnapshot) : List String :=
  let execs := snap.executions.length
  let cause :=
    if snap.samplingWindowsReceived = 0 then
      "NOT ONE window record reached the agent, though Tier A was selected — the producer never bursted, the " ++
        "probe never attached, or every batch was lost"
    else "a dropped batch, a late attach, a sequence gap, or a burst that never closed"
  raise (0 < snap.executionsSerialized) (toString snap.executionsSerialized ++ " of " ++ toString execs ++
        " executions ran while GPU kernels were SERIALIZED by the profiler — their durations are inflated by the " ++
        "measurement and are marked gpu_serialized=\"true\". CPU and off-CPU samples taken during those bursts are " ++
        "distorted too and carry no marking at all") ++
    raise (0 < snap.executionsSerializationUnknown)
      (toString snap.executionsSerializationUnknown ++ " of " ++ toString execs ++
        " executions cannot be said to have run unperturbed — no sampling window covers them (" ++ cause ++
        "). They are marked gpu_serialized=\"unknown\" and MUST NOT be read as \"false\"") ++
    raise snap.tierAGraphRefused
      (plural snap.graphExecutions "kernel execution" "kernel executions" ++ " launched from CUDA GRAPHS in " ++
        plural snap.graphExecProcesses "process" "processes" ++
        ", and Tier A (\"serialized\") PC sampling was selected — ONE graph launch fires ONE runtime callback for N " ++
        "kernels and gpu_exec_v1 carries no graph id, so those executions share one correlation and one CPU stack. " ++
        "Tier A's exact-launch attribution is FALSE here while still looking exact. It is withdrawn rather than " ++
        "downgraded: " ++ toString snap.executionsGraphRefused ++ " of " ++ toString execs ++
        " executions in this snapshot carry gpu_graph_refused=\"true\", and " ++
        plural snap.pcJoin.graphRefusedAttributions "execution" "executions" ++
        " had gpu_pc_attrib turned from \"exact\" to \"" ++ PCAttrib.graphRefused.text ++
        "\". Their durations and sample weights are real measurements and are kept; only the attribution claim is " ++
        "gone. The producer has also stopped opening bursts in that process. Re-run with " ++
        "--gpu-pc-sampling=continuous, which joins through the module rather than through the launch and is " ++
        "unaffected by graphs") ++
    raise (snap.tierAGraphRefused ∧ 0 < snap.executionsGraphRefused)
      ("the graph refusal is RETROACTIVE within a snapshot but not across one — the producer learns an execution " ++
        "came from a graph on its activity drain, up to a drain interval after the kernel ran, so every execution " ++
        "this Timeline still held is marked above, but any snapshot already EMITTED before the first graph report " ++
        "arrived carries executions labelled gpu_pc_attrib=\"exact\" that this one would have refused. A run that " ++
        "snapshots once, at the end, has no such executions") ++
    raise (0 < snap.graphExecUnscoped ∨ 0 < snap.graphExecTrackingCapped)
      ("the CUDA-graph refusal lost its per-process scope (" ++ toString snap.graphExecUnscoped ++
        " executions reported with no pid, " ++ toString snap.graphExecTrackingCapped ++
        " processes past the tracker's bound) and now applies to EVERY execution in this snapshot — the safe " ++
        "direction, and a wider mark than the evidence supports; have the producer set the pid on gpu_dropped_v1, " ++
        "or profile fewer processes at once") ++
    raise (0 < snap.samplingWindowsOpen) (plural snap.samplingWindowsOpen "sampling window" "sampling windows" ++
        " still open — the producer stopped reporting mid-burst (a hard exit), so the end of the burst is unknown " ++
        "and every execution from its start onward is gpu_serialized=\"unknown\"") ++
    raise (0 < snap.dropped.evictedSamplingWindows)
      (plural snap.dropped.evictedSamplingWindows "sampling window" "sampling windows" ++
        " evicted from the serialization disclosure store — executions that far back degrade from \"false\" to " ++
        "\"unknown\"; raise TimelineConfig.MaxSamplingWindowsPerPID or snapshot more often")

def joinQualityAnomalies (snap : ReportedSnapshot) : List String :=
  let js := snap.joinStats
  let execs := snap.executions.length
  raise (0 < js.unmatchedExecutionCount) (toString js.unmatchedExecutionCount ++ " of " ++ toString execs ++
        " executions unmatched — GPU time arrived with no launch to attach it to; it is in the profile under " ++
        "[gpu:launch unsampled] carrying no CPU stack") ++
    raise (0 < js.heuristicExecutionJoinCount) (toString js.heuristicExecutionJoinCount ++ " of " ++ toString execs ++
        " executions joined heuristically — matched on queue, kernel name and timing rather than vendor " ++
        "correlation; the CPU stack may be another launch's from the same process") ++
    raise (0 < js.correlationlessExecutionCount)
      (toString js.correlationlessExecutionCount ++ " of " ++ toString execs ++
        " executions arrived with no vendor correlation — spec §6 requires one on every execution, so a producer " ++
        "is violating its own contract; these can only be guessed at, never joined exactly") ++
    raise (0 < js.crossProcessHeuristicBlockedCount)
      (plural js.crossProcessHeuristicBlockedCount "heuristic join" "heuristic joins" ++
        " refused because the candidate launch could not be shown to come from the same process — those executions " ++
        "are unattributed rather than billed to another process's call stack and container; have the producer set " ++
        "CorrelationID.PID") ++
    raise (0 < js.ambiguousHeuristicMatchCount)
      (plural js.ambiguousHeuristicMatchCount "heuristic join" "heuristic joins" ++
        " flagged ambiguous — more than one launch qualified and one was chosen; these are the least trustworthy " ++
        "stacks in the profile") ++
    raise (0 < js.outOfWindowDropCount) (toString js.outOfWindowDropCount ++
        " of the unmatched executions had a candidate launch just outside LaunchEventJoinWindowNs — widen that " ++
        "window or snapshot more often")

/-- Launches that the cache lost.  Reaching the bound is not by itself a loss. -/
def launchCacheAnomalies (snap : ReportedSnapshot) : List String :=
  let lc := snap.launchCache
  raise (0 < lc.evictedCapacityUnjoined)
      ("launch cache evicted " ++ plural lc.evictedCapacityUnjoined "launch" "launches" ++
        " at capacity BEFORE their execution arrived (" ++ toString lc.live ++ " live, " ++
        toString lc.evictedCapacity ++ " evicted in total) — that GPU time is in the profile with no CPU stack. The " ++
        "cache is too small for the launch-to-execution latency at this rate: raise " ++
        "TimelineConfig.LaunchCache.Capacity, or snapshot more often so executions join sooner") ++
    raise (0 < lc.evictedHorizon) ("launch cache evicted " ++ plural lc.evictedHorizon "launch" "launches" ++
        " past HorizonNs — they aged out before their execution arrived; raise the horizon if kernels sit queued " ++
        "that long") ++
    raise (0 < lc.replaced) ("launch cache replaced " ++ plural lc.replaced "live entry" "live entries" ++
        " — the same correlation ID came back while still live; the earlier launch and its stack are gone") ++
    raise (0 < lc.anomalousTimestamp) (plural lc.anomalousTimestamp "launch" "launches" ++
        " carried an out-of-range timestamp — the producer's clock is suspect and horizon eviction is running " ++
        "against a clamped anchor")

def pcJoinAnomalies (snap : ReportedSnapshot) : List String :=
  let pj := snap.pcJoin
  raise (0 < pj.ambiguousAttributions) (plural pj.ambiguousAttributions "execution" "executions" ++
        " carrying PC samples attributed by kernel with more than one execution of that kernel in the snapshot — " ++
        "the stall detail is on the right kernel but not provably on the right invocation; these samples are " ++
        "marked " ++ PCAttrib.kernelAmbiguous.text ++
        ", which is NOT the same flag as an ambiguous heuristic launch join") ++
    raise (0 < pj.multiDeviceProcesses) (plural pj.multiDeviceProcesses "process" "processes" ++
        " ran kernels on more than one device — PC samples carry no device id and one binary has one cubin CRC on " ++
        "both, so their samples cannot be told apart; " ++
        plural pj.multiDeviceAttributions "execution" "executions" ++ " are marked " ++
        PCAttrib.kernelMultiDevice.text ++ ". PC sampling is single-GPU in this phase") ++
    raise (0 < pj.deviceTrackingCapped) (plural pj.deviceTrackingCapped "process" "processes" ++
        " could not be admitted to the multi-device guard (it is full) and are being treated as single-device — a " ++
        "second device in one of them would go unmarked") ++
    raise (0 < pj.groupsUnresolvedName)
      (plural pj.groupsUnresolvedName "correlation-less PC group" "correlation-less PC groups" ++
        " could not be resolved to a device function — no cubin for that CRC reached the agent, it was evicted, or " ++
        "the function index is not in its symbol table; those samples stay pending and will age out unattributed " ++
        "rather than be attached to a nearby kernel") ++
    raise (0 < pj.groupsNoProcess)
      (plural pj.groupsNoProcess "correlation-less PC group" "correlation-less PC groups" ++
        " arrived naming no process — every process that names none shares one key, so they cannot be joined to any " ++
        "execution without risking another process's kernel; have the producer set CorrelationID.PID")

def evictionAnomalies (snap : ReportedSnapshot) : List String :=
  let dr := snap.dropped
  raise (0 < dr.evictedPendingSamples) (plural dr.evictedPendingSamples "PC sample" "PC samples" ++
        " evicted while waiting for their execution — never attributed, so the stall detail on those kernels is " ++
        "under-reported") ++
    raise (0 < dr.evictedPendingModuleSamples)
      (plural dr.evictedPendingModuleSamples "correlation-less PC sample" "correlation-less PC samples" ++
        " evicted while waiting for their kernel — these carried no correlation, so they were grouped by module and " ++
        "function; the group index is too small, its horizon too short, or their executions never arrived at all") ++
    raise (0 < dr.evictedExecutions) (plural dr.evictedExecutions "execution" "executions" ++
        " evicted from the timeline ring before this snapshot — that GPU time is missing from the profile entirely; " ++
        "snapshot more often or raise the capacity") ++
    raise (0 < dr.evictedEvents) (plural dr.evictedEvents "timeline event" "timeline events" ++
        " evicted before this snapshot — raise TimelineConfig.EventCapacity") ++
    raise (0 < dr.evictedModules) (plural dr.evictedModules "module" "modules" ++
        " evicted before this snapshot — kernels from evicted modules resolve to bare addresses")

def projectionAnomalies (proj : ProjectionStats) : List String :=
  raise (0 < proj.pcLabelsSuppressed) (plural proj.pcLabelsSuppressed.toNat "PC sample" "PC samples" ++
      " projected without gpu_pc — this profile reached its ceiling of " ++ toString proj.pcLabelCap.toNat ++
      " distinct instruction offsets, so those samples keep their stall reason and source line but carry no offset; " ++
      "the workload is loading far more distinct hot code than the cardinality budget expects, or " ++
      "ProjectionConfig.MaxDistinctPCLabels is set too low")

def SinkStats.listed (s : SinkStats) : List (String × String × EventKindStats) :=
  [("launch", "launches", s.launches), ("execution", "executions", s.execs), ("PC sample", "PC samples", s.pcSamples),
    ("module", "modules", s.modules), ("timeline event", "timeline events", s.events)]

/-- `lost`. -/
def EventKindStats.lost (k : EventKindStats) : Nat := sum64 k.droppedFull k.droppedInvalid k.droppedDownstream

def sinkAnomalies (s : SinkStats) : List String :=
  s.listed.flatMap fun (one, many, stats) =>
    raise (stats.lost ≠ 0)
      ("sink dropped " ++ plural stats.lost one many ++ " at admission (" ++ toString stats.droppedFull ++ " full, " ++
        toString stats.droppedInvalid ++ " invalid, " ++ toString stats.droppedDownstream ++
        " downstream) — they never reached the timeline, so no join counter above accounts for them")

def joinAnomalies (snap : ReportedSnapshot) (proj : ProjectionStats) : List String :=
  outcomeAnomalies snap ++ serializationAnomalies snap ++ joinQualityAnomalies snap ++ launchCacheAnomalies snap ++
    pcJoinAnomalies snap ++ evictionAnomalies snap ++ projectionAnomalies proj ++ sinkAnomalies snap.sinkStats

def joinHealthWith (snap : ReportedSnapshot) (proj : ProjectionStats) : List String :=
  let warnings := pcSamplingStandingWarning snap.pcSampling
  let anomalies := joinAnomalies snap proj
  joinSummary snap warnings.length anomalies.length :: (warnings ++ anomalies)

def joinHealth (snap : ReportedSnapshot) : List String :=
  joinHealthWith snap { distinctPCLabels := 0, pcLabelCap := 0, pcLabelsSuppressed := 0 }

/-! ## The count in the first line -/

def ReportsNone (lines : List String) : Prop := ∃ line ∈ lines.head?, "; no anomalies".toList <:+ line.toList

theorem getLast?_eq_of_suffix {α : Type} {l m : List α} (h : l <:+ m) (hne : l ≠ []) : m.getLast? = l.getLast? := by
  obtain ⟨k, rfl⟩ := h
  exact getLast?_append_of_ne_nil k hne

theorem toList_toString (n : Nat) : (toString n).toList = Nat.toDigits 10 n := by
  rw [Nat.toString_eq_repr, Nat.repr_eq_ofList_toDigits, String.toList_ofList]

theorem getLast?_toDigits_ne (n : Nat) (c : Char) (hc : c.isDigit = false) (l : List Char) :
    (l ++ Nat.toDigits 10 n).getLast? ≠ some c := by
  have hne : Nat.toDigits 10 n ≠ [] := Nat.toDigits_ne_nil
  rw [getLast?_append_of_ne_nil l hne]
  intro h
  have hdigit := Nat.isDigit_of_mem_toDigits (by decide) (by decide) (mem_of_getLast? h)
  rw [hc] at hdigit
  cases hdigit

theorem suffix_anomaliesText (body : String) (n : Nat) :
    "; no anomalies".toList <:+ (body ++ anomaliesText n).toList ↔ n = 0 := by
  constructor
  · intro h
    match n with
    | 0 => rfl
    | 1 =>
      rw [String.toList_append] at h
      have hlast := getLast?_eq_of_suffix h (by decide)
      rw [getLast?_append_of_ne_nil _ (by decide)] at hlast
      exact absurd hlast (by decide)
    | n + 2 =>
      have htext : (body ++ anomaliesText (n + 2)).toList =
          body.toList ++ "; ".toList ++ Nat.toDigits 10 (n + 2) ++ " anomalies".toList := by
        show (body ++ ("; " ++ toString (n + 2) ++ " anomalies")).toList = _
        rw [String.toList_append, String.toList_append, String.toList_append, toList_toString]
        simp only [append_assoc]
      have hnone : "; no anomalies".toList = "; no".toList ++ " anomalies".toList := by decide
      rw [htext, hnone] at h
      obtain ⟨k, hk⟩ := h
      rw [← append_assoc] at hk
      have hcut := append_cancel_right hk
      have hlast : (k ++ "; no".toList).getLast? = some 'o' := by
        rw [getLast?_append_of_ne_nil k (by decide)]
        decide
      rw [hcut] at hlast
      exact absurd hlast (getLast?_toDigits_ne _ 'o' (by decide) _)
  · rintro rfl
    rw [String.toList_append]
    exact suffix_append _ _

theorem reportsNone_iff (snap : ReportedSnapshot) (proj : ProjectionStats) :
    ReportsNone (joinHealthWith snap proj) ↔ joinAnomalies snap proj = [] := by
  rw [← length_eq_zero_iff, ← suffix_anomaliesText _ (joinAnomalies snap proj).length]
  constructor
  · rintro ⟨line, hline, hsuffix⟩
    cases hline
    exact hsuffix
  · exact fun h => ⟨_, rfl, h⟩

/-! ## What no anomalies means -/

structure EventKindStats.Whole (k : EventKindStats) : Prop where
  full : k.droppedFull = 0
  invalid : k.droppedInvalid = 0
  downstream : k.droppedDownstream = 0

def SinkStats.kinds (s : SinkStats) : List EventKindStats :=
  [s.launches, s.execs, s.pcSamples, s.modules, s.events, s.samplingWindows]

/-- The kinds that have a line in the last loop: all but the sampling windows. -/
def SinkStats.listedKinds (s : SinkStats) : List EventKindStats :=
  [s.launches, s.execs, s.pcSamples, s.modules, s.events]

/-- Nothing was lost, and everything was joined exactly and ran unperturbed. -/
structure NothingLost (snap : ReportedSnapshot) (proj : ProjectionStats) : Prop where
  executions : 0 < snap.executions.length
  joins : snap.joinStats.exactExecutionJoinCount + snap.joinStats.heuristicExecutionJoinCount +
    snap.joinStats.unmatchedExecutionCount = snap.executions.length
  serializations : snap.executionsSerialized + snap.executionsNotSerialized + snap.executionsSerializationUnknown =
    snap.executions.length
  allExact : snap.joinStats.exactExecutionJoinCount = snap.executions.length
  allUnperturbed : snap.executionsNotSerialized = snap.executions.length
  timeline : snap.dropped = {}
  capacity : snap.launchCache.evictedCapacityUnjoined = 0
  horizon : snap.launchCache.evictedHorizon = 0
  replaced : snap.launchCache.replaced = 0
  labels : proj.pcLabelsSuppressed = 0
  sink : ∀ k ∈ snap.sinkStats.kinds, k.Whole

/-- The health lines are honest: a clean first line means that nothing was lost, and the first line counts
the lines that follow. -/
structure HonestHealth (snap : ReportedSnapshot) (proj : ProjectionStats) : Prop where
  clean : ReportsNone (joinHealthWith snap proj) → NothingLost snap proj
  counted : ∃ warnings anomalies, (joinHealthWith snap proj).head? = some (joinSummary snap warnings anomalies) ∧
    (joinHealthWith snap proj).length = 1 + warnings + anomalies

/-! ### The conditions, group by group -/

@[simp] theorem raise_eq_nil {cond : Prop} [Decidable cond] {line : String} : raise cond line = [] ↔ ¬cond := by
  unfold raise
  split
  · next h => exact ⟨nofun, fun hno => absurd h hno⟩
  · next h => exact ⟨fun _ => h, fun _ => rfl⟩

/-- No counter of a snapshot that is looked at, but for those of the sink, is in a bad state. -/
structure Unraised (snap : ReportedSnapshot) (proj : ProjectionStats) : Prop where
  executions : snap.executions.length ≠ 0
  outcomes : sum64 snap.joinStats.exactExecutionJoinCount snap.joinStats.heuristicExecutionJoinCount
    snap.joinStats.unmatchedExecutionCount = snap.executions.length
  serialization : sum64 snap.executionsSerialized snap.executionsNotSerialized snap.executionsSerializationUnknown =
    snap.executions.length
  serialized : snap.executionsSerialized = 0
  unknown : snap.executionsSerializationUnknown = 0
  graphs : ¬snap.tierAGraphRefused
  unscoped : snap.graphExecUnscoped = 0
  graphsCapped : snap.graphExecTrackingCapped = 0
  windowsOpen : snap.samplingWindowsOpen = 0
  unmatched : snap.joinStats.unmatchedExecutionCount = 0
  heuristic : snap.joinStats.heuristicExecutionJoinCount = 0
  correlationless : snap.joinStats.correlationlessExecutionCount = 0
  crossProcess : snap.joinStats.crossProcessHeuristicBlockedCount = 0
  ambiguous : snap.joinStats.ambiguousHeuristicMatchCount = 0
  outOfWindow : snap.joinStats.outOfWindowDropCount = 0
  capacity : snap.launchCache.evictedCapacityUnjoined = 0
  horizon : snap.launchCache.evictedHorizon = 0
  replaced : snap.launchCache.replaced = 0
  timestamps : snap.launchCache.anomalousTimestamp = 0
  pcAmbiguous : snap.pcJoin.ambiguousAttributions = 0
  multiDevice : snap.pcJoin.multiDeviceProcesses = 0
  devicesCapped : snap.pcJoin.deviceTrackingCapped = 0
  unresolved : snap.pcJoin.groupsUnresolvedName = 0
  noProcess : snap.pcJoin.groupsNoProcess = 0
  timeline : snap.dropped = {}
  labels : proj.pcLabelsSuppressed = 0

section Groups

variable (snap : ReportedSnapshot) (proj : ProjectionStats)

theorem outcomeAnomalies_eq_nil : outcomeAnomalies snap = [] ↔ snap.executions.length ≠ 0 ∧
      sum64 snap.joinStats.exactExecutionJoinCount snap.joinStats.heuristicExecutionJoinCount
        snap.joinStats.unmatchedExecutionCount = snap.executions.length ∧
      sum64 snap.executionsSerialized snap.executionsNotSerialized snap.executionsSerializationUnknown =
        snap.executions.length := by
  simp only [outcomeAnomalies, append_eq_nil_iff, raise_eq_nil, Decidable.not_not, and_assoc, ne_eq]

theorem serializationAnomalies_eq_nil : serializationAnomalies snap = [] ↔
      snap.executionsSerialized = 0 ∧ snap.executionsSerializationUnknown = 0 ∧ ¬snap.tierAGraphRefused ∧
      (snap.graphExecUnscoped = 0 ∧ snap.graphExecTrackingCapped = 0) ∧ snap.samplingWindowsOpen = 0 ∧
      snap.dropped.evictedSamplingWindows = 0 := by
  have hretroactive : ¬snap.tierAGraphRefused ∧ ¬(snap.tierAGraphRefused ∧ 0 < snap.executionsGraphRefused) ↔
      ¬snap.tierAGraphRefused := ⟨And.left, fun h => ⟨h, fun h' => h h'.1⟩⟩
  simp only [serializationAnomalies, append_eq_nil_iff, raise_eq_nil, Nat.not_lt, Nat.le_zero, not_or, and_assoc]
  rw [← and_assoc (a := ¬snap.tierAGraphRefused), hretroactive]

theorem joinQualityAnomalies_eq_nil : joinQualityAnomalies snap = [] ↔
      snap.joinStats.unmatchedExecutionCount = 0 ∧ snap.joinStats.heuristicExecutionJoinCount = 0 ∧
      snap.joinStats.correlationlessExecutionCount = 0 ∧ snap.joinStats.crossProcessHeuristicBlockedCount = 0 ∧
      snap.joinStats.ambiguousHeuristicMatchCount = 0 ∧ snap.joinStats.outOfWindowDropCount = 0 := by
  simp only [joinQualityAnomalies, append_eq_nil_iff, raise_eq_nil, Nat.not_lt, Nat.le_zero, and_assoc]

theorem launchCacheAnomalies_eq_nil : launchCacheAnomalies snap = [] ↔
      snap.launchCache.evictedCapacityUnjoined = 0 ∧ snap.launchCache.evictedHorizon = 0 ∧
      snap.launchCache.replaced = 0 ∧ snap.launchCache.anomalousTimestamp = 0 := by
  simp only [launchCacheAnomalies, append_eq_nil_iff, raise_eq_nil, Nat.not_lt, Nat.le_zero, and_assoc]

theorem pcJoinAnomalies_eq_nil : pcJoinAnomalies snap = [] ↔
      snap.pcJoin.ambiguousAttributions = 0 ∧ snap.pcJoin.multiDeviceProcesses = 0 ∧
      snap.pcJoin.deviceTrackingCapped = 0 ∧ snap.pcJoin.groupsUnresolvedName = 0 ∧
      snap.pcJoin.groupsNoProcess = 0 := by
  simp only [pcJoinAnomalies, append_eq_nil_iff, raise_eq_nil, Nat.not_lt, Nat.le_zero, and_assoc]

theorem evictionAnomalies_eq_nil : evictionAnomalies snap = [] ↔
      snap.dropped.evictedPendingSamples = 0 ∧ snap.dropped.evictedPendingModuleSamples = 0 ∧
      snap.dropped.evictedExecutions = 0 ∧ snap.dropped.evictedEvents = 0 ∧ snap.dropped.evictedModules = 0 := by
  simp only [evictionAnomalies, append_eq_nil_iff, raise_eq_nil, Nat.not_lt, Nat.le_zero, and_assoc]

theorem projectionAnomalies_eq_nil : projectionAnomalies proj = [] ↔ proj.pcLabelsSuppressed = 0 := by
  have hzero : ¬0 < proj.pcLabelsSuppressed ↔ proj.pcLabelsSuppressed = 0 := by
    rw [UInt64.lt_iff_toNat_lt, ← UInt64.toNat_inj]
    exact Nat.not_lt.trans Nat.le_zero
  rw [projectionAnomalies, raise_eq_nil, hzero]

theorem sinkAnomalies_eq_nil (s : SinkStats) : sinkAnomalies s = [] ↔ ∀ k ∈ s.listedKinds, k.lost = 0 := by
  simp only [sinkAnomalies, SinkStats.listed, SinkStats.listedKinds, flatMap_cons, flatMap_nil, append_eq_nil_iff, raise_eq_nil,
    Decidable.not_not, forall_mem_cons, ne_eq, not_mem_nil, false_implies, implies_true, and_true]

theorem dropped_eq_empty : snap.dropped = {} ↔
      snap.dropped.evictedSamplingWindows = 0 ∧ snap.dropped.evictedPendingSamples = 0 ∧
      snap.dropped.evictedPendingModuleSamples = 0 ∧ snap.dropped.evictedExecutions = 0 ∧
      snap.dropped.evictedEvents = 0 ∧ snap.dropped.evictedModules = 0 := by
  rcases snap.dropped with ⟨execs, events, modules, samples, moduleSamples, windows⟩
  rw [TimelineDropStats.mk.injEq]
  tauto

/-- There are no anomalies if and only if no counter is in a bad state, and the drops of the five kinds
that are listed add up to zero. -/
theorem joinAnomalies_eq_nil :
    joinAnomalies snap proj = [] ↔ Unraised snap proj ∧ sinkAnomalies snap.sinkStats = [] := by
  rw [joinAnomalies]
  simp only [append_eq_nil_iff, outcomeAnomalies_eq_nil, serializationAnomalies_eq_nil,
    joinQualityAnomalies_eq_nil, launchCacheAnomalies_eq_nil, pcJoinAnomalies_eq_nil, evictionAnomalies_eq_nil,
    projectionAnomalies_eq_nil]
  constructor
  · rintro ⟨⟨⟨⟨⟨⟨⟨hout, hser⟩, hjoin⟩, hcache⟩, hpc⟩, hevict⟩, hproj⟩, hsink⟩
    obtain ⟨hexecs, houtcomes, hserialization⟩ := hout
    obtain ⟨hserialized, hunknown, hgraphs, ⟨hunscoped, hcapped⟩, hopen, hwindows⟩ := hser
    obtain ⟨hunmatched, hheuristic, hcorrelationless, hcross, hambiguous, houtOfWindow⟩ := hjoin
    obtain ⟨hcapacity, hhorizon, hreplaced, htimestamps⟩ := hcache
    obtain ⟨hpcAmbiguous, hmulti, hdevices, hunresolved, hnoProcess⟩ := hpc
    refine ⟨?_, hsink⟩
    exact ⟨hexecs, houtcomes, hserialization, hserialized, hunknown, hgraphs, hunscoped, hcapped, hopen, hunmatched,
      hheuristic, hcorrelationless, hcross, hambiguous, houtOfWindow, hcapacity, hhorizon, hreplaced, htimestamps,
      hpcAmbiguous, hmulti, hdevices, hunresolved, hnoProcess, (dropped_eq_empty snap).mpr ⟨hwindows, hevict⟩, hproj⟩
  · rintro ⟨h, hsink⟩
    obtain ⟨hwindows, hevict⟩ := (dropped_eq_empty snap).mp h.timeline
    refine ⟨⟨⟨⟨⟨⟨⟨?_, ?_⟩, ?_⟩, ?_⟩, ?_⟩, hevict⟩, h.labels⟩, hsink⟩
    · exact ⟨h.executions, h.outcomes, h.serialization⟩
    · exact ⟨h.serialized, h.unknown, h.graphs, ⟨h.unscoped, h.graphsCapped⟩, h.windowsOpen, hwindows⟩
    · exact ⟨h.unmatched, h.heuristic, h.correlationless, h.crossProcess, h.ambiguous, h.outOfWindow⟩
    · exact ⟨h.capacity, h.horizon, h.replaced, h.timestamps⟩
    · exact ⟨h.pcAmbiguous, h.multiDevice, h.devicesCapped, h.unresolved, h.noProcess⟩

end Groups

/-! ## When the health lines are honest -/

/-- What the last loop does not see is not there: no sampling window was dropped, and the drops of each of
the other kinds add up to a machine word. -/
structure DropsSeen (s : SinkStats) : Prop where
  windows : s.samplingWindows.Whole
  fits : ∀ k ∈ s.listedKinds, k.droppedFull + k.droppedInvalid + k.droppedDownstream < 2 ^ 64

theorem EventKindStats.whole_iff {k : EventKindStats} (h : k.lost = 0) :
    k.Whole ↔ k.droppedFull + k.droppedInvalid + k.droppedDownstream < 2 ^ 64 := by
  constructor
  · rintro ⟨hfull, hinvalid, hdownstream⟩
    rw [hfull, hinvalid, hdownstream]
    decide
  · intro hlt
    rw [lost, sum64, Nat.mod_eq_of_lt hlt] at h
    exact ⟨by omega, by omega, by omega⟩

theorem SinkStats.mem_kinds {s : SinkStats} {P : EventKindStats → Prop} :
    (∀ k ∈ s.kinds, P k) ↔ (∀ k ∈ s.listedKinds, P k) ∧ P s.samplingWindows := by
  have happend : s.kinds = s.listedKinds ++ [s.samplingWindows] := rfl
  rw [happend, forall_mem_append, forall_mem_singleton]

section Honest

variable {snap : ReportedSnapshot} {proj : ProjectionStats}

theorem Unraised.nothingLost (h : Unraised snap proj) (hsink : ∀ k ∈ snap.sinkStats.kinds, k.Whole) :
    NothingLost snap proj := by
  have hexact := snap.exact_lt
  have hnot := snap.notSerialized_lt
  have hjoins := h.outcomes
  rw [h.heuristic, h.unmatched, sum64, Nat.add_zero, Nat.mod_eq_of_lt hexact] at hjoins
  have hserializations := h.serialization
  rw [h.serialized, h.unknown, sum64, Nat.zero_add, Nat.add_zero, Nat.mod_eq_of_lt hnot] at hserializations
  constructor
  · exact Nat.pos_of_ne_zero h.executions
  · rw [h.heuristic, h.unmatched, hjoins, Nat.add_zero]
  · rw [h.serialized, h.unknown, hserializations, Nat.zero_add, Nat.add_zero]
  · exact hjoins
  · exact hserializations
  · exact h.timeline
  · exact h.capacity
  · exact h.horizon
  · exact h.replaced
  · exact h.labels
  · exact hsink

/-- The health lines are honest if and only if a snapshot with no raised condition has no drops that the
last loop does not see. -/
theorem honestHealth_iff (snap : ReportedSnapshot) (proj : ProjectionStats) : HonestHealth snap proj ↔
      (Unraised snap proj → (∀ k ∈ snap.sinkStats.listedKinds, k.lost = 0) → DropsSeen snap.sinkStats) := by
  constructor
  · intro h hunraised hlost
    have hnone : joinAnomalies snap proj = [] :=
      (joinAnomalies_eq_nil snap proj).mpr ⟨hunraised, (sinkAnomalies_eq_nil snap.sinkStats).mpr hlost⟩
    have hsink := (h.clean ((reportsNone_iff snap proj).mpr hnone)).sink
    obtain ⟨hlisted, hwindows⟩ := SinkStats.mem_kinds.mp hsink
    exact ⟨hwindows, fun k hk => (EventKindStats.whole_iff (hlost k hk)).mp (hlisted k hk)⟩
  · intro h
    constructor
    · intro hreports
      obtain ⟨hunraised, hsinks⟩ := (joinAnomalies_eq_nil snap proj).mp ((reportsNone_iff snap proj).mp hreports)
      have hlost := (sinkAnomalies_eq_nil snap.sinkStats).mp hsinks
      have hseen := h hunraised hlost
      apply hunraised.nothingLost
      apply (SinkStats.mem_kinds (P := EventKindStats.Whole)).mpr
      exact ⟨fun k hk => (EventKindStats.whole_iff (hlost k hk)).mpr (hseen.fits k hk), hseen.windows⟩
    · refine ⟨_, _, rfl, ?_⟩
      rw [joinHealthWith, length_cons, List.length_append]
      omega

end Honest

theorem oneNotSerialized_lt : 1 < 2 ^ 64 := by decide

/-- One kernel, joined exactly and before the burst that was reported; the sink has dropped another
sampling window. -/
def droppedWindow : ReportedSnapshot where
  executions := [{ exec := default, join := .exact, serialized := .notSerialized }]
  events := []
  modules := []
  joinStats := { launchCount := 1, matchedLaunchCount := 1, exactExecutionJoinCount := 1 }
  launchCache := { live := 1 }
  dropped := {}
  attributedPCSamples := 0
  pendingSamples := 0
  pendingCorrelations := 0
  pendingModuleSamples := 0
  pendingModuleGroups := 0
  pcJoin := {}
  pcSampling := .serialized
  samplingWindowsReceived := 1
  samplingWindowsHeld := 1
  samplingWindowsOpen := 0
  executionsSerialized := 0
  executionsNotSerialized := 1
  executionsSerializationUnknown := 0
  graphExecutions := 0
  graphExecProcesses := 0
  graphExecUnscoped := 0
  graphExecTrackingCapped := 0
  executionsGraphRefused := 0
  sinkStats := { samplingWindows := { accepted := 1, droppedFull := 1 } }
  executions_lt := by decide
  exact_lt := by decide
  notSerialized_lt := oneNotSerialized_lt

/-- The first line says that there are no anomalies. -/
theorem not_honestHealth :
    ¬HonestHealth droppedWindow { distinctPCLabels := 0, pcLabelCap := 0, pcLabelsSuppressed := 0 } := by
  intro h
  have hnone : joinAnomalies droppedWindow { distinctPCLabels := 0, pcLabelCap := 0, pcLabelsSuppressed := 0 } = [] := by
    decide
  have hsink := (h.clean ((reportsNone_iff _ _).mpr hnone)).sink
  have hwindows := (SinkStats.mem_kinds.mp hsink).2
  exact absurd hwindows.full (by decide)

end PerfAgent.Gpu
