import PerfAgent.Lib.AssocMap
import PerfAgent.Pprof.Frames

/-!
# The OTLP exporter

`Exporter` of `metrics/otlp/exporter.go` with the device locks of `metrics/otlp/locks.go`.  The worker, the calls of
`Export` and the calls of `Shutdown` each go on from one lock or channel operation to the next; a step is what is done
in between.  A call of `Export` holds the lock throughout, so it is one step.

The type of values stands for `float64`, of which the exporter needs only 0, 1, counts and which values are finite.
What the file system says about a lock and what the collector answers come with the steps.  Left out are `New`, the
resource and the scope of a request, and calls of `Export` that return before they take the lock.
-/

namespace PerfAgent.Metrics

open Pprof (ascii hasPrefix)

abbrev Text := List UInt8

/-! ## Metrics -/

structure Definition where
  name : Text := []
  unit : Text := []
  description : Text := []
deriving DecidableEq

inductive Reason where
  | ok
  | unsupported
  | readFailed
  | sourceUnavailable
  | notPresent
deriving DecidableEq

def Reason.text : Reason → Text
  | .ok => ascii "ok"
  | .unsupported => ascii "unsupported"
  | .readFailed => ascii "read_failed"
  | .sourceUnavailable => ascii "source_unavailable"
  | .notPresent => ascii "not_present"

def reasons : List Reason := [.ok, .unsupported, .readFailed, .sourceUnavailable, .notPresent]

def available : Text := ascii "gpu.telemetry.available"

def readErrors : Text := ascii "gpu.telemetry.read_errors"

def stateName (reason : Reason) : Text := ascii "gpu.telemetry.state." ++ reason.text

def sensorDefinitions : List (Text × Definition) := [
  (available, ⟨ascii "perf_agent.gpu.telemetry.available", ascii "1",
    ascii "Whether at least one supported sensor reading is available; state is reported separately"⟩),
  (readErrors, ⟨ascii "perf_agent.gpu.telemetry.read_errors", ascii "\x7breading\x7d",
    ascii "Number of transient sensor read errors in this poll; unsupported fields excluded"⟩),
  (ascii "gpu.temperature_celsius", ⟨ascii "perf_agent.gpu.temperature", ascii "Cel", ascii "GPU temperature"⟩),
  (ascii "gpu.power_watts", ⟨ascii "perf_agent.gpu.power", ascii "W",
    ascii "NVML power usage; averaging window depends on device and driver"⟩),
  (ascii "gpu.power_limit_watts", ⟨ascii "perf_agent.gpu.power.limit", ascii "W",
    ascii "Configured power management limit"⟩),
  (ascii "gpu.utilization_ratio", ⟨ascii "perf_agent.gpu.utilization", ascii "1",
    ascii "Fraction of NVML sample window with GPU kernels executing"⟩),
  (ascii "gpu.memory_activity_ratio", ⟨ascii "perf_agent.gpu.memory.activity", ascii "1",
    ascii "Fraction of NVML sample window with memory reads or writes; not capacity utilization"⟩),
  (ascii "gpu.sm_clock_hertz", ⟨ascii "perf_agent.gpu.clock.sm", ascii "Hz", ascii "SM clock frequency"⟩),
  (ascii "gpu.memory_clock_hertz", ⟨ascii "perf_agent.gpu.clock.memory", ascii "Hz", ascii "Memory clock frequency"⟩)]

def clockEvents : List Text :=
  [ascii "idle", ascii "application_clocks", ascii "power_cap", ascii "hardware_slowdown", ascii "sync_boost",
    ascii "software_thermal", ascii "hardware_thermal", ascii "hardware_power_brake", ascii "display_clock",
    ascii "board_limit", ascii "reliability"]

def memoryKinds : List Text := [ascii "total", ascii "used", ascii "free", ascii "reserved"]

def definitions : List (Text × Definition) :=
  sensorDefinitions ++
  reasons.map (fun reason => (stateName reason, ⟨ascii "perf_agent.gpu.telemetry.state." ++ reason.text, ascii "1",
    ascii "One-hot availability state; 1 for current state, otherwise 0"⟩)) ++
  memoryKinds.map (fun kind => (ascii "gpu.memory." ++ kind ++ ascii "_bytes",
    ⟨ascii "perf_agent.gpu.memory." ++ kind, ascii "By",
      ascii "Raw nvmlDeviceGetMemoryInfo_v2 " ++ kind ++ ascii " memory; driver accounting is preserved"⟩)) ++
  clockEvents.map (fun event => (ascii "gpu.clock_event_active." ++ event,
    ⟨ascii "perf_agent.gpu.clock_event_active." ++ event, ascii "1",
      ascii "NVML clock event state (0 or 1); idle is not thermal throttling"⟩))

def definition? (name : Text) : Option Definition := (definitions.find? fun d => d.1 = name).map Prod.snd

/-! ## Readings -/

/-- `GPUDeviceMetrics`; the zero time is 0. -/
structure Device (F : Type) where
  uuid : Text
  name : Text := []
  driverVersion : Text := []
  memoryAPIVersion : Text := []
  timestamp : ℕ
  values : AssocMap Text F := ∅
  unavailable : AssocMap Text Text := ∅
deriving DecidableEq

structure Reading (F : Type) where
  device : Device F
  reason : Reason
deriving DecidableEq

inductive Kind where
  | initial
  | sample
  | final
  | unavailable
  | other
deriving DecidableEq

/-- What `flock` says about a device that was not asked about before. -/
inductive LockAnswer where
  | held
  | contended
  | failed
deriving DecidableEq

/-- `MetricsSnapshot`, with what will be said about the lock of each device. -/
structure Snapshot (F : Type) where
  kind : Kind
  timestamp : ℕ
  devices : List (Device F × LockAnswer)

structure Stats where
  sentPoints : ℕ := 0
  failedPoints : ℕ := 0
  coalescedPoints : ℕ := 0
  droppedPoints : ℕ := 0
  contendedPoints : ℕ := 0
  unavailableRecords : ℕ := 0
  sentSensorPoints : ℕ := 0
  requests : ℕ := 0
  failedRequests : ℕ := 0
deriving DecidableEq

structure Exporter (F : Type) where
  pending : AssocMap Text (Reading F) := ∅
  /-- The files of the device locks; `false` is contention. -/
  files : AssocMap Text Bool := ∅
  stats : Stats := {}
  closing : Bool := false
  /-- The token in `wake`. -/
  wake : Bool := false
  /-- `workerCtx` has ended. -/
  cancelled : Bool := false
deriving DecidableEq

/-! ## Accepting -/

def maxDevices : ℕ := 128

/-- `deviceLocks.acquire`: whether the device is ours, or an error. -/
def acquire (files : AssocMap Text Bool) (uuid : Text) (answer : LockAnswer) : AssocMap Text Bool × Option Bool :=
  match files.find? uuid with
  | some held => (files, some held)
  | none =>
    if maxDevices ≤ files.size then (files, none)
    else
      match answer with
      | .held => (files.put uuid true, some true)
      | .contended => (files.put uuid false, some false)
      | .failed => (files, none)

section Export

variable {F : Type} [Zero F] [One F] [NatCast F] (finite : F → Bool)

/-- The states that `enqueue` adds to a reading. -/
def Reading.withState (r : Reading F) : Reading F :=
  { r with device.values :=
      reasons.foldl (fun vs reason => vs.put (stateName reason) (if r.reason = reason then 1 else 0)) r.device.values }

def Stats.coalesce (stats : Stats) : Option (Reading F) → Stats
  | some old => { stats with coalescedPoints := stats.coalescedPoints + old.device.values.size }
  | none => stats

def Exporter.enqueue (e : Exporter F) (r : Reading F) : Exporter F :=
  { e with
    stats := e.stats.coalesce (e.pending.find? r.device.uuid)
    pending := e.pending.put r.device.uuid r.withState }

def noReading (uuid : Text) (timestamp : ℕ) (reason : Reason) : Reading F where
  device := { uuid, timestamp, values := AssocMap.put ∅ available 0 }
  reason := reason

def Exporter.missing (e : Exporter F) (present : List Text) : List Text :=
  (e.files.entries.filter fun file => file.2 && !present.contains file.1).map Sigma.fst

def Exporter.enqueueMissing (e : Exporter F) (present : List Text) (timestamp : ℕ) (reason : Reason) : Exporter F :=
  (e.missing present).foldl (fun e uuid => e.enqueue (noReading uuid timestamp reason)) e

def Device.supported (d : Device F) : AssocMap Text F :=
  d.values.entries.foldl (fun vs v => if (definition? v.1).isSome && finite v.2 then vs.put v.1 v.2 else vs) ∅

def Device.reading (d : Device F) : Reading F :=
  let values := d.supported finite
  { device := { d with
      values := (values.put available (if values.size = 0 then 0 else 1)).put readErrors (d.unavailable.size : F)
      unavailable := ∅ }
    reason := if values.size = 0 then if d.unavailable.size = 0 then .unsupported else .readFailed else .ok }

def Exporter.exportDevice (e : Exporter F) (d : Device F × LockAnswer) : Exporter F :=
  let points := (d.1.supported finite).size
  if d.1.uuid = [] ∨ d.1.timestamp = 0 then
    { e with stats.droppedPoints := e.stats.droppedPoints + points }
  else
    match acquire e.files d.1.uuid d.2 with
    | (files, none) => { e with files := files, stats.droppedPoints := e.stats.droppedPoints + points }
    | (files, some false) => { e with files := files, stats.contendedPoints := e.stats.contendedPoints + points }
    | (files, some true) => { e with files := files }.enqueue (d.1.reading finite)

/-- What `Export` does before it looks at the devices. -/
def Exporter.exportKind (e : Exporter F) (s : Snapshot F) : Exporter F :=
  match s.kind with
  | .unavailable =>
    { e with stats.unavailableRecords := e.stats.unavailableRecords + 1 }.enqueueMissing [] s.timestamp
      .sourceUnavailable
  | .initial => e.enqueueMissing (s.devices.map fun d => d.1.uuid) s.timestamp .notPresent
  | _ => e

/-- `Export`. -/
def Exporter.exportSnapshot (e : Exporter F) (s : Snapshot F) : Except Text (Exporter F) :=
  if s.kind = .other then .ok e
  else if e.closing then .error (ascii "OTLP exporter is closed")
  else .ok { s.devices.foldl (Exporter.exportDevice finite) (e.exportKind s) with wake := true }

end Export

/-! ## Requests -/

structure DataPoint (F : Type) where
  attributes : List (Text × Text)
  time : ℕ
  value : F

structure Metric (F : Type) where
  definition : Definition
  points : List (DataPoint F)

section Payload

variable {F : Type} [One F]

structure Points (F : Type) where
  infos : List (DataPoint F) := []
  grouped : AssocMap Text (List (DataPoint F)) := ∅
  count : ℕ := 0

def infoDefinition : Definition :=
  ⟨ascii "perf_agent.gpu.info", ascii "1", ascii "Device and raw memory accounting provenance"⟩

def Device.info (d : Device F) : DataPoint F where
  attributes := [(ascii "hw.id", d.uuid), (ascii "gpu.name", d.name), (ascii "gpu.driver.version", d.driverVersion),
    (ascii "gpu.memory.api", d.memoryAPIVersion)]
  time := d.timestamp
  value := 1

variable (ps : Points F)

def Points.addInfo (d : Device F) : Points F :=
  if d.driverVersion = [] then ps else { ps with infos := ps.infos ++ [d.info], count := ps.count + 1 }

def Points.addValue (d : Device F) (ps : Points F) (v : Sigma fun _ : Text => F) : Points F :=
  { ps with
    grouped := ps.grouped.put v.1 ((ps.grouped.find? v.1).getD [] ++
      [{ attributes := [(ascii "hw.id", d.uuid), (ascii "hw.type", ascii "gpu")], time := d.timestamp, value := v.2 }])
    count := ps.count + 1 }

def Points.addReading (r : Reading F) : Points F :=
  r.device.values.entries.foldl (Points.addValue r.device) (ps.addInfo r.device)

variable (batch : List (Reading F))

def payload : List (Metric F) × ℕ :=
  let ps := batch.foldl Points.addReading {}
  let info := if ps.infos = [] then [] else [{ definition := infoDefinition, points := ps.infos }]
  (info ++ ps.grouped.entries.map (fun g => { definition := (definition? g.1).getD {}, points := g.2 }), ps.count)

def sensors : ℕ :=
  (batch.flatMap fun r => r.device.values.entries.filter fun v => !hasPrefix v.1 (ascii "gpu.telemetry.")).length

end Payload

/-! ## The worker and shutdown -/

/-- Where `run` is. -/
inductive Worker (F : Type) where
  | select
  | locking
  /-- A batch was taken, with `closing` as it was then. -/
  | holding (batch : List (Reading F)) (closing : Bool)
  | dropping (batch : List (Reading F))
  | requesting (batch : List (Reading F)) (closing : Bool)
  /-- Out of the loop; `client.Shutdown`, `cancel` and `locks.close` come next. -/
  | closingClient
  | cancelling
  | closingLocks
  /-- `done` is closed. -/
  | ended
deriving DecidableEq

structure System (F : Type) where
  exporter : Exporter F := {}
  worker : Worker F := .select
  /-- The calls of `Shutdown` that have set `closing`, and those that wait. -/
  waking : ℕ := 0
  waiting : ℕ := 0
deriving DecidableEq

inductive Action (F : Type) where
  | export (s : Snapshot F)
  /-- Out of the worker's `select`, by `wake` or because the context has ended. -/
  | wake
  | contextEnded
  | take
  | check
  | drop
  /-- A request has ended, with an error or not. -/
  | respond (ok : Bool)
  /-- The next of the worker's deferred calls. -/
  | unwind
  | shutdown
  | wakeWorker
  | finish
  | expire

def Stats.drop (stats : Stats) (points : ℕ) : Stats := { stats with droppedPoints := stats.droppedPoints + points }

def Stats.respond (stats : Stats) (points sensors : ℕ) : Bool → Stats
  | true =>
    { stats with
      requests := stats.requests + 1
      sentPoints := stats.sentPoints + points
      sentSensorPoints := stats.sentSensorPoints + sensors }
  | false =>
    { stats with
      requests := stats.requests + 1
      failedRequests := stats.failedRequests + 1
      failedPoints := stats.failedPoints + points }

namespace System

variable {F : Type}

def nextRound (closing : Bool) : Worker F := if closing then .closingClient else .select

/-- A request is sent if there is anything to send and nothing has cancelled it. -/
def checkBatch [One F] (s : System F) (batch : List (Reading F)) (closing : Bool) : System F :=
  if s.exporter.cancelled then { s with worker := .dropping batch }
  else if (payload batch).2 = 0 then { s with worker := nextRound closing }
  else { s with worker := .requesting batch closing }

def stepWorker [One F] (s : System F) : Action F → Option (System F)
  | .wake =>
    match s.worker with
    | .select => if s.exporter.wake then some { s with exporter.wake := false, worker := .locking } else none
    | _ => none
  | .contextEnded =>
    match s.worker with
    | .select => if s.exporter.cancelled then some { s with worker := .locking } else none
    | _ => none
  | .take =>
    match s.worker with
    | .locking =>
      some { s with exporter.pending := ∅, worker := .holding s.exporter.pending.values s.exporter.closing }
    | _ => none
  | .check =>
    match s.worker with
    | .holding batch closing => some (s.checkBatch batch closing)
    | _ => none
  | .drop =>
    match s.worker with
    | .dropping batch =>
      some { s with exporter.stats := s.exporter.stats.drop (payload batch).2, worker := .closingClient }
    | _ => none
  | .respond ok =>
    match s.worker with
    | .requesting batch closing =>
      some { s with
        exporter.stats := s.exporter.stats.respond (payload batch).2 (sensors batch) ok
        worker := nextRound closing }
    | _ => none
  | .unwind =>
    match s.worker with
    | .closingClient => some { s with worker := .cancelling }
    | .cancelling => some { s with exporter.cancelled := true, worker := .closingLocks }
    | .closingLocks => some { s with worker := .ended }
    | _ => none
  | _ => none

/-- One step of a call of `Shutdown`. -/
def stepShutdown (s : System F) : Action F → Option (System F)
  | .shutdown => some { s with exporter.closing := true, waking := s.waking + 1 }
  | .wakeWorker =>
    if 0 < s.waking then
      some { s with exporter.wake := true, waking := s.waking - 1, waiting := s.waiting + 1 }
    else none
  | .finish =>
    match s.worker with
    | .ended => if 0 < s.waiting then some { s with waiting := s.waiting - 1 } else none
    | _ => none
  | .expire =>
    if 0 < s.waiting then some { s with exporter.cancelled := true, waiting := s.waiting - 1 } else none
  | _ => none

def step [Zero F] [One F] [NatCast F] (finite : F → Bool) (s : System F) : Action F → Option (System F)
  | .export snapshot =>
    match s.exporter.exportSnapshot finite snapshot with
    | .ok e => some { s with exporter := e }
    | .error _ => some s
  | .shutdown => s.stepShutdown .shutdown
  | .wakeWorker => s.stepShutdown .wakeWorker
  | .finish => s.stepShutdown .finish
  | .expire => s.stepShutdown .expire
  | a => s.stepWorker a

end System

end PerfAgent.Metrics
