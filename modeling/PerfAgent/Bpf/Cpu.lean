import PerfAgent.Bpf.OffCpu

/-!
# The scheduler metrics program

`bpf/cpu.bpf.c`: what the three hooks do.  A task that becomes runnable has the time put into `wakeup_ts`
under its pid; when it is switched in, the difference goes to `pid_runq_latency`; when it is switched out,
the record that is sent to the collector takes it from there.  The hash maps are functions: they are taken
to be below their capacity.

What the helpers give (the clock, the CPU, the counters, whether there is room in the ring buffer) is read
from the event.  The per-CPU arrays have one copy for each CPU, and a program only reads the copy of the CPU
it runs on.
-/

namespace PerfAgent.Bpf

open Function

def taskInterruptible : UInt32 := 0x00000001

def taskUninterruptible : UInt32 := 0x00000002

def stateRunning : UInt8 := 0

def stateInterruptible : UInt8 := 1

def stateUninterruptible : UInt8 := 2

def classifyTaskState (state : UInt32) : UInt8 :=
  if state &&& taskInterruptible ≠ 0 then stateInterruptible
  else if state &&& taskUninterruptible ≠ 0 then stateUninterruptible
  else stateRunning

/-- `struct pid_stat_s`. -/
structure PidStat where
  tgid : UInt32
  deltaNs : UInt64
  runqLatencyNs : UInt64
  cycles : UInt64
  instructions : UInt64
  cacheMisses : UInt64
  timestamp : UInt64
  prevState : UInt8
  preempt : UInt8
deriving DecidableEq

structure CpuConfig where
  systemWide : Bool
  hwCountersEnabled : Bool
  pidFilter : UInt32 → Bool

/-- The maps.  `lastSeen` and the previous counters are per CPU. -/
structure CpuMaps where
  wakeupTs : UInt32 → Option UInt64 := fun _ => none
  pidRunqLatency : UInt32 → Option UInt64 := fun _ => none
  lastSeen : UInt32 → UInt64 := fun _ => 0
  prevCycles : UInt32 → UInt64 := fun _ => 0
  prevInstructions : UInt32 → UInt64 := fun _ => 0
  prevCacheMisses : UInt32 → UInt64 := fun _ => 0

/-! ## The wakeups -/

variable (cfg : CpuConfig)

def CpuConfig.tracksWakeup (p : Task) : Bool :=
  (cfg.systemWide || cfg.pidFilter p.tgid) && !p.isKthread

def CpuMaps.wakeup (m : CpuMaps) (p : Task) (ts : UInt64) : CpuMaps :=
  if cfg.systemWide = false ∧ cfg.pidFilter p.tgid = false then m
  else if p.isKthread then m
  else { m with wakeupTs := update m.wakeupTs p.pid (some ts) }

def handleWakeup (m : CpuMaps) (p : Task) (ts : UInt64) : CpuMaps := m.wakeup cfg p ts

def handleWakeupNew (m : CpuMaps) (p : Task) (ts : UInt64) : CpuMaps := m.wakeup cfg p ts

/-! ## The switch -/

/-- What the helpers give at a switch, and what is read of the task that goes. -/
structure SwitchSeen where
  now : UInt64
  cpu : UInt32
  preempt : Bool
  prevState : UInt32
  /-- `bpf_ringbuf_reserve` has found room. -/
  reserved : Bool
  cycles : Option UInt64
  instructions : Option UInt64
  cacheMisses : Option UInt64
deriving DecidableEq

/-- The slots of `last_seen`. -/
def lastSeenEntries : UInt32 := 128

variable (m : CpuMaps)

def CpuMaps.lookupLastSeen (cpu : UInt32) : Option UInt64 :=
  if cpu < lastSeenEntries then some (m.lastSeen cpu) else none

def CpuMaps.updateLastSeen (cpu : UInt32) (now : UInt64) : CpuMaps :=
  if cpu < lastSeenEntries then { m with lastSeen := update m.lastSeen cpu now } else m

def readCounterDelta (reading : Option UInt64) (prev : UInt64) : UInt64 × UInt64 :=
  match reading with
  | none => (0, prev)
  | some counter => (if counter > prev then counter - prev else 0, counter)

def CpuMaps.readCounters (m : CpuMaps) (seen : SwitchSeen) : CpuMaps × UInt64 × UInt64 × UInt64 :=
  if cfg.hwCountersEnabled then
    let cycles := readCounterDelta seen.cycles (m.prevCycles seen.cpu)
    let instrs := readCounterDelta seen.instructions (m.prevInstructions seen.cpu)
    let cacheMiss := readCounterDelta seen.cacheMisses (m.prevCacheMisses seen.cpu)
    ({ m with
        prevCycles := update m.prevCycles seen.cpu cycles.2
        prevInstructions := update m.prevInstructions seen.cpu instrs.2
        prevCacheMisses := update m.prevCacheMisses seen.cpu cacheMiss.2 },
      cycles.1, instrs.1, cacheMiss.1)
  else (m, 0, 0, 0)

/-- `last_ts && *last_ts`. -/
def CpuMaps.delta (seen : SwitchSeen) : UInt64 :=
  match m.lookupLastSeen seen.cpu with
  | some lastTs => if lastTs ≠ 0 then seen.now - lastTs else 0
  | none => 0

def CpuMaps.switchIn (next : Task) (now : UInt64) : CpuMaps :=
  if next.pid ≠ 0 then
    match m.wakeupTs next.pid with
    | some wakeTs =>
      { m with
        pidRunqLatency := update m.pidRunqLatency next.pid (some (now - wakeTs))
        wakeupTs := update m.wakeupTs next.pid none }
    | none => m
  else m

/-- Which tasks `handle_switch` is about; outside of system-wide mode it does not ask whether it is a kernel
thread. -/
def CpuConfig.tracksSwitch (prev : Task) : Bool :=
  if cfg.systemWide then !prev.isKthread else cfg.pidFilter prev.tgid

/-- The task that goes off the CPU: the maps, and the record that is submitted. -/
def CpuMaps.switchOut (m : CpuMaps) (prev : Task) (seen : SwitchSeen) (delta : UInt64)
    (counters : UInt64 × UInt64 × UInt64) : CpuMaps × Option PidStat :=
  if prev.pid ≠ 0 ∧ cfg.tracksSwitch prev then
    let classified := classifyTaskState seen.prevState
    let (m, ps) :=
      if seen.reserved then
        ({ m with pidRunqLatency := update m.pidRunqLatency prev.pid none },
          some {
            tgid := prev.tgid
            deltaNs := delta
            runqLatencyNs := (m.pidRunqLatency prev.pid).getD 0
            cycles := counters.1
            instructions := counters.2.1
            cacheMisses := counters.2.2
            timestamp := seen.now
            prevState := classified
            preempt := if seen.preempt then 1 else 0 })
      else (m, none)
    if seen.preempt ∨ classified = stateRunning then
      ({ m with wakeupTs := update m.wakeupTs prev.pid (some seen.now) }, ps)
    else (m, ps)
  else (m, none)

def handleSwitch (m : CpuMaps) (prev next : Task) (seen : SwitchSeen) : CpuMaps × Option PidStat :=
  let (m, counters) := m.readCounters cfg seen
  let delta := m.delta seen
  let m := m.switchIn next seen.now
  let (m, ps) := m.switchOut cfg prev seen delta counters
  (m.updateLastSeen seen.cpu seen.now, ps)

end PerfAgent.Bpf
