import PerfAgent.Dwarfagent.Sample

/-!
# The off-CPU programs

`bpf/offcpu.bpf.c` and `bpf/offcpu_dwarf.bpf.c`: what the two programs do at a `sched_switch`.  A
task that goes off the CPU is put into a map under its pid and tgid, with the time and its stack; when
it comes back, the time in between is credited to that stack.  The maps are functions: they are taken
to be below their capacity.

What the helpers give (the clock, stack ids, the record that the walk has filled) is read from the
switch.  The per-CPU buffers and the registers of a task are always there.
-/

namespace PerfAgent.Bpf

open Dwarfagent

/-- What the programs read of a `task_struct`. -/
structure Task where
  pid : UInt32
  tgid : UInt32
  flags : UInt32
deriving DecidableEq

def pfKthread : UInt32 := 0x00200000

def Task.isKthread (t : Task) : Bool := t.flags &&& pfKthread ≠ 0

/-- `struct start_key`, and `struct offcpu_start_key`. -/
structure StartKey where
  pid : UInt32
  tgid : UInt32
deriving DecidableEq

def Task.startKey (t : Task) : StartKey := { pid := t.pid, tgid := t.tgid }

/-- What is set when a program is loaded; `pidFilter` says which keys the map of that name, or `pids`,
has. -/
structure OffcpuConfig where
  systemWide : Bool
  kernelStacksEnabled : Bool
  pidFilter : UInt32 → Bool

variable (cfg : OffcpuConfig)

def OffcpuConfig.shouldTrack (tgid : UInt32) : Bool := cfg.systemWide || cfg.pidFilter tgid

/-! ## `offcpu.bpf.c` -/

structure StartVal where
  timestamp : UInt64
  kernStack : Int64
  userStack : Int64
deriving DecidableEq

structure OffcpuKey where
  pid : UInt32
  kernStack : Int64
  userStack : Int64
deriving DecidableEq

/-- What the helpers give: the time, and the stack ids of the task that is switched out. -/
structure OffcpuSeen where
  now : UInt64
  kernStackId : Int64
  userStackId : Int64
deriving DecidableEq

/-- The first half of `handle_sched_switch`. -/
def handlePrev (start : StartKey → Option StartVal) (prev : Task) (seen : OffcpuSeen) : StartKey → Option StartVal :=
  if prev.pid ≠ 0 ∧ cfg.shouldTrack prev.tgid ∧ prev.isKthread = false then
    Function.update start prev.startKey (some {
      timestamp := seen.now
      kernStack := if cfg.kernelStacksEnabled then seen.kernStackId else -1
      userStack := seen.userStackId })
  else start

/-- The second half: the map, and what is added to `offcpu_counts`. -/
def handleNext (start : StartKey → Option StartVal) (next : Task) (seen : OffcpuSeen) :
    (StartKey → Option StartVal) × Option (OffcpuKey × UInt64) :=
  if next.pid ≠ 0 ∧ cfg.shouldTrack next.tgid then
    match start next.startKey with
    | some sv =>
      if sv.timestamp > 0 then
        (Function.update start next.startKey none,
          some ({ pid := next.tgid, kernStack := sv.kernStack, userStack := sv.userStack }, seen.now - sv.timestamp))
      else (start, none)
    | none => (start, none)
  else (start, none)

def handleSchedSwitch (prev next : Task) (seen : OffcpuSeen) (start : StartKey → Option StartVal) :
    (StartKey → Option StartVal) × Option (OffcpuKey × UInt64) :=
  handleNext cfg (handlePrev cfg start prev seen) next seen

/-! ## `offcpu_dwarf.bpf.c` -/

def modeFPSafe : UInt8 := 0

def modeFPLess : UInt8 := 1

/-- A `sample_record`, header and frames. -/
abbrev OffcpuSample := SampleHeader × SampleRecord

/-- What the helpers give: the time at the switch-in, what the walk has left in the record of this CPU
and its result, the kernel stack id, and the time after the walk. -/
structure OffcpuDwarfSeen where
  now : UInt64
  walked : OffcpuSample
  nPcs : UInt32
  kernStackId : UInt64
  later : UInt64
deriving DecidableEq

/-- The record that `offcpu_dwarf_walk` stashes when the walk has come to its end. -/
def offcpuDwarfWalk (prev : Task) (seen : OffcpuDwarfSeen) : OffcpuSample :=
  ({ seen.walked.1 with
      kernStack := if cfg.kernelStacksEnabled then seen.kernStackId else -1
      pid := prev.tgid
      tid := prev.pid
      timeNs := seen.later
      value := seen.later
      nPcs := seen.nPcs.toUInt8
      mode := if seen.walked.2.walkerFlags &&& walkerFlagDwarfUsed ≠ 0 then modeFPLess else modeFPSafe },
    seen.walked.2)

def handleSwitchOut (start : StartKey → Option OffcpuSample) (prev : Task) (seen : OffcpuDwarfSeen) :
    StartKey → Option OffcpuSample :=
  if prev.pid = 0 ∨ prev.tgid = 0 then start
  else if prev.isKthread then start
  else if cfg.systemWide = false ∧ cfg.pidFilter prev.tgid = false then start
  else Function.update start prev.startKey (some (offcpuDwarfWalk cfg prev seen))

def handleSwitchIn (start : StartKey → Option OffcpuSample) (next : Task) (seen : OffcpuDwarfSeen) :
    (StartKey → Option OffcpuSample) × Option OffcpuSample :=
  if next.pid = 0 then (start, none)
  else
    match start next.startKey with
    | none => (start, none)
    | some saved =>
      if saved.1.value = 0 then (start, none)
      else
        (Function.update start next.startKey none, some ({ saved.1 with value := seen.now - saved.1.value }, saved.2))

def offcpuDwarfSchedSwitch (prev next : Task) (seen : OffcpuDwarfSeen) (start : StartKey → Option OffcpuSample) :
    (StartKey → Option OffcpuSample) × Option OffcpuSample :=
  let (start, emitted) := handleSwitchIn start next seen
  (handleSwitchOut cfg start prev seen, emitted)

end PerfAgent.Bpf
