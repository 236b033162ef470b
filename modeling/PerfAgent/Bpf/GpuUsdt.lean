import Mathlib.Data.UInt

/-!
# The batch probe

`bpf/gpu_usdt.bpf.c`: one firing of the probe, from the registers to the ring buffer.  What
the kernel answers is part of the firing: each map lookup, the reservation, the user memory
and, for a sampled launch, how its stack walk went.  The walk may leave the program for an
interpreter's unwinder and come back through two more tail calls, so there are several places
at which it can end without ever coming back.
-/

namespace PerfAgent.Bpf

/-! ## Kinds and sizes -/

def kindUnknown : Nat := 0
def kindLaunch : Nat := 1
def kindExec : Nat := 2
def kindModule : Nat := 3
def kindPC : Nat := 4
def kindLaunchSampled : Nat := 5
def kindKernelName : Nat := 6
def kindStallMap : Nat := 7
def kindSamplingWindow : Nat := 8
def kindConfig : Nat := 9
def kindDropped : Nat := 10
def kindMax : Nat := 16

def recLaunch : Nat := 48
def recExec : Nat := 48
def recModule : Nat := 40
def recPC : Nat := 40
def recLaunchSampled : Nat := 56
def recKernelName : Nat := 272
def recStallMap : Nat := 136
def recSamplingWindow : Nat := 24
def recConfig : Nat := 24
def recDropped : Nat := 16

def maxRecordsPerBatch : Nat := 64
def maxBatchedRecordBytes : Nat := 48
def payloadBytes : Nat := maxRecordsPerBatch * maxBatchedRecordBytes

def batchCap (size : Nat) : Nat :=
  if payloadBytes / size < maxRecordsPerBatch then payloadBytes / size else maxRecordsPerBatch

def recordSize (kind : Nat) : Nat :=
  if kind = kindLaunch then recLaunch
  else if kind = kindExec then recExec
  else if kind = kindModule then recModule
  else if kind = kindPC then recPC
  else if kind = kindLaunchSampled then recLaunchSampled
  else if kind = kindKernelName then recKernelName
  else if kind = kindStallMap then recStallMap
  else if kind = kindSamplingWindow then recSamplingWindow
  else if kind = kindConfig then recConfig
  else if kind = kindDropped then recDropped
  else 0

def maxRecords (kind : Nat) : Nat :=
  if kind = kindLaunch then batchCap recLaunch
  else if kind = kindExec then batchCap recExec
  else if kind = kindModule then batchCap recModule
  else if kind = kindPC then batchCap recPC
  else if kind = kindLaunchSampled then 1
  else if kind = kindKernelName then batchCap recKernelName
  else if kind = kindStallMap then batchCap recStallMap
  else if kind = kindSamplingWindow then batchCap recSamplingWindow
  else if kind = kindConfig then batchCap recConfig
  else if kind = kindDropped then batchCap recDropped
  else 0

theorem maxRecords_spec {kind : Nat} (h : recordSize kind ≠ 0) :
    1 ≤ maxRecords kind ∧ maxRecords kind ≤ maxRecordsPerBatch ∧
      maxRecords kind * recordSize kind ≤ payloadBytes ∧ kind < kindMax := by
  have hkind : kind ∈ [kindLaunch, kindExec, kindModule, kindPC, kindLaunchSampled,
      kindKernelName, kindStallMap, kindSamplingWindow, kindConfig, kindDropped] := by
    by_contra hne
    simp only [List.mem_cons, List.not_mem_nil, or_false, not_or] at hne
    apply h
    simp only [recordSize, hne, if_false]
  have hall : ∀ k ∈ [kindLaunch, kindExec, kindModule, kindPC, kindLaunchSampled,
      kindKernelName, kindStallMap, kindSamplingWindow, kindConfig, kindDropped],
      1 ≤ maxRecords k ∧ maxRecords k ≤ maxRecordsPerBatch ∧
        maxRecords k * recordSize k ≤ payloadBytes ∧ k < kindMax := by decide
  exact hall kind hkind

/-! ## What a firing meets -/

inductive Lookup where
  | /-- `dropped`, for the records beyond the cap. -/ droppedAtClamp
  | /-- `dropped`, for the records that are not delivered. -/ droppedAtEnd
  | walkState
  | walkRecord
  | /-- `gpu_pending_batch`, to park the batch. -/ pending
  | /-- `gpu_pending_batch`, after the walk. -/ pendingAgain
  | stackScratch
  | stackIdSeq
  | walkErrors
  | stacksMissing
deriving DecidableEq

/-- How the walk of a sampled launch goes on from the entry of `gpu_sampled_walk`. -/
inductive SampledWalk where
  | /-- The walk state or the record is not found. -/ notFound
  | /-- `unwind_walk` returns. -/ returned (nPcs : Nat)
  | /-- It hands off, and the unwinder finds no walk state or no record. -/ unwinderNotFound
  | /-- The unwinder's tail call to `interp_resume_step` does not happen. -/ stepNotReached
  | /-- The tail call from there to `interp_resume_walk` does not happen. -/ walkNotReached
  | /-- The walk resumes. -/ resumed (next : SampledWalk)
deriving DecidableEq

structure Firing where
  ptr : Nat
  count : Nat
  seq : Nat
  cookie : Nat
  pidTgid : Nat
  found : Lookup → Bool
  reserved : Bool
  /-- Readable user memory. -/
  memory : Nat → Option UInt8
  walk : SampledWalk
  /-- What `stack_id_seq` holds on this CPU, the CPU, and what the insert returns. -/
  stackIdSeq : Nat
  cpu : Nat
  inserted : Int
  /-- `PT_REGS_PARM2` is a 64-bit register. -/
  count_lt : count < 2 ^ 64

namespace Firing

def kind (f : Firing) : Nat := f.cookie % 2 ^ 32

/-- `bpf_probe_read_user`. -/
def readUser (memory : Nat → Option UInt8) (addr : Nat) : Nat → Option (List UInt8)
  | 0 => some []
  | n + 1 =>
    (memory addr).bind fun b =>
      (readUser memory ((addr + 1) % 2 ^ 64) n).map fun bs => b :: bs

theorem length_readUser {memory : Nat → Option UInt8} :
    ∀ {n addr : Nat} {bs : List UInt8}, readUser memory addr n = some bs → bs.length = n
  | 0, _, _, h => by
      cases h
      rfl
  | n + 1, addr, bs, h => by
      obtain ⟨b, -, h⟩ := Option.bind_eq_some_iff.mp h
      obtain ⟨bs', h', rfl⟩ := Option.map_eq_some_iff.mp h
      rw [List.length_cons, length_readUser h']

end Firing

/-- A submitted `batch_msg` (or `sampled_batch_msg`). -/
structure BatchEvent where
  kind : Nat
  count : Nat
  seq : Nat
  pid : Nat
  tid : Nat
  bytes : Nat
  stackId : Int
  payload : List UInt8
deriving DecidableEq

/-- `struct gpu_pending`. -/
structure GpuPending where
  ptr : Nat := 0
  seq : Nat := 0
  count : Nat := 0
  kind : Nat := 0
  bytes : Nat := 0
deriving DecidableEq

variable (m : GpuMaps)

structure GpuMaps where
  events : List BatchEvent := []
  dropped : Nat → UInt64 := fun _ => 0
  stacksMissing : Nat → UInt64 := fun _ => 0
  walkErrors : Nat → UInt64 := fun _ => 0
  pending : GpuPending := {}

namespace GpuMaps

def countDrop (found : Bool) (kind records : Nat) : GpuMaps :=
  if kind ≥ kindMax then m
  else if found then
    { m with dropped :=
        Function.update m.dropped kind (m.dropped kind + UInt64.ofNat records) }
  else m

def countStackMissing (f : Firing) (kind : Nat) : GpuMaps :=
  if kind ≥ kindMax then m
  else if f.found .stacksMissing then
    { m with stacksMissing := Function.update m.stacksMissing kind (m.stacksMissing kind + 1) }
  else m

def walkErrNoScratch : Nat := 0
def walkErrEmpty : Nat := 1
def walkErrMapFull : Nat := 2
def walkErrUpdate : Nat := 3
def walkErrMax : Nat := 4

def countWalkError (f : Firing) (slot : Nat) : GpuMaps :=
  if slot ≥ walkErrMax then m
  else if f.found .walkErrors then
    { m with walkErrors := Function.update m.walkErrors slot (m.walkErrors slot + 1) }
  else m

/-- `next_stack_id`: the per-CPU sequence below the CPU index, never negative. -/
def nextStackId (f : Firing) : Int :=
  if f.found .stackIdSeq then
    ((f.cpu % 2 ^ 13) * 2 ^ 18 + (f.stackIdSeq + 1) % 2 ^ 32 % 2 ^ 18 : Nat)
  else -1

/-- `gpu_publish_stack`: the handle of the published stack, or -1. -/
def gpuPublishStack (f : Firing) (nPcs : Nat) : Int × GpuMaps :=
  if nPcs = 0 then (-1, m.countWalkError f walkErrEmpty)
  else if !f.found .stackScratch then (-1, m.countWalkError f walkErrNoScratch)
  else if nextStackId f < 0 then (-1, m.countWalkError f walkErrNoScratch)
  else if f.inserted ≠ 0 then
    (-1, m.countWalkError f (if f.inserted = -7 then walkErrMapFull else walkErrUpdate))
  else (nextStackId f, m)

def submit (f : Firing) (kind count seq bytes : Nat) (stackId : Int) (payload : List UInt8) : GpuMaps :=
  { m with events := m.events ++ [{ kind := kind, count := count, seq := seq
                                    pid := f.pidTgid / 2 ^ 32 % 2 ^ 32
                                    tid := f.pidTgid % 2 ^ 32
                                    bytes := bytes, stackId := stackId, payload := payload }] }

/-- `gpu_sampled_walk`, once the walk has returned. -/
def emitSampled (f : Firing) (nPcs : Nat) : GpuMaps :=
  if !f.found .pendingAgain then m.countDrop (f.found .droppedAtEnd) kindLaunchSampled 1
  else
    let p := m.pending
    if p.kind ≠ kindLaunchSampled ∨ p.count ≠ 1 ∨ p.bytes ≠ recLaunchSampled then
      m.countDrop (f.found .droppedAtEnd) p.kind p.count
    else if !f.reserved then m.countDrop (f.found .droppedAtEnd) p.kind p.count
    else
      match Firing.readUser f.memory p.ptr p.bytes with
      | none => m.countDrop (f.found .droppedAtEnd) p.kind p.count
      | some payload =>
        let (stackId, m) := m.gpuPublishStack f nPcs
        let m := if stackId < 0 then m.countStackMissing f kindLaunchSampled else m
        m.submit f p.kind p.count p.seq p.bytes stackId payload

/-- `gpu_sampled_walk`, from its first entry to its last. -/
def gpuSampledWalk (m : GpuMaps) (f : Firing) : SampledWalk → GpuMaps
  | .notFound => m
  | .returned nPcs => m.emitSampled f nPcs
  | .unwinderNotFound => m
  | .stepNotReached => m
  | .walkNotReached => m
  | .resumed next => m.gpuSampledWalk f next

def gpuEmitPlain (f : Firing) (kind count seq bytes ptr : Nat) : GpuMaps :=
  if !f.reserved then m.countDrop (f.found .droppedAtEnd) kind count
  else
    match Firing.readUser f.memory ptr bytes with
    | none => m.countDrop (f.found .droppedAtEnd) kind count
    | some payload => m.submit f kind count seq bytes (-1) payload

/-- Leave the batch in `gpu_pending_batch` while the stack is walked. -/
def park (f : Firing) (count bytes : Nat) : GpuMaps :=
  { m with pending :=
      { ptr := f.ptr, seq := f.seq, count := count, kind := f.kind, bytes := bytes } }

/-- The part of `gpu_usdt_batch` after the count has been clamped. -/
def emitBatch (f : Firing) (count : Nat) : GpuMaps :=
  let bytes := count % 2 ^ 32 * recordSize f.kind % 2 ^ 32
  let bytes := if bytes > payloadBytes then payloadBytes else bytes
  if f.kind ≠ kindLaunchSampled then m.gpuEmitPlain f f.kind (count % 2 ^ 32) f.seq bytes f.ptr
  else if !f.found .walkState ∨ !f.found .walkRecord ∨ !f.found .pending then
    ((m.countWalkError f walkErrNoScratch).countStackMissing f kindLaunchSampled).gpuEmitPlain
      f f.kind (count % 2 ^ 32) f.seq bytes f.ptr
  else
    (m.park f (count % 2 ^ 32) bytes).gpuSampledWalk f f.walk

def gpuUsdtBatch (f : Firing) : GpuMaps :=
  if recordSize f.kind = 0 then m.countDrop (f.found .droppedAtEnd) kindUnknown f.count
  else if f.count = 0 then m
  else if f.count > maxRecords f.kind then
    (m.countDrop (f.found .droppedAtClamp) f.kind (f.count - maxRecords f.kind)).emitBatch f (maxRecords f.kind)
  else m.emitBatch f f.count

end GpuMaps

end PerfAgent.Bpf
