import PerfAgent.Gpu.Serialization

/-!
# The probe consumer: sequence gaps and window batches

The part of `gpuprobe/consumer.go` that the serialization disclosure rests on.  Each
batch carries the sequence number its producer gave it within the stream of one record
kind of one process; a jump in the numbers is the only sign of loss there is, and
`noteSeq` hands it to the first record of the batch.

The sink is a parameter: `emit` is `EmitSamplingWindow`, with whether it accepted.
-/

universe u

namespace PerfAgent.Gpuprobe

open Gpu

def kindSamplingWindow : Nat := 8

structure SeqKey where
  kind : Nat
  pid : Nat
deriving DecidableEq

/-- A decoded `gpu_sampling_window_v1` record. -/
structure WireWindow where
  startNs : Nat
  endNs : Nat
  mode : Nat
  nextStartDeltaMs : Nat
deriving DecidableEq

def WireWindow.isOpen (w : WireWindow) : Bool := w.endNs == 0

/-- `gpu.SamplingMode` of a wire byte. -/
def samplingMode : Nat → SamplingMode
  | 0 => .unset
  | 1 => .continuous
  | 2 => .kernelSerialized
  | raw => .other raw

structure Stats where
  batches : Nat := 0
  records : Nat := 0
  sequenceGaps : Nat := 0
  samplingWindowsDecoded : Nat := 0
  samplingWindowsOpen : Nat := 0
  sinkRejected : Nat := 0
deriving DecidableEq

structure Consumer where
  backend : GPUBackendID := ""
  seqByStream : AssocMap SeqKey Nat := ∅
  stats : Stats := {}

variable (backend : GPUBackendID)

structure WindowBatch where
  seq : Nat
  pid : Nat
  samplingWindows : List WireWindow

namespace Consumer

/-- Record a forward gap between consecutive arrivals of a stream, and return how many
positions it skips.  The arithmetic is that of `uint64`. -/
def noteSeq (c : Consumer) (kind pid seq : Nat) : Nat × Consumer :=
  let key : SeqKey := { kind := kind, pid := pid }
  let lost :=
    match c.seqByStream.find? key with
    | none => 0
    | some prev =>
      if seq > (prev + 1) % 2 ^ 64 then (seq + 2 ^ 64 - (prev + 1)) % 2 ^ 64 else 0
  (lost, { c with
    seqByStream := c.seqByStream.put key seq
    stats := { c.stats with sequenceGaps := c.stats.sequenceGaps + lost } })

variable {Sink : Type u} (emit : Sink → GPUSamplingWindow → Sink × Bool)

def samplingWindow (pid : Nat) (w : WireWindow) (lost : Nat) : GPUSamplingWindow :=
  { backend := backend, pid := pid, clockDomain := .cpuMonotonic, startNs := w.startNs,
    endNs := w.endNs, mode := samplingMode w.mode, lost := lost,
    nextStartDeltaMs := w.nextStartDeltaMs }

/-- Hand one window to the sink.  A refusal is counted, and nothing else. -/
def noteSamplingWindowLocked (s : Consumer × Sink) (pid : Nat) (w : WireWindow) (lost : Nat) : Consumer × Sink :=
  let (c, sink) := s
  let (sink, accepted) := emit sink (samplingWindow c.backend pid w lost)
  ({ c with stats := { c.stats with
      samplingWindowsDecoded := c.stats.samplingWindowsDecoded + 1
      samplingWindowsOpen := c.stats.samplingWindowsOpen + if w.isOpen then 1 else 0
      sinkRejected := c.stats.sinkRejected + if accepted then 0 else 1
      records := c.stats.records + 1 } }, sink)

/-- The loop over a batch: the gap is attributed to its first window and to no other. -/
def noteSamplingWindows (s : Consumer × Sink) (pid lost : Nat) : List WireWindow → Consumer × Sink
  | [] => s
  | w :: ws => ws.foldl (fun s w => noteSamplingWindowLocked emit s pid w 0)
      (noteSamplingWindowLocked emit s pid w lost)

/-- `applyBatch` for a batch of windows. -/
def applyBatch (s : Consumer × Sink) (b : WindowBatch) : Consumer × Sink :=
  let (lost, c) := s.1.noteSeq kindSamplingWindow b.pid b.seq
  let c := { c with stats := { c.stats with batches := c.stats.batches + 1 } }
  noteSamplingWindows emit (c, s.2) b.pid lost b.samplingWindows

/-! ## What reaches the sink -/

def events (pid lost : Nat) : List WireWindow → List GPUSamplingWindow
  | [] => []
  | w :: ws => samplingWindow backend pid w lost :: ws.map fun w => samplingWindow backend pid w 0

theorem foldl_noteSamplingWindowLocked (pid : Nat) (ws : List WireWindow) : ∀ s : Consumer × Sink,
      (ws.foldl (fun s w => noteSamplingWindowLocked emit s pid w 0) s).2 =
          (ws.map fun w => samplingWindow s.1.backend pid w 0).foldl (fun k w => (emit k w).1) s.2 ∧
        (ws.foldl (fun s w => noteSamplingWindowLocked emit s pid w 0) s).1.seqByStream = s.1.seqByStream ∧
        (ws.foldl (fun s w => noteSamplingWindowLocked emit s pid w 0) s).1.backend =
          s.1.backend := by
  induction ws with
  | nil => exact fun s => ⟨rfl, rfl, rfl⟩
  | cons w ws ih => exact fun s => ih (noteSamplingWindowLocked emit s pid w 0)

theorem applyBatch_spec (s : Consumer × Sink) (b : WindowBatch) : (applyBatch emit s b).2 =
      (events s.1.backend b.pid (s.1.noteSeq kindSamplingWindow b.pid b.seq).1
        b.samplingWindows).foldl (fun k w => (emit k w).1) s.2 ∧
    (applyBatch emit s b).1.seqByStream = s.1.seqByStream.put { kind := kindSamplingWindow, pid := b.pid } b.seq ∧
    (applyBatch emit s b).1.backend = s.1.backend := by
  unfold applyBatch noteSamplingWindows
  cases b.samplingWindows with
  | nil => exact ⟨rfl, rfl, rfl⟩
  | cons w ws => exact foldl_noteSamplingWindowLocked emit b.pid ws _

theorem noteSeq_first {c : Consumer} {kind pid : Nat}
    (h : c.seqByStream.find? { kind := kind, pid := pid } = none) (seq : Nat) :
    (c.noteSeq kind pid seq).1 = 0 := by
  simp [noteSeq, h]

theorem noteSeq_gap {c : Consumer} {kind pid prev : Nat}
    (h : c.seqByStream.find? { kind := kind, pid := pid } = some prev) {m : Nat}
    (hlt : prev + 1 + m < 2 ^ 64) : (c.noteSeq kind pid (prev + 1 + m)).1 = m := by
  simp only [noteSeq, h]
  rw [Nat.mod_eq_of_lt (by omega)]
  split_ifs
  · rw [show prev + 1 + m + 2 ^ 64 - (prev + 1) = m + 2 ^ 64 by omega, Nat.add_mod_right,
      Nat.mod_eq_of_lt (by omega)]
  · omega

end Consumer

end PerfAgent.Gpuprobe
