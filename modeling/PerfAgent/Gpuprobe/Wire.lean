import PerfAgent.Gpuprobe.Consumer

/-!
# The wire records and `decodeBatch`

The record layouts of `internal/gpuabi/records.go` and the decoder of one ring-buffer sample
(`gpuprobe/consumer.go`).  A sample is a header and a payload of fixed-size records of one
kind.  A slice expression past the end of its slice, which in the source is a panic, is an
error of its own here, so that what the length checks buy can be stated.

A Go string is a string of bytes; here it is the string with one character per byte.
-/

universe u v

namespace PerfAgent.Gpuprobe

inductive DecodeError where
  | shortRecord
  | invalidSamplePeriod
  | kernelNameLength (n : Nat)
  | stallNameLength (n : Nat)
  | windowInverted (startNs endNs : Nat)
  | payloadBytes (claimed has : Nat)
  | sampledBatchNotSingular (count : Nat)
  | /-- Not an error of the source: a slice expression out of range. -/ outOfRange
deriving DecidableEq

def goString (bs : List UInt8) : String := String.ofList (bs.map fun b => Char.ofNat b.toNat)

/-- `b[off : off+n]`. -/
def bytesAt (b : List UInt8) (off n : Nat) : Except DecodeError (List UInt8) :=
  if off + n ≤ b.length then .ok ((b.drop off).take n) else .error .outOfRange

/-- `b[off:]`. -/
def bytesFrom (b : List UInt8) (off : Nat) : Except DecodeError (List UInt8) :=
  if off ≤ b.length then .ok (b.drop off) else .error .outOfRange

/-- The little-endian integer of `n` bytes. -/
def uintAt (b : List UInt8) (off n : Nat) : Except DecodeError Nat :=
  (bytesAt b off n).map fun bs => bs.foldr (fun x v => x.toNat + 256 * v) 0

/-! ## The records -/

structure Launch where
  correlation : Nat
  kernelID : Nat := 0
  queueID : Nat := 0
  contextID : Nat := 0
  timeNs : Nat := 0
  tid : Nat := 0
deriving DecidableEq

structure Exec where
  correlation : Nat
  kernelID : Nat := 0
  queueID : Nat := 0
  deviceID : Nat := 0
  startNs : Nat := 0
  endNs : Nat := 0
deriving DecidableEq

structure ModuleLoad where
  cubinCRC : Nat
  moduleID : Nat
  sizeBytes : Nat
  loadNs : Nat
  bytesPtr : Nat
deriving DecidableEq

structure PCSample where
  cubinCRC : Nat
  correlation : Nat
  pcOffset : Nat := 0
  functionIndex : Nat := 0
  stallIndex : Nat
  count : Nat := 0
deriving DecidableEq

structure Dropped where
  count : Nat
  class_ : Nat
deriving DecidableEq

structure Config where
  clockHz : Nat := 0
  samplingFactor : Nat := 0
  smCount : Nat := 0
  vendor : Nat := 0
deriving DecidableEq

structure StallReason where
  index : Nat
  name : String
  truncated : Bool := false
deriving DecidableEq

structure LaunchSampled where
  correlation : Nat
  kernelID : Nat := 0
  queueID : Nat := 0
  contextID : Nat := 0
  timeNs : Nat := 0
  tid : Nat := 0
  samplePeriod : Nat
  launchSeq : Nat := 0
deriving DecidableEq

structure KernelNameRecord where
  kernelID : Nat
  name : String
  truncated : Bool := false
deriving DecidableEq

def sizeLaunch : Nat := 48
def sizeExec : Nat := 48
def sizeModuleLoad : Nat := 40
def sizePCSample : Nat := 40
def sizeConfig : Nat := 24
def sizeDropped : Nat := 16
def sizeLaunchSampled : Nat := 56
def sizeKernelName : Nat := 272
def sizeStallReason : Nat := 136
def sizeSamplingWindow : Nat := 24
def gpuKernelNameMax : Nat := 256
def gpuStallNameMax : Nat := 128

def dropClassGraphExec : Nat := 4

def sized {α : Type u} (size : Nat) (b : List UInt8) (r : Except DecodeError α) : Except DecodeError α :=
  if b.length < size then .error .shortRecord else r

def decodeLaunch (b : List UInt8) : Except DecodeError Launch := sized sizeLaunch b do
  return { correlation := ← uintAt b 0 8, kernelID := ← uintAt b 8 8, queueID := ← uintAt b 16 8,
           contextID := ← uintAt b 24 8, timeNs := ← uintAt b 32 8, tid := ← uintAt b 40 4 }

def decodeExec (b : List UInt8) : Except DecodeError Exec := sized sizeExec b do
  return { correlation := ← uintAt b 0 8, kernelID := ← uintAt b 8 8, queueID := ← uintAt b 16 8,
           deviceID := ← uintAt b 24 8, startNs := ← uintAt b 32 8, endNs := ← uintAt b 40 8 }

def decodeModuleLoad (b : List UInt8) : Except DecodeError ModuleLoad := sized sizeModuleLoad b do
  return { cubinCRC := ← uintAt b 0 8, moduleID := ← uintAt b 8 8, sizeBytes := ← uintAt b 16 8,
           loadNs := ← uintAt b 24 8, bytesPtr := ← uintAt b 32 8 }

def decodePCSample (b : List UInt8) : Except DecodeError PCSample := sized sizePCSample b do
  return { cubinCRC := ← uintAt b 0 8, correlation := ← uintAt b 8 8, pcOffset := ← uintAt b 16 8,
           functionIndex := ← uintAt b 24 4, stallIndex := ← uintAt b 28 4,
           count := ← uintAt b 32 4 }

def decodeConfig (b : List UInt8) : Except DecodeError Config := sized sizeConfig b do
  return { clockHz := ← uintAt b 0 8, samplingFactor := ← uintAt b 8 4, smCount := ← uintAt b 12 4,
           vendor := ← uintAt b 16 1 }

/-- The length of the name is the producer's word, so it is checked before it is used. -/
def decodeStallReason (b : List UInt8) : Except DecodeError StallReason :=
  sized sizeStallReason b do
    let n ← uintAt b 4 2
    if n > gpuStallNameMax then throw (.stallNameLength n)
    return { index := ← uintAt b 0 4, name := goString (← bytesAt b 8 n),
             truncated := (← uintAt b 6 1) != 0 }

/-- The quiet promise of an open window means nothing, and is dropped. -/
def decodeSamplingWindow (b : List UInt8) : Except DecodeError WireWindow :=
  sized sizeSamplingWindow b do
    let startNs ← uintAt b 0 8
    let endNs ← uintAt b 8 8
    let mode ← uintAt b 16 1
    let nextStartDeltaMs ← uintAt b 20 4
    if endNs ≠ 0 ∧ endNs < startNs then throw (.windowInverted startNs endNs)
    return { startNs := startNs, endNs := endNs, mode := mode,
             nextStartDeltaMs := if endNs = 0 then 0 else nextStartDeltaMs }

def decodeDropped (b : List UInt8) : Except DecodeError Dropped := sized sizeDropped b do
  return { count := ← uintAt b 0 8, class_ := ← uintAt b 8 1 }

def decodeLaunchSampled (b : List UInt8) : Except DecodeError LaunchSampled :=
  sized sizeLaunchSampled b do
    let out : LaunchSampled :=
      { correlation := ← uintAt b 0 8, kernelID := ← uintAt b 8 8, queueID := ← uintAt b 16 8,
        contextID := ← uintAt b 24 8, timeNs := ← uintAt b 32 8, tid := ← uintAt b 40 4,
        samplePeriod := ← uintAt b 44 4, launchSeq := ← uintAt b 48 8 }
    if out.samplePeriod = 0 then throw .invalidSamplePeriod
    return out

def decodeKernelName (b : List UInt8) : Except DecodeError KernelNameRecord :=
  sized sizeKernelName b do
    let n ← uintAt b 8 2
    if n > gpuKernelNameMax then throw (.kernelNameLength n)
    return { kernelID := ← uintAt b 0 8, name := goString (← bytesAt b 16 n),
             truncated := (← uintAt b 10 1) != 0 }

/-! ## Batches -/

inductive Kind where
  | launch
  | exec
  | module
  | pc
  | launchSampled
  | kernelName
  | stallMap
  | samplingWindow
  | config
  | dropped
  | other (raw : Nat)
deriving DecidableEq

def Kind.ofWire : Nat → Kind
  | 1 => .launch
  | 2 => .exec
  | 3 => .module
  | 4 => .pc
  | 5 => .launchSampled
  | 6 => .kernelName
  | 7 => .stallMap
  | 8 => .samplingWindow
  | 9 => .config
  | 10 => .dropped
  | raw => .other raw

def Kind.wire : Kind → Nat
  | launch => 1
  | exec => 2
  | module => 3
  | pc => 4
  | launchSampled => 5
  | kernelName => 6
  | stallMap => 7
  | samplingWindow => kindSamplingWindow
  | config => 9
  | dropped => 10
  | other raw => raw

def batchHdrSize : Nat := 40

/-- A decoded sample.  Only the list of its kind is filled, and the stack id is only
meaningful for a sampled launch. -/
structure Batch where
  kind : Kind
  rawCount : Nat := 0
  seq : Nat := 0
  pid : Nat := 0
  tid : Nat := 0
  stackID : Int := 0
  launches : List Launch := []
  execs : List Exec := []
  sampledLaunches : List LaunchSampled := []
  kernelNames : List KernelNameRecord := []
  modules : List ModuleLoad := []
  pcSamples : List PCSample := []
  stallReasons : List StallReason := []
  samplingWindows : List WireWindow := []
  configs : List Config := []
  drops : List Dropped := []
deriving DecidableEq

/-- `int32(v)` of a 32-bit value. -/
def int32 (v : Nat) : Int := if v < 2 ^ 31 then v else (v : Int) - 2 ^ 32

theorem except_bind_eq_ok {ε : Type v} {α β : Type u} {x : Except ε α} {f : α → Except ε β} {b : β}
    (h : x >>= f = .ok b) : ∃ a, x = .ok a ∧ f a = .ok b := by
  cases x with
  | error e => cases h
  | ok a => exact ⟨a, rfl, h⟩

section Records

variable {α : Type} (size : Nat) (decode : List UInt8 → Except DecodeError α) (payload : List UInt8)

/-- The loop over the records of a payload, from the `i`-th on. -/
def decodeFrom (i : Nat) : Nat → Except DecodeError (List α)
  | 0 => .ok []
  | n + 1 => do
      let r ← decode (← bytesFrom payload (i * size))
      let rs ← decodeFrom (i + 1) n
      return r :: rs

def decodeRecords (count : Nat) : Except DecodeError (List α) :=
  if count > payload.length / size then .error .shortRecord
  else decodeFrom size decode payload 0 count

variable {rs : List α}

theorem length_decodeFrom {i n : Nat} (h : decodeFrom size decode payload i n = .ok rs) : rs.length = n := by
  induction n generalizing i rs with
  | zero =>
    cases h
    rfl
  | succ n ih =>
    rw [decodeFrom] at h
    obtain ⟨b, -, h⟩ := except_bind_eq_ok h
    obtain ⟨r, -, h⟩ := except_bind_eq_ok h
    obtain ⟨rs', hrs, h⟩ := except_bind_eq_ok h
    cases h
    rw [List.length_cons, ih hrs]

variable {size decode payload}

theorem length_decodeRecords {count : Nat} (h : decodeRecords size decode payload count = .ok rs) :
    rs.length = count := by
  rw [decodeRecords] at h
  split_ifs at h
  exact length_decodeFrom size decode payload h

end Records

/-- The records of a kind, put into the batch.  A kind that the wire does not define has
none. -/
def decodePayload (out : Batch) (payload : List UInt8) (count : Nat) : Except DecodeError Batch :=
  match out.kind with
  | .launch =>
    return { out with launches := ← decodeRecords sizeLaunch decodeLaunch payload count }
  | .exec => return { out with execs := ← decodeRecords sizeExec decodeExec payload count }
  | .module =>
    return { out with modules := ← decodeRecords sizeModuleLoad decodeModuleLoad payload count }
  | .pc =>
    return { out with pcSamples := ← decodeRecords sizePCSample decodePCSample payload count }
  | .launchSampled =>
    -- one header, one stack id, one launch
    if count ≠ 1 then .error (.sampledBatchNotSingular count)
    else return { out with
      sampledLaunches := ← decodeRecords sizeLaunchSampled decodeLaunchSampled payload count }
  | .kernelName =>
    return { out with
      kernelNames := ← decodeRecords sizeKernelName decodeKernelName payload count }
  | .stallMap =>
    return { out with
      stallReasons := ← decodeRecords sizeStallReason decodeStallReason payload count }
  | .samplingWindow =>
    return { out with
      samplingWindows := ← decodeRecords sizeSamplingWindow decodeSamplingWindow payload count }
  | .config => return { out with configs := ← decodeRecords sizeConfig decodeConfig payload count }
  | .dropped => return { out with drops := ← decodeRecords sizeDropped decodeDropped payload count }
  | .other _ => return out

def decodeBatch (b : List UInt8) : Except DecodeError Batch :=
  if b.length < batchHdrSize then .error .shortRecord
  else do
    let count ← uintAt b 4 4
    let out : Batch :=
      { kind := Kind.ofWire (← uintAt b 0 4), rawCount := count, seq := ← uintAt b 8 8,
        pid := ← uintAt b 16 4, tid := ← uintAt b 20 4, stackID := int32 (← uintAt b 32 4) }
    let nbytes ← uintAt b 24 8
    let payload ← bytesFrom b batchHdrSize
    -- the length is read as a signed integer, and a negative one is refused
    if 2 ^ 63 ≤ nbytes ∨ nbytes > payload.length then .error (.payloadBytes nbytes payload.length)
    else decodePayload out (← bytesAt payload 0 nbytes) count

def Batch.Decoded (b : Batch) : Prop := ∃ raw, decodeBatch raw = .ok b

/-- What is read into a batch is of the kind of its header, and a sampled batch has one
record. -/
theorem decodePayload_eq_ok {out b : Batch} {payload : List UInt8} {count : Nat}
    (h : decodePayload out payload count = .ok b) :
    b.kind = out.kind ∧ (out.kind = .launchSampled → b.sampledLaunches.length = 1) := by
  unfold decodePayload at h
  split at h
  case h_5 hk =>
      split_ifs at h with hcount
      obtain ⟨rs, hrs, h⟩ := except_bind_eq_ok h
      cases h
      refine ⟨rfl, fun _ => ?_⟩
      rw [length_decodeRecords hrs]
      exact not_not.mp hcount
  case h_11 hk =>
      cases h
      exact ⟨rfl, fun hs => absurd (hk.symm.trans hs) (by simp)⟩
  all_goals
    next hk =>
      obtain ⟨rs, -, h⟩ := except_bind_eq_ok h
      cases h
      exact ⟨rfl, fun hs => absurd (hk.symm.trans hs) (by simp)⟩

theorem Batch.Decoded.length_sampledLaunches {b : Batch} (h : b.Decoded)
    (hk : b.kind = .launchSampled) : b.sampledLaunches.length = 1 := by
  obtain ⟨raw, h⟩ := h
  unfold decodeBatch at h
  split_ifs at h
  obtain ⟨count, -, h⟩ := except_bind_eq_ok h
  obtain ⟨kind, -, h⟩ := except_bind_eq_ok h
  obtain ⟨seq, -, h⟩ := except_bind_eq_ok h
  obtain ⟨pid, -, h⟩ := except_bind_eq_ok h
  obtain ⟨tid, -, h⟩ := except_bind_eq_ok h
  obtain ⟨stackID, -, h⟩ := except_bind_eq_ok h
  obtain ⟨nbytes, -, h⟩ := except_bind_eq_ok h
  obtain ⟨rest, -, h⟩ := except_bind_eq_ok h
  split_ifs at h
  obtain ⟨payload, -, h⟩ := except_bind_eq_ok h
  obtain ⟨hkind, hlen⟩ := decodePayload_eq_ok h
  exact hlen (hkind.symm.trans hk)

end PerfAgent.Gpuprobe
