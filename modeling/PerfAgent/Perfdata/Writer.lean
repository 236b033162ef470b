import PerfAgent.Lib.BufferedFile
import PerfAgent.Lib.LittleEndian

/-!
# Writing perf.data

`Writer` of `internal/perfdata`: the records, the feature sections and the file header, as they are written through a
buffer to a disk that may fail.  An encoder is the list of its writes; a record is put together in memory first, so it
is one write.

The callback `OnNewPID` adds names and mappings, as the agent's does.  What a mapping record has in place of a build-id
is zero, so a record either has a build-id or not.
-/

namespace PerfAgent.Perfdata

/-! ## Encoding -/

def u16 (v : UInt16) : List UInt8 := leBytes 2 v.toNat

def u32 (v : UInt32) : List UInt8 := leBytes 4 v.toNat

def u64 (v : UInt64) : List UInt8 := leBytes 8 v.toNat

def align8 (n : ℕ) : ℕ := (n + 7) / 8 * 8

def zeros (n : ℕ) : List UInt8 := List.replicate n 0

/-- `writeCStringPadded8`. -/
def cstringPadded8 (s : List UInt8) : List (List UInt8) :=
  let pad := align8 (s.length + 1) - (s.length + 1)
  [s, [0]] ++ if pad > 0 then [zeros pad] else []

/-! ## The attribute -/

structure EventAttr where
  typ : UInt32
  config : UInt64
  samplePeriod : UInt64
  sampleType : UInt64
  flags : UInt64
  wakeupEvents : UInt32
deriving DecidableEq

def attrV8Size : ℕ := 136

def encodeEventAttr (a : EventAttr) : List (List UInt8) :=
  [u32 a.typ, u32 (UInt32.ofNat attrV8Size), u64 a.config, u64 a.samplePeriod, u64 a.sampleType, u64 0, u64 a.flags,
    u32 a.wakeupEvents, u32 0, u64 0, u64 0, u64 0, u64 0, u32 0, u32 0, u64 0, u32 0, u16 0, u16 0, u32 0, u32 0,
    u64 0, u64 0]

/-- `sampleTypeIP`, `TID`, `Time`, `CPU`, `Period` and `Callchain`. -/
def sampleTypes : UInt64 := 0x1 ||| 0x2 ||| 0x4 ||| 0x80 ||| 0x100 ||| 0x20

def flagSampleIDAll : UInt64 := 0x40000

def flagFreq : UInt64 := 0x400

/-- `flagDisabled`, `Inherit`, `Mmap`, `Comm` and `Mmap2`. -/
def otherFlags : UInt64 := 0x1 ||| 0x2 ||| 0x100 ||| 0x200 ||| 0x800000

structure EventSpec where
  type : UInt32
  config : UInt64
  samplePeriod : UInt64
  frequency : Bool
deriving DecidableEq

/-- The attribute that `Open` writes. -/
def EventSpec.attr (spec : EventSpec) : EventAttr where
  typ := spec.type
  config := spec.config
  samplePeriod := spec.samplePeriod
  sampleType := sampleTypes
  flags := otherFlags ||| flagSampleIDAll ||| if spec.frequency then flagFreq else 0
  wakeupEvents := 1

/-! ## The file header -/

structure Section where
  offset : UInt64 := 0
  size : UInt64 := 0
deriving DecidableEq

structure FileHeader where
  attrs : Section := {}
  data : Section := {}
  eventTypes : Section := {}
  addsFeatures : UInt64 := 0
deriving DecidableEq

def fileHeaderSize : ℕ := 104

def magicPERFILE2 : UInt64 := 0x32454c4946524550

def encodeFileHeader (h : FileHeader) : List (List UInt8) :=
  [u64 magicPERFILE2, u64 (UInt64.ofNat fileHeaderSize), u64 (UInt64.ofNat attrV8Size), u64 h.attrs.offset,
    u64 h.attrs.size, u64 h.data.offset, u64 h.data.size, u64 h.eventTypes.offset, u64 h.eventTypes.size,
    u64 h.addsFeatures, u64 0, u64 0, u64 0]

/-! ## Records -/

structure CommRecord where
  pid : UInt32
  tid : UInt32
  comm : List UInt8
  time : UInt64 := 0
  cpu : UInt32 := 0
deriving DecidableEq

abbrev BuildID := { id : List UInt8 // id.length = 20 }

structure Mmap2Record where
  pid : UInt32
  tid : UInt32
  time : UInt64 := 0
  cpu : UInt32 := 0
  addr : UInt64
  len : UInt64
  pgoff : UInt64
  /-- `BuildIDSize` and `BuildID`, if `HasBuildID`. -/
  buildID : Option (UInt8 × BuildID) := none
  prot : UInt32
  flags : UInt32
  filename : List UInt8
deriving DecidableEq

structure SampleRecord where
  ip : UInt64
  pid : UInt32
  tid : UInt32
  time : UInt64
  cpu : UInt32
  period : UInt64
  userIPs : List UInt64 := []
  kernelIPs : List UInt64 := []
deriving DecidableEq

inductive Record where
  | comm (r : CommRecord)
  | mmap2 (r : Mmap2Record)
  | sample (r : SampleRecord)
  | finishedRound
deriving DecidableEq

def recordHeaderSize : ℕ := 8

def sampleIDSize : ℕ := 24

/-- `writeSampleID`. -/
def encodeSampleID (pid tid cpu : UInt32) (timeNs : UInt64) : List (List UInt8) :=
  [u32 pid, u32 tid, u64 timeNs, u32 cpu, u32 0]

def encodeHeader (type : UInt32) (misc : UInt16) (size : ℕ) : List (List UInt8) :=
  [u32 type, u16 misc, u16 (UInt16.ofNat size)]

def CommRecord.size (r : CommRecord) : ℕ :=
  recordHeaderSize + 4 + 4 + align8 (r.comm.length + 1) + sampleIDSize

def encodeComm (r : CommRecord) : List (List UInt8) :=
  encodeHeader 3 0 r.size ++ [u32 r.pid, u32 r.tid] ++ cstringPadded8 r.comm ++ encodeSampleID r.pid r.tid r.cpu r.time

def encodeFinishedRound : List (List UInt8) := encodeHeader 68 0 recordHeaderSize

def miscMmapBuildID : UInt16 := 0x4000

def Mmap2Record.size (r : Mmap2Record) : ℕ :=
  recordHeaderSize + (4 + 4 + 8 + 8 + 8 + 24 + 4 + 4 + align8 (r.filename.length + 1) + sampleIDSize)

def encodeUnion : Option (UInt8 × BuildID) → List (List UInt8)
  | some (size, id) => [[size, 0, 0, 0], id.1]
  | none => [zeros 24]

def encodeMmap2 (r : Mmap2Record) : List (List UInt8) :=
  encodeHeader 10 (if r.buildID.isSome then miscMmapBuildID else 0) r.size ++
    [u32 r.pid, u32 r.tid, u64 r.addr, u64 r.len, u64 r.pgoff] ++ encodeUnion r.buildID ++
    [u32 r.prot, u32 r.flags] ++ cstringPadded8 r.filename ++ encodeSampleID r.pid r.tid r.cpu r.time

def perfContextKernel : UInt64 := 0xffffffffffffff80

def perfContextUser : UInt64 := 0xfffffffffffffe00

def SampleRecord.chain (r : SampleRecord) : List UInt64 :=
  (if r.kernelIPs.length > 0 then perfContextKernel :: r.kernelIPs else []) ++
  (if r.userIPs.length > 0 then perfContextUser :: r.userIPs else [])

def SampleRecord.size (r : SampleRecord) : ℕ :=
  recordHeaderSize + (8 + 8 + 8 + 8 + 8 + 8 + 8 * r.chain.length)

def encodeSample (r : SampleRecord) : List (List UInt8) :=
  encodeHeader 9 0 r.size ++
    [u64 r.ip, u32 r.pid, u32 r.tid, u64 r.time, u32 r.cpu, u32 0, u64 r.period, u64 (UInt64.ofNat r.chain.length)] ++
    r.chain.map u64

namespace Record

def encode : Record → List (List UInt8)
  | comm r => encodeComm r
  | mmap2 r => encodeMmap2 r
  | sample r => encodeSample r
  | finishedRound => encodeFinishedRound

def size : Record → ℕ
  | comm r => r.size
  | mmap2 r => r.size
  | sample r => r.size
  | finishedRound => recordHeaderSize

end Record

/-! ## Feature sections -/

/-- A build-id for the feature section; `pid` has the bits of an `int32`. -/
structure BuildIDEntry where
  pid : UInt32
  buildID : BuildID
  filename : List UInt8
deriving DecidableEq

structure MetaInfo where
  hostname : List UInt8
  osRelease : List UInt8
  numCPUs : UInt32
deriving DecidableEq

def encodeBuildIDEntry (e : BuildIDEntry) : List (List UInt8) :=
  encodeHeader 67 0 (recordHeaderSize + (4 + 24 + align8 (e.filename.length + 1))) ++
    [u32 e.pid, e.buildID.1, [0, 0, 0, 0]] ++ cstringPadded8 e.filename

def encodeBuildIDFeature (entries : List BuildIDEntry) : List (List UInt8) := entries.flatMap encodeBuildIDEntry

def encodeStringFeature (s : List UInt8) : List (List UInt8) :=
  let padded := align8 (s.length + 1)
  [u32 (UInt32.ofNat padded), s, [0]] ++ if padded - (s.length + 1) > 0 then [zeros (padded - (s.length + 1))] else []

def encodeNRCPUSFeature (online available : UInt32) : List (List UInt8) := [u32 online, u32 available]

def encodeFeatureIndexTable (entries : List Section) : List (List UInt8) :=
  entries.flatMap fun e => [u64 e.offset, u64 e.size]

structure Feature where
  bit : ℕ
  body : List UInt8
deriving DecidableEq

/-- The features that `Close` writes. -/
def features (info : MetaInfo) (buildIDs : List BuildIDEntry) : List Feature :=
  (if buildIDs.length > 0 then [⟨2, (encodeBuildIDFeature buildIDs).flatten⟩] else []) ++
  (if info.hostname ≠ [] then [⟨3, (encodeStringFeature info.hostname).flatten⟩] else []) ++
  (if info.osRelease ≠ [] then [⟨4, (encodeStringFeature info.osRelease).flatten⟩] else []) ++
  (if info.numCPUs > 0 then [⟨7, (encodeNRCPUSFeature info.numCPUs info.numCPUs).flatten⟩] else [])

def sectionsFrom (cursor : UInt64) : List Feature → List Section
  | [] => []
  | f :: fs =>
    let size := UInt64.ofNat f.body.length
    { offset := cursor, size } :: sectionsFrom (cursor + size) fs

def featureBits (fs : List Feature) : UInt64 := fs.foldl (fun bits f => bits ||| (1 <<< UInt64.ofNat f.bit)) 0

/-! ## The writer -/

/-- What `OnNewPID` adds for a process. -/
abbrev NewPID := UInt32 → List CommRecord × List Mmap2Record

variable (onNewPID : Option NewPID)

def newRecords (seen : List UInt32) (pid : UInt32) : List Record :=
  match onNewPID with
  | none => []
  | some onNewPID =>
    if pid = 0 ∨ pid = 0xffffffff ∨ pid ∈ seen then []
    else (onNewPID pid).1.map Record.comm ++ (onNewPID pid).2.map Record.mmap2

def see (seen : List UInt32) (pid : UInt32) : List UInt32 :=
  if onNewPID.isNone ∨ pid = 0 ∨ pid = 0xffffffff ∨ pid ∈ seen then seen else pid :: seen

structure Writer where
  out : BufferedFile := {}
  pos : ℕ
  dataBeg : ℕ
  info : MetaInfo
  err : Bool := false
  buildIDs : List BuildIDEntry := []
  onNewPID : Option NewPID := none
  seenPIDs : List UInt32 := []

variable (disk : Disk)

/-- `Open`. -/
def openWriter (spec : EventSpec) (info : MetaInfo) (onNewPID : Option NewPID) : Writer where
  out := (({} : BufferedFile).writeAll disk (encodeFileHeader {})).writeAll disk (encodeEventAttr spec.attr)
    |>.writeAll disk [u64 0, u64 0]
  pos := fileHeaderSize + attrV8Size + 16
  dataBeg := fileHeaderSize + attrV8Size + 16
  info := info
  onNewPID := onNewPID

namespace Writer

def writeRecord (w : Writer) (r : Record) : Writer :=
  if w.err then w
  else
    match w.out.write disk r.encode.flatten with
    | (out, n) => { w with out := out, pos := w.pos + n, err := out.err }

def addSample (w : Writer) (r : SampleRecord) : Writer :=
  (newRecords w.onNewPID w.seenPIDs r.pid).foldl (writeRecord disk)
    { w with seenPIDs := see w.onNewPID w.seenPIDs r.pid } |>.writeRecord disk (.sample r)

def addBuildID (w : Writer) (e : BuildIDEntry) : Writer := { w with buildIDs := w.buildIDs ++ [e] }

end Writer

inductive Call where
  | addComm (r : CommRecord)
  | addMmap2 (r : Mmap2Record)
  | addSample (r : SampleRecord)
  | addFinishedRound
  | addBuildID (e : BuildIDEntry)
deriving DecidableEq

def Writer.call (w : Writer) : Call → Writer
  | .addComm r => w.writeRecord disk (.comm r)
  | .addMmap2 r => w.writeRecord disk (.mmap2 r)
  | .addSample r => w.addSample disk r
  | .addFinishedRound => w.writeRecord disk .finishedRound
  | .addBuildID e => w.addBuildID e

inductive CloseError where
  | appendFailed
  | flush
  | seek
  | headerPatchFlush
  | close
deriving DecidableEq

/-- What else may fail in `Close`. -/
structure CloseFaults where
  seek : Bool := false
  close : Bool := false
deriving DecidableEq

/-- `Close`: the file, and what is returned. -/
def Writer.close (disk : Disk) (faults : CloseFaults) (w : Writer) : OpenFile × Except CloseError Unit :=
  if w.err then (w.out.file, .error .appendFailed)
  else
    let feats := features w.info w.buildIDs
    let dataEnd := w.pos
    let payloadBeg := dataEnd + feats.length * 16
    let out := (w.out.writeAll disk (encodeFeatureIndexTable (sectionsFrom (UInt64.ofNat payloadBeg) feats))).writeAll
      disk (feats.map Feature.body) |>.flush disk
    if out.err then (out.file, .error .flush)
    else if faults.seek then (out.file, .error .seek)
    else
      let header : FileHeader :=
        { attrs := { offset := UInt64.ofNat fileHeaderSize, size := UInt64.ofNat attrV8Size }
          data := { offset := UInt64.ofNat w.dataBeg, size := UInt64.ofNat (dataEnd - w.dataBeg) }
          addsFeatures := featureBits feats }
      let patched := (({ file := out.file.seekStart } : BufferedFile).writeAll disk (encodeFileHeader header)).flush disk
      if patched.err then (patched.file, .error .headerPatchFlush)
      else if faults.close then (patched.file, .error .close)
      else (patched.file, .ok ())

end PerfAgent.Perfdata
