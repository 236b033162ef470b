import PerfAgent.Lib.StreamParser
import PerfAgent.Perfdata.Writer

/-!
# Reading perf.data

A reader that goes by the file: the header says where the attribute and the data are, the attribute says what a record
has, a record says how long it is, and the bitmap of the header says what the table after the data is about.
-/

namespace PerfAgent.Perfdata

inductive ReadError where
  | truncated
  | magic
  | attr
  | record
deriving DecidableEq

abbrev Reader (α : Type) := StreamParser UInt8 Unit ReadError α

def nothing : Unit → UInt8 → Unit := fun _ _ => ()

def run {α : Type} (p : Reader α) (b : List UInt8) : Except ReadError (α × List UInt8) :=
  (p (b, ())).map fun r => (r.1, r.2.1)

def take (n : ℕ) : Reader (List UInt8) := StreamParser.block nothing .truncated n

def readU16 : Reader UInt16 := take 2 >>= fun b => pure (UInt16.ofNat (leValue b))

def readU32 : Reader UInt32 := take 4 >>= fun b => pure (UInt32.ofNat (leValue b))

def readU64 : Reader UInt64 := take 8 >>= fun b => pure (UInt64.ofNat (leValue b))

def slice (b : List UInt8) (s : Section) : Except ReadError (List UInt8) :=
  if s.offset.toNat + s.size.toNat ≤ b.length then .ok ((b.drop s.offset.toNat).take s.size.toNat)
  else .error .truncated

/-! ## The header and the attribute -/

def readSection : Reader Section := do
  let offset ← readU64
  let size ← readU64
  pure { offset, size }

structure ReadHeader where
  attrSize : UInt64
  attrs : Section
  data : Section
  /-- The bitmap of 256 bits, as a number. -/
  features : ℕ
deriving DecidableEq

def readHeader : Reader ReadHeader := do
  let magic ← readU64
  if magic ≠ magicPERFILE2 then throw .magic
  else do
    let _ ← readU64
    let attrSize ← readU64
    let attrs ← readSection
    let data ← readSection
    let _ ← readSection
    let bits ← take 32
    pure { attrSize, attrs, data, features := leValue bits }

def readAttr : Reader EventAttr := do
  let typ ← readU32
  let size ← readU32
  if size.toNat ≠ attrV8Size then throw .attr
  else do
    let config ← readU64
    let samplePeriod ← readU64
    let sampleType ← readU64
    let _ ← readU64
    let flags ← readU64
    let wakeupEvents ← readU32
    let _ ← take 84
    pure { typ, config, samplePeriod, sampleType, flags, wakeupEvents }

/-! ## Records -/

structure SampleID where
  pid : UInt32
  tid : UInt32
  time : UInt64
  cpu : UInt32
deriving DecidableEq

def readSampleID : Reader SampleID := do
  let pid ← readU32
  let tid ← readU32
  let time ← readU64
  let cpu ← readU32
  let _ ← readU32
  pure { pid, tid, time, cpu }

def readName (b : List UInt8) : Except ReadError (List UInt8) :=
  if 0 ∈ b then .ok (b.takeWhile fun c => c ≠ 0) else .error .record

def splitTrailer (body : List UInt8) : Except ReadError (List UInt8 × SampleID) := do
  let (id, _) ← run readSampleID (body.drop (body.length - sampleIDSize))
  pure (body.take (body.length - sampleIDSize), id)

def readPids : Reader (UInt32 × UInt32) := do
  let pid ← readU32
  let tid ← readU32
  pure (pid, tid)

def readComm (body : List UInt8) : Except ReadError (CommRecord × SampleID) := do
  let (fields, id) ← splitTrailer body
  let (pids, rest) ← run readPids fields
  let comm ← readName rest
  pure ({ pid := pids.1, tid := pids.2, comm, time := id.time, cpu := id.cpu }, id)

def readBuildID : Reader BuildID := fun x =>
  if h : 20 ≤ x.1.length then .ok (⟨x.1.take 20, List.length_take_of_le h⟩, (x.1.drop 20, ())) else .error .truncated

def readUnion (misc : UInt16) : Reader (Option (UInt8 × BuildID)) :=
  if misc &&& miscMmapBuildID ≠ 0 then do
    let size ← StreamParser.item nothing .truncated
    let _ ← take 3
    let id ← readBuildID
    pure (some (size, id))
  else do
    let _ ← take 24
    pure none

def readMapping (misc : UInt16) : Reader Mmap2Record := do
  let pid ← readU32
  let tid ← readU32
  let addr ← readU64
  let len ← readU64
  let pgoff ← readU64
  let buildID ← readUnion misc
  let prot ← readU32
  let flags ← readU32
  pure { pid, tid, addr, len, pgoff, buildID, prot, flags, filename := [] }

def readMmap2 (misc : UInt16) (body : List UInt8) : Except ReadError (Mmap2Record × SampleID) := do
  let (fields, id) ← splitTrailer body
  let (mapping, rest) ← run (readMapping misc) fields
  let filename ← readName rest
  pure ({ mapping with filename := filename, time := id.time, cpu := id.cpu }, id)

def readIPs : ℕ → Reader (List UInt64)
  | 0 => pure []
  | n + 1 => do
      let ip ← readU64
      let ips ← readIPs n
      pure (ip :: ips)

/-- The kernel's and the user's addresses of a call chain, by the markers. -/
def splitChain : Bool → List UInt64 → List UInt64 × List UInt64
  | _, [] => ([], [])
  | kernel, ip :: ips =>
    if ip = perfContextKernel then splitChain true ips
    else if ip = perfContextUser then splitChain false ips
    else
      let rest := splitChain kernel ips
      if kernel then (ip :: rest.1, rest.2) else (rest.1, ip :: rest.2)

def readSampleBody : Reader SampleRecord := do
  let ip ← readU64
  let pid ← readU32
  let tid ← readU32
  let time ← readU64
  let cpu ← readU32
  let _ ← readU32
  let period ← readU64
  let nr ← readU64
  let chain ← readIPs nr.toNat
  pure { ip, pid, tid, time, cpu, period, kernelIPs := (splitChain false chain).1, userIPs := (splitChain false chain).2 }

def readSample (body : List UInt8) : Except ReadError SampleRecord := do
  let (r, rest) ← run readSampleBody body
  if rest = [] then pure r else throw .record

def readRecord (attr : EventAttr) (type : UInt32) (misc : UInt16) (body : List UInt8) :
    Except ReadError (Record × Option SampleID) :=
  if attr.sampleType ≠ sampleTypes ∨ attr.flags &&& flagSampleIDAll = 0 then throw .attr
  else if type = 3 then do
    let (r, id) ← readComm body
    pure (.comm r, some id)
  else if type = 10 then do
    let (r, id) ← readMmap2 misc body
    pure (.mmap2 r, some id)
  else if type = 9 then do
    let r ← readSample body
    pure (.sample r, none)
  else if type = 68 ∧ body = [] then pure (.finishedRound, none)
  else throw .record

def readRecordHeader : Reader (UInt32 × UInt16 × UInt16) := do
  let type ← readU32
  let misc ← readU16
  let size ← readU16
  pure (type, misc, size)

/-- The records of a data section, one after the other by their sizes, to its end. -/
def readRecords (attr : EventAttr) : ℕ → List UInt8 → Except ReadError (List (Record × Option SampleID))
  | _, [] => pure []
  | 0, _ => throw .record
  | fuel + 1, b => do
      let ((type, misc, size), _) ← run readRecordHeader b
      if size.toNat < recordHeaderSize ∨ b.length < size.toNat then throw .record
      else do
        let r ← readRecord attr type misc ((b.take size.toNat).drop recordHeaderSize)
        let rest ← readRecords attr fuel (b.drop size.toNat)
        pure (r :: rest)

/-! ## Features -/

structure ReadFeature where
  bit : ℕ
  place : Section
  body : List UInt8
deriving DecidableEq

def readFeatures (b : List UInt8) : List ℕ → List UInt8 → Except ReadError (List ReadFeature)
  | [], _ => pure []
  | bit :: bits, table => do
      let (s, table) ← run readSection table
      let body ← slice b s
      let rest ← readFeatures b bits table
      pure ({ bit, place := s, body } :: rest)

def setBits (bitmap : ℕ) : List ℕ := (List.range 256).filter fun i => bitmap.testBit i

/-! ## The file -/

structure PerfData where
  attr : EventAttr
  records : List (Record × Option SampleID)
  features : List ReadFeature
deriving DecidableEq

def readFile (b : List UInt8) : Except ReadError PerfData := do
  let (h, _) ← run readHeader b
  -- there is one attribute
  if h.attrs.size ≠ h.attrSize then throw .attr
  else do
    let attrBytes ← slice b h.attrs
    let (attr, _) ← run readAttr attrBytes
    let data ← slice b h.data
    let records ← readRecords attr data.length data
    let features ← readFeatures b (setBits h.features) (b.drop (h.data.offset.toNat + h.data.size.toNat))
    pure { attr, records, features }

end PerfAgent.Perfdata
