import PerfAgent.Lib.Varint

/-!
# The execution log

The file that keeps one row per projected sample of an aggregated profile, and its reader
(`gpu/execlog/execlog.go`).  Strings are byte strings, as in the source.  The writer is modelled
up to the file system: what `Finish` publishes is the list of bytes, and only a call that the
writer itself refuses fails.

The reader is a parser whose digest is the checksum of the bytes taken so far.  It hands each
row to a callback, which collects them here.
-/

namespace PerfAgent.Gpu.Execlog

/-- `"PAGPUEX1"`. -/
def magic : List UInt8 := [0x50, 0x41, 0x47, 0x50, 0x55, 0x45, 0x58, 0x31]

def tagRow : UInt8 := 0x01

def tagTrailer : UInt8 := 0xFF

def flagCorrelation : UInt8 := 1

def maxStringLen : Nat := 4096

structure Header where
  captureID : List UInt8
  backend : List UInt8
  sampleType : List UInt8
deriving DecidableEq

structure Row where
  sample : UInt32
  execution : UInt64
  hasCorrelation : Bool := false
  correlation : UInt64 := 0
  value : UInt64
deriving DecidableEq

abbrev Digest := { b : List UInt8 // b.length = 32 }

structure Trailer where
  rows : UInt64
  executions : UInt64
  aggregatedSamples : UInt64
  profileSHA256 : Digest
deriving DecidableEq

/-! ## The checksum -/

variable (crc : UInt32)

def crcBit : UInt32 :=
  if crc &&& 1 = 1 then (crc >>> 1) ^^^ 0xEDB88320 else crc >>> 1

def crcByte (b : UInt8) : UInt32 :=
  (List.range 8).foldl (fun c _ => crcBit c) (crc ^^^ b.toUInt32)

def crcInit : UInt32 := 0xFFFFFFFF

def sum32 : UInt32 := ~~~crc

/-! ## The writer -/

structure Writer where
  out : List UInt8
  err : Option String := none
  rows : UInt64 := 0
  executions : UInt64 := 0
  /-- The previous ordinal plus one; zero before the first row. -/
  nextOrdinal : UInt64 := 0
  prevCorrelation : UInt64 := 0
  done : Bool := false
deriving DecidableEq

def stringField (s : List UInt8) : List UInt8 := uvarint (UInt64.ofNat s.length) ++ s

def create (h : Header) : Except String Writer :=
  if [h.captureID, h.backend, h.sampleType].any fun s => s.length > maxStringLen then
    .error "execlog: header field too long"
  else
    .ok { out := magic ++ (stringField h.captureID ++ (stringField h.backend ++
      stringField h.sampleType)) }

namespace Writer

def flags (r : Row) : UInt8 := if r.hasCorrelation then flagCorrelation else 0

def encodeRow (w : Writer) (r : Row) : List UInt8 :=
  tagRow :: (uvarint r.sample.toUInt64 ++ (uvarint (r.execution + 1 - w.nextOrdinal) ++
    (flags r :: ((if r.hasCorrelation then uvarint (zigzag (r.correlation - w.prevCorrelation))
      else []) ++ uvarint r.value))))

def add (w : Writer) (r : Row) : Writer :=
  if w.err.isSome || w.done then w
  else if r.execution + 1 < w.nextOrdinal ∨ r.execution = 0xFFFFFFFFFFFFFFFF then
    { w with err := some s!"execlog: execution ordinal {r.execution} after {w.nextOrdinal - 1}" }
  else
    { w with
      out := w.out ++ w.encodeRow r
      prevCorrelation := if r.hasCorrelation then r.correlation else w.prevCorrelation
      executions :=
        if r.execution + 1 - w.nextOrdinal > 0 then w.executions + 1 else w.executions
      nextOrdinal := r.execution + 1
      rows := w.rows + 1 }

def encodeTrailer (w : Writer) (aggregatedSamples : UInt64) (profileSHA256 : Digest) : List UInt8 :=
  tagTrailer :: (uvarint w.rows ++ (uvarint w.executions ++ (uvarint aggregatedSamples ++ profileSHA256.1)))

def finish (w : Writer) (aggregatedSamples : UInt64) (profileSHA256 : Digest) : Writer × Except String (List UInt8) :=
  if w.done then (w, .error "execlog: already finished")
  else
    let out := w.out ++ w.encodeTrailer aggregatedSamples profileSHA256
    match w.err with
    | some e => ({ w with done := true }, .error e)
    | none => ({ w with done := true, out := out },
        .ok (out ++ putUint32 (sum32 (out.foldl crcByte crcInit))))

end Writer

/-- A whole log: `Create`, `Add` for every row, `Finish`. -/
def write (h : Header) (rows : List Row) (aggregatedSamples : UInt64) (profileSHA256 : Digest) :
    Except String (List UInt8) := do
  let w ← create h
  ((rows.foldl Writer.add w).finish aggregatedSamples profileSHA256).2

/-! ## The reader -/

inductive Corrupt where
  | badMagic
  | badHeader
  | missingTrailer
  | unknownTag (tag : UInt8) (rows : UInt64)
  | badSample (row : UInt64)
  | badDelta (row : UInt64)
  | ordinalOverflow (row : UInt64)
  | badFlags (row : UInt64)
  | badCorrelation (row : UInt64)
  | badValue (row : UInt64)
  | badTrailer
  | checksumMismatch
  | trailingBytes
  | counts (t : Trailer) (rows executions : UInt64)
  | sampleRange (maxSample : Int) (aggregatedSamples : UInt64)
deriving DecidableEq

namespace Corrupt

def hex2 (b : UInt8) : String :=
  String.ofList [Nat.digitChar (b.toNat / 16), Nat.digitChar (b.toNat % 16)]

def detail : Corrupt → String
  | badMagic => "bad magic"
  | badHeader => "bad header"
  | missingTrailer => "missing trailer"
  | unknownTag tag rows => "unknown tag 0x" ++ hex2 tag ++ s!" after {rows} rows"
  | badSample row => s!"bad sample index at row {row}"
  | badDelta row => s!"bad execution delta at row {row}"
  | ordinalOverflow row => s!"execution ordinal overflow at row {row}"
  | badFlags row => s!"bad flags at row {row}"
  | badCorrelation row => s!"bad correlation at row {row}"
  | badValue row => s!"bad value at row {row}"
  | badTrailer => "bad trailer"
  | checksumMismatch => "checksum mismatch"
  | trailingBytes => "trailing bytes"
  | counts t rows executions =>
    s!"trailer counts {t.rows} rows/{t.executions} executions, read {rows}/{executions}"
  | sampleRange maxSample agg =>
    s!"sample index {maxSample} out of range of {agg} aggregated samples"

def message (c : Corrupt) : String := "execlog: corrupt or truncated log: " ++ c.detail

end Corrupt

open StreamParser

/-- A parser of log bytes that keeps the checksum of what it takes. -/
abbrev LogParser := StreamParser UInt8 UInt32 Corrupt

def readField : LogParser (List UInt8) := do
  let n ← readUvarint crcByte .badHeader
  if n.toNat > maxStringLen then throw .badHeader else block crcByte .badHeader n.toNat

def readHeader : LogParser Header := do
  let m ← block crcByte .badMagic magic.length
  if m ≠ magic then throw .badMagic
  else do
    let captureID ← readField
    let backend ← readField
    let sampleType ← readField
    pure ⟨captureID, backend, sampleType⟩

structure Progress where
  rows : UInt64 := 0
  executions : UInt64 := 0
  nextOrdinal : UInt64 := 0
  prevCorrelation : UInt64 := 0
  maxSample : Int := -1
deriving DecidableEq

def readCorrelation (p : Progress) (flags : UInt8) : LogParser (Bool × UInt64) :=
  if flags &&& flagCorrelation ≠ 0 then do
    let z ← readUvarint crcByte (.badCorrelation p.rows)
    pure (true, p.prevCorrelation + unzigzag z)
  else pure (false, 0)

def Progress.next (p : Progress) (delta : UInt64) (r : Row) : Progress where
  rows := p.rows + 1
  executions := if delta > 0 then p.executions + 1 else p.executions
  nextOrdinal := if delta > 0 then p.nextOrdinal + delta else p.nextOrdinal
  prevCorrelation := if r.hasCorrelation then r.correlation else p.prevCorrelation
  maxSample := if (r.sample.toNat : Int) > p.maxSample then r.sample.toNat else p.maxSample

/-- The row that these numbers make, and the loop's variables after it. -/
def Progress.row (p : Progress) (sample delta : UInt64) (c : Bool × UInt64) (value : UInt64) : Row × Progress :=
  let row : Row := {
    sample := sample.toUInt32
    execution := (if delta > 0 then p.nextOrdinal + delta else p.nextOrdinal) - 1
    hasCorrelation := c.1
    correlation := c.2
    value := value }
  (row, p.next delta row)

def readRow (p : Progress) : LogParser (Row × Progress) := do
  let sample ← readUvarint crcByte (.badSample p.rows)
  if sample.toNat > 2 ^ 32 - 1 then throw (.badSample p.rows)
  else do
    let delta ← readUvarint crcByte (.badDelta p.rows)
    if p.rows = 0 ∧ delta = 0 then throw (.badDelta p.rows)
    else if delta > 0 ∧ p.nextOrdinal + delta < p.nextOrdinal then throw (.ordinalOverflow p.rows)
    else do
      let flags ← item crcByte (.badFlags p.rows)
      if flags &&& ~~~flagCorrelation ≠ 0 then throw (.badFlags p.rows)
      else do
        let c ← readCorrelation p flags
        let value ← readUvarint crcByte (.badValue p.rows)
        pure (p.row sample delta c value)

/-- The loop over rows, up to the tag of the trailer.  Each round takes a byte, so more rounds
than there are bytes are never needed. -/
def readRows : Nat → Progress → LogParser (List Row × Progress)
  | 0, _ => throw .missingTrailer
  | fuel + 1, p => do
      let tag ← item crcByte .missingTrailer
      if tag = tagTrailer then pure ([], p)
      else if tag ≠ tagRow then throw (.unknownTag tag p.rows)
      else do
        let r ← readRow p
        let rest ← readRows fuel r.2
        pure (r.1 :: rest.1, rest.2)

def readTrailer : LogParser Trailer := do
  let rows ← readUvarint crcByte .badTrailer
  let executions ← readUvarint crcByte .badTrailer
  let aggregatedSamples ← readUvarint crcByte .badTrailer
  let sha ← block crcByte .badTrailer 32
  if h : sha.length = 32 then pure ⟨rows, executions, aggregatedSamples, ⟨sha, h⟩⟩
  else throw .badTrailer

def readBody (fuel : Nat) : LogParser (Header × (List Row × Progress) × Trailer) := do
  let h ← readHeader
  let rows ← readRows fuel {}
  let t ← readTrailer
  pure (h, rows, t)

/-- What is checked after the body: the sum of the bytes so far, the end of the input, and the
trailer's counts. -/
def verify (p : Progress) (t : Trailer) (rest : List UInt8) (crc : UInt32) : Except Corrupt Unit :=
  if rest.length < 4 ∨ uint32 (rest.take 4) ≠ sum32 crc then .error .checksumMismatch
  else if rest.drop 4 ≠ [] then .error .trailingBytes
  else if t.rows ≠ p.rows ∨ t.executions ≠ p.executions then
    .error (.counts t p.rows p.executions)
  else if p.maxSample ≥ t.aggregatedSamples.toInt64.toInt then
    .error (.sampleRange p.maxSample t.aggregatedSamples)
  else .ok ()

def read (b : List UInt8) : Except Corrupt (Header × List Row × Trailer) := do
  let ((h, (rows, p), t), (rest, crc)) ← readBody (b.length + 1) (b, crcInit)
  verify p t rest crc
  pure (h, rows, t)

end PerfAgent.Gpu.Execlog
