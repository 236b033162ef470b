import PerfAgent.Gpu.ModuleStoreInvariant
import PerfAgent.Gpuprobe.DecodeBatch

/-!
# The cubin channel

How the bytes of a module reach the agent (`gpuprobe/cubin.go`).  A producer offers a sealed
memory file beside a header; the listener takes one offer at a time through a row of checks,
each with its own counter, and hands what passes to a sink: the module store of the consumer,
or a map of its own where there is none.

What the system answers about an offer is part of the offer: the credentials of the peer,
whether the bucket had a token for it, what `/proc` says of its mappings, and how the calls
on the descriptor end.
-/

namespace PerfAgent.Gpuprobe

open Gpu

/-! ## The wire -/

structure CubinHeader where
  magic : Nat
  version : Nat
  flags : Nat
  size : Nat
  crc : Nat
deriving DecidableEq

def cubinHeaderSize : Nat := 24

/-- The bytes of `CUB1`. -/
def cubinHeaderMagic : Nat := 0x31425543

def cubinHeaderVersion : Nat := 1

/-- The reply byte: `K`, the bytes are in; or `X`, they are not. -/
inductive CubinReply where
  | ok
  | refused
deriving DecidableEq

/-- `%#0wx`. -/
def hexText (w n : Nat) : String :=
  let digits := Nat.toDigits 16 n
  "0x" ++ String.ofList (List.replicate (w - digits.length) '0' ++ digits)

def decodeCubinHeader (b : List UInt8) : Except String CubinHeader :=
  if b.length < cubinHeaderSize then
    .error ("short header: " ++ toString b.length ++ " of " ++ toString cubinHeaderSize ++ " bytes")
  else
    let h : CubinHeader :=
      { magic := littleEndian b 0 4, version := littleEndian b 4 2, flags := littleEndian b 6 2
        size := littleEndian b 8 8, crc := littleEndian b 16 8 }
    if h.magic ≠ cubinHeaderMagic then
      .error ("bad magic " ++ hexText 8 h.magic ++ ", want " ++ hexText 8 cubinHeaderMagic)
    else if h.version ≠ cubinHeaderVersion then
      .error ("unknown offer version " ++ toString h.version ++ ", want " ++
        toString cubinHeaderVersion)
    else if h.flags ≠ 0 then .error ("unknown offer flags " ++ hexText 4 h.flags)
    else if h.size = 0 then .error "declared size is zero"
    else .ok h

structure Seals where
  sealSeal : Bool := false
  sealShrink : Bool := false
  sealGrow : Bool := false
  sealWrite : Bool := false
deriving DecidableEq

def Seals.missing (s : Seals) : String :=
  "|".intercalate <|
    (if s.sealSeal then [] else ["F_SEAL_SEAL"]) ++ (if s.sealShrink then [] else ["F_SEAL_SHRINK"]) ++
    (if s.sealGrow then [] else ["F_SEAL_GROW"]) ++ (if s.sealWrite then [] else ["F_SEAL_WRITE"])

def Seals.all (s : Seals) : Bool := s.sealSeal && s.sealShrink && s.sealGrow && s.sealWrite

/-- A descriptor: its seals, or why they cannot be read; the bytes of the file; and how the
calls on it fail, if they do.  No file is larger than a signed size can say. -/
structure Descriptor where
  seals : Except String Seals
  bytes : List UInt8
  fits : bytes.length < 2 ^ 63
  fstat : Option String := none
  mmap : Option String := none
  munmap : Option String := none

/-- What the peer sends: its first message with the descriptors beside it, and the rest. -/
structure OfferMessage where
  first : Except String (List UInt8 × List Descriptor)
  rest : List UInt8 := []
  restErr : String := "unexpected EOF"

structure CubinOffer where
  creds : Except String (Nat × Nat)
  admitted : Bool := true
  maps : Except String Bool := .ok true
  message : OfferMessage

def verifyCubinSeals (fd : Descriptor) : Except String Unit :=
  match fd.seals with
  | .error e => .error ("F_GET_SEALS: " ++ e ++ " (not a sealable memfd?)")
  | .ok s => if s.all then .ok () else .error ("missing seals " ++ s.missing)

def recvCubinOffer (m : OfferMessage) : Except String (CubinHeader × Descriptor) :=
  match m.first with
  | .error e => .error ("read offer: " ++ e)
  | .ok (buf, [fd]) =>
    if buf.length < cubinHeaderSize then
      let need := cubinHeaderSize - buf.length
      if m.rest.length < need then .error ("read offer header: " ++ m.restErr)
      else (decodeCubinHeader (buf ++ m.rest.take need)).map (·, fd)
    else (decodeCubinHeader buf).map (·, fd)
  | .ok (_, fds) =>
    .error ("offer carried " ++ toString fds.length ++ " descriptors, want exactly 1")

/-! ## The sinks -/

/-- `ModuleStore.Put`, when nothing else happens to the store meanwhile. -/
def putModule (parse : List UInt8 → Except String Cubin) (s : ModuleStore) (crc : Nat)
    (b : List UInt8) : ModuleStore × Except String Unit :=
  match s.putHeld crc with
  | some r => r
  | none =>
    let r := s.putParsed crc b (parse b)
    (r.1.1, r.2)

structure MemCubinStore where
  cap : Nat
  seen : AssocMap Nat (List UInt8) := ∅
  bytes : Int := 0

def defaultCubinStoreCapacity : Nat := 512

def newMemCubinStore (capacity : Int) : MemCubinStore where
  cap := if capacity ≤ 0 then defaultCubinStoreCapacity else capacity.toNat

def MemCubinStore.put (s : MemCubinStore) (crc : Nat) (b : List UInt8) : Except String MemCubinStore :=
  if (s.seen.find? crc).isSome then .ok s
  else if s.cap ≤ s.seen.size then
    .error ("cubin store full at " ++ toString s.cap ++ " modules")
  else .ok { s with seen := s.seen.put crc b, bytes := s.bytes + b.length }

inductive CubinSink where
  | modules (store : ModuleStore)
  | mem (store : MemCubinStore)

namespace CubinSink

def hasCubin : CubinSink → Nat → CubinSink × Bool
  | .modules s, crc => (.modules (s.has crc).1, (s.has crc).2)
  | .mem s, crc => (.mem s, (s.seen.find? crc).isSome)

/-- The error of the store is a diagnosis of the module and is dropped. -/
def putCubin (parse : List UInt8 → Except String Cubin) : CubinSink → Nat → List UInt8 → Except String CubinSink
  | .modules s, crc, b => .ok (.modules (putModule parse s crc b).1)
  | .mem s, crc, b => (s.put crc b).map .mem

def residentBytes : CubinSink → Int
  | .modules s => s.liveBytes
  | .mem s => s.bytes

def holds : CubinSink → Nat → Bool
  | .modules s, crc => (s.byCRC.find? crc).isSome
  | .mem s, crc => (s.seen.find? crc).isSome

end CubinSink

def cubinSinkFor (modules : Option ModuleStore) : CubinSink :=
  match modules with
  | some s => .modules s
  | none => .mem (newMemCubinStore defaultCubinStoreCapacity)

/-! ## The listener -/

structure CubinStats where
  received : Nat := 0
  bytes : Nat := 0
  duplicate : Nat := 0
  tooLarge : Nat := 0
  malformed : Nat := 0
  unsealed : Nat := 0
  unauthorized : Nat := 0
  throttled : Nat := 0
  lastErr : String := ""
  /-- The calls of `mmap`. -/
  mapped : Nat := 0

inductive CubinCount where
  | received
  | duplicate
  | tooLarge
  | malformed
  | unsealed
  | unauthorized
  | throttled
deriving DecidableEq

namespace CubinStats

def get (st : CubinStats) : CubinCount → Nat
  | .received => st.received
  | .duplicate => st.duplicate
  | .tooLarge => st.tooLarge
  | .malformed => st.malformed
  | .unsealed => st.unsealed
  | .unauthorized => st.unauthorized
  | .throttled => st.throttled

def count (st : CubinStats) : CubinCount → CubinStats
  | .received => { st with received := st.received + 1 }
  | .duplicate => { st with duplicate := st.duplicate + 1 }
  | .tooLarge => { st with tooLarge := st.tooLarge + 1 }
  | .malformed => { st with malformed := st.malformed + 1 }
  | .unsealed => { st with unsealed := st.unsealed + 1 }
  | .unauthorized => { st with unauthorized := st.unauthorized + 1 }
  | .throttled => { st with throttled := st.throttled + 1 }

end CubinStats

/-- The listener; the device of the shim is kept as its two numbers. -/
structure CubinListener where
  sink : CubinSink
  pid : Nat := 0
  major : Nat := 0
  minor : Nat := 0
  ino : Nat := 0
  requireUID : Option Nat := none
  maxBytes : Nat
  totalBytes : Nat
  stats : CubinStats := {}

def defaultCubinMaxBytes : Nat := 8 * 2 ^ 20

def defaultCubinTotalBytes : Nat := 256 * 2 ^ 20

def ceiling (configured : Int64) (default : Nat) : Nat :=
  if configured.toInt > 0 then configured.toInt.toNat else default

def buildCubinListener (sink : CubinSink) (pid : Nat) (shim : Nat × Nat × Nat)
    (requireUID : Option Nat) (cubinMaxBytes cubinTotalBytes : Int64) : CubinListener where
  sink := sink
  pid := pid
  major := shim.1
  minor := shim.2.1
  ino := shim.2.2
  requireUID := requireUID
  maxBytes := ceiling cubinMaxBytes defaultCubinMaxBytes
  totalBytes := ceiling cubinTotalBytes defaultCubinTotalBytes

namespace CubinListener

def reject (l : CubinListener) (counter : CubinCount) (reason : String) : CubinListener × CubinReply :=
  ({ l with stats := { l.stats.count counter with lastErr := reason } }, .refused)

/-- The reason of a refusal of the payload begins with whose it is. -/
def offerText (pid : Nat) (hdr : CubinHeader) : String :=
  "pid " ++ toString pid ++ " crc " ++ hexText 0 hdr.crc ++ ": "

def takePayload (parse : List UInt8 → Except String Cubin) (l : CubinListener) (pid : Nat)
    (hdr : CubinHeader) (fd : Descriptor) : CubinListener × CubinReply :=
  match verifyCubinSeals fd with
  | .error e => l.reject .unsealed (offerText pid hdr ++ e)
  | .ok () =>
    let (sink, held) := l.sink.hasCubin hdr.crc
    let l := { l with sink := sink }
    if held then ({ l with stats := l.stats.count .duplicate }, .ok)
    else if hdr.size > l.maxBytes then
      l.reject .tooLarge (offerText pid hdr ++ toString hdr.size ++
        " bytes over the per-cubin ceiling of " ++ toString l.maxBytes)
    else
      let resident := (max l.sink.residentBytes 0).toNat
      if (resident + hdr.size) % 2 ^ 64 > l.totalBytes then
        l.reject .tooLarge (offerText pid hdr ++ toString hdr.size ++
          " bytes would pass the total ceiling of " ++ toString l.totalBytes ++ " (" ++
          toString resident ++ " held)")
      else
        match fd.fstat with
        | some e => l.reject .malformed (offerText pid hdr ++ "fstat: " ++ e)
        | none =>
          if fd.bytes.length ≠ hdr.size then
            l.reject .malformed (offerText pid hdr ++ "declared " ++ toString hdr.size ++
              " bytes, memfd holds " ++ toString fd.bytes.length)
          else
            let l := { l with stats := { l.stats with mapped := l.stats.mapped + 1 } }
            match fd.mmap with
            | some e => l.reject .malformed (offerText pid hdr ++ "mmap: " ++ e)
            | none =>
              match fd.munmap with
              | some e => l.reject .malformed (offerText pid hdr ++ "munmap: " ++ e)
              | none =>
                match l.sink.putCubin parse hdr.crc fd.bytes with
                | .error e => l.reject .malformed (offerText pid hdr ++ "store: " ++ e)
                | .ok sink =>
                  ({ l with
                    sink := sink
                    stats := { l.stats.count .received with
                      bytes := l.stats.bytes + hdr.size } }, .ok)

def handle (parse : List UInt8 → Except String Cubin) (l : CubinListener) (o : CubinOffer) :
    CubinListener × CubinReply :=
  match o.creds with
  | .error e => l.reject .unauthorized ("peer credentials: " ++ e)
  | .ok (pid, uid) =>
    if o.admitted = false then
      l.reject .throttled ("uid " ++ toString uid ++ " throttled at pid " ++ toString pid ++
        "; cubin offer rate exceeded")
    else if l.requireUID.any (uid ≠ ·) then
      l.reject .unauthorized ("pid " ++ toString pid ++ " has uid " ++ toString uid ++
        "; this consumer is unprivileged and serves only uid " ++ toString (l.requireUID.getD 0))
    else if l.pid ≠ 0 ∧ pid ≠ l.pid then
      l.reject .unauthorized ("pid " ++ toString pid ++ " (uid " ++ toString uid ++
        ") is not the attached pid " ++ toString l.pid)
    else
      match o.maps with
      | .error e =>
        l.reject .unauthorized ("read maps for pid " ++ toString pid ++ ": " ++ e)
      | .ok false =>
        l.reject .unauthorized ("pid " ++ toString pid ++ " (uid " ++ toString uid ++
          ") does not map the shim (dev " ++ toString l.major ++ ":" ++ toString l.minor ++
          " ino " ++ toString l.ino ++ ")")
      | .ok true =>
        match recvCubinOffer o.message with
        | .error e => l.reject .malformed ("pid " ++ toString pid ++ ": " ++ e)
        | .ok (hdr, fd) => l.takePayload parse pid hdr fd

end CubinListener

end PerfAgent.Gpuprobe
