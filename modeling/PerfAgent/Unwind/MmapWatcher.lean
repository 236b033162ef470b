import Mathlib.Data.List.Rotate
import PerfAgent.Lib.LittleEndian
import PerfAgent.Lib.Slices

/-!
# The ring of the mmap watcher

`drain` and the parsers of `unwind/ehmaps/mmap_watcher.go`.  The kernel puts its records one behind
the other into a ring of bytes; `tail` and `head` count bytes since the ring was opened, and the place
in the ring is the count modulo its size.  A ring that is read from `tail` on is its list of bytes
rotated by `tail`.
-/

namespace PerfAgent.Unwind

open List

inductive MmapEventKind where
  | mmap
  | exit
  | fork
deriving DecidableEq

structure MmapEventRecord where
  kind : MmapEventKind
  pid : Nat
  tid : Nat
  addr : Nat := 0
  len : Nat := 0
  pgOff : Nat := 0
  prot : Nat := 0
  filename : List UInt8 := []
deriving DecidableEq

def perfRecordMmap2 : Nat := 10
def perfRecordExit : Nat := 4
def perfRecordFork : Nat := 7

/-! ## The parsers -/

def cString (name : List UInt8) : List UInt8 :=
  match name.findIdx? (· == 0) with
  | some i => name.take i
  | none => name

def parseMmap2 (body : List UInt8) : Option MmapEventRecord :=
  if body.length < 64 then none
  else
    some
      { kind := .mmap
        pid := leAt body 0 4
        tid := leAt body 4 4
        addr := leAt body 8 8
        len := leAt body 16 8
        pgOff := leAt body 24 8
        prot := leAt body 56 4
        filename := cString (body.drop 64) }

/-- `parseExit` and `parseFork`, whose records share their first 16 bytes. -/
def parseTask (kind : MmapEventKind) (body : List UInt8) : Option MmapEventRecord :=
  if body.length < 16 then none
  else
    some
      { kind := kind
        pid := leAt body 0 4
        tid := leAt body 8 4 }

def parseExit : List UInt8 → Option MmapEventRecord := parseTask .exit
def parseFork : List UInt8 → Option MmapEventRecord := parseTask .fork

def parserOf (typ : Nat) : Option (List UInt8 → Option MmapEventRecord) :=
  if typ = perfRecordMmap2 then some parseMmap2
  else if typ = perfRecordExit then some parseExit
  else if typ = perfRecordFork then some parseFork
  else none

/-! ## `drain` -/

/-- `readBytes`: `n` bytes from an offset on, around the end of the ring. -/
def readBytes (data : Slice UInt8) (off n : Nat) : Outcome Empty (List UInt8) :=
  if off + n ≤ data.len then do
    let b ← data.sub off (off + n : Nat)
    return b.toList
  else do
    let first := data.len - off
    let b ← data.suffix off
    let c ← data.sub 0 (n - first : Nat)
    return b.toList ++ c.toList

/-- What `drain` has done. -/
structure Drained where
  /-- The oldest event first. -/
  delivered : List MmapEventRecord := []
  /-- The tail that the kernel sees. -/
  dataTail : UInt64
  ok : Bool := true
  /-- The offsets and lengths that have been read, the last ones first.  Nothing depends on them. -/
  looked : List (Nat × Nat) := []

/-- One turn of the loop up to the delivery: the size of the record at the tail and its event, or
nothing if the record is corrupt. -/
def readRecord (data : Slice UInt8) (tail : UInt64) (d : Drained) :
    Outcome Empty (Option (Nat × Option MmapEventRecord) × Drained) :=
  if data.len = 0 then .panic
  else do
    let base := tail.toNat % data.len
    let hdr ← readBytes data base 8
    let d := { d with looked := (base, 8) :: d.looked }
    let typ := leAt hdr 0 4
    let recSize := leAt hdr 6 2
    if recSize < 8 ∨ data.len < recSize then return (none, d)
    else
      match parserOf typ with
      | none => return (some (recSize, none), d)
      | some parse => do
          let off := (base + 8) % data.len
          let body ← readBytes data off (recSize - 8)
          return (some (recSize, parse body), { d with looked := (off, recSize - 8) :: d.looked })

/-- The loop of `drain`, for as many records as there is fuel.  `done k` is that the watcher is
being closed when event `k` is handed over. -/
def drainLoop (data : Slice UInt8) (done : Nat → Bool) (head : UInt64) : Nat → UInt64 → Drained → Outcome Empty Drained
  | 0, tail, d => if tail < head then .outOfFuel else .ok { d with dataTail := tail }
  | fuel + 1, tail, d =>
    if tail < head then do
      let (record, d) ← readRecord data tail d
      match record with
      -- let the kernel catch up
      | none => return { d with dataTail := head }
      | some (recSize, none) => drainLoop data done head fuel (tail + UInt64.ofNat recSize) d
      | some (recSize, some ev) =>
        if done d.delivered.length then return { d with ok := false }
        else
          drainLoop data done head fuel (tail + UInt64.ofNat recSize) { d with delivered := d.delivered ++ [ev] }
    else .ok { d with dataTail := tail }

def drain (fuel : Nat) (data : Slice UInt8) (done : Nat → Bool) (head tail : UInt64) : Outcome Empty Drained :=
  drainLoop data done head fuel tail { dataTail := tail }

/-! ## Records -/

structure PerfRecord where
  typ : UInt32
  misc : UInt16
  body : List UInt8
  fits : 8 + body.length < 2 ^ 16

namespace PerfRecord

def bytes (r : PerfRecord) : List UInt8 :=
  leBytes 4 r.typ.toNat ++ (leBytes 2 r.misc.toNat ++ (leBytes 2 (8 + r.body.length) ++ r.body))

/-- The event that a record is, if it is one that the watcher is interested in. -/
def event (r : PerfRecord) : Option MmapEventRecord := (parserOf r.typ.toNat).bind fun parse => parse r.body

theorem length_bytes (r : PerfRecord) : r.bytes.length = 8 + r.body.length := by
  simp only [bytes, List.length_append, length_leBytes]
  omega

end PerfRecord

/-! ## Reading around the end -/

/-- Every place that has been read is one of the records that start at `tail`. -/
def Drained.Within (d : Drained) (size tail total : Nat) : Prop :=
  ∀ p ∈ d.looked, ∀ i < p.2, ∃ k < total, (p.1 + i) % size = (tail + k) % size

section Drain

variable {data : Slice UInt8} {done : Nat → Bool} {head tail : UInt64} {d : Drained}

end Drain

/-! ## All records -/

section Records

variable {data : Slice UInt8} {done : Nat → Bool} {head : UInt64}

theorem Drained.Within.append {d d' d'' : Drained} {size tail n m : Nat} (h : d.Within size tail n)
    (h' : d'.Within size (tail + n) m) (hlooked : d''.looked = d'.looked ++ d.looked) :
    d''.Within size tail (n + m) := by
  intro p hp i hi
  rw [hlooked] at hp
  rcases mem_append.mp hp with hp | hp
  · obtain ⟨k, hk, heq⟩ := h' p hp i hi
    exact ⟨n + k, by omega, by rw [heq, Nat.add_assoc]⟩
  · obtain ⟨k, hk, heq⟩ := h p hp i hi
    exact ⟨k, by omega, heq⟩

theorem Drained.Within.mono {d : Drained} {size tail n m : Nat} (h : d.Within size tail n) (hle : n ≤ m) :
    d.Within size tail m := by
  intro p hp i hi
  obtain ⟨k, hk, heq⟩ := h p hp i hi
  exact ⟨k, by omega, heq⟩

end Records

end PerfAgent.Unwind
