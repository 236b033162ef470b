import Mathlib.Algebra.Ring.Nat
import PerfAgent.Lib.AssocMap
import PerfAgent.Lib.Machine
import Mathlib.Data.Finset.Card

/-!
# The cubin queue: capture, settle, drain

`core/cubinqueue.cc` as the steps its threads take.  Any number of application threads
capture: the copy is made outside the lock, and one critical section parks it as pending or
refuses it.  One thread settles: it takes a pending copy under the lock, computes the CRC
outside, and queues the copy under the lock again.  Any number of threads drain: a copy is
taken under the lock and offered outside.  A counter that the source moves after the unlock
is a step of its own, so that the others can run in between.

Sizes are those of `size_t`.  Every copy that the queue adds up is allocated, and allocated
bytes are never more than the address space holds; this is the only thing asked of `malloc`.
-/

namespace PerfAgent.Shim

structure CubinQueueLimits where
  maxEntries : Nat := 512
  maxQueuedBytes : Nat := 64 * 1024 * 1024
  maxCubinBytes : Nat := 8 * 1024 * 1024
  maxInterned : Nat := 4096
  maxPendingEntries : Nat := 512
  maxPendingBytes : Nat := 64 * 1024 * 1024
deriving DecidableEq

/-- The vendor's buffer; `none` is the null pointer. -/
structure CubinView where
  bytes : Option (List UInt8)
deriving DecidableEq

namespace CubinView

def size (v : CubinView) : Nat := (v.bytes.getD []).length

def empty (v : CubinView) : Bool := v.bytes.all List.isEmpty

/-- `copy_to` a buffer of `cap` bytes. -/
def copyTo (v : CubinView) (cap : Nat) : Option (List UInt8) :=
  if v.empty ∨ cap < v.size then none else v.bytes

end CubinView

structure CubinEntry where
  crc : Nat := 0
  moduleId : Nat
  loadNs : Nat
  bytes : List UInt8
deriving DecidableEq

def CubinEntry.len (e : CubinEntry) : Nat := e.bytes.length

def totalLen (es : List CubinEntry) : Nat := (es.map CubinEntry.len).sum

structure CubinStats where
  captured : Nat := 0
  reloadSkipped : Nat := 0
  queueFull : Nat := 0
  sendFailed : Nat := 0
  tooLarge : Nat := 0
  crcFailed : Nat := 0
  allocFailed : Nat := 0
  pendingFull : Nat := 0
  sent : Nat := 0
deriving DecidableEq

/-- The fields of `CubinQueue`. -/
structure CubinQueue where
  limits : CubinQueueLimits := {}
  pending : List CubinEntry := []
  pendingBytes : Nat := 0
  q : List CubinEntry := []
  queuedBytes : Nat := 0
  interned : Finset Nat := ∅
  stats : CubinStats := {}
deriving DecidableEq

namespace CubinQueue

/-! ## The critical sections -/

/-- The critical section of `capture`. -/
def park (c : CubinQueue) (e : CubinEntry) : Option CubinQueue :=
  if c.pending.length ≥ c.limits.maxPendingEntries ∨
      (c.pendingBytes + e.len) % 2 ^ 64 > c.limits.maxPendingBytes then none
  else some { c with
    pending := c.pending ++ [e]
    pendingBytes := (c.pendingBytes + e.len) % 2 ^ 64 }

/-- `settle` takes the oldest pending copy. -/
def takePending (c : CubinQueue) : Option (CubinEntry × CubinQueue) :=
  match c.pending with
  | [] => none
  | e :: es => some (e, { c with
      pending := es
      pendingBytes := (c.pendingBytes + 2 ^ 64 - e.len) % 2 ^ 64 })

/-- `settle` hands a copy to `drain`. -/
def enqueue (c : CubinQueue) (e : CubinEntry) : Option CubinQueue :=
  if c.q.length ≥ c.limits.maxEntries ∨ (c.queuedBytes + e.len) % 2 ^ 64 > c.limits.maxQueuedBytes then none
  else some { c with
    q := c.q ++ [e]
    queuedBytes := (c.queuedBytes + e.len) % 2 ^ 64 }

/-- `drain` takes the oldest queued copy. -/
def dequeue (c : CubinQueue) : Option (CubinEntry × CubinQueue) :=
  match c.q with
  | [] => none
  | e :: es => some (e, { c with
      q := es
      queuedBytes := (c.queuedBytes + 2 ^ 64 - e.len) % 2 ^ 64 })

/-- `settle` remembers a CRC, within the bound. -/
def intern (c : CubinQueue) (crc : Nat) : CubinQueue :=
  if c.interned.card < c.limits.maxInterned then { c with interned := insert crc c.interned }
  else c

end CubinQueue

/-! ## The threads -/

/-- Where a thread stands in `capture`. -/
inductive Capturing where
  | /-- It owns a copy and is about to take the lock. -/ copied (e : CubinEntry)
  | /-- It has found the pending list full and is about to count that. -/ refusing
deriving DecidableEq

/-- Where the settling thread stands; `left` is what remains of its budget. -/
inductive Settling where
  | idle
  | /-- At the head of the loop. -/ ready (left : Nat)
  | /-- About to compute the CRC. -/ popped (left : Nat) (e : CubinEntry)
  | /-- The record has been fired, and the copy is about to be queued. -/
    keyed (left : Nat) (e : CubinEntry)
  | /-- It has found the queue full and is about to count that. -/ refusing (left : Nat)
  | /-- It has queued the copy and is about to remember the CRC. -/ queued (left : Nat) (crc : Nat)
deriving DecidableEq

/-- Where a thread stands in `drain`. -/
inductive Draining where
  | ready (left : Nat)
  | offering (left : Nat) (e : CubinEntry)
deriving DecidableEq

namespace Capturing

def bytes : Capturing → Nat
  | copied e => e.len
  | refusing => 0

end Capturing

namespace Settling

def bytes : Settling → Nat
  | popped _ e => e.len
  | keyed _ e => e.len
  | _ => 0

def inFlight : Settling → Nat
  | popped _ _ => 1
  | keyed _ _ => 1
  | refusing _ => 1
  | _ => 0

end Settling

namespace Draining

def bytes : Draining → Nat
  | ready _ => 0
  | offering _ e => e.len

def inFlight : Draining → Nat
  | ready _ => 0
  | offering _ _ => 1

end Draining

/-- The queue and its threads.  `returned` and `returnedEmpty` count the captures that have
returned, of a module and of an empty view; `offers` are the CRCs offered so far, each with
whether it was accepted. -/
structure Cubins where
  queue : CubinQueue := {}
  capturing : AssocMap Nat Capturing := ∅
  settling : Settling := .idle
  draining : AssocMap Nat Draining := ∅
  returned : Nat := 0
  returnedEmpty : Nat := 0
  offers : List (Nat × Bool) := []
deriving DecidableEq

namespace Cubins

def liveBytes (s : Cubins) : Nat :=
  s.capturing.sum Capturing.bytes + totalLen s.queue.pending + s.settling.bytes +
    totalLen s.queue.q + s.draining.sum Draining.bytes

def count (s : Cubins) (f : CubinStats → CubinStats) : Cubins :=
  { s with queue := { s.queue with stats := f s.queue.stats } }

def refuse (s : Cubins) (f : CubinStats → CubinStats) : Cubins :=
  { s.count f with returned := s.returned + 1 }

/-- `capture` up to the lock. -/
def capture (s : Cubins) (thread : Nat) (view : CubinView) (moduleId loadNs : Nat) (allocated : Bool) : Option Cubins :=
  if (s.capturing.find? thread).isSome then none
  else if view.empty then some { s with returnedEmpty := s.returnedEmpty + 1 }
  else if view.size > s.queue.limits.maxCubinBytes then
    some (s.refuse fun c => { c with tooLarge := c.tooLarge + 1 })
  else if !allocated then some (s.refuse fun c => { c with allocFailed := c.allocFailed + 1 })
  else
    match view.copyTo view.size with
    | none => some (s.refuse fun c => { c with allocFailed := c.allocFailed + 1 })
    | some bytes =>
      let e : CubinEntry := { moduleId := moduleId, loadNs := loadNs, bytes := bytes }
      if s.liveBytes + e.len < 2 ^ 64 then
        some { s with capturing := s.capturing.put thread (.copied e) }
      else none

/-- The critical section of `capture`. -/
def park (s : Cubins) (thread : Nat) : Option Cubins :=
  match s.capturing.find? thread with
  | some (.copied e) =>
    match s.queue.park e with
    | some c => some { s with
        queue := c
        capturing := s.capturing.del thread
        returned := s.returned + 1 }
    | none => some { s with capturing := s.capturing.put thread .refusing }
  | _ => none

/-- The rest of a refused `capture`. -/
def countPendingFull (s : Cubins) (thread : Nat) : Option Cubins :=
  match s.capturing.find? thread with
  | some .refusing => some { (s.refuse fun c => { c with pendingFull := c.pendingFull + 1 }) with
      capturing := s.capturing.del thread }
  | _ => none

/-- `settle` is called. -/
def settle (s : Cubins) : Option Cubins :=
  match s.settling with
  | .idle => some { s with settling := .ready s.queue.pending.length }
  | _ => none

/-- The head of `settle`'s loop. -/
def settlePop (s : Cubins) : Option Cubins :=
  match s.settling with
  | .ready 0 => some { s with settling := .idle }
  | .ready (left + 1) =>
    match s.queue.takePending with
    | none => some { s with settling := .idle }
    | some (e, c) => some { s with queue := c, settling := .popped left e }
  | _ => none

def settleCrc (s : Cubins) (crc : Nat) : Option Cubins :=
  match s.settling with
  | .popped left e =>
    if crc = 0 then
      some { (s.count fun c => { c with crcFailed := c.crcFailed + 1 }) with
        settling := .ready left }
    else if crc ∈ s.queue.interned then
      some { (s.count fun c => { c with reloadSkipped := c.reloadSkipped + 1 }) with
        settling := .ready left }
    else some { s with settling := .keyed left { e with crc := crc } }
  | _ => none

/-- `settle`'s second critical section. -/
def settleQueue (s : Cubins) : Option Cubins :=
  match s.settling with
  | .keyed left e =>
    match s.queue.enqueue e with
    | some c => some { s with queue := c, settling := .queued left e.crc }
    | none => some { s with settling := .refusing left }
  | _ => none

def settleCountFull (s : Cubins) : Option Cubins :=
  match s.settling with
  | .refusing left => some { (s.count fun c => { c with queueFull := c.queueFull + 1 }) with
      settling := .ready left }
  | _ => none

def settleIntern (s : Cubins) : Option Cubins :=
  match s.settling with
  | .queued left crc =>
    let s := { s with queue := s.queue.intern crc }
    some { (s.count fun c => { c with captured := c.captured + 1 }) with
      settling := .ready left }
  | _ => none

/-- `drain` is called. -/
def drain (s : Cubins) (thread : Nat) : Option Cubins :=
  if (s.draining.find? thread).isSome then none
  else some { s with draining := s.draining.put thread (.ready s.queue.q.length) }

/-- The head of `drain`'s loop. -/
def drainPop (s : Cubins) (thread : Nat) : Option Cubins :=
  match s.draining.find? thread with
  | some (.ready 0) => some { s with draining := s.draining.del thread }
  | some (.ready (left + 1)) =>
    match s.queue.dequeue with
    | none => some { s with draining := s.draining.del thread }
    | some (e, c) => some { s with
        queue := c
        draining := s.draining.put thread (.offering left e) }
  | _ => none

def drainOffer (s : Cubins) (thread : Nat) (accepted : Bool) : Option Cubins :=
  match s.draining.find? thread with
  | some (.offering left e) =>
    some { (s.count fun c => if accepted then { c with sent := c.sent + 1 }
        else { c with sendFailed := c.sendFailed + 1 }) with
      draining := s.draining.put thread (.ready left)
      offers := s.offers ++ [(e.crc, accepted)] }
  | _ => none

end Cubins

inductive CubinAct where
  | capture (thread : Nat) (view : CubinView) (moduleId loadNs : Nat) (allocated : Bool)
  | park (thread : Nat)
  | countPendingFull (thread : Nat)
  | settle
  | settlePop
  | settleCrc (crc : Nat)
  | settleQueue
  | settleCountFull
  | settleIntern
  | drain (thread : Nat)
  | drainPop (thread : Nat)
  | drainOffer (thread : Nat) (accepted : Bool)
deriving DecidableEq

def Cubins.step (s : Cubins) : CubinAct → Option Cubins
  | .capture thread view moduleId loadNs allocated =>
    s.capture thread view moduleId loadNs allocated
  | .park thread => s.park thread
  | .countPendingFull thread => s.countPendingFull thread
  | .settle => s.settle
  | .settlePop => s.settlePop
  | .settleCrc crc => s.settleCrc crc
  | .settleQueue => s.settleQueue
  | .settleCountFull => s.settleCountFull
  | .settleIntern => s.settleIntern
  | .drain thread => s.drain thread
  | .drainPop thread => s.drainPop thread
  | .drainOffer thread accepted => s.drainOffer thread accepted

end PerfAgent.Shim
