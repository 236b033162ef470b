import PerfAgent.Lib.Machine

/-!
# Which processes have unwind tables

`pidRegistry` of `gpuprobe/unwindtables.go`.  `note` and `enroll` track a process, the least recently
seen one makes room, and tables are installed and removed by calls of the registrar: by the worker,
from a queue, and by `enroll` and `registerNow` on the goroutine that called them.  A step is what
happens under the lock, or one of these calls.

The work queue has room for everything and the registrar does not fail.  An entry of the list is the
process id that it stands for.
-/

namespace PerfAgent.Gpuprobe

open Function

/-- `pidRegState`, without failures. -/
inductive PidRegState where
  | pending
  | ready
deriving DecidableEq

/-- `pidRegEntry`. -/
structure PidRegEntry where
  state : PidRegState
  enrolled : Bool
deriving DecidableEq

/-- `pidWork`. -/
structure PidWork where
  pid : UInt32
  release : Bool
deriving DecidableEq

/-- Where the worker is: before and after a `Register`, before an `Unregister`. -/
inductive RegWorker where
  | idle
  | registering (pid : UInt32)
  | registered (pid : UInt32)
  | unregistering (pid : UInt32)
deriving DecidableEq

inductive RegCall where
  | enrollRegistering
  | enrollRegistered
  | enrollUnregistering
  | nowRegistering
  | nowRegistered
deriving DecidableEq

/-- `pidRegistry` and the registrar. -/
structure PidRegistry where
  capacity : Nat
  byPID : UInt32 → Option PidRegEntry := fun _ => none
  /-- Most recently seen first. -/
  lru : List UInt32 := []
  work : List PidWork := []
  worker : RegWorker := .idle
  calls : List (UInt32 × RegCall) := []
  /-- Newest first. -/
  wasEnrolled : List UInt32 := []
  evicted : Nat := 0
  enrolledEvicted : Nat := 0
  enrolledMarksDropped : Nat := 0
  registered : Nat := 0
  /-- The tables that the registrar has. -/
  installed : UInt32 → Bool := fun _ => false
  /-- `enroll` has answered that the tables are there, and the process was not evicted since. -/
  promised : UInt32 → Bool := fun _ => false
  /-- Some `Register` came on top of another. -/
  registeredTwice : Bool := false

variable (pid : UInt32)

def enrolledMarkOvercommit : Nat := 4

namespace PidRegistry

variable (s : PidRegistry)

/-! ## The registrar -/

def register : PidRegistry :=
  { s with
    installed := update s.installed pid true
    registeredTwice := s.registeredTwice || s.installed pid }

def unregister : PidRegistry := { s with installed := update s.installed pid false }

/-! ## Under the lock -/

def rememberEnrolledLocked : PidRegistry :=
  if pid ∈ s.wasEnrolled then s
  else
    let marks := pid :: s.wasEnrolled
    let cap := s.capacity * enrolledMarkOvercommit
    { s with wasEnrolled := marks.take cap, enrolledMarksDropped := s.enrolledMarksDropped + (marks.length - cap) }

/-- What `evictLocked` does to the entry at the back, when it is off the list. -/
def dropEntry (e : PidRegEntry) : PidRegistry :=
  let s := { s with
    byPID := update s.byPID pid none
    promised := update s.promised pid false
    evicted := s.evicted + 1 }
  let s := if e.enrolled then { s with enrolledEvicted := s.enrolledEvicted + 1 }.rememberEnrolledLocked pid else s
  if e.state = .ready then { s with work := s.work ++ [{ pid := pid, release := true }] } else s

/-- A turn of the loop of `evictLocked`. -/
def evictBack : PidRegistry :=
  match s.lru.getLast? with
  | none => s
  | some pid =>
    match s.byPID pid with
    | none => { s with lru := s.lru.dropLast }
    | some e => { s with lru := s.lru.dropLast }.dropEntry pid e

def evictTurns : Nat → PidRegistry → PidRegistry
  | 0, s => s
  | turns + 1, s => if s.capacity < s.lru.length then evictTurns turns s.evictBack else s

def evictLocked : PidRegistry := evictTurns s.lru.length s

def addEntry (e : PidRegEntry) : PidRegistry :=
  { s with byPID := update s.byPID pid (some e), lru := pid :: s.lru }

def moveToFront : PidRegistry := { s with lru := pid :: s.lru.erase pid }

def enqueueLocked (w : PidWork) : PidRegistry := { s with work := s.work ++ [w] }

/-- `recordLocked`, of an entry that is there. -/
def setReady (e : PidRegEntry) : PidRegistry :=
  { s with byPID := update s.byPID pid (some { e with state := .ready }), registered := s.registered + 1 }

def note : PidRegistry :=
  if pid = 0 then s
  else
    match s.byPID pid with
    | some _ => s.moveToFront pid
    | none =>
      ((s.addEntry pid { state := .pending, enrolled := pid ∈ s.wasEnrolled }).evictLocked).enqueueLocked
        { pid := pid, release := false }

/-- `enroll`, up to its `Register`. -/
def enroll : PidRegistry :=
  if pid = 0 then s
  else
    match s.byPID pid with
    | some e =>
      let s := { s with byPID := update s.byPID pid (some { e with enrolled := true }) }.moveToFront pid
      if e.state = .ready then { s with promised := update s.promised pid true } else s
    | none =>
      let s := (((s.addEntry pid { state := .pending, enrolled := true }).rememberEnrolledLocked pid).evictLocked)
      { s with calls := s.calls ++ [(pid, .enrollRegistering)] }

def registerNow : PidRegistry :=
  if pid = 0 then s else { s with calls := s.calls ++ [(pid, .nowRegistering)] }

/-- The next step of the `i`-th call: its `Register`, what it records, or its `Unregister`. -/
def call (i : Nat) : PidRegistry :=
  match s.calls[i]? with
  | none => s
  | some (pid, .enrollRegistering) => { s.register pid with calls := s.calls.set i (pid, .enrollRegistered) }
  | some (pid, .enrollRegistered) =>
    match s.byPID pid with
    | some e =>
      { s.setReady pid e with
        calls := s.calls.eraseIdx i
        promised := update s.promised pid true }
    | none => { s with calls := s.calls.set i (pid, .enrollUnregistering), registered := s.registered + 1 }
  | some (pid, .enrollUnregistering) => { s.unregister pid with calls := s.calls.eraseIdx i }
  | some (pid, .nowRegistering) => { s.register pid with calls := s.calls.set i (pid, .nowRegistered) }
  | some (pid, .nowRegistered) =>
    let s := { s with calls := s.calls.eraseIdx i }
    match s.byPID pid with
    | some e => (s.setReady pid e).evictLocked
    | none =>
      let e : PidRegEntry := { state := .pending, enrolled := pid ∈ s.wasEnrolled }
      ((s.addEntry pid e).setReady pid e).evictLocked

/-! ## The worker -/

def run : PidRegistry :=
  match s.worker with
  | .idle =>
    match s.work with
    | [] => s
    | w :: work =>
      { s with work := work, worker := if w.release then .unregistering w.pid else .registering w.pid }
  | .registering pid => { s.register pid with worker := .registered pid }
  | .registered pid =>
    match s.byPID pid with
    | some e => { s.setReady pid e with worker := .idle }
    | none => { s with worker := .unregistering pid, registered := s.registered + 1 }
  | .unregistering pid => { s.unregister pid with worker := .idle }

end PidRegistry

inductive RegAction where
  | note (pid : UInt32)
  | enroll (pid : UInt32)
  | registerNow (pid : UInt32)
  | call (i : Nat)
  | run

def PidRegistry.step (s : PidRegistry) : RegAction → PidRegistry
  | .note pid => s.note pid
  | .enroll pid => s.enroll pid
  | .registerNow pid => s.registerNow pid
  | .call i => s.call i
  | .run => s.run

end PerfAgent.Gpuprobe
