import PerfAgent.Lib.Machine
import Mathlib.Data.List.Basic

/-!
# Enrolling interpreter processes as they are sampled

`unwind/dwarfagent/interpenrol.go`.  The ring reader, the observer of mmap and exit events and one
worker share a map from process ids to states; `Enroll` and `Detach` are called outside its lock.  A
step is what happens under the lock, or one of these calls.

A process id is used by one process after the other: `incarnation` counts them, and moves on with the
exit event.
-/

namespace PerfAgent.Dwarfagent

def lazyEnrolQueue : Nat := 1024

/-- `pidInterpState`. -/
inductive PidInterpState where
  | queued
  | enrolling
  | enrollingExited
  | foreign
  | claimed
deriving DecidableEq

/-- What there is to a process id: its entry in `pids`, the process for which modules hold state, and
what has happened to it. -/
structure PidRecord where
  state : Option PidInterpState := none
  /-- The process that a module holds state for. -/
  held : Option Nat := none
  incarnation : Nat := 0
  /-- The last process that was recognised. -/
  recognised : Option Nat := none
  /-- An executable mmap of the process, when no module had recognised it, and no `Enroll` since. -/
  unlooked : Bool := false
  /-- How many process ids the worker may take before it has to look at this one. -/
  due : Option Nat := none
deriving DecidableEq

inductive EnrolWorker where
  | idle
  | /-- In `Enroll`, of a process. -/ enrolling (pid : UInt32) (process : Nat)
  | /-- `Enroll` has returned. -/ returned (pid : UInt32) (process : Nat) (found : Bool)
  | detaching (pid : UInt32)
deriving DecidableEq

inductive EnrolObserver where
  | idle
  | detaching (pid : UInt32)
deriving DecidableEq

/-- `lazyInterp` and the modules. -/
structure LazyInterp where
  pids : UInt32 → PidRecord := fun _ => {}
  queue : List UInt32 := []
  worker : EnrolWorker := .idle
  observer : EnrolObserver := .idle
  /-- How many process ids the worker has taken from the queue. -/
  taken : Nat := 0
  recognisedAny : Bool := false
  offered : Nat := 0
  claimedCount : Nat := 0
  deferred : Nat := 0

/-- What `observe` reads of an mmap event. -/
structure MmapEvent where
  pid : UInt32
  prot : UInt32
  filename : List UInt8

variable (pid : UInt32) (ev : MmapEvent)

def MmapEvent.rearms : Bool :=
  ev.prot &&& 4 ≠ 0 && ev.filename ≠ [] && ev.filename.head? ≠ some 91

namespace LazyInterp

variable (s : LazyInterp)

def setPid (r : PidRecord) : LazyInterp := { s with pids := Function.update s.pids pid r }

def noteSample : LazyInterp :=
  let r := s.pids pid
  if r.unlooked ∧ r.due = none then s.setPid pid { r with due := some (s.taken + s.queue.length) } else s

def sampled : LazyInterp :=
  if pid = 0 then s
  else
    match (s.pids pid).state with
    | some _ => s.noteSample pid
    | none =>
      if s.queue.length < lazyEnrolQueue then
        ({ s with queue := s.queue ++ [pid] }.setPid pid { s.pids pid with state := some .queued }).noteSample pid
      else { s with deferred := s.deferred + 1 }.noteSample pid

def observeMmap : LazyInterp :=
  if ev.rearms then
    let r := s.pids ev.pid
    s.setPid ev.pid
      { r with
        state := if r.state = some .foreign then none else r.state
        unlooked := r.unlooked || r.recognised ≠ some r.incarnation }
  else s

/-- `exited`, up to the call of `Detach`. -/
def exited : LazyInterp :=
  let r := s.pids pid
  let next := { r with incarnation := r.incarnation + 1, unlooked := false, due := none }
  match r.state with
  | none => s.setPid pid next
  | some .enrolling => s.setPid pid { next with state := some .enrollingExited }
  | some .claimed => { s.setPid pid { next with state := none } with observer := .detaching pid }
  | some _ => s.setPid pid { next with state := none }

def detach : LazyInterp := s.setPid pid { s.pids pid with held := none }

/-- The worker takes a process id, and calls `Enroll` if it is still waiting. -/
def dequeue (queue : List UInt32) : LazyInterp :=
  let s := { s with queue := queue, taken := s.taken + 1 }
  let r := s.pids pid
  if r.state = some .queued then
    { s.setPid pid { r with state := some .enrolling, unlooked := false, due := none } with
      worker := .enrolling pid r.incarnation
      offered := s.offered + 1 }
  else s

/-- `Enroll` of a process returns. -/
def enrollReturn (process : Nat) (found : Bool) : LazyInterp :=
  if found then
    { s.setPid pid { s.pids pid with held := some process, recognised := some process } with
      worker := .returned pid process true
      recognisedAny := true
      claimedCount := s.claimedCount + 1 }
  else { s with worker := .returned pid process false }

/-- The second time that `enrol` takes the lock. -/
def record (found : Bool) : LazyInterp :=
  let r := s.pids pid
  if r.state = some .enrollingExited then
    { s.setPid pid { r with state := none } with worker := if found then .detaching pid else .idle }
  else { s.setPid pid { r with state := some (if found then .claimed else .foreign) } with worker := .idle }

end LazyInterp

inductive EnrolAction where
  | sampled (pid : UInt32)
  | mmap (ev : MmapEvent)
  | exit (pid tid : UInt32)
  | /-- The call of `Detach` in `exited`. -/ exitDetach
  | dequeue
  | enrollReturn (found : Bool)
  | record
  | /-- The call of `Detach` in `enrol`. -/ enrolDetach

def LazyInterp.step (s : LazyInterp) : EnrolAction → LazyInterp
  | .sampled pid => s.sampled pid
  | .mmap ev =>
    match s.observer with
    | .idle => s.observeMmap ev
    | .detaching _ => s
  | .exit pid tid =>
    match s.observer with
    | .idle => if tid = pid then s.exited pid else s
    | .detaching _ => s
  | .exitDetach =>
    match s.observer with
    | .idle => s
    | .detaching pid => { s.detach pid with observer := .idle }
  | .dequeue =>
    match s.worker, s.queue with
    | .idle, pid :: queue => s.dequeue pid queue
    | _, _ => s
  | .enrollReturn found =>
    match s.worker with
    | .enrolling pid process => s.enrollReturn pid process found
    | _ => s
  | .record =>
    match s.worker with
    | .returned pid _ found => s.record pid found
    | _ => s
  | .enrolDetach =>
    match s.worker with
    | .detaching pid => { s.detach pid with worker := .idle }
    | _ => s

end PerfAgent.Dwarfagent
