import Mathlib.Data.List.Nodup
import PerfAgent.Lib.Machine

/-!
# The interpreter modules of a driver

`Set` of `unwind/interp/interp.go`, over modules that answer as the one of
`pyunwind/module.go` does.  `Enroll` and `Detach` are one step each, a retry goroutine is a
step for each of its wakings, questions and installs, and `Close` is two: it closes `stop`, and
returns once no retry is left.

What a module finds when it is asked is the environment's, and so are the exits: a pid is a
number, and `occupant` counts the processes that have had it.
-/

namespace PerfAgent.Unwind

open Function

/-! ## Claims -/

def maxSpans : Nat := 3

structure TextSpan where
  lo : UInt64
  hi : UInt64
deriving DecidableEq

structure ClaimedRange where
  tableID : UInt64
  spans : List TextSpan
deriving DecidableEq

/-- What `installRange` puts in the map; unused spans are zero. -/
structure InstalledRange where
  spans : List TextSpan
  unwinderID : UInt32
deriving DecidableEq

inductive RangeError where
  | noText (tableID : UInt64)
  | tooManySpans (tableID : UInt64) (n : Nat)
  | emptySpan (i : Nat) (tableID : UInt64)
deriving DecidableEq

/-- The checks of `installRange`, and the value that it writes. -/
def ClaimedRange.installed (r : ClaimedRange) (id : UInt32) : Except RangeError InstalledRange :=
  if r.spans = [] then .error (.noText r.tableID)
  else if maxSpans < r.spans.length then .error (.tooManySpans r.tableID r.spans.length)
  else
    match r.spans.findIdx? fun sp => decide (sp.hi ≤ sp.lo) with
    | some i => .error (.emptySpan i r.tableID)
    | none => .ok ⟨r.spans ++ List.replicate (maxSpans - r.spans.length) ⟨0, 0⟩, id⟩

/-- What a module's `Enroll` comes to. -/
inductive EnrolAnswer where
  | /-- The process maps no interpreter. -/ notRecognised
  | /-- `ErrRetryable`. -/ retryable
  | /-- Another error, with or without the record of the process installed. -/
    failed (recorded : Bool)
  | /-- Recognised, and refused by the module itself. -/ declined
  | /-- The record is installed, and the resolver where the version has one; `stored` says
    whether the map will take the claim. -/
    attached (resolver : Bool) (r : ClaimedRange) (stored : Bool)
deriving DecidableEq

namespace EnrolAnswer

def found : EnrolAnswer → Bool
  | notRecognised => false
  | _ => true

/-- Whether the module has put the record of the process in its map. -/
def records : EnrolAnswer → Bool
  | failed recorded => recorded
  | attached _ _ _ => true
  | _ => false

def resolves : EnrolAnswer → Bool
  | attached resolver _ _ => resolver
  | _ => false

theorem records_of_resolves {a : EnrolAnswer} (h : a.resolves = true) : a.records = true := by
  cases a with
  | attached => rfl
  | _ => cases h

end EnrolAnswer

/-! ## Retries -/

/-- When a retryable enrolment is tried again, in milliseconds from the first attempt. -/
def retrySchedule : List Nat := [500, 1000, 2000, 5000, 10000, 30000]

inductive RetryPhase where
  | asleep
  | awake
  | installing (r : ClaimedRange) (stored : Bool)
deriving DecidableEq

/-- A goroutine of `scheduleRetry`. -/
structure Retry where
  /-- Which of the entries it asks. -/
  entry : Nat
  pid : UInt32
  /-- The times it has left, the one it waits for first. -/
  times : List Nat
  phase : RetryPhase
deriving DecidableEq

def Retry.key (t : Retry) : Nat × UInt32 := (t.entry, t.pid)

/-! ## The set -/

structure ModuleSet where
  /-- The positions of the attached modules. -/
  entries : List Nat
  /-- The unwinder id of each. -/
  ids : Nat → UInt32
  /-- `stop` is closed. -/
  stop : Bool := false
  /-- `Close` has returned. -/
  closed : Bool := false
  retries : List Retry := []
  handoffRanges : UInt64 → Option InstalledRange := fun _ => none
  /-- The per-pid record of each module, with the process that it describes. -/
  records : Nat × UInt32 → Option Nat := fun _ => none
  /-- The code-object resolvers; they are the package's, and a module only removes them when it
  detaches. -/
  resolvers : Nat × UInt32 → Option Nat := fun _ => none
  /-- How many processes a pid has had before its present one. -/
  occupant : UInt32 → Nat := fun _ => 0
  /-- `Detach` has returned for this pid, and `Enroll` was not called since. -/
  detached : UInt32 → Bool := fun _ => false
  /-- How often one of the maps was written. -/
  writes : Nat := 0

namespace ModuleSet

/-- `Attach` with `n` modules. -/
def attach (n : Nat) (ids : Nat → UInt32) : ModuleSet where
  entries := List.range n
  ids := ids

variable (pid : UInt32)

section

variable (s : ModuleSet)

/-- What a module's `Enroll` leaves behind. -/
def hold (k : Nat × UInt32) (a : EnrolAnswer) : ModuleSet :=
  { s with
    records := if a.records then update s.records k (some (s.occupant k.2)) else s.records
    resolvers := if a.resolves then update s.resolvers k (some (s.occupant k.2)) else s.resolvers
    writes := s.writes + a.records.toNat }

/-- The read-back that follows the write only decides what is logged. -/
def installRange (m : Nat) (r : ClaimedRange) (stored : Bool) : ModuleSet :=
  match r.installed (s.ids m), stored with
  | .ok v, true =>
    { s with
      handoffRanges := update s.handoffRanges r.tableID (some v)
      writes := s.writes + 1 }
  | _, _ => s

def scheduleRetry (m : Nat) (pid : UInt32) : ModuleSet :=
  { s with retries := s.retries ++ [⟨m, pid, retrySchedule, .asleep⟩] }

/-- One round of `Enroll`'s loop. -/
def offer (a : EnrolAnswer) (m : Nat) : ModuleSet :=
  match a with
  | .retryable => (s.hold (m, pid) a).scheduleRetry m pid
  | .attached _ r stored =>
    if r.spans = [] then s.hold (m, pid) a else (s.hold (m, pid) a).installRange m r stored
  | _ => s.hold (m, pid) a

def offerAll (answers : Nat → EnrolAnswer) (ms : List Nat) : ModuleSet :=
  ms.foldl (fun s m => s.offer pid (answers m) m) s

/-- The second component is what `Enroll` returns. -/
def enroll (answers : Nat → EnrolAnswer) : ModuleSet × Bool :=
  (({ s with detached := update s.detached pid false }).offerAll pid answers s.entries,
    s.entries.any fun m => (answers m).found)

def setRetry (i : Nat) (t : Retry) : ModuleSet := { s with retries := s.retries.set i t }

def endRetry (i : Nat) : ModuleSet := { s with retries := s.retries.eraseIdx i }

def asked (i : Nat) (t : Retry) (a : EnrolAnswer) : ModuleSet :=
  match a with
  | .retryable =>
    match t.times with
    | _ :: at_ :: times => (s.hold t.key a).setRetry i { t with times := at_ :: times, phase := .asleep }
    | _ => (s.hold t.key a).endRetry i
  | .attached _ r stored =>
    if r.spans = [] then (s.hold t.key a).endRetry i
    else (s.hold t.key a).setRetry i { t with phase := .installing r stored }
  | _ => (s.hold t.key a).endRetry i

def detach : ModuleSet :=
  { s with
    records := fun k => if k.1 ∈ s.entries ∧ k.2 = pid then none else s.records k
    resolvers := fun k => if k.1 ∈ s.entries ∧ k.2 = pid then none else s.resolvers k
    detached := update s.detached pid true }

/-- The rest of `Close`, once `retries.Wait` has returned: the collections are closed, and with
them the records. -/
def release : ModuleSet :=
  { s with
    entries := []
    closed := true
    records := fun _ => none }

end

inductive Act where
  | enroll (pid : UInt32) (answers : Nat → EnrolAnswer)
  | /-- The timer of a retry fires. -/ wake (i : Nat)
  | /-- A retry that sleeps sees that `stop` is closed. -/ halt (i : Nat)
  | ask (i : Nat) (a : EnrolAnswer)
  | install (i : Nat)
  | detach (pid : UInt32)
  | close
  | closeReturn
  | /-- The process with this pid exits, and another one takes the number. -/ exit (pid : UInt32)

def step (s : ModuleSet) : Act → Option ModuleSet
  | .enroll pid answers => some (s.enroll pid answers).1
  | .wake i =>
    (s.retries[i]?).bind fun t =>
      if t.phase = .asleep then some (s.setRetry i { t with phase := .awake }) else none
  | .halt i =>
    (s.retries[i]?).bind fun t =>
      if t.phase = .asleep ∧ s.stop = true then some (s.endRetry i) else none
  | .ask i a =>
    (s.retries[i]?).bind fun t => if t.phase = .awake then some (s.asked i t a) else none
  | .install i =>
    (s.retries[i]?).bind fun t =>
      match t.phase with
      | .installing r stored => some ((s.installRange t.entry r stored).endRetry i)
      | _ => none
  | .detach pid => some (s.detach pid)
  | .close => some { s with stop := true }
  | .closeReturn => if s.stop = true ∧ s.retries = [] then some s.release else none
  | .exit pid => some { s with occupant := update s.occupant pid (s.occupant pid + 1) }

def Step (s : ModuleSet) (a : Act) (s' : ModuleSet) : Prop := s.step a = some s'

end ModuleSet

end PerfAgent.Unwind
