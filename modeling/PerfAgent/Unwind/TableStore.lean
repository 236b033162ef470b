import PerfAgent.Unwind.Tables

/-!
# The table store

`TableStore` of `unwind/ehmaps/store.go`: who refers to a table, whether it is in the maps of
the walker, and who is putting it there.  The references have a lock of their own, the two
other sets share one.

`AcquireBinary` and `ReleaseBinary` are taken apart into their critical sections, and any
number of callers carry these out in any order.  What a caller is about to do is its phase.
`ReadBuildID` fails before anything is touched and is left out, and so is `forgetInstall`, which
only tests call.
-/

namespace PerfAgent.Unwind

/-! ## References -/

/-- `RefcountTable`: the pairs of a table and a process that refers to it. -/
abbrev RefcountTable := Finset (UInt64 × UInt32)

namespace RefcountTable

def pids (r : RefcountTable) (tableID : UInt64) : RefcountTable := r.filter fun x => x.1 = tableID

def acquire (r : RefcountTable) (tableID : UInt64) (pid : UInt32) : RefcountTable × Nat :=
  let r : RefcountTable := insert (tableID, pid) r
  (r, (r.pids tableID).card)

def release (r : RefcountTable) (tableID : UInt64) (pid : UInt32) : RefcountTable × Nat :=
  let r : RefcountTable := r.erase (tableID, pid)
  (r, (r.pids tableID).card)

end RefcountTable

structure TableStore where
  tables : Tables := {}
  rc : RefcountTable := ∅
  installed : Finset UInt64 := ∅
  inflight : Finset UInt64 := ∅
deriving DecidableEq

namespace TableStore

/-- The critical section of `ReleaseBinary`; either deletion may fail. -/
def evict (s : TableStore) (tableID : UInt64) (rulesDeleted lengthsDeleted : Bool) : TableStore :=
  let t := s.tables
  { s with
    installed := s.installed.erase tableID
    tables :=
      { t with
        cfiRules := if rulesDeleted then t.cfiRules.del tableID else t.cfiRules
        cfiLengths := if lengthsDeleted then t.cfiLengths.del tableID else t.cfiLengths } }

/-- The critical section of `endInstall`. -/
def endInstall (s : TableStore) (tableID : UInt64) (ok : Bool) : TableStore :=
  { s with
    inflight := s.inflight.erase tableID
    installed := if ok then insert tableID s.installed else s.installed }

end TableStore

/-! ## Callers -/

inductive Phase where
  | idle
  | /-- It refers to the table; `beginInstall` comes next. -/ acquiring (tableID : UInt64) (pid : UInt32)
  | /-- Asleep in `beginInstall`. -/ waiting (tableID : UInt64) (pid : UInt32)
  | /-- It has claimed the install. -/ installing (tableID : UInt64) (pid : UInt32)
  | /-- The install has failed; the reference is dropped next. -/ failed (tableID : UInt64) (pid : UInt32)
  | /-- `endInstall` comes next. -/ finished (tableID : UInt64) (pid : UInt32) (ok : Bool)
  | /-- The broadcast comes next, and then the return of `AcquireBinary` if a pair is given. -/
    announcing (returns : Option (UInt64 × UInt32))
  | /-- The reference was the last one; the eviction comes next. -/ releasing (tableID : UInt64)
deriving DecidableEq

inductive Section where
  | /-- `AcquireBinary`, up to the reference. -/ acquire (tableID : UInt64) (pid : UInt32)
  | /-- One turn of the loop of `beginInstall`. -/ beginInstall
  | /-- `Compile`, which may fail, and `PopulateCFI`. -/
    build (compiled : Option (List CFIEntry)) (fails : Option KernelCall)
  | /-- Drop the reference after a failure. -/ undo
  | endInstall
  | broadcast
  | /-- `ReleaseBinary`, up to the eviction. -/ release (tableID : UInt64) (pid : UInt32)
  | evict (rulesDeleted lengthsDeleted : Bool)
deriving DecidableEq

structure Callers (n : Nat) where
  store : TableStore := {}
  phase : Fin n → Phase := fun _ => .idle
  /-- The pairs for which `AcquireBinary` has returned successfully, and `ReleaseBinary` has not
  been called since. -/
  held : Finset (UInt64 × UInt32) := ∅

namespace Callers

variable {n : Nat}

def setPhase (s : Callers n) (c : Fin n) (p : Phase) : Callers n :=
  { s with phase := Function.update s.phase c p }

/-- Every sleeper goes back to the head of the loop of `beginInstall`. -/
def woken : Phase → Phase
  | .waiting tableID pid => .acquiring tableID pid
  | p => p

def step (s : Callers n) (a : Fin n × Section) : Option (Callers n) :=
  let c := a.1
  match a.2, s.phase c with
  | .acquire tableID pid, .idle =>
    let store := { s.store with rc := (s.store.rc.acquire tableID pid).1 }
    some ({ s with store := store }.setPhase c (.acquiring tableID pid))
  | .beginInstall, .acquiring tableID pid =>
    if tableID ∈ s.store.installed then
      some ({ s with held := insert (tableID, pid) s.held }.setPhase c .idle)
    else if tableID ∉ s.store.inflight then
      let store := { s.store with inflight := insert tableID s.store.inflight }
      some ({ s with store := store }.setPhase c (.installing tableID pid))
    else some (s.setPhase c (.waiting tableID pid))
  | .build none _, .installing tableID pid => some (s.setPhase c (.failed tableID pid))
  | .build (some entries) fails, .installing tableID pid =>
    let r := s.store.tables.populateCFI tableID entries fails
    let s := { s with store := { s.store with tables := r.1 } }
    match r.2 with
    | none => some (s.setPhase c (.finished tableID pid true))
    | some _ => some (s.setPhase c (.failed tableID pid))
  | .undo, .failed tableID pid =>
    let store := { s.store with rc := (s.store.rc.release tableID pid).1 }
    some ({ s with store := store }.setPhase c (.finished tableID pid false))
  | .endInstall, .finished tableID pid ok =>
    let s := { s with store := s.store.endInstall tableID ok }
    some (s.setPhase c (.announcing (if ok then some (tableID, pid) else none)))
  | .broadcast, .announcing returns =>
    let s := { s with phase := fun c => woken (s.phase c) }
    some ({ s with held := returns.elim s.held fun x => insert x s.held }.setPhase c .idle)
  | .release tableID pid, .idle =>
    let r := s.store.rc.release tableID pid
    let s := { s with store := { s.store with rc := r.1 }, held := s.held.erase (tableID, pid) }
    some (s.setPhase c (if r.2 > 0 then .idle else .releasing tableID))
  | .evict rulesDeleted lengthsDeleted, .releasing tableID =>
    let store := s.store.evict tableID rulesDeleted lengthsDeleted
    some ({ s with store := store }.setPhase c (.announcing none))
  | _, _ => none

end Callers

end PerfAgent.Unwind
